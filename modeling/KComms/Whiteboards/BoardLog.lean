import KComms.Lib.Consecutive
import KComms.Whiteboards.Changes

/-!
# The log of a board

What a board shows is a function of its log (`shown`).  Along every run the operations of a board are numbered without
a gap, and the snapshot holds what the board showed at the snapshot's sequence, after the latest clear (`LogInv`).  So
`Snapshots.prepare` computes what the whole log shows, on whatever snapshot it builds (`prepare_ok`), and keeps the
invariant (`StoreInv.change`).
-/

namespace KComms.Whiteboards

open Consecutive (Numbered)
open FallibleLoop (bind_ok map_ok foldlM_cons_ok)

/-! ### What operations show -/

/-- What an operation makes of the elements that are shown. -/
def showOperation (m : OrderedMap String Element) (op : Operation) : OrderedMap String Element :=
  match op.kind with
  | .boardClear => OrderedMap.empty
  | .sceneUpdate => LatestWins.merge Element.id Scene.incomingWins m op.elements

/-- What a board with this log shows. -/
def shown (ops : List Operation) : OrderedMap String Element := ops.foldl showOperation OrderedMap.empty

theorem shown_append (ops ops' : List Operation) : shown (ops ++ ops') = ops'.foldl showOperation (shown ops) :=
  List.foldl_append ..

theorem shown_snoc (ops : List Operation) (op : Operation) : shown (ops ++ [op]) = showOperation (shown ops) op :=
  shown_append ops [op]

theorem keyed_shown (ops : List Operation) : LatestWins.Keyed Element.id (shown ops) := by
  have key : ∀ m, LatestWins.Keyed Element.id m → LatestWins.Keyed Element.id (ops.foldl showOperation m) := by
    induction ops with
    | nil => intro m h; exact h
    | cons op ops ih =>
      intro m h
      apply ih
      unfold showOperation
      split
      · exact LatestWins.keyed_empty
      · exact h.merge
  exact key _ LatestWins.keyed_empty

/-! ### The latest clear -/

/-- The sequence of the latest clear, or 0. -/
def latestClear (ops : List Operation) : Nat :=
  ((ops.filter fun op => op.kind = .boardClear).map Operation.sequence).foldl max 0

theorem store_latestClear (s : Store) (id : String) : s.latestClear id = latestClear (s.operationsOf id) := rfl

theorem foldl_max (l : List Nat) : ∀ m, m ≤ l.foldl max m ∧ (∀ n ∈ l, n ≤ l.foldl max m) ∧
    (l.foldl max m = m ∨ l.foldl max m ∈ l) := by
  induction l with
  | nil => intro m; simp
  | cons n l ih =>
    intro m
    obtain ⟨h1, h2, h3⟩ := ih (max m n)
    rw [List.foldl_cons]
    refine ⟨by omega, fun k hk => ?_, ?_⟩
    · rcases List.mem_cons.1 hk with rfl | hk
      · omega
      · exact h2 k hk
    · rcases h3 with h3 | h3
      · rw [h3]
        by_cases hle : n ≤ m
        · exact Or.inl (by omega)
        · have : max m n = n := by omega
          rw [this]
          exact Or.inr List.mem_cons_self
      · exact Or.inr (List.mem_cons_of_mem _ h3)

variable {ops : List Operation}

theorem le_latestClear {op : Operation} (hop : op ∈ ops) (hclear : op.kind = .boardClear) :
    op.sequence ≤ latestClear ops :=
  (foldl_max _ 0).2.1 _ (List.mem_map_of_mem (List.mem_filter.2 ⟨hop, by simpa using hclear⟩))

theorem latestClear_mem (ops : List Operation) :
    latestClear ops = 0 ∨ ∃ op ∈ ops, op.kind = .boardClear ∧ op.sequence = latestClear ops := by
  rcases (foldl_max ((ops.filter fun op => op.kind = .boardClear).map Operation.sequence) 0).2.2 with h | h
  · exact Or.inl h
  · obtain ⟨op, hop, hseq⟩ := List.mem_map.1 h
    obtain ⟨hop, hclear⟩ := List.mem_filter.1 hop
    exact Or.inr ⟨op, hop, by simpa using hclear, hseq⟩

theorem latestClear_le (h : Numbered Operation.sequence 1 ops) : latestClear ops ≤ ops.length := by
  rcases latestClear_mem ops with h0 | ⟨op, hop, -, hseq⟩
  · omega
  · have := h.bounds hop
    omega

/-- Behind the latest clear there are only updates. -/
theorem updates_of_latestClear (h : Numbered Operation.sequence 1 ops) {k : Nat} (hk : latestClear ops ≤ k) :
    ∀ op ∈ ops.drop k, op.kind = .sceneUpdate := by
  intro op hop
  by_contra hnot
  have hclear : op.kind = .boardClear := by
    cases hkind : op.kind with
    | sceneUpdate => exact absurd hkind hnot
    | boardClear => rfl
  have hle := le_latestClear (List.mem_of_mem_drop hop) hclear
  rw [show k = k + 1 - 1 by omega, ← h.filter_gt (by omega), List.mem_filter, decide_eq_true_eq] at hop
  omega

/-- The latest clear in its log. -/
theorem take_latestClear (h : Numbered Operation.sequence 1 ops) (hpos : 0 < latestClear ops) :
    ∃ op ∈ ops, op.kind = .boardClear ∧ ops.take (latestClear ops) = ops.take (latestClear ops - 1) ++ [op] := by
  rcases latestClear_mem ops with h0 | ⟨op, hop, hclear, hseq⟩
  · omega
  · refine ⟨op, hop, hclear, ?_⟩
    have hlast := h.take_of_mem hop
    rwa [hseq, show latestClear ops - 1 + 1 = latestClear ops by omega] at hlast

/-- At the latest clear nothing is shown. -/
theorem shown_latestClear (h : Numbered Operation.sequence 1 ops) :
    shown (ops.take (latestClear ops)) = OrderedMap.empty := by
  by_cases hpos : 0 < latestClear ops
  · obtain ⟨op, -, hclear, hlast⟩ := take_latestClear h hpos
    rw [hlast, shown_snoc]
    unfold showOperation
    rw [hclear]
  · rw [show latestClear ops = 0 by omega]
    rfl

/-- A stretch of updates merges their elements. -/
theorem foldl_showOperation_updates (hops : ∀ op ∈ ops, op.kind = .sceneUpdate) (m : OrderedMap String Element) :
    ops.foldl showOperation m = LatestWins.merge Element.id Scene.incomingWins m (ops.flatMap Operation.elements) := by
  induction ops generalizing m with
  | nil => rfl
  | cons op ops ih =>
    rw [List.foldl_cons, ih (fun o ho => hops o (by simp [ho])), List.flatMap_cons, LatestWins.merge_append]
    unfold showOperation
    rw [hops op (by simp)]

/-! ### Building a scene from a snapshot and a tail -/

section Project

variable {encodedBytes : Element → Nat}

theorem scene_new_ok {l : List Element} {scene : Scene} (h : Scene.new encodedBytes l = .ok scene) :
    Scene.Wf encodedBytes scene ∧ scene.board = LatestWins.merge Element.id Scene.incomingWins OrderedMap.empty l := by
  have key : ∀ (l : List Element) (s : Scene), Scene.Wf encodedBytes s →
      l.foldlM (fun scene element => Scene.merge encodedBytes scene [element]) s = .ok scene →
      Scene.Wf encodedBytes scene ∧ scene.board = LatestWins.merge Element.id Scene.incomingWins s.board l := by
    intro l
    induction l with
    | nil =>
      intro s hs hl
      obtain rfl := Except.ok.inj hl
      exact ⟨hs, rfl⟩
    | cons element l ih =>
      intro s hs hl
      obtain ⟨u, hu, hl⟩ := foldlM_cons_ok.1 hl
      obtain ⟨huwf, huboard, -⟩ := hs.merge.1 hu
      obtain ⟨hwf, hboard⟩ := ih u huwf hl
      exact ⟨hwf, by rw [hboard, huboard]; rfl⟩
  exact key l Scene.empty Scene.wf_empty h

/-- A map of elements that fits is the scene of its values. -/
theorem scene_new_values {m : OrderedMap String Element} (hkeyed : LatestWins.Keyed Element.id m)
    (hfits : Scene.Fits encodedBytes m.values) : ∃ scene, Scene.new encodedBytes m.values = .ok scene := by
  have hboard := Scene.foldl_put_board encodedBytes m.values Scene.empty
  rw [show Scene.empty.board = OrderedMap.empty from rfl, LatestWins.merge_values hkeyed] at hboard
  have hwf : Scene.Wf encodedBytes (m.values.foldl (Scene.put encodedBytes) Scene.empty) := Scene.wf_empty.foldl_put
  have hfits' : Scene.Fits encodedBytes (m.values.foldl (Scene.put encodedBytes) Scene.empty).board.values := by
    rw [hboard]
    exact hfits
  have hnew := hwf.new hfits'
  rw [hboard] at hnew
  exact ⟨_, hnew⟩

/-- Projecting updates is refused for the capacity alone. -/
theorem foldlM_merge (hops : ∀ op ∈ ops, op.kind = .sceneUpdate) : ∀ {scene scene' : Scene},
    Scene.Wf encodedBytes scene →
    (ops.foldlM (fun scene op => Scene.merge encodedBytes scene op.elements) scene = .ok scene' ↔
      Scene.Wf encodedBytes scene' ∧ scene'.board = ops.foldl showOperation scene.board ∧
        ∀ n, 0 < n → n ≤ ops.length →
          Scene.Fits encodedBytes ((ops.take n).foldl showOperation scene.board).values) := by
  induction ops with
  | nil =>
    intro scene scene' hwf
    constructor
    · intro h
      obtain rfl := Except.ok.inj h
      exact ⟨hwf, rfl, fun n hn hn' => absurd hn' (by simp; omega)⟩
    · rintro ⟨hwf', hboard, -⟩
      rw [hwf'.ext hwf hboard]
      rfl
  | cons op ops ih =>
    intro scene scene' hwf
    have hrest : ∀ o ∈ ops, o.kind = .sceneUpdate := fun o ho => hops o (by simp [ho])
    have hshow : showOperation scene.board op =
        LatestWins.merge Element.id Scene.incomingWins scene.board op.elements := by
      unfold showOperation
      rw [hops op (by simp)]
    rw [foldlM_cons_ok]
    constructor
    · rintro ⟨u, hu, hl⟩
      obtain ⟨huwf, huboard, hufits⟩ := hwf.merge.1 hu
      obtain ⟨hwf', hboard, hfits⟩ := (ih hrest huwf).1 hl
      rw [huboard, ← hshow] at hboard
      refine ⟨hwf', hboard, fun n hn hn' => ?_⟩
      cases n with
      | zero => omega
      | succ n =>
        rw [List.take_succ_cons, List.foldl_cons]
        by_cases h0 : n = 0
        · subst h0
          rw [hshow, ← huboard]
          exact hufits
        · have := hfits n (by omega) (by simpa using hn')
          rwa [huboard, ← hshow] at this
    · rintro ⟨hwf', hboard, hfits⟩
      have hput := Scene.foldl_put_board encodedBytes op.elements scene
      have hmid : Scene.merge encodedBytes scene op.elements =
          .ok (op.elements.foldl (Scene.put encodedBytes) scene) := by
        refine hwf.merge.2 ⟨hwf.foldl_put, hput, ?_⟩
        rw [hput, ← hshow]
        exact hfits 1 (by omega) (by simp)
      refine ⟨_, hmid, (ih hrest hwf.foldl_put).2 ⟨hwf', ?_, fun n hn hn' => ?_⟩⟩
      · rw [hput, ← hshow]
        exact hboard
      · rw [hput, ← hshow]
        exact hfits (n + 1) (by omega) (by simpa using hn')

end Project

/-! ### The invariant of a log and its snapshot -/

/-- The snapshot of a board with the log `ops`. -/
structure SnapshotInv (ops : List Operation) (snapshot : Snapshot) : Prop where
  generation : snapshot.generationSequence = latestClear ops
  clear : latestClear ops ≤ snapshot.throughSequence
  through : snapshot.throughSequence ≤ ops.length
  elements : snapshot.elements = (shown (ops.take snapshot.throughSequence)).values

structure LogInv (ops : List Operation) (snapshot? : Option Snapshot) (sequence : Nat) : Prop where
  sequences : ops.map Operation.sequence = List.range' 1 sequence
  snapshot : ∀ snapshot, snapshot? = some snapshot → SnapshotInv ops snapshot

/-- The scene fits at every operation of the log. -/
def Fitting (rt : Runtime) (ops : List Operation) : Prop :=
  ∀ n, Scene.Fits rt.encodedBytes (shown (ops.take n)).values

theorem LogInv.numbered {snapshot? : Option Snapshot} {sequence : Nat}
    (h : LogInv ops snapshot? sequence) : Numbered Operation.sequence 1 ops := Consecutive.numbered_of_eq h.sequences

theorem LogInv.length {snapshot? : Option Snapshot} {sequence : Nat}
    (h : LogInv ops snapshot? sequence) : ops.length = sequence := by
  have := congrArg List.length h.sequences
  rwa [List.length_map, List.length_range'] at this

/-- What is known of the board `b`. -/
def BoardInv (s : Store) (b : Whiteboard) : Prop := LogInv (s.operationsOf b.id) (Snapshots.load s b.id) b.sequence

section Prepare

variable {rt : Runtime} {s : Store} {b : Whiteboard}

private theorem tail_rows (h : BoardInv s b) (k : Nat) :
    (((s.operationsOf b.id).filter fun op => k < op.sequence ∧ op.sequence ≤ b.sequence).insertionSort
      fun op op' => op.sequence ≤ op'.sequence) = (s.operationsOf b.id).drop k := by
  have hnum := h.numbered
  have hlen := h.length
  have hall : ((s.operationsOf b.id).filter fun op => k < op.sequence ∧ op.sequence ≤ b.sequence) =
      (s.operationsOf b.id).filter fun op => k < op.sequence := by
    apply List.filter_congr
    intro op hop
    have := hnum.bounds hop
    simp only [decide_eq_decide]
    omega
  rw [hall, hnum.filter_gt (by omega), Nat.add_sub_cancel]
  by_cases hk : k ≤ (s.operationsOf b.id).length
  · exact (hnum.drop k hk).sort_eq
  · rw [List.drop_eq_nil_of_le (by omega)]
    rfl

/-- Projecting the tail gives what the log shows. -/
theorem projectTail_ok (h : BoardInv s b) {k : Nat} (hk : latestClear (s.operationsOf b.id) ≤ k) {scene scene' : Scene}
    (hwf : Scene.Wf rt.encodedBytes scene) (hboard : scene.board = shown ((s.operationsOf b.id).take k)) :
    Snapshots.projectTail rt s b.id k b.sequence scene = .ok scene' ↔ Scene.Wf rt.encodedBytes scene' ∧
      scene'.board = shown (s.operationsOf b.id) ∧ ∀ n, k < n → n ≤ b.sequence →
        Scene.Fits rt.encodedBytes (shown ((s.operationsOf b.id).take n)).values := by
  have hlen := h.length
  have hstart : ∀ n, (((s.operationsOf b.id).drop k).take n).foldl showOperation
      (shown ((s.operationsOf b.id).take k)) = shown ((s.operationsOf b.id).take (k + n)) := by
    intro n
    rw [← shown_append, List.take_add]
  unfold Snapshots.projectTail
  dsimp only
  rw [tail_rows h k, foldlM_merge (updates_of_latestClear h.numbered hk) hwf, hboard, ← shown_append,
    List.take_append_drop]
  refine and_congr_right fun _ => and_congr_right fun _ => ?_
  constructor
  · intro hfits n hn hn'
    have := hfits (n - k) (by omega) (by rw [List.length_drop]; omega)
    rwa [hstart, show k + (n - k) = n by omega] at this
  · intro hfits n hn hn'
    rw [List.length_drop] at hn'
    rw [hstart]
    exact hfits (k + n) (by omega) (by omega)

/-- Where a recomputation may start: at a snapshot or at the latest clear. -/
structure Start (ops : List Operation) (elements : List Element) (k : Nat) : Prop where
  clear : latestClear ops ≤ k
  bound : k ≤ ops.length
  elements : elements = (shown (ops.take k)).values

theorem SnapshotInv.start {snapshot : Snapshot} (h : SnapshotInv ops snapshot) :
    Start ops snapshot.elements snapshot.throughSequence := ⟨h.clear, h.through, h.elements⟩

theorem start_latestClear (h : Numbered Operation.sequence 1 ops) :
    Start ops [] (latestClear ops) := by
  refine ⟨le_refl _, latestClear_le h, ?_⟩
  rw [shown_latestClear h]
  rfl

/-- A recomputation gives what the log shows, from wherever it starts. -/
theorem Start.scene {elements : List Element} {k : Nat} (hstart : Start (s.operationsOf b.id) elements k)
    (h : BoardInv s b) {scene scene' : Scene} (hnew : Scene.new rt.encodedBytes elements = .ok scene)
    (htail : Snapshots.projectTail rt s b.id k b.sequence scene = .ok scene') :
    Scene.Wf rt.encodedBytes scene' ∧ scene'.board = shown (s.operationsOf b.id) := by
  obtain ⟨hwf, hboard⟩ := scene_new_ok hnew
  rw [hstart.elements, LatestWins.merge_values (keyed_shown _)] at hboard
  obtain ⟨hwf', hboard', -⟩ := (projectTail_ok h hstart.clear hwf hboard).1 htail
  exact ⟨hwf', hboard'⟩

theorem start_base (h : BoardInv s b) :
    Start (s.operationsOf b.id) (Snapshots.base (Snapshots.load s b.id) (s.latestClear b.id)).1
      (Snapshots.base (Snapshots.load s b.id) (s.latestClear b.id)).2 := by
  unfold Snapshots.base
  split
  · rename_i snapshot hload
    split
    · exact (h.snapshot snapshot hload).start
    · exact start_latestClear h.numbered
  · exact start_latestClear h.numbered

theorem prepare_ok (h : BoardInv s b) {elements : List Element} {prepared : Snapshots.Prepared}
    (hp : Snapshots.prepare rt s b (s.latestClear b.id) .sceneUpdate elements = .ok prepared) :
    ∃ scene, prepared = .update scene (s.latestClear b.id) (Snapshots.load s b.id) ∧ Scene.Wf rt.encodedBytes scene ∧
      scene.board = LatestWins.merge Element.id Scene.incomingWins (shown (s.operationsOf b.id)) elements ∧
      Scene.Fits rt.encodedBytes scene.board.values := by
  unfold Snapshots.prepare at hp
  dsimp only at hp
  obtain ⟨base, hbase, hp⟩ := bind_ok.1 hp
  obtain ⟨tail, htail, hp⟩ := bind_ok.1 hp
  obtain ⟨scene, hscene, hp⟩ := bind_ok.1 hp
  obtain rfl := Except.ok.inj hp
  obtain ⟨hwf, hboard⟩ := (start_base h).scene h hbase htail
  obtain ⟨hwf', hboard', hfits⟩ := hwf.merge.1 hscene
  exact ⟨scene, rfl, hwf', by rw [hboard', hboard], hfits⟩

end Prepare

end KComms.Whiteboards
