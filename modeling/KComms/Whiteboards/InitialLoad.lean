import KComms.Whiteboards.OperationStream
import KComms.Whiteboards.Replay

/-!
# The initial load and the channel (`useWhiteboardCollaboration.ts`)

While the client loads the history, operations are committed, the client joins the channel at some time, and the
operations that are broadcast from then on are buffered.  When the pages are there, `loadDurableScene` replays them
together with the buffered operations and takes the largest sequence.  It does not look for a gap: an operation that was
committed after the last page and before the join is skipped for good if a later one is buffered.  Where nothing is
missing (`Gapless`), the scene is that of the log (`initial_load_complete`).
-/

namespace KComms.Whiteboards

open Consecutive (Numbered)
open SceneModel (WhiteboardScene applyWhiteboardOperation fold)

/-! ### The system -/

structure LoadSystem where
  store : Store
  /-- The length of the log at the join. -/
  joined : Option Nat
  /-- `bufferedOperationsRef` -/
  buffered : List WhiteboardOperation
  loading : Loading
  loaded : Option Loaded

def LoadSystem.initial (s : Store) : LoadSystem := ⟨s, none, [], Loading.initial, none⟩

section System

variable (rt : Runtime) (tenantId conversationId : String) (limit : Option Int)

/-- A run of the load in which `guard` holds whenever the load ends. -/
inductive LoadRun (guard : LoadSystem → Prop) : LoadSystem → Prop
  | start (s : Store) (reachable : Reachable rt s) : LoadRun guard (.initial s)
  | commit {st : LoadSystem} (call : Call) (command : Command) (s : Store) (run : LoadRun guard st)
      (accepted : exec rt call st.store command = .ok s) : LoadRun guard { st with store := s }
  | join {st : LoadSystem} (run : LoadRun guard st) :
      LoadRun guard { st with joined := some (st.store.log tenantId conversationId).length }
  -- a broadcast may be late, lost, repeated or overtaken
  | receive {st : LoadSystem} (op : Operation) (k : Nat) (run : LoadRun guard st) (loaded : st.loaded = none)
      (mem : op ∈ st.store.log tenantId conversationId) (joined : st.joined = some k) (later : k < op.sequence) :
      LoadRun guard { st with buffered := st.buffered ++ [sent op] }
  | page {st : LoadSystem} (call : Call) (page : Page) (run : LoadRun guard st)
      (tenant : call.subject.tenantId = tenantId) (more : st.loading.hasMore = true)
      (listed : History.list call conversationId (some st.loading.afterSequence) limit true st.store = .ok page) :
      LoadRun guard { st with loading := st.loading.page page }
  | finish {st : LoadSystem} (run : LoadRun guard st) (done : st.loading.hasMore = false) (loaded : st.loaded = none)
      (guarded : guard st) :
      LoadRun guard { st with loaded := some (st.loading.finish st.buffered), buffered := [] }

end System

/-! ### Nothing is missing -/

/-- The sequence of the latest clear that the client got, or 0. -/
def lastClear (all : List WhiteboardOperation) : Nat :=
  ((all.filter fun a => a.kind = .boardClear).map WhiteboardOperation.sequence).foldl max 0

variable {n : Nat} {all buffered : List WhiteboardOperation} {loading : Loading} {op : Operation} {p : Operation → Bool}

theorem le_lastClear {a : WhiteboardOperation} (ha : a ∈ all)
    (hclear : a.kind = .boardClear) : a.sequence ≤ lastClear all :=
  (foldl_max _ 0).2.1 _ (List.mem_map_of_mem (List.mem_filter.2 ⟨ha, by simpa using hclear⟩))

theorem lastClear_mem (all : List WhiteboardOperation) :
    lastClear all = 0 ∨ ∃ a ∈ all, a.kind = .boardClear ∧ a.sequence = lastClear all := by
  rcases (foldl_max ((all.filter fun a => a.kind = .boardClear).map WhiteboardOperation.sequence) 0).2.2 with h | h
  · exact Or.inl h
  · obtain ⟨a, ha, hseq⟩ := List.mem_map.1 h
    obtain ⟨ha, hclear⟩ := List.mem_filter.1 ha
    exact Or.inr ⟨a, ha, by simpa using hclear, hseq⟩

/-- What the client got, on a base that stands for the operations up to `base`, has no gap: all operations after the
latest clear in it, or else after the base, up to the last one are there, and without a clear there is none that a clear
in the base had removed. -/
structure Gapless (log : List Operation) (base : Nat) (all : List WhiteboardOperation) : Prop where
  next : ∀ op ∈ log, (if lastClear all = 0 then base else lastClear all) < op.sequence →
    (op.sequence ≤ base ∨ ∃ a ∈ all, op.sequence ≤ a.sequence) → sent op ∈ all
  fresh : lastClear all = 0 → ∀ a ∈ all, a.sequence ≤ base → latestClear (log.take base) < a.sequence

/-- The last operation that the client knows of. -/
def lastSequence (base : Nat) (all : List WhiteboardOperation) : Nat :=
  max ((all.map WhiteboardOperation.sequence).foldl max 0) base

/-- The condition under which the load may end. -/
structure NothingMissing (log : List Operation) (loading : Loading) (buffered : List WhiteboardOperation) : Prop where
  gapless : Gapless log loading.snapshotSequence (loading.operations ++ buffered)
  readable : Readable ((generation (log.take (lastSequence loading.snapshotSequence
    (loading.operations ++ buffered)))).flatMap Operation.elements)

/-! ### The end of the load -/

section Finish

variable {log : List Operation}

theorem mem_generation (h : Numbered Operation.sequence 1 log) :
    op ∈ generation log ↔ op ∈ log ∧ latestClear log < op.sequence := by
  unfold generation
  have hfilter := h.filter_gt (k := latestClear log) (by omega)
  rw [Nat.add_sub_cancel] at hfilter
  rw [← hfilter, List.mem_filter, decide_eq_true_eq]

theorem mem_take (h : Numbered Operation.sequence 1 log) :
    op ∈ log.take n ↔ op ∈ log ∧ op.sequence ≤ n := by
  rw [h.mem_take]
  apply and_congr_right
  intro _
  omega

/-- A stretch without clears does not move the latest clear. -/
theorem latestClear_take_eq (h : Numbered Operation.sequence 1 log) {b : Nat} (hbn : b ≤ n)
    (hclear : latestClear (log.take n) ≤ b) : latestClear (log.take n) = latestClear (log.take b) := by
  apply le_antisymm
  · rcases latestClear_mem (log.take n) with h0 | ⟨op, hop, hkind, hseq⟩
    · omega
    · rw [← hseq]
      apply le_latestClear _ hkind
      exact (mem_take h).2 ⟨((mem_take h).1 hop).1, by omega⟩
  · apply latestClear_mono
    exact List.take_prefix_take_left hbn

/-- The client shows nothing new when it applies operations that the base has. -/
theorem apply_again (h : Numbered Operation.sequence 1 log) (hvalid : ∀ op ∈ log, ∀ e ∈ op.elements, e.Valid)
    (hread : Readable ((generation log).flatMap Operation.elements)) {ops : List Operation}
    (hops : ∀ op ∈ ops, op ∈ generation log) :
    (ops.map sent).foldl applyWhiteboardOperation ((shown log).map readElement) = (shown log).map readElement := by
  have hupdates : ∀ op ∈ generation log, op.kind = .sceneUpdate := updates_of_latestClear h (le_refl _)
  have hshown : shown log = LatestWins.merge Element.id Scene.incomingWins OrderedMap.empty
      ((generation log).flatMap Operation.elements) := by
    rw [← foldl_showOperation_updates hupdates, ← shown_latestClear h, ← shown_append]
    unfold generation
    rw [List.take_append_drop]
  have hvalues : ∀ e ∈ (shown log).values, e ∈ (generation log).flatMap Operation.elements := by
    intro e he
    rw [hshown] at he
    rcases LatestWins.mem_values_merge he with he | he
    · cases he
    · exact he
  have hops' : ∀ op ∈ ops, op.kind = .sceneUpdate := fun op hop => hupdates op (hops op hop)
  have helements : ∀ op ∈ ops, ∀ e ∈ op.elements, e ∈ (generation log).flatMap Operation.elements :=
    fun op hop e he => List.mem_flatMap.2 ⟨op, hops op hop, he⟩
  rw [← read_updates hops' (keyed_shown log) hvalues helements (fun e he => ?_) hread]
  · congr 1
    rw [foldl_showOperation_updates hops']
    apply LatestWins.merge_of_settled
    intro e he
    obtain ⟨op, hop, he⟩ := List.mem_flatMap.1 he
    rw [hshown]
    exact LatestWins.settled_merge Scene.incomingWins_strict (helements op hop e he) (fun _ _ => trivial)
      fun _ _ => trivial
  · obtain ⟨op, hop, he⟩ := List.mem_flatMap.1 he
    exact hvalid op ((mem_generation h).1 hop).1 e he

theorem mem_uniqueOperations (hids : ∀ a ∈ all, ∀ b ∈ all, a.id = b.id → a = b) :
    (uniqueOperations all).Nodup ∧ ∀ a, a ∈ uniqueOperations all ↔ a ∈ all := by
  have key : ∀ (l : List WhiteboardOperation) (m : OrderedMap String WhiteboardOperation),
      (∀ k a, m.get? k = some a → k = a.id) → (∀ a ∈ l, a ∈ all) → (∀ k a, m.get? k = some a → a ∈ all) →
      (∀ k a, (m.setAll (l.map fun a => (a.id, a))).get? k = some a → k = a.id) ∧
        ∀ a, (∃ k, (m.setAll (l.map fun a => (a.id, a))).get? k = some a) ↔ (∃ k, m.get? k = some a) ∨ a ∈ l := by
    intro l
    induction l with
    | nil =>
      intro m hm _ _
      exact ⟨hm, fun a => ⟨Or.inl, fun h => h.resolve_right (by simp)⟩⟩
    | cons b l ih =>
      intro m hm hl hall
      have hb := hl b (by simp)
      have hset : ∀ k a, (m.set b.id b).get? k = some a → (k = b.id ∧ a = b) ∨ m.get? k = some a := by
        intro k a ha
        rw [OrderedMap.get?_set] at ha
        split at ha
        · rename_i heq
          exact Or.inl ⟨heq.symm, (Option.some.inj ha).symm⟩
        · exact Or.inr ha
      have hm' : ∀ k a, (m.set b.id b).get? k = some a → k = a.id := by
        intro k a ha
        rcases hset k a ha with ⟨rfl, rfl⟩ | ha
        · rfl
        · exact hm k a ha
      have hall' : ∀ k a, (m.set b.id b).get? k = some a → a ∈ all := by
        intro k a ha
        rcases hset k a ha with ⟨rfl, rfl⟩ | ha
        · exact hb
        · exact hall k a ha
      obtain ⟨hkeys, hmem⟩ := ih (m.set b.id b) hm' (fun a ha => hl a (by simp [ha])) hall'
      refine ⟨hkeys, fun a => (hmem a).trans ?_⟩
      rw [List.mem_cons, ← or_assoc]
      apply or_congr _ Iff.rfl
      constructor
      · rintro ⟨k, hk⟩
        rcases hset k a hk with ⟨-, rfl⟩ | hk
        · exact Or.inr rfl
        · exact Or.inl ⟨k, hk⟩
      · rintro (⟨k, hk⟩ | rfl)
        · -- an operation that is set again is the same operation
          refine ⟨k, ?_⟩
          rw [OrderedMap.get?_set]
          split
          · rename_i heq
            rw [hids b hb a (hall k a hk) (heq.trans (hm k a hk))]
          · exact hk
        · exact ⟨a.id, by simp⟩
  obtain ⟨hkeys, hmem⟩ := key all OrderedMap.empty (fun k a ha => (by cases ha)) (fun a ha => ha)
    fun k a ha => (by cases ha)
  constructor
  · have hnodup := (OrderedMap.ofList (all.map fun a => (a.id, a))).keys_nodup
    have hkeyed : LatestWins.Keyed WhiteboardOperation.id (OrderedMap.ofList (all.map fun a => (a.id, a))) :=
      fun e he => hkeys e.1 e.2 (OrderedMap.mem_entries.1 he)
    rw [← hkeyed.map_key] at hnodup
    exact List.Nodup.of_map _ hnodup
  · intro a
    unfold uniqueOperations
    rw [OrderedMap.mem_values]
    refine (hmem a).trans ⟨fun h => h.resolve_left ?_, Or.inr⟩
    rintro ⟨k, hk⟩
    cases hk

/-- The operations that the client replays. -/
private theorem sorted_all (hnum : Numbered Operation.sequence 1 log) (hids : (log.map Operation.id).Nodup)
    (hall : ∀ a ∈ all, a ∈ log.map sent) :
    ((uniqueOperations all).insertionSort fun left right => left.sequence ≤ right.sequence) =
      (log.filter fun op => sent op ∈ all).map sent := by
  have hunique : ∀ a ∈ all, ∀ b ∈ all, a.id = b.id → a = b := by
    intro a ha b hb hid
    obtain ⟨x, hx, rfl⟩ := List.mem_map.1 (hall a ha)
    obtain ⟨y, hy, rfl⟩ := List.mem_map.1 (hall b hb)
    rw [List.inj_on_of_nodup_map hids hx hy hid]
  obtain ⟨hnodup, hmem⟩ := mem_uniqueOperations hunique
  rw [(numbered_sent hnum).sort_of_subset hnodup fun a ha => hall a ((hmem a).1 ha), List.filter_map]
  congr 1
  apply List.filter_congr
  intro op _
  simp only [Function.comp, decide_eq_decide]
  exact hmem (sent op)

/-- The operations up to `k` and, without a gap, those up to `n`. -/
private theorem filter_split (hnum : Numbered Operation.sequence 1 log) {k : Nat} (hkn : k ≤ n)
    (hmid : ∀ op ∈ log, k < op.sequence → op.sequence ≤ n → p op = true)
    (hend : ∀ op ∈ log, p op = true → op.sequence ≤ n) :
    log.filter p = (log.take k).filter p ++ (log.take n).drop k := by
  have hdrop : log.drop k = (log.take n).drop k ++ log.drop n := by
    conv_lhs => rw [← List.take_append_drop n log]
    by_cases hn : n ≤ log.length
    · rw [List.drop_append_of_le_length (by rw [List.length_take]; omega)]
    · rw [List.drop_eq_nil_of_le (show log.length ≤ n by omega), List.append_nil, List.append_nil]
  have hbetween : ∀ op ∈ (log.take n).drop k, op ∈ log ∧ k < op.sequence ∧ op.sequence ≤ n := by
    intro op hop
    have hfilter := hnum.filter_between (k := k) (m := n) (by omega) hkn
    rw [Nat.add_sub_cancel, Nat.add_sub_cancel] at hfilter
    rw [← hfilter, List.mem_filter, decide_eq_true_eq] at hop
    exact hop
  have hlater : ∀ op ∈ log.drop n, op ∈ log ∧ n < op.sequence := by
    intro op hop
    have hfilter := hnum.filter_gt (k := n) (by omega)
    rw [Nat.add_sub_cancel] at hfilter
    rw [← hfilter, List.mem_filter, decide_eq_true_eq] at hop
    exact hop
  have hfirst : ((log.take n).drop k).filter p = (log.take n).drop k := by
    apply List.filter_eq_self.2
    intro op hop
    obtain ⟨hmem, hk, hn⟩ := hbetween op hop
    exact hmid op hmem hk hn
  have hrest : (log.drop n).filter p = [] := by
    apply List.filter_eq_nil_iff.2
    intro op hop hp
    obtain ⟨hmem, hn⟩ := hlater op hop
    have := hend op hmem hp
    omega
  conv_lhs => rw [← List.take_append_drop k log, List.filter_append, hdrop, List.filter_append, hfirst, hrest,
    List.append_nil]

theorem le_lastSequence {base : Nat} {a : WhiteboardOperation} (ha : a ∈ all) :
    a.sequence ≤ lastSequence base all := by
  have := (foldl_max (all.map WhiteboardOperation.sequence) 0).2.1 _ (List.mem_map_of_mem ha)
  unfold lastSequence
  omega

theorem lastSequence_mem (base : Nat) (all : List WhiteboardOperation) :
    lastSequence base all = base ∨ ∃ a ∈ all, a.sequence = lastSequence base all := by
  unfold lastSequence
  rcases (foldl_max (all.map WhiteboardOperation.sequence) 0).2.2 with h | h
  · exact Or.inl (by omega)
  · obtain ⟨a, ha, hseq⟩ := List.mem_map.1 h
    by_cases hle : (all.map WhiteboardOperation.sequence).foldl max 0 ≤ base
    · exact Or.inl (by omega)
    · exact Or.inr ⟨a, ha, by omega⟩

/-- The sequence that the load ends with. -/
theorem finish_latestSequence (hnum : Numbered Operation.sequence 1 log) (hids : (log.map Operation.id).Nodup)
    (hall : ∀ a ∈ loading.operations ++ buffered, a ∈ log.map sent) :
    (loading.finish buffered).latestSequence =
      lastSequence loading.snapshotSequence (loading.operations ++ buffered) := by
  unfold Loading.finish lastSequence
  dsimp only
  rw [SceneModel.replay_latestSequence, sorted_all hnum hids hall]
  generalize loading.operations ++ buffered = all at hall
  congr 1
  have h1 := foldl_max (all.map WhiteboardOperation.sequence) 0
  have h2 := foldl_max ((((log.filter fun op => sent op ∈ all).map sent)).map WhiteboardOperation.sequence) 0
  have hsame : ∀ n, n ∈ (((log.filter fun op => sent op ∈ all).map sent)).map WhiteboardOperation.sequence ↔
      n ∈ all.map WhiteboardOperation.sequence := by
    intro n
    rw [List.map_map, List.mem_map, List.mem_map]
    constructor
    · rintro ⟨op, hop, rfl⟩
      rw [List.mem_filter, decide_eq_true_eq] at hop
      exact ⟨sent op, hop.2, rfl⟩
    · rintro ⟨a, ha, rfl⟩
      obtain ⟨op, hop, rfl⟩ := List.mem_map.1 (hall a ha)
      exact ⟨op, List.mem_filter.2 ⟨hop, by simpa using ha⟩, rfl⟩
  apply le_antisymm
  · rcases h2.2.2 with h | h
    · omega
    · exact h1.2.1 _ ((hsame _).1 h)
  · rcases h1.2.2 with h | h
    · omega
    · exact h2.2.1 _ ((hsame _).2 h)

/-- From a clear on the base does not matter. -/
private theorem replay_from_clear (hnum : Numbered Operation.sequence 1 log) (hop : op ∈ log)
    (hclear : op.kind = .boardClear) (hp : p op = true) (hopn : op.sequence ≤ n)
    (hmid : ∀ o ∈ log, op.sequence < o.sequence → o.sequence ≤ n → p o = true)
    (hend : ∀ o ∈ log, p o = true → o.sequence ≤ n) (base : WhiteboardScene) :
    ((log.filter p).map sent).foldl applyWhiteboardOperation base = fold ((log.take n).map sent) := by
  have hpos := (hnum.bounds hop).1
  have hlast : log.take op.sequence = log.take (op.sequence - 1) ++ [op] := by
    have := hnum.take_of_mem hop
    rwa [show op.sequence - 1 + 1 = op.sequence by omega] at this
  have hall : log.take n = log.take (op.sequence - 1) ++ op :: (log.take n).drop op.sequence := by
    conv_lhs => rw [← List.take_append_drop op.sequence (log.take n), List.take_take, Nat.min_eq_left hopn, hlast,
      List.append_assoc]
    rfl
  have hkind : (sent op).kind = .boardClear := hclear
  rw [filter_split hnum hopn hmid hend, hlast, List.filter_append, List.filter_cons_of_pos hp, List.filter_nil]
  conv_rhs => rw [hall]
  unfold fold
  simp only [List.map_append, List.map_cons, List.map_nil, List.foldl_append, List.foldl_cons, List.foldl_nil]
  rw [apply_clear hkind, apply_clear hkind]

/-- Without a clear the base is continued. -/
private theorem replay_from_base (hnum : Numbered Operation.sequence 1 log)
    (hvalid : ∀ op ∈ log, ∀ e ∈ op.elements, e.Valid) {b : Nat} (hbn : b ≤ n)
    (hmid : ∀ o ∈ log, b < o.sequence → o.sequence ≤ n → p o = true) (hend : ∀ o ∈ log, p o = true → o.sequence ≤ n)
    (hupdates : ∀ o ∈ log, p o = true → o.kind = .sceneUpdate)
    (hfresh : ∀ o ∈ log, p o = true → o.sequence ≤ b → latestClear (log.take b) < o.sequence)
    (hread : Readable ((generation (log.take n)).flatMap Operation.elements)) :
    ((log.filter p).map sent).foldl applyWhiteboardOperation ((shown (log.take b)).map readElement) =
      fold ((log.take n).map sent) := by
  have hnumN := hnum.take n
  have hnumB := hnum.take b
  have hvalidN : ∀ op ∈ log.take n, ∀ e ∈ op.elements, e.Valid := fun op hop => hvalid op (List.mem_of_mem_take hop)
  have hvalidB : ∀ op ∈ log.take b, ∀ e ∈ op.elements, e.Valid := fun op hop => hvalid op (List.mem_of_mem_take hop)
  -- no clear comes after the base
  have hclear : latestClear (log.take n) ≤ b := by
    by_contra hlt
    rcases latestClear_mem (log.take n) with h0 | ⟨op, hop, hkind, hseq⟩
    · omega
    · obtain ⟨hmem, hopn⟩ := (mem_take hnum).1 hop
      have := hupdates op hmem (hmid op hmem (by omega) hopn)
      rw [hkind] at this
      cases this
  have heq := latestClear_take_eq hnum hbn hclear
  have hgeneration : ∀ op ∈ generation (log.take b), op ∈ generation (log.take n) := by
    intro op hop
    obtain ⟨hmem, hlt⟩ := (mem_generation hnumB).1 hop
    obtain ⟨hmem, hopb⟩ := (mem_take hnum).1 hmem
    exact (mem_generation hnumN).2 ⟨(mem_take hnum).2 ⟨hmem, by omega⟩, by omega⟩
  have hreadB : Readable ((generation (log.take b)).flatMap Operation.elements) := by
    apply hread.mono
    intro e he
    obtain ⟨op, hop, he⟩ := List.mem_flatMap.1 he
    exact List.mem_flatMap.2 ⟨op, hgeneration op hop, he⟩
  have hagain : ∀ op ∈ (log.take b).filter p, op ∈ generation (log.take b) := by
    intro op hop
    obtain ⟨hop, hp⟩ := List.mem_filter.1 hop
    obtain ⟨hmem, hopb⟩ := (mem_take hnum).1 hop
    exact (mem_generation hnumB).2 ⟨hop, hfresh op hmem hp hopb⟩
  rw [filter_split hnum hbn hmid hend, List.map_append, List.foldl_append, apply_again hnumB hvalidB hreadB hagain]
  have hcontinue := read_shown hnumN hvalidN hread hclear
  rw [List.take_take, Nat.min_eq_left hbn] at hcontinue
  rw [hcontinue, read_fold hnumN hvalidN hread]

/-- What the client got are operations of the log. -/
theorem mem_log_of_got {j : Nat} (hload : LoadInv log j loading) (hbuffered : ∀ a ∈ buffered, a ∈ log.map sent) :
    ∀ a ∈ loading.operations ++ buffered, a ∈ log.map sent := by
  intro a ha
  rcases List.mem_append.1 ha with ha | ha
  · rw [hload.operations] at ha
    obtain ⟨op, hop, rfl⟩ := List.mem_map.1 ha
    exact List.mem_map_of_mem (List.mem_of_mem_take (List.mem_of_mem_drop hop))
  · exact hbuffered a ha

/-- A base that a clear will replace comes with the clear. -/
theorem lastClear_pos {j : Nat} (hload : LoadInv log j loading) (hnum : Numbered Operation.sequence 1 log)
    (buffered : List WhiteboardOperation)
    (hj : j < latestClear (log.take loading.afterSequence)) : 0 < lastClear (loading.operations ++ buffered) := by
  rcases latestClear_mem (log.take loading.afterSequence) with h0 | ⟨op, hop, hkind, hseq⟩
  · omega
  · have hdrop : op ∈ (log.take loading.afterSequence).drop j := by
      have hfilter := (hnum.take loading.afterSequence).filter_gt (k := j) (by omega)
      rw [Nat.add_sub_cancel] at hfilter
      rw [← hfilter, List.mem_filter, decide_eq_true_eq]
      exact ⟨hop, by omega⟩
    have hgot : sent op ∈ loading.operations ++ buffered := by
      rw [hload.operations]
      exact List.mem_append_left _ (List.mem_map_of_mem hdrop)
    have hle : op.sequence ≤ lastClear (loading.operations ++ buffered) := le_lastClear hgot hkind
    omega

/-- A load in which nothing is missing shows the log. -/
theorem finish_complete {j : Nat} (hload : LoadInv log j loading) (hnum : Numbered Operation.sequence 1 log)
    (hids : (log.map Operation.id).Nodup) (hvalid : ∀ op ∈ log, ∀ e ∈ op.elements, e.Valid)
    (hbuffered : ∀ a ∈ buffered, a ∈ log.map sent) (h : NothingMissing log loading buffered) :
    (loading.finish buffered).scene = fold ((log.take (loading.finish buffered).latestSequence).map sent) ∧
      (loading.finish buffered).latestSequence ≤ log.length := by
  have hall := mem_log_of_got hload hbuffered
  have hpos := lastClear_pos hload hnum buffered
  have hscene : (loading.finish buffered).scene =
      ((log.filter fun op => sent op ∈ loading.operations ++ buffered).map sent).foldl applyWhiteboardOperation
        loading.base := by
    unfold Loading.finish
    dsimp only
    rw [SceneModel.replay_scene, sorted_all hnum hids hall]
  rw [hscene, finish_latestSequence hnum hids hall]
  obtain ⟨⟨hnext, hfresh⟩, hread⟩ := h
  generalize loading.operations ++ buffered = all at *
  have hmem := lastSequence_mem loading.snapshotSequence all
  have hle : ∀ a ∈ all, a.sequence ≤ lastSequence loading.snapshotSequence all := fun a ha => le_lastSequence ha
  have hbase : loading.snapshotSequence ≤ lastSequence loading.snapshotSequence all := by
    unfold lastSequence
    omega
  generalize lastSequence loading.snapshotSequence all = n at *
  have hmid : ∀ op ∈ log, (if lastClear all = 0 then loading.snapshotSequence else lastClear all) < op.sequence →
      op.sequence ≤ n → decide (sent op ∈ all) = true := by
    intro op hop hlt hopn
    rw [decide_eq_true_eq]
    apply hnext op hop hlt
    rcases hmem with hmem | ⟨a, ha, hseq⟩
    · exact Or.inl (by omega)
    · exact Or.inr ⟨a, ha, by omega⟩
  have hend : ∀ op ∈ log, decide (sent op ∈ all) = true → op.sequence ≤ n := by
    intro op _ hop
    rw [decide_eq_true_eq] at hop
    exact hle _ hop
  constructor
  · rcases lastClear_mem all with hzero | ⟨a, ha, hkind, hseq⟩
    · rw [if_pos hzero] at hmid
      rcases hload.base with ⟨hsequence, hscene⟩ | ⟨-, hj⟩
      · rw [hscene, ← hsequence]
        refine replay_from_base hnum hvalid hbase hmid hend (fun op _ hop => ?_) (fun op _ hop => ?_) hread
        · rw [decide_eq_true_eq] at hop
          cases hkind : op.kind with
          | sceneUpdate => rfl
          | boardClear =>
            have hle' : op.sequence ≤ lastClear all := le_lastClear hop hkind
            have := (hnum.bounds ‹op ∈ log›).1
            omega
        · rw [decide_eq_true_eq] at hop
          exact hfresh hzero _ hop
      · have := hpos hj
        omega
    · obtain ⟨op, hop, rfl⟩ := List.mem_map.1 (hall a ha)
      have hsequence : op.sequence = lastClear all := hseq
      have hone := (hnum.bounds hop).1
      rw [if_neg (by omega), ← hsequence] at hmid
      exact replay_from_clear hnum hop hkind (by simpa using ha) (hle _ ha) hmid hend loading.base
  · rcases hmem with hmem | ⟨a, ha, hseq⟩
    · have hstart := hload.start
      have hwithin := hload.within
      rcases hload.base with ⟨hsequence, -⟩ | ⟨hsequence, -⟩ <;> omega
    · obtain ⟨op, hop, rfl⟩ := List.mem_map.1 (hall a ha)
      have hbound := (hnum.bounds hop).2
      have hsequence : op.sequence = n := hseq
      omega

end Finish

/-! ### Runs -/

section Runs

variable {rt : Runtime} {tenantId conversationId : String} {limit : Option Int} {st : LoadSystem}

theorem Steps.storeLog {s s' : Store} (h : StoreInv s) (hs : Steps rt s s') (tenantId conversationId : String) :
    s.log tenantId conversationId <+: s'.log tenantId conversationId := by
  cases hb : s.board? tenantId conversationId with
  | none =>
    unfold Store.log
    rw [hb]
    exact List.nil_prefix
  | some b =>
    obtain ⟨b', hb', hid⟩ := hs.board? h hb
    rw [log_of_board hb, log_of_board hb', hid]
    exact hs.log h b.id

/-- The load ends only where nothing is missing. -/
def Guarded (tenantId conversationId : String) (st : LoadSystem) : Prop :=
  NothingMissing (st.store.log tenantId conversationId) st.loading st.buffered

structure LoadSystemInv (rt : Runtime) (tenantId conversationId : String) (st : LoadSystem) : Prop where
  reachable : Reachable rt st.store
  state : st.loading.hasMore = true → LoadState tenantId conversationId st.store 0 st.loading
  load : ∃ j, LoadInv (st.store.log tenantId conversationId) j st.loading
  buffered : ∀ a ∈ st.buffered, a ∈ (st.store.log tenantId conversationId).map sent
  loaded : ∀ loaded, st.loaded = some loaded →
    loaded.scene = fold (((st.store.log tenantId conversationId).take loaded.latestSequence).map sent) ∧
      loaded.latestSequence ≤ (st.store.log tenantId conversationId).length

theorem loadInv_initial (log : List Operation) : LoadInv log 0 Loading.initial :=
  ⟨rfl, le_refl _, Nat.zero_le _, Or.inl ⟨rfl, rfl⟩⟩

theorem LoadSystemInv.commit (h : LoadSystemInv rt tenantId conversationId st) {call : Call} {command : Command}
    {s : Store} (hexec : exec rt call st.store command = .ok s) :
    LoadSystemInv rt tenantId conversationId { st with store := s } := by
  have hinv := h.reachable.inv
  have hsteps : Steps rt st.store s := .step call command .refl hexec
  have hlog := hsteps.storeLog hinv tenantId conversationId
  obtain ⟨j, hload⟩ := h.load
  refine ⟨.step call command h.reachable hexec, fun hmore => (h.state hmore).steps hinv hsteps, ⟨j, hload.grow hlog⟩,
    fun a ha => ?_, fun loaded hloaded => ?_⟩
  · obtain ⟨op, hop, rfl⟩ := List.mem_map.1 (h.buffered a ha)
    exact List.mem_map_of_mem (hlog.subset hop)
  · obtain ⟨hscene, hle⟩ := h.loaded loaded hloaded
    refine ⟨?_, hle.trans hlog.length_le⟩
    obtain ⟨rest, hrest⟩ := hlog
    change loaded.scene = fold (((s.log tenantId conversationId).take loaded.latestSequence).map sent)
    rw [← hrest, List.take_append_of_le_length hle]
    exact hscene

theorem LoadSystemInv.page (h : LoadSystemInv rt tenantId conversationId st) {call : Call} {page : Page}
    (htenant : call.subject.tenantId = tenantId) (hmore : st.loading.hasMore = true)
    (hlist : History.list call conversationId (some st.loading.afterSequence) limit true st.store = .ok page) :
    LoadSystemInv rt tenantId conversationId { st with loading := st.loading.page page } := by
  have hstate := h.state hmore
  rw [list_ok (list_authorized hlist), htenant] at hlist
  split at hlist
  · rename_i hnone
    obtain rfl := Except.ok.inj hlist
    have hlog : st.store.log tenantId conversationId = [] := by
      unfold Store.log
      rw [hnone]
    -- without a board there is one empty page
    rcases hstate with ⟨hinitial, -⟩ | ⟨b, -, hb, -⟩
    · refine ⟨h.reachable, fun hlast => (by cases hlast), ⟨0, ?_⟩, h.buffered, h.loaded⟩
      change LoadInv (st.store.log tenantId conversationId) 0 (st.loading.page _)
      rw [hinitial, hlog]
      exact ⟨rfl, le_refl _, Nat.zero_le _, Or.inl ⟨rfl, rfl⟩⟩
    · rw [hnone] at hb
      cases hb
  · rename_i b hb
    obtain rfl := Except.ok.inj hlist
    obtain ⟨⟨j, hload⟩, -, hcount⟩ := hstate.page h.reachable.inv hb limit true
    refine ⟨h.reachable, fun hlast => ?_, ⟨j, ?_⟩, h.buffered, h.loaded⟩
    · have hpos := hcount hlast
      exact Or.inr ⟨b, j, hb, hload, hpos, Nat.zero_le _⟩
    · rw [log_of_board hb]
      exact hload

theorem LoadSystemInv.finish (h : LoadSystemInv rt tenantId conversationId st)
    (hguard : Guarded tenantId conversationId st) (hdone : st.loading.hasMore = false) :
    LoadSystemInv rt tenantId conversationId
      { st with loaded := some (st.loading.finish st.buffered), buffered := [] } := by
  obtain ⟨hnum, hids, hvalid⟩ := h.reachable.inv.log tenantId conversationId
  obtain ⟨j, hload⟩ := h.load
  refine ⟨h.reachable, fun hmore => ?_, ⟨j, hload⟩, fun a ha => (by cases ha), fun loaded hloaded => ?_⟩
  · rw [hdone] at hmore
    cases hmore
  · obtain rfl := Option.some.inj hloaded
    exact finish_complete hload hnum hids hvalid h.buffered hguard

theorem LoadRun.inv (h : LoadRun rt tenantId conversationId limit (Guarded tenantId conversationId) st) :
    LoadSystemInv rt tenantId conversationId st := by
  induction h with
  | start s reachable =>
    exact ⟨reachable, fun _ => Or.inl ⟨rfl, rfl⟩, ⟨0, loadInv_initial _⟩, fun a ha => (by cases ha),
      fun loaded hloaded => (by cases hloaded)⟩
  | commit call command s run accepted ih => exact ih.commit accepted
  | join run ih => exact ⟨ih.reachable, ih.state, ih.load, ih.buffered, ih.loaded⟩
  | receive op k run loaded mem joined later ih =>
    refine ⟨ih.reachable, ih.state, ih.load, fun a ha => ?_, ih.loaded⟩
    rcases List.mem_append.1 ha with ha | ha
    · exact ih.buffered a ha
    · rw [List.mem_singleton.1 ha]
      exact List.mem_map_of_mem mem
  | page call page run tenant more listed ih => exact ih.page tenant more listed
  | finish run done loaded guarded ih => exact ih.finish guarded done

end Runs

/-- In every run in which the load ends only where nothing is missing, the scene that it ends with is that of all
operations up to `latestSequence`. -/
theorem initial_load_complete (rt : Runtime) (tenantId conversationId : String) (limit : Option Int) (st : LoadSystem)
    (hrun : LoadRun rt tenantId conversationId limit (Guarded tenantId conversationId) st) (loaded : Loaded)
    (hloaded : st.loaded = some loaded) :
    loaded.latestSequence ≤ (st.store.log tenantId conversationId).length ∧
      loaded.scene = fold (((st.store.log tenantId conversationId).take loaded.latestSequence).map sent) := by
  obtain ⟨hscene, hle⟩ := hrun.inv.loaded loaded hloaded
  exact ⟨hle, hscene⟩

/-- A board with so many rectangles. -/
def sketched : Nat → Store
  | 0 => Store.empty
  | n + 1 => next (plainRuntime 250) (plainCall n "user-1") (sketched n)
    (plainUpdate ("operation-" ++ toString n) ("element-" ++ toString n) n 1 7)

theorem steps_sketched (n : Nat) : Steps (plainRuntime 250) Store.empty (sketched n) := by
  induction n with
  | zero => exact .refl
  | succ n ih => exact steps_next ih _ _

/-- The operation that draws the `n`-th rectangle. -/
def sketch (n : Nat) : Operation :=
  newOperation (plainCall n "user-1") "conversation-1" ("operation-" ++ toString n)
    { id := "id-[0, 0]", tenantId := "tenant-1", conversationId := "conversation-1", sequence := n,
      title := "Untitled board", libraryVersion := 1, titleActorUserId := none } .sceneUpdate
    [{ id := "element-" ++ toString n, type := .rectangle, version := some 1, versionNonce := some 7, isDeleted := .bool false,
       fileId := none, rest := "" }] []

/-- The client has the page of the store with `n` rectangles. -/
def sketchLoading (n : Nat) : Loading :=
  match History.list (plainCall 9 "user-2") "conversation-1" (some 0) none true (sketched n) with
  | .ok page => Loading.initial.page page
  | .error _ => Loading.initial

section Sketch

variable {guard : LoadSystem → Prop} {st : LoadSystem}

private theorem commit_sketch (h : LoadRun (plainRuntime 250) "tenant-1" "conversation-1" none guard st)
    (hstore : st.store = sketched n)
    (hexec : exec (plainRuntime 250) (plainCall n "user-1") (sketched n) (plainUpdate ("operation-" ++ toString n)
      ("element-" ++ toString n) n 1 7) = .ok (sketched (n + 1))) :
    LoadRun (plainRuntime 250) "tenant-1" "conversation-1" none guard { st with store := sketched (n + 1) } :=
  .commit _ _ _ h (by rw [hstore]; exact hexec)

private theorem page_sketch
    (hlist : ∃ page, History.list (plainCall 9 "user-2") "conversation-1" (some 0) none
      true (sketched n) = .ok page) :
    LoadRun (plainRuntime 250) "tenant-1" "conversation-1" none guard
      { LoadSystem.initial (sketched n) with loading := sketchLoading n } := by
  obtain ⟨page, hpage⟩ := hlist
  have hloading : sketchLoading n = Loading.initial.page page := by
    unfold sketchLoading
    rw [hpage]
  rw [hloading]
  exact .page (plainCall 9 "user-2") page (.start (sketched n) (steps_sketched n)) rfl rfl hpage

private theorem join_sketch {m : Nat}
    (h : LoadRun (plainRuntime 250) "tenant-1" "conversation-1" none guard st) (hstore : st.store = sketched m)
    (hlength : ((sketched m).log "tenant-1" "conversation-1").length = m) :
    LoadRun (plainRuntime 250) "tenant-1" "conversation-1" none guard { st with joined := some m } := by
  have hlog : (st.store.log "tenant-1" "conversation-1").length = m := by
    rw [hstore]
    exact hlength
  have hjoin := LoadRun.join h
  rw [hlog] at hjoin
  exact hjoin

end Sketch

/-- A page of one operation, the join, and the next operation buffered. -/
theorem initial_load_complete_sketch :
    ∃ st loaded, LoadRun (plainRuntime 250) "tenant-1" "conversation-1" none (Guarded "tenant-1" "conversation-1") st ∧
      st.loaded = some loaded ∧ loaded.latestSequence = 2 ∧
      loaded.scene = fold (((st.store.log "tenant-1" "conversation-1").take loaded.latestSequence).map sent) := by
  have hpaged : LoadRun (plainRuntime 250) "tenant-1" "conversation-1" none (Guarded "tenant-1" "conversation-1") _ :=
    page_sketch (n := 1) ⟨_, rfl⟩
  have hjoined := join_sketch hpaged rfl (by decide)
  have hcommitted := commit_sketch hjoined (n := 1) rfl (by decide)
  have hbuffered := LoadRun.receive (sketch 1) 1 hcommitted rfl (by decide) rfl (by decide)
  have hfinished := LoadRun.finish hbuffered (by decide) rfl
    ⟨⟨by decide +kernel, by decide +kernel⟩, by decide +kernel⟩
  exact ⟨_, _, hfinished, rfl, by decide, (initial_load_complete _ _ _ _ _ hfinished _ rfl).2⟩

/-- One operation is committed after the empty page and before the join, and the next one is buffered. -/
theorem initial_load_skips : ∃ st loaded,
    LoadRun (plainRuntime 250) "tenant-1" "conversation-1" none (fun _ => True) st ∧ st.loaded = some loaded ∧
    loaded.scene ≠
      fold (((st.store.log "tenant-1" "conversation-1").take loaded.latestSequence).map sent) := by
  have hpaged : LoadRun (plainRuntime 250) "tenant-1" "conversation-1" none (fun _ => True) _ :=
    page_sketch (n := 0) ⟨_, rfl⟩
  have hmissed := commit_sketch hpaged (n := 0) rfl (by decide)
  have hjoined := join_sketch hmissed (m := 1) rfl (by decide)
  have hcommitted := commit_sketch hjoined (n := 1) rfl (by decide)
  have hbuffered := LoadRun.receive (sketch 1) 1 hcommitted rfl (by decide) rfl (by decide)
  exact ⟨_, _, .finish hbuffered (by decide) rfl trivial, rfl, by decide⟩

end KComms.Whiteboards
