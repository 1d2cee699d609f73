import KComms.Whiteboards.Runs
import KComms.Whiteboards.SceneModel

/-!
# Loading a whiteboard page by page (`loadDurableScene`)

The client asks for pages of the history until there are no more, starts from the snapshot of the first page if it has
one, and replays all operations that it got.  Between two requests the log may grow.  What the client has at any time is
a stretch of the log, from the sequence that its base stands for (`LoadInv`).
-/

namespace KComms.Whiteboards

open Consecutive (Numbered)
open SceneModel (WhiteboardScene sceneFromElements replayWhiteboardOperations)

/-! ### The loop -/

/-- The variables of `loadDurableScene`. -/
structure Loading where
  operations : List WhiteboardOperation
  afterSequence : Nat
  hasMore : Bool
  base : WhiteboardScene
  snapshotSequence : Nat
  deriving DecidableEq

def Loading.initial : Loading := ⟨[], 0, true, OrderedMap.empty, 0⟩

/-- One round of the loop. -/
def Loading.page (loading : Loading) (page : Page) : Loading :=
  { operations := loading.operations ++ page.operations.map readOperation,
    afterSequence := page.nextAfterSequence,
    hasMore := page.hasMore,
    base := match page.snapshot with
      | some snapshot => sceneFromElements (snapshot.elements.map readElement)
      | none => loading.base,
    snapshotSequence := match page.snapshot with
      | some snapshot => snapshot.throughSequence
      | none => loading.snapshotSequence }

def uniqueOperations (operations : List WhiteboardOperation) : List WhiteboardOperation :=
  (OrderedMap.ofList (operations.map fun operation => (operation.id, operation))).values

/-- `sceneRef` and `latestSequenceRef` after the loop. -/
structure Loaded where
  scene : WhiteboardScene
  latestSequence : Nat
  deriving DecidableEq

def Loading.finish (loading : Loading) (buffered : List WhiteboardOperation) : Loaded :=
  let all := uniqueOperations (loading.operations ++ buffered)
  let replay := replayWhiteboardOperations all loading.base
  ⟨replay.scene, max replay.latestSequence loading.snapshotSequence⟩

/-- The loop over the requests that were made, each with the store that it met. -/
def Loading.pages (conversationId : String) (limit : Option Int) (snapshot : Bool) (loading : Loading) :
    List (Call × Store) → Except WhiteboardError Loading
  | [] => .ok loading
  | (call, s) :: requests =>
    if loading.hasMore then
      match History.list call conversationId (some loading.afterSequence) limit snapshot s with
      | .ok page => (loading.page page).pages conversationId limit snapshot requests
      | .error error => .error error
    else .ok loading

/-- The requests meet stores of one run, after `s`. -/
def Visited (rt : Runtime) (tenantId : String) (s : Store) : List (Call × Store) → Prop
  | [] => True
  | (call, t) :: requests => call.subject.tenantId = tenantId ∧ Steps rt s t ∧ Visited rt tenantId t requests

/-- The log of the board of a conversation. -/
def Store.log (s : Store) (tenantId conversationId : String) : List Operation :=
  match s.board? tenantId conversationId with
  | some b => s.operationsOf b.id
  | none => []

/-! ### A page of the history -/

variable {ops : List Operation} {limit : Nat}

theorem pageLimit_pos (limit : Option Int) : 1 ≤ History.pageLimit limit := by
  unfold History.pageLimit
  omega

section Page

variable {s : Store} {b : Whiteboard} {call : Call} {tenantId conversationId : String}

theorem log_of_board (hb : s.board? tenantId conversationId = some b) :
    s.log tenantId conversationId = s.operationsOf b.id := by
  unfold Store.log
  rw [hb]

theorem rows_eq (h : BoardInv s b) (k : Nat) : History.rows s b k = (s.operationsOf b.id).drop k := by
  have hnum := h.numbered
  unfold History.rows
  rw [hnum.filter_gt (by omega), Nat.add_sub_cancel]
  by_cases hk : k ≤ (s.operationsOf b.id).length
  · exact (hnum.drop k hk).sort_eq
  · rw [List.drop_eq_nil_of_le (by omega)]
    rfl

/-- The sequence after which a page starts. -/
def pageStart (s : Store) (b : Whiteboard) (k : Nat) (wanted : Bool) : Nat :=
  History.replayAfter s b (History.snapshotFor s b k wanted) k

theorem page_operations (h : BoardInv s b) (k limit : Nat) (wanted : Bool) : (History.page s b k limit wanted).operations =
    (((s.operationsOf b.id).drop (pageStart s b k wanted)).take limit).map Projector.operation := by
  unfold History.page pageStart
  dsimp only
  rw [rows_eq h, List.take_take, Nat.min_eq_left (by omega)]

theorem page_hasMore (h : BoardInv s b) (k limit : Nat) (wanted : Bool) : (History.page s b k limit wanted).hasMore = true ↔
    pageStart s b k wanted + limit < (s.operationsOf b.id).length := by
  unfold History.page pageStart
  dsimp only
  rw [decide_eq_true_eq, rows_eq h, List.length_take, List.length_drop]
  omega

/-- The last sequence of a stretch of the log. -/
private theorem getLast_stretch {start : Nat} (h : Numbered Operation.sequence start ops)
    (hne : ops ≠ []) : ∃ op, ops.getLast? = some op ∧ op.sequence + 1 = start + ops.length := by
  obtain ⟨init, last, rfl⟩ : ∃ init last, ops = init ++ [last] :=
    ⟨ops.dropLast, ops.getLast hne, (List.dropLast_append_getLast hne).symm⟩
  refine ⟨last, by simp, ?_⟩
  obtain ⟨-, hlast⟩ := Consecutive.numbered_append.1 h
  have := (Consecutive.numbered_cons.1 hlast).1
  rw [this, List.length_append, List.length_singleton]
  omega

theorem snapshotFor_some (h : BoardInv s b) {k : Nat} {wanted : Bool} {snapshot : Snapshot}
    (hs : History.snapshotFor s b k wanted = some snapshot) :
    k = 0 ∧ SnapshotInv (s.operationsOf b.id) snapshot ∧ pageStart s b k wanted = snapshot.throughSequence := by
  have hstart : pageStart s b k wanted = History.replayAfter s b (some snapshot) k := by
    unfold pageStart
    rw [hs]
  unfold History.snapshotFor at hs
  split at hs
  · rename_i hcond
    rw [hcond.1] at hstart ⊢
    exact ⟨rfl, h.snapshot snapshot (load_of_current hs), hstart⟩
  · cases hs

theorem pageStart_of_none {k : Nat} {wanted : Bool} (hs : History.snapshotFor s b k wanted = none) :
    pageStart s b k wanted = if k = 0 then latestClear (s.operationsOf b.id) - 1 else k := by
  unfold pageStart
  rw [hs]
  cases k with
  | zero => rfl
  | succ k => rfl

theorem pageStart_le (h : BoardInv s b) {k : Nat} (hk : k ≤ (s.operationsOf b.id).length) (wanted : Bool) :
    pageStart s b k wanted ≤ (s.operationsOf b.id).length := by
  cases hs : History.snapshotFor s b k wanted with
  | some snapshot =>
    obtain ⟨-, hinv, hstart⟩ := snapshotFor_some h hs
    have := hinv.through
    omega
  | none =>
    have hstart := pageStart_of_none hs
    have hclear := latestClear_le h.numbered
    split at hstart <;> omega

/-- A page ends at its last operation, and where it starts if it has none. -/
theorem page_next (h : BoardInv s b) {k : Nat} (hk : k ≤ (s.operationsOf b.id).length) (hlimit : 1 ≤ limit)
    (wanted : Bool) : (History.page s b k limit wanted).nextAfterSequence =
      min (pageStart s b k wanted + limit) (s.operationsOf b.id).length := by
  have hle := pageStart_le h hk wanted
  have hnext : (History.page s b k limit wanted).nextAfterSequence = History.nextSequence
      (((s.operationsOf b.id).drop (pageStart s b k wanted)).take limit) (History.snapshotFor s b k wanted) k := by
    unfold History.page pageStart
    dsimp only
    rw [rows_eq h, List.take_take, Nat.min_eq_left (by omega)]
  rw [hnext]
  unfold History.nextSequence
  by_cases hstart : pageStart s b k wanted < (s.operationsOf b.id).length
  · have hlen : (((s.operationsOf b.id).drop (pageStart s b k wanted)).take limit).length =
        min limit ((s.operationsOf b.id).length - pageStart s b k wanted) := by
      rw [List.length_take, List.length_drop]
    obtain ⟨op, hlast, hsequence⟩ := getLast_stretch ((h.numbered.drop _ hle).take limit) (by
      intro hnil
      rw [hnil, List.length_nil] at hlen
      omega)
    rw [hlast]
    dsimp only
    omega
  · rw [List.drop_eq_nil_of_le (by omega), List.take_nil]
    cases hs : History.snapshotFor s b k wanted with
    | some snapshot =>
      obtain ⟨-, -, heq⟩ := snapshotFor_some h hs
      change snapshot.throughSequence = _
      omega
    | none =>
      have heq := pageStart_of_none hs
      have hclear := latestClear_le h.numbered
      change k = _
      split at heq <;> omega

theorem list_ok (hcall : call.refusal .authorize = none) (k : Nat) (limit : Option Int) (wanted : Bool) :
    History.list call conversationId (some k) limit wanted s =
      match s.board? call.subject.tenantId conversationId with
      | none => .ok ⟨[], none, false, k⟩
      | some b => .ok (History.page s b k (History.pageLimit limit) wanted) := by
  have hcheck : call.check .authorize = .ok () := by
    unfold Call.check
    rw [hcall]
  unfold History.list
  rw [hcheck]
  rfl

end Page

/-! ### What the client has -/

theorem uniqueOperations_eq {operations : List WhiteboardOperation}
    (h : (operations.map WhiteboardOperation.id).Nodup) : uniqueOperations operations = operations := by
  have hnodup : ((operations.map fun operation => (operation.id, operation)).map Prod.fst).Nodup := by rwa [List.map_map]
  unfold uniqueOperations
  rw [OrderedMap.values, OrderedMap.entries_ofList hnodup, List.map_map]
  exact List.map_id operations

theorem numbered_sent {start : Nat} (h : Numbered Operation.sequence start ops) :
    Numbered WhiteboardOperation.sequence start (ops.map sent) := by
  unfold Numbered at h ⊢
  rw [List.map_map, List.length_map]
  exact h

/-- The client has the log from `j` up to `afterSequence`, on a base that stands for the operations up to `j` or that
a clear will replace. -/
structure LoadInv (log : List Operation) (j : Nat) (loading : Loading) : Prop where
  operations : loading.operations = ((log.take loading.afterSequence).drop j).map sent
  start : j ≤ loading.afterSequence
  within : loading.afterSequence ≤ log.length
  base : (loading.snapshotSequence = j ∧ loading.base = (shown (log.take j)).map readElement) ∨
    (loading.snapshotSequence = 0 ∧ j < latestClear (log.take loading.afterSequence))

theorem latestClear_mono {ops' : List Operation} (h : ops <+: ops') : latestClear ops ≤ latestClear ops' := by
  rcases latestClear_mem ops with h0 | ⟨op, hop, hclear, hseq⟩
  · omega
  · rw [← hseq]
    exact le_latestClear (h.subset hop) hclear

/-- Up to its latest clear a log has the same latest clear. -/
theorem latestClear_take (h : Numbered Operation.sequence 1 ops) :
    latestClear (ops.take (latestClear ops)) = latestClear ops := by
  apply le_antisymm (latestClear_mono (List.take_prefix _ _))
  by_cases hpos : 0 < latestClear ops
  · obtain ⟨op, hop, hclear, hlast⟩ := take_latestClear h hpos
    have hsequence : op.sequence = latestClear ops := by
      have hlen := congrArg List.length hlast
      have hnum := h.take (latestClear ops)
      rw [hlast] at hnum
      have hnum' := (Consecutive.numbered_cons.1 (Consecutive.numbered_append.1 hnum).2).1
      rw [List.length_append, List.length_take, List.length_take] at hlen
      rw [List.length_take] at hnum'
      have := latestClear_le h
      omega
    rw [← hsequence]
    apply le_latestClear _ hclear
    rw [hsequence, hlast]
    simp
  · omega

section Invariant

variable {log log' : List Operation} {j : Nat} {loading : Loading}

/-- The log may grow between two requests. -/
theorem LoadInv.grow (h : LoadInv log j loading) (hgrow : log <+: log') : LoadInv log' j loading := by
  have hlen := hgrow.length_le
  have hwithin := h.within
  have hstart := h.start
  have htake : ∀ n, n ≤ log.length → log'.take n = log.take n := by
    intro n hn
    obtain ⟨rest, rfl⟩ := hgrow
    exact List.take_append_of_le_length hn
  refine ⟨?_, hstart, by omega, ?_⟩
  · rw [htake _ hwithin]
    exact h.operations
  · rcases h.base with ⟨hsequence, hbase⟩ | ⟨hsequence, hclear⟩
    · rw [htake j (by omega)]
      exact Or.inl ⟨hsequence, hbase⟩
    · rw [htake _ hwithin]
      exact Or.inr ⟨hsequence, hclear⟩

/-- A page continues a stretch that ends where the page starts. -/
private theorem page_stretch {s : Store} {b : Whiteboard} (hb : BoardInv s b) (loading : Loading) (j k : Nat)
    (wanted : Bool) (hk : k ≤ (s.operationsOf b.id).length) (hlimit : 1 ≤ limit) (hj : j ≤ pageStart s b k wanted)
    (hoperations : loading.operations = (((s.operationsOf b.id).take (pageStart s b k wanted)).drop j).map sent) :
    (loading.page (History.page s b k limit wanted)).operations = (((s.operationsOf b.id).take
        (loading.page (History.page s b k limit wanted)).afterSequence).drop j).map sent ∧
      (loading.page (History.page s b k limit wanted)).afterSequence =
        min (pageStart s b k wanted + limit) (s.operationsOf b.id).length := by
  have hle := pageStart_le hb hk wanted
  have hnext := page_next hb hk hlimit wanted
  refine ⟨?_, hnext⟩
  have htake : (s.operationsOf b.id).take (pageStart s b k wanted) ++
      ((s.operationsOf b.id).drop (pageStart s b k wanted)).take limit =
      (s.operationsOf b.id).take (min (pageStart s b k wanted + limit) (s.operationsOf b.id).length) := by
    rw [← List.take_add, ← List.take_length (l := s.operationsOf b.id), List.take_take, List.take_length]
  have hpage : (loading.page (History.page s b k limit wanted)).operations =
      loading.operations ++ (((s.operationsOf b.id).drop (pageStart s b k wanted)).take limit).map sent := by
    unfold Loading.page
    dsimp only
    rw [page_operations hb, List.map_map]
    rfl
  have hafter : (loading.page (History.page s b k limit wanted)).afterSequence =
      min (pageStart s b k wanted + limit) (s.operationsOf b.id).length := hnext
  rw [hpage, hafter, hoperations, ← List.map_append, ← htake,
    List.drop_append_of_le_length (by rw [List.length_take]; omega)]

/-- A further page continues the stretch. -/
theorem LoadInv.page {s : Store} {b : Whiteboard} (h : LoadInv (s.operationsOf b.id) j loading) (hb : BoardInv s b)
    (hlimit : 1 ≤ limit) (wanted : Bool) (hpos : 0 < loading.afterSequence) :
    LoadInv (s.operationsOf b.id) j (loading.page (History.page s b loading.afterSequence limit wanted)) ∧
      (loading.page (History.page s b loading.afterSequence limit wanted)).afterSequence =
        min (loading.afterSequence + limit) (s.operationsOf b.id).length ∧
      ((History.page s b loading.afterSequence limit wanted).hasMore = true ↔
        loading.afterSequence + limit < (s.operationsOf b.id).length) := by
  have hwithin := h.within
  have hstart := h.start
  have hnone : History.snapshotFor s b loading.afterSequence wanted = none := by
    unfold History.snapshotFor
    rw [if_neg (by omega)]
  have heq := pageStart_of_none hnone
  rw [if_neg (by omega)] at heq
  obtain ⟨hoperations, hafter⟩ := page_stretch hb loading j loading.afterSequence wanted hwithin hlimit
    (by rw [heq]; exact hstart) (by rw [heq]; exact h.operations)
  have hmore := page_hasMore hb loading.afterSequence limit wanted
  rw [heq] at hafter hmore
  refine ⟨⟨hoperations, by omega, by omega, ?_⟩, hafter, hmore⟩
  have hsnapshot : (History.page s b loading.afterSequence limit wanted).snapshot = none := by
    unfold History.page
    dsimp only
    rw [hnone]
    rfl
  have hgrow : latestClear ((s.operationsOf b.id).take loading.afterSequence) ≤ latestClear ((s.operationsOf b.id).take
      (loading.page (History.page s b loading.afterSequence limit wanted)).afterSequence) := by
    apply latestClear_mono
    exact List.take_prefix_take_left (by omega)
  have hbase := h.base
  have hkept : (loading.page (History.page s b loading.afterSequence limit wanted)).base = loading.base ∧
      (loading.page (History.page s b loading.afterSequence limit wanted)).snapshotSequence =
        loading.snapshotSequence := by
    unfold Loading.page
    rw [hsnapshot]
    exact ⟨rfl, rfl⟩
  rw [hkept.1, hkept.2]
  rcases hbase with hbase | ⟨hsequence, hclear⟩
  · exact Or.inl hbase
  · exact Or.inr ⟨hsequence, by omega⟩

/-- The first page fixes the base. -/
theorem loadInv_first {s : Store} {b : Whiteboard} (hb : BoardInv s b) (hlimit : 1 ≤ limit)
    (wanted : Bool) : ∃ j, LoadInv (s.operationsOf b.id) j (Loading.initial.page (History.page s b 0 limit wanted)) ∧
      (Loading.initial.page (History.page s b 0 limit wanted)).afterSequence =
        min (j + limit) (s.operationsOf b.id).length ∧
      ((History.page s b 0 limit wanted).hasMore = true ↔ j + limit < (s.operationsOf b.id).length) := by
  have hle := pageStart_le hb (Nat.zero_le _) wanted
  obtain ⟨hoperations, hafter⟩ := page_stretch hb Loading.initial (pageStart s b 0 wanted) 0 wanted
    (Nat.zero_le _) hlimit (le_refl _) (by
      rw [List.drop_eq_nil_of_le (by rw [List.length_take]; omega)]
      rfl)
  refine ⟨pageStart s b 0 wanted, ⟨hoperations, by omega, by omega, ?_⟩, hafter, page_hasMore hb 0 limit wanted⟩
  have hsnapshot : (History.page s b 0 limit wanted).snapshot =
      (History.snapshotFor s b 0 wanted).map fun snapshot => ⟨snapshot.elements, snapshot.throughSequence⟩ := rfl
  cases hs : History.snapshotFor s b 0 wanted with
  | some snapshot =>
    rw [hs] at hsnapshot
    obtain ⟨-, hinv, hstart⟩ := snapshotFor_some hb hs
    unfold Loading.page
    rw [hsnapshot]
    refine Or.inl ⟨hstart.symm, ?_⟩
    change sceneFromElements (snapshot.elements.map readElement) = _
    rw [hinv.elements, ← OrderedMap.values_map, hstart]
    apply SceneModel.sceneFromElements_values
    exact keyed_read (keyed_shown _)
  | none =>
    rw [hs] at hsnapshot
    have heq := pageStart_of_none hs
    rw [if_pos rfl] at heq
    have hkept : (Loading.initial.page (History.page s b 0 limit wanted)).base = OrderedMap.empty ∧
        (Loading.initial.page (History.page s b 0 limit wanted)).snapshotSequence = 0 := by
      unfold Loading.page
      rw [hsnapshot]
      exact ⟨rfl, rfl⟩
    by_cases hclear : latestClear (s.operationsOf b.id) = 0
    · rw [hkept.1, hkept.2, heq, hclear]
      exact Or.inl ⟨rfl, rfl⟩
    · -- the page starts with the latest clear
      have hle' := latestClear_le hb.numbered
      have hgrow : latestClear ((s.operationsOf b.id).take (latestClear (s.operationsOf b.id))) ≤
          latestClear ((s.operationsOf b.id).take
            (Loading.initial.page (History.page s b 0 limit wanted)).afterSequence) := by
        apply latestClear_mono
        exact List.take_prefix_take_left (by omega)
      rw [latestClear_take hb.numbered] at hgrow
      exact Or.inr ⟨hkept.2, by omega⟩

/-- What the client shows in the end is what the server shows. -/
theorem LoadInv.finish (h : LoadInv log j loading) (hnum : Numbered Operation.sequence 1 log)
    (hids : (log.map Operation.id).Nodup) (hvalid : ∀ op ∈ log, ∀ e ∈ op.elements, e.Valid)
    (hread : Readable ((generation log).flatMap Operation.elements)) (hall : loading.afterSequence = log.length) :
    loading.finish [] = ⟨(shown log).map readElement, log.length⟩ := by
  have hstart := h.start
  have hoperations : loading.operations = (log.drop j).map sent := by
    rw [h.operations, hall, List.take_length]
  have hunique : uniqueOperations (loading.operations ++ []) = (log.drop j).map sent := by
    rw [List.append_nil, hoperations]
    apply uniqueOperations_eq
    rw [List.map_map]
    exact hids.sublist ((List.drop_sublist j log).map _)
  have hsent : Numbered WhiteboardOperation.sequence (1 + j) ((log.drop j).map sent) :=
    numbered_sent (hnum.drop j (by omega))
  obtain ⟨hscene, hlatest⟩ := SceneModel.replay_numbered hsent loading.base
  unfold Loading.finish
  dsimp only
  rw [hunique, hscene, hlatest]
  have hclear := latestClear_le hnum
  have hbase := h.base
  rw [hall, List.take_length] at hbase
  congr 1
  · rcases hbase with ⟨-, hbase⟩ | ⟨-, hlt⟩
    · by_cases hj : latestClear log ≤ j
      · rw [hbase]
        exact read_shown hnum hvalid hread hj
      · rw [fold_latestClear hnum (by omega)]
        exact read_generation hnum hvalid hread
    · rw [fold_latestClear hnum hlt]
      exact read_generation hnum hvalid hread
  · rw [List.length_map, List.length_drop]
    split
    · rename_i hnil
      have hlen := congrArg List.length hnil
      rw [List.length_map, List.length_drop, List.length_nil] at hlen
      rcases hbase with ⟨hsequence, -⟩ | ⟨-, hlt⟩ <;> omega
    · rename_i hne
      have hlt : j < log.length := by
        by_contra hge
        exact hne (by rw [List.drop_eq_nil_of_le (by omega)]; rfl)
      rcases hbase with ⟨hsequence, -⟩ | ⟨hsequence, -⟩ <;> omega

end Invariant

end KComms.Whiteboards
