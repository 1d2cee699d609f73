import KComms.Whiteboards.SceneModel

/-!
# Operations that arrive out of order (`operationStream.ts`)

The client queues an operation until the ones before it have arrived, and moves on to a clear when there is one in the
queue.  Whatever arrives, in whatever order and how often, the scene is that of the log up to `latestSequence`
(`stream_in_order`): the operations that a clear skips over do not show.
-/

namespace KComms.Whiteboards

open Consecutive (Numbered)
open SceneModel (WhiteboardScene applyWhiteboardOperation fold)

abbrev Queue := OrderedMap Nat WhiteboardOperation

namespace OperationStream

/-- The first loop of `orderWhiteboardOperations`. -/
def enqueue (latestSequence : Nat) (queued : Queue) (incoming : List WhiteboardOperation) : Queue :=
  incoming.foldl
    (fun queued operation =>
      if latestSequence < operation.sequence ∧ !queued.has operation.sequence then
        queued.set operation.sequence operation
      else queued) queued

/-- The first clear of the queue. -/
def authoritativeClear (queued : Queue) : Option WhiteboardOperation :=
  ((queued.values.filter fun operation => operation.kind = .boardClear).insertionSort
    fun left right => left.sequence ≤ right.sequence).head?

/-- Drop what the clear makes irrelevant. -/
def evict (sequence : Nat) (queued : Queue) : Queue :=
  queued.keys.foldl (fun queued key => if key ≤ sequence then queued.erase key else queued) queued

/-- The variables of the second loop. -/
structure Draining where
  queued : Queue
  ready : List WhiteboardOperation
  nextSequence : Nat

/-- One round of the second loop; `none` ends it. -/
def Draining.round (state : Draining) : Option Draining :=
  if 0 < state.queued.size then
    match state.queued.get? (state.nextSequence + 1) with
    | some next => some ⟨state.queued.erase next.sequence, state.ready ++ [next], next.sequence⟩
    | none =>
      match authoritativeClear state.queued with
      | some clear => some ⟨evict clear.sequence state.queued, state.ready ++ [clear], clear.sequence⟩
      | none => none
  else none

/-- Every round takes something out of the queue, so its size bounds the number of rounds (`drain_ends`). -/
def Draining.drain : Nat → Draining → Draining
  | 0, state => state
  | rounds + 1, state =>
    match state.round with
    | some next => next.drain rounds
    | none => state

end OperationStream

open OperationStream

/-- `WhiteboardOperationStreamResult`, with the queue as the call leaves it. -/
structure Ordered where
  ready : List WhiteboardOperation
  latestSequence : Nat
  hasGap : Bool
  queued : Queue

def orderWhiteboardOperations (latestSequence : Nat) (queued : Queue) (incoming : List WhiteboardOperation) : Ordered :=
  let queued := enqueue latestSequence queued incoming
  let state := (Draining.mk queued [] latestSequence).drain queued.size
  ⟨state.ready, state.nextSequence, decide (0 < state.queued.size), state.queued⟩

/-- `sceneRef`, `latestSequenceRef` and `operationQueueRef`. -/
structure Stream where
  scene : WhiteboardScene
  latestSequence : Nat
  queued : Queue

/-- `acceptOperations`, as far as the scene goes. -/
def Stream.accept (stream : Stream) (operations : List WhiteboardOperation) : Stream × Ordered :=
  let ordered := orderWhiteboardOperations stream.latestSequence stream.queued operations
  (⟨ordered.ready.foldl applyWhiteboardOperation stream.scene, ordered.latestSequence, ordered.queued⟩, ordered)

/-- The stream after a number of batches, and the operations that were applied. -/
def Stream.feed (stream : Stream) : List (List WhiteboardOperation) → Stream × List WhiteboardOperation
  | [] => (stream, [])
  | batch :: batches =>
    let (next, ordered) := stream.accept batch
    let (final, applied) := next.feed batches
    (final, ordered.ready ++ applied)

/-! ### The end of the loop -/

variable {state next : Draining} {queued : Queue} {sequence : Nat} {p : WhiteboardOperation → Prop}
  {a : WhiteboardOperation} {incoming : List WhiteboardOperation}

section Loop

theorem mem_authoritativeClear {clear : WhiteboardOperation} (h : authoritativeClear queued = some clear) :
    clear ∈ queued.values ∧ clear.kind = .boardClear := by
  have hmem := List.mem_of_mem_head? h
  rw [List.mem_insertionSort, List.mem_filter, decide_eq_true_eq] at hmem
  exact hmem

private theorem evict_fold (sequence : Nat) (l : List Nat) : ∀ queued : Queue,
    (∀ k a, (l.foldl (fun queued key => if key ≤ sequence then queued.erase key else queued) queued).get? k = some a ↔
      queued.get? k = some a ∧ ¬ (k ∈ l ∧ k ≤ sequence)) ∧
    (l.foldl (fun queued key => if key ≤ sequence then queued.erase key else queued) queued).size ≤ queued.size := by
  induction l with
  | nil => intro queued; simp
  | cons key l ih =>
    intro queued
    rw [List.foldl_cons]
    by_cases hle : key ≤ sequence
    · rw [if_pos hle]
      obtain ⟨hget, hsize⟩ := ih (queued.erase key)
      refine ⟨fun k a => ?_, hsize.trans (OrderedMap.size_erase_le queued key)⟩
      rw [hget, OrderedMap.get?_erase]
      by_cases hk : key = k
      · subst hk
        simp [hle]
      · rw [if_neg hk]
        simp [show ¬ k = key from fun h => hk h.symm]
    · rw [if_neg hle]
      obtain ⟨hget, hsize⟩ := ih queued
      refine ⟨fun k a => ?_, hsize⟩
      rw [hget]
      by_cases hk : key = k
      · subst hk
        simp [hle]
      · simp [show ¬ k = key from fun h => hk h.symm]

/-- What is left after a clear is what comes after it. -/
theorem get?_evict {k : Nat} :
    (evict sequence queued).get? k = some a ↔ queued.get? k = some a ∧ sequence < k := by
  unfold evict
  rw [(evict_fold sequence queued.keys queued).1]
  constructor
  · rintro ⟨hget, hnot⟩
    have hmem : k ∈ queued.keys := OrderedMap.mem_keys_iff.2 ⟨a, hget⟩
    exact ⟨hget, by by_contra hle; exact hnot ⟨hmem, by omega⟩⟩
  · rintro ⟨hget, hlt⟩
    exact ⟨hget, fun h => by omega⟩

theorem size_evict_lt {k : Nat} (hk : k ∈ queued.keys) (hle : k ≤ sequence) :
    (evict sequence queued).size < queued.size := by
  have hsub : (evict sequence queued).keys ⊆ (queued.erase k).keys := by
    intro k' hk'
    obtain ⟨a, ha⟩ := OrderedMap.mem_keys_iff.1 hk'
    obtain ⟨hget, hlt⟩ := get?_evict.1 ha
    exact OrderedMap.mem_keys_erase.2 ⟨OrderedMap.mem_keys_iff.2 ⟨a, hget⟩, by omega⟩
  have hcard := (List.subperm_of_subset (evict sequence queued).keys_nodup hsub).length_le
  have hlt := OrderedMap.size_erase_lt hk
  rw [OrderedMap.length_keys, OrderedMap.length_keys] at hcard
  omega

/-- Operations stand under their own sequence. -/
def Filed (queued : Queue) : Prop := ∀ k a, queued.get? k = some a → a.sequence = k

/-- What a round can do. -/
theorem round_cases (hfiled : Filed state.queued) (h : state.round = some next) :
    (∃ a, state.queued.get? (state.nextSequence + 1) = some a ∧ a.sequence = state.nextSequence + 1 ∧
      next = ⟨state.queued.erase a.sequence, state.ready ++ [a], a.sequence⟩) ∨
    (∃ a, state.queued.get? a.sequence = some a ∧ a.kind = .boardClear ∧
      next = ⟨evict a.sequence state.queued, state.ready ++ [a], a.sequence⟩) := by
  unfold Draining.round at h
  split at h
  · split at h
    · rename_i a hget
      exact Or.inl ⟨a, hget, hfiled _ _ hget, (Option.some.inj h).symm⟩
    · split at h
      · rename_i a hclear
        obtain ⟨hmem, hkind⟩ := mem_authoritativeClear hclear
        obtain ⟨k, hget⟩ := OrderedMap.mem_values.1 hmem
        have hk := hfiled k a hget
        subst hk
        exact Or.inr ⟨a, hget, hkind, (Option.some.inj h).symm⟩
      · cases h
  · cases h

theorem Filed.round (hfiled : Filed state.queued) (h : state.round = some next) :
    Filed next.queued ∧ next.queued.size < state.queued.size := by
  rcases round_cases hfiled h with ⟨a, hget, hsequence, rfl⟩ | ⟨a, hget, -, rfl⟩
  · refine ⟨fun k b hb => ?_, ?_⟩
    · rw [OrderedMap.get?_erase] at hb
      split at hb
      · cases hb
      · exact hfiled k b hb
    · apply OrderedMap.size_erase_lt
      rw [hsequence]
      exact OrderedMap.mem_keys_iff.2 ⟨a, hget⟩
  · refine ⟨fun k b hb => hfiled k b (get?_evict.1 hb).1, ?_⟩
    exact size_evict_lt (OrderedMap.mem_keys_iff.2 ⟨a, hget⟩) (le_refl _)

/-- The rounds that the size of the queue allows are enough. -/
theorem drain_ends {rounds : Nat} : ∀ {state : Draining}, Filed state.queued → state.queued.size ≤ rounds →
    (state.drain rounds).round = none := by
  induction rounds with
  | zero =>
    intro state _ hsize
    unfold Draining.drain Draining.round
    rw [if_neg (by omega)]
  | succ rounds ih =>
    intro state hfiled hsize
    unfold Draining.drain
    cases hround : state.round with
    | none => exact hround
    | some next =>
      obtain ⟨hfiled', hlt⟩ := hfiled.round hround
      exact ih hfiled' (by omega)

/-- What holds of all queued and all incoming operations holds of those that are ready and of those that are left. -/
private theorem round_forall (h : state.round = some next) (hqueued : ∀ k a, state.queued.get? k = some a → p a)
    (hready : ∀ a ∈ state.ready, p a) :
    (∀ k a, next.queued.get? k = some a → p a) ∧ ∀ a ∈ next.ready, p a := by
  have hsnoc : ∀ a, p a → ∀ b ∈ state.ready ++ [a], p b := by
    intro a ha b hb
    rcases List.mem_append.1 hb with hb | hb
    · exact hready b hb
    · rw [List.mem_singleton.1 hb]
      exact ha
  unfold Draining.round at h
  split at h
  · split at h
    · rename_i a hget
      rw [← Option.some.inj h]
      refine ⟨fun k b hb => ?_, hsnoc a (hqueued _ _ hget)⟩
      rw [OrderedMap.get?_erase] at hb
      split at hb
      · cases hb
      · exact hqueued k b hb
    · split at h
      · rename_i a hclear
        obtain ⟨k, hget⟩ := OrderedMap.mem_values.1 (mem_authoritativeClear hclear).1
        rw [← Option.some.inj h]
        exact ⟨fun k b hb => hqueued k b (get?_evict.1 hb).1, hsnoc a (hqueued _ _ hget)⟩
      · cases h
  · cases h

private theorem drain_forall {rounds : Nat} : ∀ {state : Draining},
    (∀ k a, state.queued.get? k = some a → p a) → (∀ a ∈ state.ready, p a) →
    (∀ k a, (state.drain rounds).queued.get? k = some a → p a) ∧ ∀ a ∈ (state.drain rounds).ready, p a := by
  induction rounds with
  | zero => intro state hqueued hready; exact ⟨hqueued, hready⟩
  | succ rounds ih =>
    intro state hqueued hready
    unfold Draining.drain
    cases hround : state.round with
    | none => exact ⟨hqueued, hready⟩
    | some next =>
      obtain ⟨hqueued', hready'⟩ := round_forall hround hqueued hready
      exact ih hqueued' hready'

private theorem enqueue_forall {latestSequence : Nat} (hincoming : ∀ a ∈ incoming, p a) : ∀ {queued : Queue},
    (∀ k a, queued.get? k = some a → p a) → ∀ k a, (enqueue latestSequence queued incoming).get? k = some a → p a := by
  induction incoming with
  | nil => intro queued h; exact h
  | cons b incoming ih =>
    intro queued h
    have hrest : ∀ a ∈ incoming, p a := fun a ha => hincoming a (by simp [ha])
    unfold enqueue
    rw [List.foldl_cons]
    split
    · refine ih hrest fun k a ha => ?_
      rw [OrderedMap.get?_set] at ha
      split at ha
      · rw [← Option.some.inj ha]
        exact hincoming b (by simp)
      · exact h k a ha
    · exact ih hrest h

theorem order_forall (latestSequence : Nat) (hqueued : ∀ k a, queued.get? k = some a → p a)
    (hincoming : ∀ a ∈ incoming, p a) :
    (∀ k a, (orderWhiteboardOperations latestSequence queued incoming).queued.get? k = some a → p a) ∧
      ∀ a ∈ (orderWhiteboardOperations latestSequence queued incoming).ready, p a := by
  unfold orderWhiteboardOperations
  exact drain_forall (enqueue_forall hincoming hqueued) fun a ha => (by cases ha)

end Loop

/-! ### The invariant -/

/-- The queue has operations of the log that come after `sequence`. -/
structure QueueInv (log : List WhiteboardOperation) (sequence : Nat) (queued : Queue) : Prop where
  filed : Filed queued
  log : ∀ k a, queued.get? k = some a → a ∈ log
  later : ∀ k a, queued.get? k = some a → sequence < k

/-- In the loop: the operations that are ready lead from the scene at `latest` to the one at `nextSequence`. -/
structure DrainInv (log : List WhiteboardOperation) (latest : Nat) (state : Draining) : Prop where
  queue : QueueInv log state.nextSequence state.queued
  bound : state.nextSequence ≤ log.length
  since : latest ≤ state.nextSequence
  ready : state.ready.foldl applyWhiteboardOperation (fold (log.take latest)) = fold (log.take state.nextSequence)
  between : ∀ a ∈ state.ready, latest < a.sequence ∧ a.sequence ≤ state.nextSequence
  increasing : state.ready.Pairwise fun a b => a.sequence < b.sequence

/-- Between two batches. -/
structure StreamInv (log : List WhiteboardOperation) (stream : Stream) : Prop where
  scene : stream.scene = fold (log.take stream.latestSequence)
  bound : stream.latestSequence ≤ log.length
  queue : QueueInv log stream.latestSequence stream.queued
  gap : ∀ k ∈ stream.queued.keys, stream.latestSequence + 1 < k

section Invariant

variable {log : List WhiteboardOperation}

/-- The scene at an operation of the log. -/
theorem fold_take (h : Numbered WhiteboardOperation.sequence 1 log) (ha : a ∈ log) :
    fold (log.take a.sequence) = applyWhiteboardOperation (fold (log.take (a.sequence - 1))) a := by
  have hpos := (h.bounds ha).1
  have htake := h.take_of_mem ha
  rw [show a.sequence - 1 + 1 = a.sequence by omega] at htake
  rw [htake, fold_append]
  rfl

theorem apply_clear (h : a.kind = .boardClear) (scene : WhiteboardScene) :
    applyWhiteboardOperation scene a = OrderedMap.empty := by
  unfold applyWhiteboardOperation
  rw [h]

theorem DrainInv.round (hlog : Numbered WhiteboardOperation.sequence 1 log) {latest : Nat}
    (h : DrainInv log latest state) (hround : state.round = some next) : DrainInv log latest next := by
  have hfiled := h.queue.filed
  have hsince := h.since
  -- an operation that comes next, and the queue that is left
  have key : ∀ (a : WhiteboardOperation) (queued : Queue), state.queued.get? a.sequence = some a →
      (∀ k b, queued.get? k = some b → state.queued.get? k = some b ∧ a.sequence < k) →
      applyWhiteboardOperation (fold (log.take state.nextSequence)) a = fold (log.take a.sequence) →
      DrainInv log latest ⟨queued, state.ready ++ [a], a.sequence⟩ := by
    intro a queued hget hqueued happly
    have hmem := h.queue.log _ _ hget
    have hlater := h.queue.later _ _ hget
    have hbounds := hlog.bounds hmem
    refine ⟨⟨?_, ?_, ?_⟩, show a.sequence ≤ log.length by omega, show latest ≤ a.sequence by omega, ?_, ?_, ?_⟩
    · exact fun k b hb => hfiled k b (hqueued k b hb).1
    · exact fun k b hb => h.queue.log k b (hqueued k b hb).1
    · exact fun k b hb => (hqueued k b hb).2
    · change (state.ready ++ [a]).foldl _ _ = _
      rw [List.foldl_append, h.ready]
      exact happly
    · intro b hb
      rcases List.mem_append.1 hb with hb | hb
      · have := h.between b hb
        exact ⟨this.1, show b.sequence ≤ a.sequence by omega⟩
      · rw [List.mem_singleton.1 hb]
        exact ⟨by omega, le_refl a.sequence⟩
    · change (state.ready ++ [a]).Pairwise _
      rw [List.pairwise_append]
      refine ⟨h.increasing, List.pairwise_singleton .., fun b hb c hc => ?_⟩
      have := (h.between b hb).2
      rw [List.mem_singleton.1 hc]
      omega
  rcases round_cases hfiled hround with ⟨a, hget, hsequence, rfl⟩ | ⟨a, hget, hclear, rfl⟩
  · rw [← hsequence] at hget
    refine key a _ hget (fun k b hb => ?_) ?_
    · rw [OrderedMap.get?_erase] at hb
      split at hb
      · cases hb
      · rename_i hne
        have := h.queue.later k b hb
        exact ⟨hb, by omega⟩
    · rw [fold_take hlog (h.queue.log _ _ hget), show a.sequence - 1 = state.nextSequence by omega]
  · refine key a _ hget (fun k b hb => get?_evict.1 hb) ?_
    rw [fold_take hlog (h.queue.log _ _ hget), apply_clear hclear, apply_clear hclear]

theorem DrainInv.drain (hlog : Numbered WhiteboardOperation.sequence 1 log) {latest : Nat}
    (h : DrainInv log latest state) (rounds : Nat) : DrainInv log latest (state.drain rounds) := by
  induction rounds generalizing state with
  | zero => exact h
  | succ rounds ih =>
    unfold Draining.drain
    cases hround : state.round with
    | none => exact h
    | some next => exact ih (h.round hlog hround)

/-- The loop ends with a gap before everything that is left. -/
theorem gap_of_round (hqueue : QueueInv log sequence state.queued) (hsequence : sequence = state.nextSequence)
    (h : state.round = none) :
    ∀ k ∈ state.queued.keys, state.nextSequence + 1 < k := by
  intro k hk
  obtain ⟨a, ha⟩ := OrderedMap.mem_keys_iff.1 hk
  have hlater := hqueue.later k a ha
  have hsize : 0 < state.queued.size := by
    rw [← OrderedMap.length_keys]
    exact List.length_pos_of_mem hk
  unfold Draining.round at h
  rw [if_pos hsize] at h
  split at h
  · cases h
  · rename_i hnone
    have hne : k ≠ state.nextSequence + 1 := by
      rintro rfl
      rw [hnone] at ha
      cases ha
    omega

theorem QueueInv.enqueue (hincoming : ∀ a ∈ incoming, a ∈ log) :
    ∀ {queued : Queue}, QueueInv log sequence queued → QueueInv log sequence (enqueue sequence queued incoming) := by
  induction incoming with
  | nil => intro queued h; exact h
  | cons a incoming ih =>
    intro queued h
    have hrest : ∀ b ∈ incoming, b ∈ log := fun b hb => hincoming b (by simp [hb])
    unfold OperationStream.enqueue
    rw [List.foldl_cons]
    split
    · rename_i hnew
      refine ih hrest ⟨fun k b hb => ?_, fun k b hb => ?_, fun k b hb => ?_⟩ <;>
        rw [OrderedMap.get?_set] at hb <;> split at hb
      · rename_i hk
        rw [← Option.some.inj hb]
        exact hk
      · exact h.filed k b hb
      · rw [← Option.some.inj hb]
        exact hincoming a (by simp)
      · exact h.log k b hb
      · rename_i hk
        have := hnew.1
        omega
      · exact h.later k b hb
    · exact ih hrest h

/-- One batch. -/
theorem StreamInv.accept (hlog : Numbered WhiteboardOperation.sequence 1 log) {stream : Stream}
    (h : StreamInv log stream) {batch : List WhiteboardOperation} (hbatch : ∀ a ∈ batch, a ∈ log) :
    StreamInv log (stream.accept batch).1 ∧ stream.latestSequence ≤ (stream.accept batch).1.latestSequence ∧
      (∀ a ∈ (stream.accept batch).2.ready, stream.latestSequence < a.sequence ∧
        a.sequence ≤ (stream.accept batch).1.latestSequence) ∧
      (stream.accept batch).2.ready.Pairwise fun a b => a.sequence < b.sequence := by
  have hqueue := h.queue.enqueue hbatch
  generalize hqueued : OperationStream.enqueue stream.latestSequence stream.queued batch = queued at hqueue
  have hstart : DrainInv log stream.latestSequence ⟨queued, [], stream.latestSequence⟩ :=
    ⟨hqueue, h.bound, le_refl _, rfl, fun a ha => (by cases ha), List.Pairwise.nil⟩
  have hend := hstart.drain hlog queued.size
  have hdone := drain_ends hstart.queue.filed (le_refl queued.size)
  have hready := hend.ready
  rw [← h.scene] at hready
  unfold Stream.accept orderWhiteboardOperations
  dsimp only
  rw [hqueued]
  exact ⟨⟨hready, hend.bound, hend.queue, gap_of_round hend.queue rfl hdone⟩, hend.since, hend.between, hend.increasing⟩

/-- Any number of batches. -/
theorem StreamInv.feed (hlog : Numbered WhiteboardOperation.sequence 1 log) {batches : List (List WhiteboardOperation)} :
    ∀ {stream : Stream}, StreamInv log stream → (∀ batch ∈ batches, ∀ a ∈ batch, a ∈ log) →
    StreamInv log (stream.feed batches).1 ∧ stream.latestSequence ≤ (stream.feed batches).1.latestSequence ∧
      (∀ a ∈ (stream.feed batches).2, stream.latestSequence < a.sequence ∧
        a.sequence ≤ (stream.feed batches).1.latestSequence) ∧
      (stream.feed batches).2.Pairwise fun a b => a.sequence < b.sequence := by
  induction batches with
  | nil =>
    intro stream h _
    exact ⟨h, le_refl _, fun a ha => (by cases ha), List.Pairwise.nil⟩
  | cons batch batches ih =>
    intro stream h hbatches
    obtain ⟨hnext, hle, hbetween, hincreasing⟩ := h.accept hlog (hbatches batch (by simp))
    obtain ⟨hfinal, hle', hbetween', hincreasing'⟩ := ih hnext fun b hb => hbatches b (by simp [hb])
    refine ⟨hfinal, hle.trans hle', ?_, ?_⟩
    · intro a ha
      rcases List.mem_append.1 ha with ha | ha
      · have := hbetween a ha
        exact ⟨this.1, this.2.trans hle'⟩
      · have := hbetween' a ha
        exact ⟨by omega, this.2⟩
    · apply List.pairwise_append.2
      refine ⟨hincreasing, hincreasing', fun a ha b hb => ?_⟩
      have h1 := (hbetween a ha).2
      have h2 := (hbetween' b hb).1
      omega

end Invariant

/-- Whatever arrives, after every batch the scene is that of the log up to `latestSequence`, which never falls; behind it
there is a gap if anything is queued, and no operation is applied twice. -/
theorem stream_in_order (log : List WhiteboardOperation) (hlog : Numbered WhiteboardOperation.sequence 1 log) (latest : Nat)
    (hlatest : latest ≤ log.length) (batches : List (List WhiteboardOperation)) (batch : List WhiteboardOperation)
    (hbatches : ∀ b ∈ batches, ∀ a ∈ b, a ∈ log) (hbatch : ∀ a ∈ batch, a ∈ log) :
    let before := (Stream.mk (fold (log.take latest)) latest OrderedMap.empty).feed batches
    let after := before.1.accept batch
    after.1.scene = fold (log.take after.1.latestSequence) ∧ after.1.latestSequence ≤ log.length ∧
      before.1.latestSequence ≤ after.1.latestSequence ∧
      (∀ k ∈ after.1.queued.keys, after.1.latestSequence + 1 < k) ∧
      (after.2.hasGap = false ↔ after.1.queued.entries = []) ∧
      (before.2 ++ after.2.ready).Pairwise fun a b => a.sequence < b.sequence := by
  have hstart : StreamInv log ⟨fold (log.take latest), latest, OrderedMap.empty⟩ := by
    refine ⟨rfl, hlatest, ⟨?_, ?_, ?_⟩, fun k hk => (by cases hk)⟩ <;> intro k a ha <;> cases ha
  obtain ⟨hbefore, -, hbetween, hincreasing⟩ := hstart.feed hlog hbatches
  obtain ⟨hafter, hle, hbetween', hincreasing'⟩ := hbefore.accept hlog hbatch
  refine ⟨hafter.scene, hafter.bound, hle, hafter.gap, ?_, ?_⟩
  · rw [← List.length_eq_zero_iff]
    generalize (Stream.mk (fold (log.take latest)) latest OrderedMap.empty).feed batches = before
    change decide (0 < (before.1.accept batch).1.queued.size) = false ↔ (before.1.accept batch).1.queued.size = 0
    rw [decide_eq_false_iff_not]
    omega
  · apply List.pairwise_append.2
    refine ⟨hincreasing, hincreasing', fun a ha b hb => ?_⟩
    have h1 := (hbetween a ha).2
    have h2 := (hbetween' b hb).1
    omega

/-- A clear among updates. -/
def clearedLog : List WhiteboardOperation :=
  [⟨"operation-1", 1, .sceneUpdate, []⟩, ⟨"operation-2", 2, .sceneUpdate, []⟩, ⟨"operation-3", 3, .boardClear, []⟩,
    ⟨"operation-4", 4, .sceneUpdate, []⟩, ⟨"operation-5", 5, .sceneUpdate, []⟩]

/-- The fifth and the first operation arrive, then the clear with the first one again. -/
theorem stream_in_order_cleared :
    let before := (Stream.mk (fold (clearedLog.take 0)) 0 OrderedMap.empty).feed
      [[⟨"operation-5", 5, .sceneUpdate, []⟩, ⟨"operation-1", 1, .sceneUpdate, []⟩]]
    let after := before.1.accept [⟨"operation-3", 3, .boardClear, []⟩, ⟨"operation-1", 1, .sceneUpdate, []⟩]
    after.1.scene = fold (clearedLog.take after.1.latestSequence) ∧ after.1.latestSequence = 3 ∧
      (before.2 ++ after.2.ready).map WhiteboardOperation.sequence = [1, 3] ∧ after.1.queued.keys = [5] := by
  have h := stream_in_order clearedLog rfl 0 (by decide)
    [[⟨"operation-5", 5, .sceneUpdate, []⟩, ⟨"operation-1", 1, .sceneUpdate, []⟩]]
    [⟨"operation-3", 3, .boardClear, []⟩, ⟨"operation-1", 1, .sceneUpdate, []⟩] (by decide) (by decide)
  exact ⟨h.1, by decide, by decide, by decide⟩

end KComms.Whiteboards
