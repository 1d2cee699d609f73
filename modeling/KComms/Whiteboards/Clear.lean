import KComms.Whiteboards.InitialLoad
import KComms.Whiteboards.Persistence

/-!
# A clear of one's own (`WhiteboardPersistence.clearBoard`)

The clear is applied twice: in its place in the log, like every other operation, and once more when the request is
answered, as an empty scene.  If the broadcast of the clear and of later operations has overtaken the answer, the second
time erases these operations from the scene, although `latestSequence` counts them.  Where the clear is the last operation
that the client can apply (`ClearedLast`), the scene is that of the log (`clear_keeps_log`).
-/

namespace KComms.Whiteboards.Persistence

open Consecutive (Numbered)
open OperationStream
open SceneModel (WhiteboardScene applyWhiteboardOperation fold)

/-! ### The condition -/

/-- The latest clear that the client knows when its own is acknowledged. -/
def knownClear (log : List WhiteboardOperation) (stream : Stream) (clear : WhiteboardOperation) : Nat :=
  lastClear (log.take stream.latestSequence ++ stream.queued.values ++ [clear])

/-- Nothing after that clear has been applied, and what follows it directly has not arrived. -/
structure ClearedLast (log : List WhiteboardOperation) (stream : Stream) (clear : WhiteboardOperation) : Prop where
  applied : stream.latestSequence ≤ knownClear log stream clear
  waiting : stream.queued.get? (knownClear log stream clear + 1) = none

variable {a : WhiteboardOperation} {queued : Queue}

section Accepting

variable {log : List WhiteboardOperation} {stream : Stream} {clear : WhiteboardOperation}

/-- The loop does not end before a clear. -/
theorem round_of_clear {state : Draining} {k : Nat} (ha : state.queued.get? k = some a)
    (hclear : a.kind = .boardClear) : state.round ≠ none := by
  have hvalue : a ∈ state.queued.values := OrderedMap.mem_values.2 ⟨k, ha⟩
  have hsize : 0 < state.queued.size := by
    rw [← OrderedMap.length_values]
    exact List.length_pos_of_mem hvalue
  have hfirst : authoritativeClear state.queued ≠ none := by
    unfold authoritativeClear
    intro hnone
    have hmem : a ∈ (state.queued.values.filter fun operation => operation.kind = .boardClear).insertionSort
        fun left right => left.sequence ≤ right.sequence := by
      rw [List.mem_insertionSort, List.mem_filter]
      exact ⟨hvalue, by simpa using hclear⟩
    rw [List.head?_eq_none_iff.1 hnone] at hmem
    cases hmem
  unfold Draining.round
  rw [if_pos hsize]
  split
  · simp
  · split
    · simp
    · rename_i hnone
      exact absurd hnone hfirst

/-- In the loop, from the queue `queued`: what comes later is still there, and the loop has stopped at an operation of the
queue or not moved. -/
structure Passing (queued : Queue) (latest : Nat) (state : Draining) : Prop where
  filed : Filed state.queued
  sub : ∀ k a, state.queued.get? k = some a → queued.get? k = some a
  rest : ∀ k a, queued.get? k = some a → state.nextSequence < k → state.queued.get? k = some a
  since : latest ≤ state.nextSequence
  last : state.nextSequence = latest ∨ ∃ a, queued.get? state.nextSequence = some a

theorem Passing.round {latest : Nat} {state next : Draining} (h : Passing queued latest state)
    (hlater : ∀ k a, state.queued.get? k = some a → state.nextSequence < k) (hround : state.round = some next) :
    Passing queued latest next ∧ state.nextSequence < next.nextSequence ∧
      ((∃ a, queued.get? (state.nextSequence + 1) = some a ∧ next.nextSequence = state.nextSequence + 1) ∨
        ∃ a, queued.get? next.nextSequence = some a ∧ a.kind = .boardClear) := by
  have hsince := h.since
  rcases round_cases h.filed hround with ⟨a, hget, hsequence, rfl⟩ | ⟨a, hget, hkind, rfl⟩
  · have hnext : queued.get? (state.nextSequence + 1) = some a := h.sub _ _ hget
    refine ⟨⟨(h.filed.round hround).1, ?_, ?_, ?_, ?_⟩, ?_, Or.inl ⟨a, hnext, hsequence⟩⟩
    · intro k b hb
      rw [OrderedMap.get?_erase] at hb
      split at hb
      · cases hb
      · exact h.sub k b hb
    · intro k b hb hk
      change a.sequence < k at hk
      rw [OrderedMap.get?_erase, if_neg (by omega)]
      exact h.rest k b hb (by omega)
    · show latest ≤ a.sequence
      omega
    · refine Or.inr ⟨a, ?_⟩
      show queued.get? a.sequence = some a
      rw [hsequence]
      exact hnext
    · show state.nextSequence < a.sequence
      omega
  · have hlt := hlater _ _ hget
    have hnext : queued.get? a.sequence = some a := h.sub _ _ hget
    refine ⟨⟨(h.filed.round hround).1, ?_, ?_, ?_, Or.inr ⟨a, hnext⟩⟩, hlt, Or.inr ⟨a, hnext, hkind⟩⟩
    · exact fun k b hb => h.sub k b (get?_evict.1 hb).1
    · intro k b hb hk
      exact get?_evict.2 ⟨h.rest k b hb (lt_trans hlt hk), hk⟩
    · show latest ≤ a.sequence
      omega

theorem Passing.drain (hlog : Numbered WhiteboardOperation.sequence 1 log) {latest c : Nat}
    (hclears : ∀ k a, queued.get? k = some a → a.kind = .boardClear → k ≤ c) (rounds : Nat) :
    ∀ {state : Draining}, DrainInv log latest state → Passing queued latest state →
      Passing queued latest (state.drain rounds) ∧
        (queued.get? (c + 1) = none → state.nextSequence ≤ c → (state.drain rounds).nextSequence ≤ c) := by
  induction rounds with
  | zero => intro state _ h; exact ⟨h, fun _ hle => hle⟩
  | succ rounds ih =>
    intro state hdrain h
    unfold Draining.drain
    cases hround : state.round with
    | none => exact ⟨h, fun _ hle => hle⟩
    | some next =>
      obtain ⟨hnext, -, hcase⟩ := h.round hdrain.queue.later hround
      obtain ⟨hend, hle⟩ := ih (hdrain.round hlog hround) hnext
      refine ⟨hend, fun hgap hstart => hle hgap ?_⟩
      rcases hcase with ⟨a, ha, hnumber⟩ | ⟨a, ha, hkind⟩
      · have hne : state.nextSequence ≠ c := by
          rintro rfl
          rw [hgap] at ha
          cases ha
        omega
      · exact hclears _ a ha hkind

/-- The queue with one more operation. -/
theorem get?_enqueue_one {latest k : Nat} {b : WhiteboardOperation} :
    (enqueue latest queued [a]).get? k = some b ↔
      queued.get? k = some b ∨ (k = a.sequence ∧ b = a ∧ latest < k ∧ queued.get? k = none) := by
  unfold enqueue
  rw [List.foldl_cons, List.foldl_nil]
  split
  · rename_i hnew
    obtain ⟨hlater, hhas⟩ := hnew
    have hnone : queued.get? a.sequence = none := OrderedMap.not_has_iff.1 hhas
    rw [OrderedMap.get?_set]
    split
    · rename_i hk
      rw [← hk, hnone]
      constructor
      · intro h
        exact Or.inr ⟨rfl, (Option.some.inj h).symm, hlater, rfl⟩
      · rintro (h | ⟨-, rfl, -⟩)
        · cases h
        · rfl
    · rename_i hk
      constructor
      · exact Or.inl
      · rintro (h | ⟨h, -⟩)
        · exact h
        · exact absurd h.symm hk
  · rename_i hold
    constructor
    · exact Or.inl
    · rintro (h | ⟨rfl, rfl, hlater, hnone⟩)
      · exact h
      · exact absurd ⟨hlater, OrderedMap.not_has_iff.2 hnone⟩ hold

/-- Two operations of the log under one number are one. -/
theorem eq_of_sequence (hlog : Numbered WhiteboardOperation.sequence 1 log) {b : WhiteboardOperation} (ha : a ∈ log)
    (hb : b ∈ log) (h : a.sequence = b.sequence) : a = b := List.inj_on_of_nodup_map hlog.nodup ha hb h

/-- The latest known clear is an operation of the log, and it is applied when the clear is accepted. -/
theorem knownClear_mem (hlog : Numbered WhiteboardOperation.sequence 1 log) (hqueue : QueueInv log stream.latestSequence
      stream.queued) (hclear : clear ∈ log) (hkind : clear.kind = .boardClear) :
    ∃ a ∈ log, a.kind = .boardClear ∧ a.sequence = knownClear log stream clear ∧
      (a ∈ log.take stream.latestSequence ∨ stream.queued.get? a.sequence = some a ∨ a = clear) := by
  have hlast : clear ∈ log.take stream.latestSequence ++ stream.queued.values ++ [clear] := by simp
  have hle := le_lastClear hlast hkind
  have hpos := (hlog.bounds hclear).1
  rcases lastClear_mem (log.take stream.latestSequence ++ stream.queued.values ++ [clear]) with h0 | ⟨a, ha, hakind, hseq⟩
  · omega
  · rcases List.mem_append.1 ha with ha | ha
    · rcases List.mem_append.1 ha with ha | ha
      · exact ⟨a, List.mem_of_mem_take ha, hakind, hseq, Or.inl ha⟩
      · obtain ⟨k, hk⟩ := OrderedMap.mem_values.1 ha
        have := hqueue.filed k a hk
        subst this
        exact ⟨a, hqueue.log _ _ hk, hakind, hseq, Or.inr (Or.inl hk)⟩
    · have := List.mem_singleton.1 ha
      subst this
      exact ⟨a, hclear, hakind, hseq, Or.inr (Or.inr rfl)⟩

theorem apply_update_ne (hkind : a.kind = .sceneUpdate) (helements : a.elements ≠ [])
    (scene : WhiteboardScene) : applyWhiteboardOperation scene a ≠ OrderedMap.empty := by
  unfold applyWhiteboardOperation
  rw [hkind]
  dsimp only
  rw [SceneModel.applyWhiteboardElements_eq]
  intro hempty
  obtain ⟨e, l, hcons⟩ := List.exists_cons_of_ne_nil helements
  have hmem : e.id ∈ (LatestWins.merge ElementData.id SceneModel.incomingWins scene a.elements).keys := by
    rw [LatestWins.mem_keys_merge, hcons]
    simp
  rw [hempty] at hmem
  cases hmem

/-- Accepting the own clear leaves an empty scene if it was the last operation, and only then if updates have elements. -/
theorem accept_clear (hlog : Numbered WhiteboardOperation.sequence 1 log) (h : StreamInv log stream)
    (hclear : clear ∈ log) (hkind : clear.kind = .boardClear) :
    (ClearedLast log stream clear → (stream.accept [clear]).1.scene = OrderedMap.empty) ∧
      ((∀ a ∈ log, a.kind = .sceneUpdate → a.elements ≠ []) →
        (stream.accept [clear]).1.scene = OrderedMap.empty → ClearedLast log stream clear) := by
  obtain ⟨hafter, hsince, -, -⟩ := h.accept hlog (show ∀ a ∈ [clear], a ∈ log by simpa using hclear)
  have hqueue := h.queue.enqueue (show ∀ a ∈ [clear], a ∈ log by simpa using hclear)
  obtain ⟨a, ha, hakind, haseq, hawhere⟩ := knownClear_mem hlog h.queue hclear hkind
  have hle : clear.sequence ≤ knownClear log stream clear := le_lastClear (by simp) hkind
  have hpos := (hlog.bounds ha).1
  -- clears in the queue are known
  have hclears : ∀ k b, (enqueue stream.latestSequence stream.queued [clear]).get? k = some b → b.kind = .boardClear →
      k ≤ knownClear log stream clear := by
    intro k b hb hbkind
    rcases get?_enqueue_one.1 hb with hb | ⟨rfl, -, -, -⟩
    · have hseq := h.queue.filed k b hb
      rw [← hseq]
      refine le_lastClear ?_ hbkind
      simp [OrderedMap.mem_values.2 ⟨k, hb⟩]
    · exact hle
  have hstart : DrainInv log stream.latestSequence
      ⟨enqueue stream.latestSequence stream.queued [clear], [], stream.latestSequence⟩ :=
    ⟨hqueue, h.bound, le_refl _, rfl, fun a ha => (by cases ha), List.Pairwise.nil⟩
  have hpass : Passing (enqueue stream.latestSequence stream.queued [clear]) stream.latestSequence
      ⟨enqueue stream.latestSequence stream.queued [clear], [], stream.latestSequence⟩ :=
    ⟨hqueue.filed, fun k b hb => hb, fun k b hb _ => hb, le_refl _, Or.inl rfl⟩
  obtain ⟨hend, hupper⟩ := hpass.drain hlog hclears (enqueue stream.latestSequence stream.queued [clear]).size hstart
  have hdone := drain_ends hstart.queue.filed (le_refl (enqueue stream.latestSequence stream.queued [clear]).size)
  have hscene := hafter.scene
  have hbound := hafter.bound
  have hgap := hafter.gap
  generalize hfinal : (Draining.mk (enqueue stream.latestSequence stream.queued [clear]) [] stream.latestSequence).drain
    (enqueue stream.latestSequence stream.queued [clear]).size = final at hend hupper hdone
  have hlatest : (stream.accept [clear]).1.latestSequence = final.nextSequence := by
    rw [← hfinal]
    rfl
  have hleft : (stream.accept [clear]).1.queued = final.queued := by
    rw [← hfinal]
    rfl
  rw [hscene]
  rw [hlatest] at hbound hgap hsince ⊢
  rw [hleft] at hgap
  -- the loop gets as far as the known clear
  have hlower : knownClear log stream clear ≤ final.nextSequence := by
    by_contra hlt
    have hqueued : (enqueue stream.latestSequence stream.queued [clear]).get? a.sequence = some a := by
      apply get?_enqueue_one.2
      rcases hawhere with htake | hget | rfl
      · have := (hlog.mem_take.1 htake).2
        omega
      · exact Or.inl hget
      · cases hget : stream.queued.get? a.sequence with
        | none => exact Or.inr ⟨rfl, rfl, by omega, rfl⟩
        | some b =>
          have hb := h.queue.filed _ b hget
          rw [eq_of_sequence hlog (h.queue.log _ b hget) ha hb]
          exact Or.inl rfl
    have := hend.rest _ a hqueued (by omega)
    exact round_of_clear this hakind hdone
  refine ⟨fun hlast => ?_, fun hupdates hempty => ?_⟩
  · have hwaiting : (enqueue stream.latestSequence stream.queued [clear]).get? (knownClear log stream clear + 1) = none := by
      cases hget : (enqueue stream.latestSequence stream.queued [clear]).get? (knownClear log stream clear + 1) with
      | none => rfl
      | some b =>
        rcases get?_enqueue_one.1 hget with hget | ⟨hk, -⟩
        · rw [hlast.waiting] at hget
          cases hget
        · omega
    have hequal : final.nextSequence = a.sequence := by
      have := hupper hwaiting hlast.applied
      omega
    rw [hequal, fold_take hlog ha, apply_clear hakind]
  · by_contra hnot
    have hpast : knownClear log stream clear < final.nextSequence := by
      by_contra hge
      refine hnot ⟨by omega, ?_⟩
      cases hget : stream.queued.get? (knownClear log stream clear + 1) with
      | none => rfl
      | some b =>
        have hrest := hend.rest _ b (get?_enqueue_one.2 (Or.inl hget)) (by omega)
        have := hgap _ (OrderedMap.mem_keys_iff.2 ⟨b, hrest⟩)
        omega
    obtain ⟨x, hx, hxseq⟩ := hlog.exists_of_mem (show 1 ≤ final.nextSequence by omega) (by omega)
    have hxkind : x.kind = .sceneUpdate := by
      cases hxkind : x.kind with
      | sceneUpdate => rfl
      | boardClear =>
        rcases hend.last with hstill | ⟨b, hb⟩
        · have hxtake : x ∈ log.take stream.latestSequence := hlog.mem_take.2 ⟨hx, by omega⟩
          have : x.sequence ≤ knownClear log stream clear := le_lastClear (by simp [hxtake]) hxkind
          omega
        · have hbx : b = x := eq_of_sequence hlog (hqueue.log _ b hb) hx ((hqueue.filed _ b hb).trans hxseq.symm)
          rw [hbx] at hb
          have := hclears _ x hb hxkind
          omega
    rw [← hxseq, fold_take hlog hx] at hempty
    exact apply_update_ne hxkind (hupdates x hx hxkind) _ hempty

end Accepting

/-! ### What a turn does to the scene -/

section Streams

variable {encodedBytes : ElementData → Nat} {uuid : Nat → String} {now : Nat} (c : Client)

@[simp] theorem stream_notifyPending : (notifyPending c).stream = c.stream := by
  unfold notifyPending
  split <;> rfl

@[simp] theorem stream_scheduleFlush : (scheduleFlush c).stream = c.stream := by
  unfold scheduleFlush
  split <;> rfl

@[simp] theorem stream_sealPending : (sealPending encodedBytes uuid now c).1.stream = c.stream := by
  unfold sealPending
  split
  · rfl
  · exact stream_notifyPending _

@[simp] theorem stream_flushPending : (flushPending c).stream = c.stream := by
  unfold flushPending
  split
  · rfl
  · split
    · rfl
    · exact stream_notifyPending _

@[simp] theorem stream_flushTimerFires : (flushTimerFires encodedBytes uuid now c).1.stream = c.stream := by
  unfold flushTimerFires
  dsimp only
  split <;> simp

@[simp] theorem stream_sendRefused (flush : Flush) (reason : Reason) : (sendRefused c flush reason).stream = c.stream := by
  unfold sendRefused
  split
  · rfl
  · split <;> dsimp only <;> split <;> rfl

@[simp] theorem stream_flushResumes (index : Nat) : (flushResumes c index).stream = c.stream := by
  unfold flushResumes
  dsimp only
  split
  · rfl
  · split <;> simp

@[simp] theorem stream_clearBoard : (clearBoard encodedBytes uuid now c).1.stream = c.stream := by
  unfold clearBoard
  split
  · rfl
  · exact stream_sealPending _

@[simp] theorem stream_endClear (index : Nat) : (endClear c index).stream = c.stream := by
  unfold endClear
  dsimp only
  split
  · exact stream_scheduleFlush _
  · rfl

@[simp] theorem stream_start : (start c).stream = c.stream := by
  unfold start
  dsimp only
  split
  · exact (stream_scheduleFlush _).trans (stream_notifyPending _)
  · exact stream_notifyPending _

theorem stream_handleAuthoritativeClear (clearedElements currentElements : List ElementData) :
    (handleAuthoritativeClear now c clearedElements currentElements).stream = c.stream := stream_notifyPending _

theorem stream_applyRemoteOperation (operation : WhiteboardOperation) :
    (applyRemoteOperation now c operation).stream =
      { c.stream with scene := applyWhiteboardOperation c.stream.scene operation } := by
  unfold applyRemoteOperation
  cases hkind : operation.kind with
  | sceneUpdate => rfl
  | boardClear => exact stream_handleAuthoritativeClear _ c.stream.scene.values []

theorem stream_applyRemoteOperations {ready : List WhiteboardOperation} : ∀ c : Client,
    (ready.foldl (applyRemoteOperation now) c).stream =
      { c.stream with scene := ready.foldl applyWhiteboardOperation c.stream.scene } := by
  induction ready with
  | nil => intro c; rfl
  | cons a ready ih =>
    intro c
    rw [List.foldl_cons, ih, stream_applyRemoteOperation]
    rfl

/-- The client accepts operations as the stream does. -/
theorem stream_acceptOperations (operations : List WhiteboardOperation) :
    (acceptOperations now c operations).stream = (c.stream.accept operations).1 := stream_applyRemoteOperations _

end Streams

/-- The answer to a clear of one's own. -/
def Event.acknowledges : Event → Bool
  | .clearReply _ (.ok _) => true
  | _ => false

/-- What a turn does to the stream. -/
theorem step_stream {encodedBytes : ElementData → Nat} {uuid : Nat → String} {now : Nat} {c c' : Client} {event : Event}
    {notes : List Note} (hstep : step encodedBytes uuid now c event = some (c', notes)) :
    (event.acknowledges = false ∧ c'.stream = c.stream) ∨
    (event.acknowledges = false ∧ ∃ scene e, c'.stream = { c.stream with scene := scene } ∧ Note.admitted e ∈ notes) ∨
    (∃ operations, event = .receive operations ∧ c'.stream = (c.stream.accept operations).1) ∨
    (∃ index operation, event = .reply index (.ok operation) ∧ c'.stream = (c.stream.accept [operation]).1) ∨
    ∃ index operation, event = .clearReply index (.ok operation) ∧
      c'.stream = { (c.stream.accept [operation]).1 with scene := OrderedMap.empty } := by
  have hquiet : ∀ {d : Client × List Note}, d = (c', notes) → d.1.stream = c.stream → c'.stream = c.stream := by
    rintro d rfl hstream
    exact hstream
  cases event with
  | editorChange elements =>
    have hresult := Option.some.inj hstep
    unfold handleEditorChange at hresult
    split at hresult
    · exact Or.inl ⟨rfl, hquiet hresult rfl⟩
    · dsimp only at hresult
      split at hresult
      · exact Or.inl ⟨rfl, hquiet hresult rfl⟩
      · rename_i hchanged
        generalize SceneModel.changedElements (supportedElements c.clearedRevisions elements).2 c.revisions = changed
          at hresult hchanged
        obtain ⟨hclient, hnotes⟩ := Prod.mk.inj hresult
        obtain ⟨e, he⟩ := List.exists_mem_of_ne_nil changed (mt List.length_eq_zero_iff.2 hchanged)
        have hstream : c'.stream =
            { c.stream with
              scene := changed.foldl (fun scene element => scene.set element.id element) c.stream.scene } := by
          rw [← hclient, stream_scheduleFlush]
          exact stream_notifyPending _
        have hadmitted : Note.admitted e ∈ notes := by
          rw [← hnotes]
          exact List.mem_map_of_mem he
        exact Or.inr (Or.inl ⟨rfl, _, e, hstream, hadmitted⟩)
  | armLocalChanges => exact Or.inl ⟨rfl, hquiet (Option.some.inj hstep) rfl⟩
  | frame => exact Or.inl ⟨rfl, hquiet (Option.some.inj hstep) rfl⟩
  | receive operations =>
    obtain ⟨rfl, -⟩ := Prod.mk.inj (Option.some.inj hstep)
    exact Or.inr (Or.inr (Or.inl ⟨operations, rfl, stream_acceptOperations _ _⟩))
  | flushTimer =>
    simp only [step] at hstep
    split at hstep
    · exact Or.inl ⟨rfl, hquiet (Option.some.inj hstep) (stream_flushTimerFires _)⟩
    · cases hstep
  | retryTimer =>
    simp only [step] at hstep
    split at hstep
    · exact Or.inl ⟨rfl, hquiet (Option.some.inj hstep) (stream_flushPending _)⟩
    · cases hstep
  | checkpoint => exact Or.inl ⟨rfl, hquiet (Option.some.inj hstep) (stream_sealPending _)⟩
  | saved saved => exact Or.inl ⟨rfl, hquiet (Option.some.inj hstep) rfl⟩
  | stored index =>
    simp only [step] at hstep
    split at hstep
    · refine Or.inl ⟨rfl, hquiet (Option.some.inj hstep) ?_⟩
      unfold sendStored
      split <;> rfl
    · cases hstep
  | reply index result =>
    simp only [step] at hstep
    split at hstep
    · cases result with
      | ok operation =>
        have hresult := Option.some.inj hstep
        unfold sendAccepted at hresult
        split at hresult
        · exact Or.inl ⟨rfl, hquiet hresult rfl⟩
        · obtain ⟨hclient, -⟩ := Prod.mk.inj hresult
          refine Or.inr (Or.inr (Or.inr (Or.inl ⟨index, operation, rfl, ?_⟩)))
          rw [← hclient]
          exact stream_acceptOperations _ _
      | error reason => exact Or.inl ⟨rfl, hquiet (Option.some.inj hstep) (stream_sendRefused _ _ _)⟩
    · cases hstep
  | resume index =>
    simp only [step] at hstep
    split at hstep
    · exact Or.inl ⟨rfl, hquiet (Option.some.inj hstep) (stream_flushResumes _ _)⟩
    · cases hstep
  | clearBoard => exact Or.inl ⟨rfl, hquiet (Option.some.inj hstep) (stream_clearBoard _)⟩
  | clearSend index =>
    simp only [step] at hstep
    split at hstep
    · split at hstep
      · exact Or.inl ⟨rfl, hquiet (Option.some.inj hstep) rfl⟩
      · cases hstep
    · cases hstep
  | clearReply index result =>
    simp only [step] at hstep
    split at hstep
    · cases result with
      | ok operation =>
        obtain ⟨hclient, -⟩ := Prod.mk.inj (Option.some.inj hstep)
        refine Or.inr (Or.inr (Or.inr (Or.inr ⟨index, operation, rfl, ?_⟩)))
        rw [← hclient, stream_endClear]
        unfold clearAccepted
        dsimp only
        rw [stream_handleAuthoritativeClear, stream_acceptOperations]
      | error reason => exact Or.inl ⟨rfl, hquiet (Option.some.inj hstep) (stream_endClear _ _)⟩
    · cases hstep
  | start => exact Or.inl ⟨rfl, hquiet (Option.some.inj hstep) (stream_start _)⟩
  | dispose => exact Or.inl ⟨rfl, hquiet (Option.some.inj hstep) (stream_sealPending _)⟩

/-! ### The client and the log -/

structure ClearSystem where
  log : List WhiteboardOperation
  client : Client
  /-- The clear of the client has been acknowledged, and no edit has been admitted since. -/
  cleared : Bool

/-- What reaches the client is in the log, and its clear is answered with a clear. -/
def Event.Served (log : List WhiteboardOperation) : Event → Prop
  | .receive operations => ∀ a ∈ operations, a ∈ log
  | .reply _ (.ok operation) => operation ∈ log
  | .clearReply _ (.ok operation) => operation ∈ log ∧ operation.kind = .boardClear
  | _ => True

def Note.admits : Note → Bool
  | .admitted _ => true
  | _ => false

def ClearSystem.afterTurn (cleared : Bool) (event : Event) (notes : List Note) : Bool :=
  event.acknowledges || (cleared && !notes.any Note.admits)

section System

variable (encodedBytes : ElementData → Nat) (uuid : Nat → String)

/-- A run in which `guard` holds whenever the client takes a turn.  The server may commit operations of anyone at any time;
broadcasts and answers may be late, lost, repeated or overtaken. -/
inductive ClearRun (guard : ClearSystem → Event → Prop) : ClearSystem → Prop
  | start (log : List WhiteboardOperation) (numbered : Numbered WhiteboardOperation.sequence 1 log)
      (client : Client) (latest : client.stream.latestSequence ≤ log.length)
      (queued : client.stream.queued = OrderedMap.empty) : ClearRun guard ⟨log, client, false⟩
  | commit {st : ClearSystem} (operation : WhiteboardOperation) (run : ClearRun guard st)
      (sequence : operation.sequence = st.log.length + 1) :
      ClearRun guard { st with log := st.log ++ [operation] }
  | turn {st : ClearSystem} (event : Event) (now : Nat) (client : Client) (notes : List Note) (run : ClearRun guard st)
      (served : event.Served st.log) (guarded : guard st event)
      (stepped : step encodedBytes uuid now st.client event = some (client, notes)) :
      ClearRun guard ⟨st.log, client, ClearSystem.afterTurn st.cleared event notes⟩

end System

/-- The clear is acknowledged only where it is the last operation. -/
def Acknowledges (st : ClearSystem) : Event → Prop
  | .clearReply _ (.ok operation) => ClearedLast st.log st.client.stream operation
  | _ => True

/-- The stream with the scene of the log. -/
def Stream.of (log : List WhiteboardOperation) (stream : Stream) : Stream :=
  { stream with scene := fold (log.take stream.latestSequence) }

structure ClearSystemInv (st : ClearSystem) : Prop where
  numbered : Numbered WhiteboardOperation.sequence 1 st.log
  stream : StreamInv st.log (Stream.of st.log st.client.stream)
  scene : st.cleared = true → st.client.stream = Stream.of st.log st.client.stream

section Runs

variable {log : List WhiteboardOperation} {stream : Stream}

theorem Stream.of_append (operation : WhiteboardOperation) (h : stream.latestSequence ≤ log.length) :
    Stream.of (log ++ [operation]) stream = Stream.of log stream := by
  unfold Stream.of
  rw [List.take_append_of_le_length h]

/-- The log grows. -/
theorem StreamInv.append {stream : Stream} (h : StreamInv log stream) (operation : WhiteboardOperation) :
    StreamInv (log ++ [operation]) stream := by
  have hbound := h.bound
  refine ⟨?_, ?_, ⟨h.queue.filed, fun k a ha => List.mem_append_left _ (h.queue.log k a ha), h.queue.later⟩, h.gap⟩
  · rw [List.take_append_of_le_length hbound]
    exact h.scene
  · rw [List.length_append]
    omega

/-- A batch of operations of the log, whatever the scene is. -/
theorem accept_of (hlog : Numbered WhiteboardOperation.sequence 1 log) (h : StreamInv log (Stream.of log stream))
    {batch : List WhiteboardOperation} (hbatch : ∀ a ∈ batch, a ∈ log) :
    StreamInv log (Stream.of log (stream.accept batch).1) ∧
      Stream.of log (stream.accept batch).1 = ((Stream.of log stream).accept batch).1 := by
  obtain ⟨hafter, -⟩ := h.accept hlog hbatch
  have hsame : Stream.of log (stream.accept batch).1 = ((Stream.of log stream).accept batch).1 := by
    have hscene := hafter.scene
    unfold Stream.of at hscene ⊢
    rw [Stream.mk.injEq]
    exact ⟨hscene.symm, rfl, rfl⟩
  rw [hsame]
  exact ⟨hafter, rfl⟩

theorem ClearSystemInv.accept {st : ClearSystem} (h : ClearSystemInv st) {batch : List WhiteboardOperation}
    (hbatch : ∀ a ∈ batch, a ∈ st.log) {client : Client} (hclient : client.stream = (st.client.stream.accept batch).1)
    {cleared : Bool} (hcleared : cleared = true → st.cleared = true) : ClearSystemInv ⟨st.log, client, cleared⟩ := by
  obtain ⟨hinv, hsame⟩ := accept_of h.numbered h.stream hbatch
  refine ⟨h.numbered, ?_, fun hc => ?_⟩
  · change StreamInv st.log (Stream.of st.log client.stream)
    rw [hclient]
    exact hinv
  · change client.stream = Stream.of st.log client.stream
    rw [hclient, hsame, ← h.scene (hcleared hc)]

theorem ClearRun.inv {encodedBytes : ElementData → Nat} {uuid : Nat → String} {st : ClearSystem}
    (h : ClearRun encodedBytes uuid Acknowledges st) : ClearSystemInv st := by
  induction h with
  | start log numbered client latest queued =>
    refine ⟨numbered, ⟨rfl, latest, ⟨?_, ?_, ?_⟩, ?_⟩, fun h => (by cases h)⟩
    · intro k a ha
      change client.stream.queued.get? k = some a at ha
      rw [queued] at ha
      cases ha
    · intro k a ha
      change client.stream.queued.get? k = some a at ha
      rw [queued] at ha
      cases ha
    · intro k a ha
      change client.stream.queued.get? k = some a at ha
      rw [queued] at ha
      cases ha
    · intro k hk
      change k ∈ client.stream.queued.keys at hk
      rw [queued] at hk
      cases hk
  | commit operation _ sequence ih =>
    have hbound := ih.stream.bound
    have hsame := Stream.of_append operation hbound
    refine ⟨?_, ?_, fun hc => ?_⟩
    · exact Consecutive.numbered_append.2 ⟨ih.numbered, by simp [Numbered, sequence, Nat.add_comm]⟩
    · exact hsame ▸ StreamInv.append ih.stream operation
    · exact hsame ▸ ih.scene hc
  | @turn st event now client notes _ served guarded stepped ih =>
    rcases step_stream stepped with ⟨hquiet, hsame⟩ | ⟨hquiet, scene, e, hscene, he⟩ | ⟨operations, rfl, hreceive⟩ |
      ⟨index, operation, rfl, hreply⟩ | ⟨index, operation, rfl, hclear⟩
    · refine ⟨ih.numbered, ?_, fun hc => ?_⟩
      · dsimp only
        rw [hsame]
        exact ih.stream
      · dsimp only at hc ⊢
        rw [hsame]
        unfold ClearSystem.afterTurn at hc
        rw [hquiet, Bool.false_or] at hc
        exact ih.scene (Bool.and_eq_true_iff.1 hc).1
    · refine ⟨ih.numbered, ?_, fun hc => ?_⟩
      · dsimp only
        rw [hscene]
        exact ih.stream
      · -- an edit has been admitted
        dsimp only at hc
        unfold ClearSystem.afterTurn at hc
        have hadmits : notes.any Note.admits = true := List.any_eq_true.2 ⟨_, he, rfl⟩
        rw [hquiet, hadmits] at hc
        simp at hc
    · exact ih.accept served hreceive fun h => (Bool.and_eq_true_iff.1 h).1
    · refine ih.accept ?_ hreply fun h => (Bool.and_eq_true_iff.1 h).1
      intro a ha
      rw [List.mem_singleton.1 ha]
      exact served
    · obtain ⟨hmem, hkind⟩ := served
      obtain ⟨hinv, hof⟩ := accept_of ih.numbered ih.stream (show ∀ a ∈ [operation], a ∈ st.log by simpa using hmem)
      obtain ⟨happlied, hwaiting⟩ := guarded
      have hempty := (accept_clear ih.numbered ih.stream hmem hkind).1 ⟨happlied, hwaiting⟩
      rw [← hof] at hempty
      have hstream : client.stream = Stream.of st.log client.stream := by
        rw [hclear]
        unfold Stream.of at hempty ⊢
        rw [Stream.mk.injEq]
        exact ⟨hempty.symm, rfl, rfl⟩
      refine ⟨ih.numbered, ?_, fun _ => hstream⟩
      dsimp only
      rw [hclear]
      exact hinv

end Runs

/-- In every run in which the clears of the client are acknowledged where they are the last operation, the scene is that of
the log from then on, until the client edits it. -/
theorem clear_keeps_log (encodedBytes : ElementData → Nat) (uuid : Nat → String) (st : ClearSystem)
    (hrun : ClearRun encodedBytes uuid Acknowledges st) (hcleared : st.cleared = true) :
    st.client.stream.scene = fold (st.log.take st.client.stream.latestSequence) ∧
      st.client.stream.latestSequence ≤ st.log.length := by
  have hinv := hrun.inv
  refine ⟨?_, hinv.stream.bound⟩
  have hscene := hinv.scene hcleared
  rw [hscene]
  rfl

/-- The state after a turn, if the client takes it. -/
def ClearSystem.turn (st : ClearSystem) (event : Event) : ClearSystem :=
  match step (fun _ => 100) toString 0 st.client event with
  | some (client, notes) => ⟨st.log, client, ClearSystem.afterTurn st.cleared event notes⟩
  | none => st

def ClearSystem.commit (st : ClearSystem) (operation : WhiteboardOperation) : ClearSystem :=
  { st with log := st.log ++ [operation] }

section Sample

variable {guard : ClearSystem → Event → Prop} {st : ClearSystem}

private theorem turn_sample (h : ClearRun (fun _ => 100) toString guard st) (event : Event) (served : event.Served st.log)
    (guarded : guard st event) : ClearRun (fun _ => 100) toString guard (st.turn event) := by
  unfold ClearSystem.turn
  cases hstep : step (fun _ => 100) toString 0 st.client event with
  | none => exact h
  | some result => exact .turn event 0 result.1 result.2 h served guarded hstep

/-- The clear of the client, and a rectangle that someone draws afterwards. -/
def ownClear : WhiteboardOperation := ⟨"operation-1", 1, .boardClear, []⟩

def laterUpdate : WhiteboardOperation :=
  ⟨"operation-2", 2, .sceneUpdate, [⟨"element-1", .rectangle, some 1, some 7, false, none, ""⟩]⟩

/-- The request for the clear has been sent, and the clear committed. -/
def clearing : ClearSystem :=
  (((ClearSystem.mk [] (Client.restored ⟨OrderedMap.empty, 0, OrderedMap.empty⟩ OrderedMap.empty OrderedMap.empty [])
    false).turn .clearBoard).turn (.clearSend 0)).commit ownClear

private theorem clearing_run (hguard : ∀ st, guard st .clearBoard ∧ guard st (.clearSend 0)) :
    ClearRun (fun _ => 100) toString guard clearing :=
  .commit ownClear
    (turn_sample (turn_sample (.start [] rfl _ (le_refl _) rfl) .clearBoard trivial (hguard _).1) (.clearSend 0) trivial
      (hguard _).2) rfl

end Sample

/-- The answer comes first, and then the rectangle. -/
theorem clear_keeps_log_answered :
    ((((clearing.turn (.clearReply 0 (.ok ownClear))).commit laterUpdate).turn (.receive [laterUpdate])).client.stream.scene
        = fold [ownClear, laterUpdate]) ∧
      ((((clearing.turn (.clearReply 0 (.ok ownClear))).commit laterUpdate).turn
        (.receive [laterUpdate])).client.stream.scene.keys = ["element-1"]) := by
  have hclearing : ClearRun (fun _ => 100) toString Acknowledges clearing :=
    clearing_run fun st => ⟨trivial, trivial⟩
  have hanswered := turn_sample hclearing (.clearReply 0 (.ok ownClear)) ⟨by decide, rfl⟩
    ⟨by decide, by decide⟩
  have hcommitted := ClearRun.commit laterUpdate hanswered (by decide)
  have hreceived := turn_sample hcommitted (.receive [laterUpdate])
    (List.forall_mem_singleton.2 (by decide)) trivial
  exact ⟨(clear_keeps_log _ _ _ hreceived (by decide)).1, by decide⟩

/-- The broadcasts of the clear and of the rectangle overtake the answer. -/
theorem clear_erases_later : ∃ st, ClearRun (fun _ => 100) toString (fun _ _ => True) st ∧ st.cleared = true ∧
    st.client.stream.latestSequence = 2 ∧
    st.client.stream.scene ≠ fold (st.log.take st.client.stream.latestSequence) := by
  have hclearing : ClearRun (fun _ => 100) toString (fun _ _ => True) clearing := clearing_run fun st => ⟨trivial, trivial⟩
  have hcommitted := ClearRun.commit laterUpdate hclearing (by decide)
  have hreceived := turn_sample hcommitted (.receive [ownClear, laterUpdate])
    (List.forall_mem_cons.2 ⟨by decide, List.forall_mem_singleton.2 (by decide)⟩) trivial
  have hanswered := turn_sample hreceived (.clearReply 0 (.ok ownClear)) ⟨by decide, rfl⟩ trivial
  exact ⟨_, hanswered, by decide, by decide, by decide⟩

end KComms.Whiteboards.Persistence
