import KComms.Feed.UseConversationRealtime

/-!
# Catch-up requests are never lost

Every range that was ever requested is covered by a catch-up that was completed and started later, by the one in flight
or by the pending request, unless a completed catch-up left a gap after it; and what is pending is about to be loaded.
-/

namespace KComms.Feed

/-! ### Ranges -/

/-- A sequence is in the range of a request. -/
def CatchUpRequest.Asks (request : CatchUpRequest) (sequence : Int) : Prop :=
  request.afterSequence < sequence ∧ ∀ before ∈ request.beforeSequence, sequence < before

def CatchUpRequest.Covers (request asked : CatchUpRequest) : Prop :=
  ∀ sequence, asked.Asks sequence → request.Asks sequence

variable {request : CatchUpRequest}

theorem CatchUpRequest.Covers.trans {a b c : CatchUpRequest} (hab : a.Covers b) (hbc : b.Covers c) : a.Covers c :=
  fun sequence h => hab sequence (hbc sequence h)

theorem CatchUpRequest.covers_refl (a : CatchUpRequest) : a.Covers a := fun _ h => h

/-- A merged request contains both ranges. -/
theorem merge_covers (current : CatchUpRequest) (incoming : CatchUpRequest) :
    (mergeCatchUpRequests (some current) incoming).Covers current ∧
      (mergeCatchUpRequests (some current) incoming).Covers incoming := by
  unfold mergeCatchUpRequests CatchUpRequest.Covers CatchUpRequest.Asks
  dsimp only
  constructor
  · rintro sequence ⟨hafter, hbefore⟩
    refine ⟨by omega, fun before hmem => ?_⟩
    split at hmem
    · rename_i first second hfirst hsecond
      have := hbefore first hfirst
      rw [Option.mem_some_iff] at hmem
      omega
    · cases hmem
  · rintro sequence ⟨hafter, hbefore⟩
    refine ⟨by omega, fun before hmem => ?_⟩
    split at hmem
    · rename_i first second hfirst hsecond
      have := hbefore second hsecond
      rw [Option.mem_some_iff] at hmem
      omega
    · cases hmem

theorem merge_covers_incoming (current : Option CatchUpRequest) (incoming : CatchUpRequest) :
    (mergeCatchUpRequests current incoming).Covers incoming := by
  cases current with
  | none => exact incoming.covers_refl
  | some current => exact (merge_covers current incoming).2

/-! ### What covers a request -/

/-- The catch-up in flight, and the number of notes before its start. -/
def Drain.flight : Drain → Option (CatchUpRequest × Nat)
  | .paging requestInFlight _ startedAt _ _ => some (requestInFlight, startedAt)
  | .caughtUp requestInFlight _ startedAt => some (requestInFlight, startedAt)
  | .rejected requestInFlight startedAt => some (requestInFlight, startedAt)
  | .settled _ => none

/-- The request that was noted at a place is not lost. -/
inductive Covered (history : List CatchUpNote) (pending : Option CatchUpRequest) (flight : Option (CatchUpRequest × Nat))
    (place : Nat) (asked : CatchUpRequest) : Prop
  | completed (request : CatchUpRequest) (startedAt : Nat) (noted : .completed request startedAt ∈ history)
      (later : place < startedAt) (covers : request.Covers asked)
  | inFlight (request : CatchUpRequest) (startedAt : Nat) (running : flight = some (request, startedAt))
      (later : place < startedAt) (covers : request.Covers asked)
  | pending (request : CatchUpRequest) (waits : pending = some request) (covers : request.Covers asked)
  | gapLeft (later : Nat) (noted : history[later]? = some .gapLeft) (after : place < later)

/-- No request is lost. -/
def AllCovered (history : List CatchUpNote) (pending : Option CatchUpRequest) (flight : Option (CatchUpRequest × Nat)) :
    Prop :=
  ∀ place asked, history[place]? = some (.requested asked) → Covered history pending flight place asked

section Covered

variable {history : List CatchUpNote} {pending : Option CatchUpRequest} {flight : Option (CatchUpRequest × Nat)}

private theorem requested_concat {note : CatchUpNote} {place : Nat} {asked : CatchUpRequest}
    (h : (history ++ [note])[place]? = some (.requested asked)) :
    history[place]? = some (.requested asked) ∨ place = history.length ∧ note = .requested asked := by
  rcases Nat.lt_trichotomy place history.length with hlt | heq | hgt
  · rw [List.getElem?_append_left hlt] at h
    exact .inl h
  · subst heq
    rw [List.getElem?_concat_length] at h
    exact .inr ⟨rfl, Option.some.inj h⟩
  · rw [List.getElem?_eq_none (by simp; omega)] at h
    cases h

private theorem gapLeft_concat {note : CatchUpNote} {place : Nat} (h : history[place]? = some .gapLeft) :
    (history ++ [note])[place]? = some .gapLeft := by
  obtain ⟨hlt, -⟩ := List.getElem?_eq_some_iff.1 h
  rw [List.getElem?_append_left hlt]
  exact h

/-- The range of a new request goes to the pending one. -/
theorem AllCovered.requested (h : AllCovered history pending flight) (request : CatchUpRequest) :
    AllCovered (history ++ [.requested request]) (some (mergeCatchUpRequests pending request)) flight := by
  intro place asked hplace
  rcases requested_concat hplace with hplace | ⟨-, hsame⟩
  · cases h place asked hplace with
    | completed found startedAt hnoted hlater hcovers =>
      exact .completed found startedAt (List.mem_append_left _ hnoted) hlater hcovers
    | inFlight found startedAt hrunning hlater hcovers => exact .inFlight found startedAt hrunning hlater hcovers
    | pending found hwaits hcovers =>
      rw [hwaits]
      exact .pending _ rfl ((merge_covers found request).1.trans hcovers)
    | gapLeft later hnoted hafter => exact .gapLeft later (gapLeft_concat hnoted) hafter
  · cases hsame
    exact .pending _ rfl (merge_covers_incoming pending request)

/-- A pending request may be taken and requested again. -/
theorem AllCovered.again (h : AllCovered history (some request) flight) :
    AllCovered (history ++ [.requested request]) (some request) flight := by
  intro place asked hplace
  rcases requested_concat hplace with hplace | ⟨-, hsame⟩
  · cases h place asked hplace with
    | completed found startedAt hnoted hlater hcovers =>
      exact .completed found startedAt (List.mem_append_left _ hnoted) hlater hcovers
    | inFlight found startedAt hrunning hlater hcovers => exact .inFlight found startedAt hrunning hlater hcovers
    | pending found hwaits hcovers => exact .pending found hwaits hcovers
    | gapLeft later hnoted hafter => exact .gapLeft later (gapLeft_concat hnoted) hafter
  · cases hsame
    exact .pending _ rfl request.covers_refl

/-- The pending request is started. -/
theorem AllCovered.started (h : AllCovered history (some request) none) :
    AllCovered history none (some (request, history.length)) := by
  intro place asked hplace
  obtain ⟨hlt, -⟩ := List.getElem?_eq_some_iff.1 hplace
  cases h place asked hplace with
  | completed found startedAt hnoted hlater hcovers => exact .completed found startedAt hnoted hlater hcovers
  | inFlight found startedAt hrunning _ _ => cases hrunning
  | pending found hwaits hcovers =>
    obtain rfl := Option.some.inj hwaits
    exact .inFlight request history.length rfl hlt hcovers
  | gapLeft later hnoted hafter => exact .gapLeft later hnoted hafter

theorem AllCovered.completed {startedAt : Nat} (h : AllCovered history pending (some (request, startedAt))) :
    AllCovered (history ++ [.completed request startedAt]) pending none := by
  intro place asked hplace
  rcases requested_concat hplace with hplace | ⟨-, hsame⟩
  · cases h place asked hplace with
    | completed found startedAt hnoted hlater hcovers =>
      exact .completed found startedAt (List.mem_append_left _ hnoted) hlater hcovers
    | inFlight found foundAt hrunning hlater hcovers =>
      obtain ⟨rfl, rfl⟩ := Prod.mk.inj (Option.some.inj hrunning)
      exact .completed request startedAt (List.mem_append_right _ List.mem_cons_self) hlater hcovers
    | pending found hwaits hcovers => exact .pending found hwaits hcovers
    | gapLeft later hnoted hafter => exact .gapLeft later (gapLeft_concat hnoted) hafter
  · cases hsame

/-- A gap that is left open is noted after all requests. -/
theorem allCovered_gapLeft (history : List CatchUpNote) (pending : Option CatchUpRequest)
    (flight : Option (CatchUpRequest × Nat)) : AllCovered (history ++ [.gapLeft]) pending flight := by
  intro place asked hplace
  rcases requested_concat hplace with hplace | ⟨-, hsame⟩
  · obtain ⟨hlt, -⟩ := List.getElem?_eq_some_iff.1 hplace
    exact .gapLeft history.length List.getElem?_concat_length hlt
  · cases hsame

/-- What has failed is pending again. -/
theorem AllCovered.failed {startedAt : Nat} (h : AllCovered history pending (some (request, startedAt))) :
    AllCovered history (some (mergeCatchUpRequests pending request)) none := by
  intro place asked hplace
  cases h place asked hplace with
  | completed found startedAt hnoted hlater hcovers => exact .completed found startedAt hnoted hlater hcovers
  | inFlight found foundAt hrunning _ hcovers =>
    obtain ⟨rfl, rfl⟩ := Prod.mk.inj (Option.some.inj hrunning)
    exact .pending _ rfl ((merge_covers_incoming pending request).trans hcovers)
  | pending found hwaits hcovers =>
    rw [hwaits]
    exact .pending _ rfl ((merge_covers found request).1.trans hcovers)
  | gapLeft later hnoted hafter => exact .gapLeft later hnoted hafter

end Covered

/-! ### The state of the page -/

namespace Realtime

variable {s : Realtime}

/-- The catch-up that runs. -/
def flight (s : Realtime) : Option (CatchUpRequest × Nat) := s.drains.head?.bind Drain.flight

/-- No request is lost in a state, whatever the drain is about to do. -/
def Remembers (s : Realtime) : Prop := AllCovered s.history s.feed.pendingCatchUpRequest s.flight

/-- A drain runs exactly while the flag is set, and only one. -/
inductive Single (s : Realtime) : Prop
  | idle (flag : s.catchUpInFlight = false) (drains : s.drains = [])
  | running (drain : Drain) (flag : s.catchUpInFlight = true) (drains : s.drains = [drain])

/-- What holds in every state. -/
structure Kept (s : Realtime) : Prop where
  single : s.Single
  remembers : s.Remembers
  drained : s.feed.pendingCatchUpRequest ≠ none → s.catchUpInFlight = true ∨ s.catchUpRetryTimer = true
  timer : s.catchUpRetryTimer = true → 0 < s.retryTimers

/-- The drain that an event is about is the only one. -/
theorem Single.drain {i : Nat} {drain : Drain} (h : s.Single) (hdrain : s.drains[i]? = some drain) :
    i = 0 ∧ s.drains = [drain] ∧ s.catchUpInFlight = true := by
  cases h with
  | idle hflag hdrains =>
    rw [hdrains] at hdrain
    cases hdrain
  | running found hflag hdrains =>
    rw [hdrains] at hdrain ⊢
    cases i with
    | zero =>
      rw [Option.some.inj hdrain]
      exact ⟨rfl, rfl, hflag⟩
    | succ i => cases hdrain

/-- What one round of the loop takes is in flight then. -/
theorem nextCatchUp_covered (h : AllCovered s.history s.feed.pendingCatchUpRequest none) :
    AllCovered s.nextCatchUp.1.history s.nextCatchUp.1.feed.pendingCatchUpRequest s.nextCatchUp.2.flight := by
  unfold nextCatchUp
  cases hpending : s.feed.pendingCatchUpRequest with
  | none =>
    rw [hpending] at h
    dsimp only
    rw [hpending]
    exact h
  | some requested =>
    rw [hpending] at h
    exact h.started

section NextCatchUp

@[simp] theorem nextCatchUp_drains (s : Realtime) : s.nextCatchUp.1.drains = s.drains := by
  unfold nextCatchUp
  split <;> rfl

@[simp] theorem nextCatchUp_catchUpInFlight (s : Realtime) :
    s.nextCatchUp.1.catchUpInFlight = s.catchUpInFlight := by
  unfold nextCatchUp
  split <;> rfl

@[simp] theorem nextCatchUp_catchUpRetryTimer (s : Realtime) :
    s.nextCatchUp.1.catchUpRetryTimer = s.catchUpRetryTimer := by
  unfold nextCatchUp
  split <;> rfl

@[simp] theorem nextCatchUp_history (s : Realtime) : s.nextCatchUp.1.history = s.history := by
  unfold nextCatchUp
  split <;> rfl

@[simp] theorem nextCatchUp_retryTimers (s : Realtime) : s.nextCatchUp.1.retryTimers = s.retryTimers := by
  unfold nextCatchUp
  split <;> rfl

end NextCatchUp

/-- A state with one drain is kept when nothing is lost. -/
theorem kept_running (drain : Drain) (hflag : s.catchUpInFlight = true) (hdrains : s.drains = [drain])
    (hcovered : AllCovered s.history s.feed.pendingCatchUpRequest drain.flight)
    (htimer : s.catchUpRetryTimer = true → 0 < s.retryTimers) : s.Kept := by
  refine ⟨.running drain hflag hdrains, ?_, fun _ => .inl hflag, htimer⟩
  unfold Remembers flight
  rw [hdrains]
  exact hcovered

theorem startDrain_kept (hflag : s.catchUpInFlight = true) (hdrains : s.drains = [])
    (h : AllCovered s.history s.feed.pendingCatchUpRequest none)
    (htimer : s.catchUpRetryTimer = true → 0 < s.retryTimers) : s.startDrain.Kept := by
  refine kept_running s.nextCatchUp.2 ?_ ?_ (nextCatchUp_covered h) ?_
  · show s.nextCatchUp.1.catchUpInFlight = true
    rw [nextCatchUp_catchUpInFlight]
    exact hflag
  · show s.nextCatchUp.1.drains ++ [s.nextCatchUp.2] = [s.nextCatchUp.2]
    rw [nextCatchUp_drains, hdrains, List.nil_append]
  · show s.nextCatchUp.1.catchUpRetryTimer = true → 0 < s.nextCatchUp.1.retryTimers
    rw [nextCatchUp_catchUpRetryTimer, nextCatchUp_retryTimers]
    exact htimer

/-- While a drain runs, a request only becomes pending. -/
theorem requestCatchUp_running (s : Realtime) (hflag : s.catchUpInFlight = true) (afterSequence : Int)
    (beforeSequence : Option Int) :
    s.requestCatchUp afterSequence beforeSequence =
      { s with feed := s.feed.requestCatchUp afterSequence beforeSequence }.note
        (.requested ⟨afterSequence, beforeSequence⟩) := by
  unfold Realtime.requestCatchUp
  dsimp only
  exact if_pos hflag

theorem requestCatchUp_idle (s : Realtime) (hflag : s.catchUpInFlight = false) (afterSequence : Int)
    (beforeSequence : Option Int) :
    s.requestCatchUp afterSequence beforeSequence =
      { { s with feed := s.feed.requestCatchUp afterSequence beforeSequence }.note
          (.requested ⟨afterSequence, beforeSequence⟩) with catchUpInFlight := true }.startDrain := by
  unfold Realtime.requestCatchUp
  dsimp only
  exact if_neg (by simp [note, hflag])

theorem Kept.requestCatchUp (h : s.Kept) (afterSequence : Int) (beforeSequence : Option Int) :
    (s.requestCatchUp afterSequence beforeSequence).Kept := by
  have hcovered := h.remembers.requested ⟨afterSequence, beforeSequence⟩
  cases h.single with
  | idle hflag hdrains =>
    rw [requestCatchUp_idle s hflag]
    refine startDrain_kept rfl hdrains ?_ h.timer
    unfold flight at hcovered
    rw [hdrains] at hcovered
    exact hcovered
  | running drain hflag hdrains =>
    rw [requestCatchUp_running s hflag]
    exact ⟨.running drain hflag hdrains, hcovered, fun _ => .inl hflag, h.timer⟩

/-- The feed may change where the requests are left alone. -/
theorem Kept.withFeed (h : s.Kept) (feed : ConversationFeed)
    (hpending : feed.pendingCatchUpRequest = s.feed.pendingCatchUpRequest) :
    ({ s with feed := feed } : Realtime).Kept := by
  refine ⟨?_, ?_, ?_, h.timer⟩
  · cases h.single with
    | idle hflag hdrains => exact .idle hflag hdrains
    | running drain hflag hdrains => exact .running drain hflag hdrains
  · show AllCovered s.history feed.pendingCatchUpRequest s.flight
    rw [hpending]
    exact h.remembers
  · show feed.pendingCatchUpRequest ≠ none → _
    rw [hpending]
    exact h.drained

theorem updateConversationSummaries_pending (feed : ConversationFeed) (incoming : List Message) :
    (feed.updateConversationSummaries incoming).pendingCatchUpRequest = feed.pendingCatchUpRequest := by
  unfold ConversationFeed.updateConversationSummaries
  dsimp only
  split <;> rfl

theorem Kept.receiveMessages (h : s.Kept) (incoming : List Message) : (s.receiveMessages incoming).Kept := by
  have hsummaries := h.withFeed _ (updateConversationSummaries_pending s.feed incoming)
  unfold Realtime.receiveMessages
  split
  · exact h
  · dsimp only
    split
    · exact hsummaries
    · -- counting and merging messages leaves the requests alone
      have hnoted := fun activeIncoming =>
        h.withFeed ((s.feed.updateConversationSummaries incoming).note activeIncoming)
          (updateConversationSummaries_pending s.feed incoming)
      split
      · exact ((hnoted _).requestCatchUp _ none).withFeed _ rfl
      · exact (hnoted _).withFeed _ rfl

/-- Messages leave a running drain where it is. -/
theorem receiveMessages_running (hflag : s.catchUpInFlight = true) (incoming : List Message) :
    (s.receiveMessages incoming).drains = s.drains ∧ (s.receiveMessages incoming).catchUpInFlight = true := by
  unfold Realtime.receiveMessages
  split
  · exact ⟨rfl, hflag⟩
  · dsimp only
    split
    · exact ⟨rfl, hflag⟩
    · split
      · have hrunning : ∀ feed : ConversationFeed,
            (Realtime.requestCatchUp feed.contiguousSequence none { s with feed := feed }).drains = s.drains ∧
              (Realtime.requestCatchUp feed.contiguousSequence none { s with feed := feed }).catchUpInFlight =
                true := by
          intro feed
          rw [requestCatchUp_running { s with feed := feed } hflag]
          exact ⟨rfl, hflag⟩
        exact hrunning _
      · exact ⟨rfl, hflag⟩

/-- The drain waits for something else, with the same catch-up in flight. -/
theorem Kept.waitsFor {drain drain' : Drain} (h : s.Kept) (hdrains : s.drains = [drain])
    (hflag : s.catchUpInFlight = true) (hflight : drain'.flight = drain.flight) : (s.waitsFor 0 drain').Kept := by
  refine kept_running drain' hflag ?_ ?_ h.timer
  · show s.drains.set 0 drain' = [drain']
    rw [hdrains]
    rfl
  · have hremembers := h.remembers
    unfold Remembers flight at hremembers
    rw [hdrains] at hremembers
    rw [hflight]
    exact hremembers

theorem Kept.pageAnswered (h : s.Kept) (i : Nat) (answer : Except Messaging.ReadError MessagePage) :
    (s.pageAnswered i answer).Kept := by
  unfold Realtime.pageAnswered
  split
  · rename_i requestInFlight before startedAt cursor pages hdrain
    obtain ⟨rfl, hdrains, hflag⟩ := h.single.drain hdrain
    cases answer with
    | error reason => exact h.waitsFor hdrains hflag rfl
    | ok page =>
      have hreceived := h.receiveMessages page.data
      obtain ⟨hdrains', hflag'⟩ := receiveMessages_running hflag page.data
      rw [hdrains] at hdrains'
      dsimp only
      split
      · exact hreceived.waitsFor hdrains' hflag' rfl
      · split
        · exact hreceived.waitsFor hdrains' hflag' rfl
        · split
          · exact hreceived.waitsFor hdrains' hflag' rfl
          · split
            · exact hreceived.waitsFor hdrains' hflag' rfl
            · exact hreceived.waitsFor hdrains' hflag' rfl
  · exact h

theorem Kept.roundEnds (h : s.Kept) (i : Nat) : (s.roundEnds i).Kept := by
  have hremembers := h.remembers
  unfold Realtime.roundEnds
  split
  · rename_i requestInFlight before startedAt hdrain
    obtain ⟨rfl, hdrains, hflag⟩ := h.single.drain hdrain
    unfold Remembers flight at hremembers
    rw [hdrains] at hremembers
    have hcompleted := hremembers.completed
    dsimp only
    split
    · -- the pending request is dropped with a note that a gap was left
      unfold scheduleReconnect Realtime.waitsFor
      refine kept_running (.settled false) ?_ ?_ ?_ ?_ <;> split
      · exact hflag
      · exact hflag
      · exact congrArg (List.set · 0 _) hdrains
      · exact congrArg (List.set · 0 _) hdrains
      · exact allCovered_gapLeft _ _ _
      · exact allCovered_gapLeft _ _ _
      · exact h.timer
      · exact h.timer
    · refine kept_running _ ?_ ?_ (nextCatchUp_covered hcompleted) ?_
      · exact (nextCatchUp_catchUpInFlight _).trans hflag
      · refine (congrArg (List.set · 0 _) (nextCatchUp_drains _)).trans ?_
        exact congrArg (List.set · 0 _) hdrains
      · show Realtime.catchUpRetryTimer (nextCatchUp _).1 = true → 0 < Realtime.retryTimers (nextCatchUp _).1
        rw [nextCatchUp_catchUpRetryTimer, nextCatchUp_retryTimers]
        exact h.timer
  · exact h

theorem Kept.drainFailed (h : s.Kept) (i : Nat) : (s.drainFailed i).Kept := by
  have hremembers := h.remembers
  unfold Realtime.drainFailed
  split
  · rename_i requestInFlight startedAt hdrain
    obtain ⟨rfl, hdrains, hflag⟩ := h.single.drain hdrain
    unfold Remembers flight at hremembers
    rw [hdrains] at hremembers
    refine kept_running (.settled true) hflag ?_ hremembers.failed h.timer
    show s.drains.set 0 (.settled true) = _
    rw [hdrains]
    rfl
  · exact h

/-- The pending request is taken and requested once more. -/
theorem retry_kept (hsingle : s.Single) (h : s.Remembers) : s.retry.Kept := by
  have hsingle' : ({ s with catchUpRetryTimer := false } : Realtime).Single := by
    cases hsingle with
    | idle hflag hdrains => exact .idle hflag hdrains
    | running drain hflag hdrains => exact .running drain hflag hdrains
  unfold Realtime.retry
  dsimp only
  cases hpending : s.feed.pendingCatchUpRequest with
  | none => exact ⟨hsingle', h, fun hne => absurd hpending hne, fun htimer => by cases htimer⟩
  | some pending =>
    unfold Remembers at h
    rw [hpending] at h
    have hagain := h.again
    dsimp only
    cases hsingle with
    | idle hflag hdrains =>
      rw [requestCatchUp_idle (Realtime.withPending { s with catchUpRetryTimer := false } none) hflag]
      refine startDrain_kept rfl hdrains ?_ fun htimer => by cases htimer
      unfold flight at hagain
      rw [hdrains] at hagain
      exact hagain
    | running drain hflag hdrains =>
      rw [requestCatchUp_running (Realtime.withPending { s with catchUpRetryTimer := false } none) hflag]
      exact ⟨.running drain hflag hdrains, hagain, fun _ => .inl hflag, fun htimer => by cases htimer⟩

theorem Kept.drainSettled (h : s.Kept) (i : Nat) : (s.drainSettled i).Kept := by
  have hremembers := h.remembers
  unfold Realtime.drainSettled
  split
  · rename_i failed hdrain
    obtain ⟨rfl, hdrains, -⟩ := h.single.drain hdrain
    unfold Remembers flight at hremembers
    rw [hdrains] at hremembers
    have hidle : s.drains.eraseIdx 0 = [] := by rw [hdrains]; rfl
    have hlast : AllCovered s.history s.feed.pendingCatchUpRequest
        ((s.drains.eraseIdx 0).head?.bind Drain.flight) := by
      rw [hidle]
      exact hremembers
    dsimp only
    split
    · rename_i hpending
      exact ⟨.idle rfl hidle, hlast, fun hne => absurd hpending hne, h.timer⟩
    · split
      · split
        · rename_i htimer
          exact ⟨.idle rfl hidle, hlast, fun _ => .inr htimer, h.timer⟩
        · exact ⟨.idle rfl hidle, hlast, fun _ => .inr rfl, fun _ => Nat.succ_pos _⟩
      · exact retry_kept (.idle rfl hidle) hlast
  · exact h

theorem Kept.next (h : s.Kept) (event : RealtimeEvent) : (s.next event).Kept := by
  have hother : ∀ (reconnectTimer : Bool) (reconnectAttempts : Nat),
      ({ s with reconnectTimer := reconnectTimer, reconnectAttempts := reconnectAttempts } : Realtime).Kept := by
    intro reconnectTimer reconnectAttempts
    refine ⟨?_, h.remembers, h.drained, h.timer⟩
    cases h.single with
    | idle hflag hdrains => exact .idle hflag hdrains
    | running drain hflag hdrains => exact .running drain hflag hdrains
  cases event with
  | requestCatchUp afterSequence beforeSequence => exact h.requestCatchUp afterSequence beforeSequence
  | receiveMessages incoming => exact h.receiveMessages incoming
  | pageAnswered i answer => exact h.pageAnswered i answer
  | roundEnds i => exact h.roundEnds i
  | drainFailed i => exact h.drainFailed i
  | drainSettled i => exact h.drainSettled i
  | retryFires =>
    unfold Realtime.next
    dsimp only
    split
    · refine retry_kept ?_ h.remembers
      cases h.single with
      | idle hflag hdrains => exact .idle hflag hdrains
      | running drain hflag hdrains => exact .running drain hflag hdrains
    · exact h
  | scheduleReconnect =>
    unfold Realtime.next scheduleReconnect
    dsimp only
    split
    · exact h
    · exact hother true _
  | reconnectFires => exact hother false _
  | live => exact hother _ 0

theorem opened_kept (feed : ConversationFeed) : (opened feed).Kept :=
  ⟨.idle rfl rfl, fun place asked hplace => absurd hplace (by simp [opened]), fun hne => absurd rfl hne,
    fun htimer => by cases htimer⟩

/-! ### What a step notes -/

/-- Every note of a list is a request. -/
def Requests (notes : List CatchUpNote) : Prop := ∀ note ∈ notes, ∃ request, note = .requested request

theorem requestCatchUp_history (s : Realtime) (afterSequence : Int) (beforeSequence : Option Int) :
    (s.requestCatchUp afterSequence beforeSequence).history =
      s.history ++ [.requested ⟨afterSequence, beforeSequence⟩] := by
  unfold Realtime.requestCatchUp startDrain
  dsimp only
  split
  · rfl
  · exact nextCatchUp_history _

theorem receiveMessages_history (s : Realtime) (incoming : List Message) :
    ∃ notes, (s.receiveMessages incoming).history = s.history ++ notes ∧ Requests notes := by
  have hnone : s.history = s.history ++ [] ∧ Requests [] := ⟨by simp, fun note hnote => by cases hnote⟩
  unfold Realtime.receiveMessages
  split
  · exact ⟨[], hnone⟩
  · dsimp only
    split
    · exact ⟨[], hnone⟩
    · split
      · refine ⟨_, requestCatchUp_history _ _ _, fun note hnote => ?_⟩
        exact ⟨_, List.mem_singleton.1 hnote⟩
      · exact ⟨[], hnone⟩

theorem retry_history (s : Realtime) : ∃ notes, s.retry.history = s.history ++ notes ∧ Requests notes := by
  unfold Realtime.retry
  dsimp only
  split
  · exact ⟨[], by simp, fun note hnote => by cases hnote⟩
  · refine ⟨_, requestCatchUp_history _ _ _, fun note hnote => ?_⟩
    exact ⟨_, List.mem_singleton.1 hnote⟩

theorem pageAnswered_history (s : Realtime) (i : Nat) (answer : Except Messaging.ReadError MessagePage) :
    ∃ notes, (s.pageAnswered i answer).history = s.history ++ notes ∧ Requests notes := by
  unfold Realtime.pageAnswered
  split
  · cases answer with
    | error reason => exact ⟨[], by simp [Realtime.waitsFor], fun note hnote => by cases hnote⟩
    | ok page =>
      obtain ⟨notes, hnotes, hrequests⟩ := receiveMessages_history s page.data
      refine ⟨notes, ?_, hrequests⟩
      rw [← hnotes]
      dsimp only
      split
      · rfl
      · split
        · rfl
        · split
          · rfl
          · split <;> rfl
  · exact ⟨[], by simp, fun note hnote => by cases hnote⟩

theorem drainFailed_history (s : Realtime) (i : Nat) : (s.drainFailed i).history = s.history := by
  unfold Realtime.drainFailed
  split <;> rfl

theorem drainSettled_history (s : Realtime) (i : Nat) :
    ∃ notes, (s.drainSettled i).history = s.history ++ notes ∧ Requests notes := by
  have hnone : s.history = s.history ++ [] ∧ Requests [] := ⟨by simp, fun note hnote => by cases hnote⟩
  unfold Realtime.drainSettled
  split
  · dsimp only
    split
    · exact ⟨[], hnone⟩
    · split
      · split
        · exact ⟨[], hnone⟩
        · exact ⟨[], hnone⟩
      · exact retry_history _
  · exact ⟨[], hnone⟩

/-- A completed catch-up that left a gap open without advancing, in the drain at a place. -/
def LeavesGap (s : Realtime) (i : Nat) (request : CatchUpRequest) (startedAt : Nat) : Prop :=
  s.drains[i]? = some (.caughtUp request s.feed.contiguousSequence startedAt) ∧ s.feed.futureSequences ≠ ∅

theorem roundEnds_history (s : Realtime) (i : Nat) :
    (s.roundEnds i).history = s.history ∨
      (∃ request startedAt, (s.roundEnds i).history = s.history ++ [.completed request startedAt]) ∨
      ∃ request startedAt, s.LeavesGap i request startedAt ∧
        (s.roundEnds i).history = s.history ++ [.completed request startedAt, .gapLeft] ∧
        (s.roundEnds i).reconnectTimer = true := by
  unfold Realtime.roundEnds
  split
  · rename_i requestInFlight before startedAt hdrain
    dsimp only
    split
    · rename_i hgap
      obtain ⟨hfuture, hbefore⟩ := hgap
      refine .inr (.inr ⟨requestInFlight, startedAt, ⟨?_, hfuture⟩, ?_, ?_⟩)
      · rw [hdrain, ← hbefore]
        rfl
      · unfold scheduleReconnect Realtime.waitsFor
        split <;> simp [note, withPending]
      · unfold scheduleReconnect Realtime.waitsFor
        split
        · assumption
        · rfl
    · refine .inr (.inl ⟨requestInFlight, startedAt, ?_⟩)
      exact nextCatchUp_history _
  · exact .inl rfl

/-- What a step adds to the history. -/
theorem next_history (s : Realtime) (event : RealtimeEvent) :
    (∃ notes, (s.next event).history = s.history ++ notes ∧ .gapLeft ∉ notes) ∨
      ∃ i request startedAt, s.LeavesGap i request startedAt ∧
        (s.next event).history = s.history ++ [.completed request startedAt, .gapLeft] ∧
        (s.next event).reconnectTimer = true := by
  have hrequests : ∀ {history : List CatchUpNote},
      (∃ notes, history = s.history ++ notes ∧ Requests notes) →
        ∃ notes, history = s.history ++ notes ∧ .gapLeft ∉ notes := by
    rintro history ⟨notes, hhistory, hnotes⟩
    refine ⟨notes, hhistory, fun hgap => ?_⟩
    obtain ⟨request, hrequest⟩ := hnotes _ hgap
    cases hrequest
  have hsame : ∀ {history : List CatchUpNote}, history = s.history →
      ∃ notes, history = s.history ++ notes ∧ .gapLeft ∉ notes :=
    fun h => ⟨[], by simp [h], by simp⟩
  cases event with
  | requestCatchUp afterSequence beforeSequence =>
    exact .inl ⟨_, requestCatchUp_history s afterSequence beforeSequence, by simp⟩
  | receiveMessages incoming => exact .inl (hrequests (receiveMessages_history s incoming))
  | pageAnswered i answer => exact .inl (hrequests (pageAnswered_history s i answer))
  | roundEnds i =>
    rcases roundEnds_history s i with h | ⟨request, startedAt, h⟩ | ⟨request, startedAt, h⟩
    · exact .inl (hsame h)
    · exact .inl ⟨_, h, by simp⟩
    · exact .inr ⟨i, request, startedAt, h⟩
  | drainFailed i => exact .inl (hsame (drainFailed_history s i))
  | drainSettled i => exact .inl (hrequests (drainSettled_history s i))
  | retryFires =>
    unfold Realtime.next
    dsimp only
    split
    · exact .inl (hrequests (retry_history _))
    · exact .inl (hsame rfl)
  | scheduleReconnect =>
    unfold Realtime.next scheduleReconnect
    dsimp only
    split
    · exact .inl (hsame rfl)
    · exact .inl (hsame rfl)
  | reconnectFires => exact .inl (hsame rfl)
  | live => exact .inl (hsame rfl)

/-! ### Runs -/

/-- The page after the events. -/
def after (feed : ConversationFeed) (events : List RealtimeEvent) : Realtime :=
  runCommands Realtime.next (.opened feed) events

theorem after_kept (feed : ConversationFeed) (events : List RealtimeEvent) : (after feed events).Kept :=
  runCommands_kept (fun _ event h => h.next event) (opened_kept feed)

/-- Every range that was requested is covered, unless a gap was left after it, and what is pending will be loaded; a
gap is only left by a completed catch-up that did not advance, and then a reconnect is scheduled. -/
theorem requests_never_lost (feed : ConversationFeed) (events : List RealtimeEvent) :
    (∀ place asked, (after feed events).history[place]? = some (.requested asked) →
      Covered (after feed events).history (after feed events).feed.pendingCatchUpRequest (after feed events).flight
        place asked) ∧
    (∀ current incoming, (mergeCatchUpRequests (some current) incoming).Covers current ∧
      (mergeCatchUpRequests (some current) incoming).Covers incoming) ∧
    (∀ event, (∃ notes, ((after feed events).next event).history = (after feed events).history ++ notes ∧
        .gapLeft ∉ notes) ∨
      ∃ i request startedAt, (after feed events).LeavesGap i request startedAt ∧
        ((after feed events).next event).history =
          (after feed events).history ++ [.completed request startedAt, .gapLeft] ∧
        ((after feed events).next event).reconnectTimer = true) ∧
    (after feed events).drains.length ≤ 1 ∧
    ((after feed events).feed.pendingCatchUpRequest ≠ none →
      (after feed events).drains ≠ [] ∨
        (after feed events).catchUpRetryTimer = true ∧ 0 < (after feed events).retryTimers) := by
  have hkept := after_kept feed events
  refine ⟨hkept.remembers, merge_covers, next_history _, ?_, fun hpending => ?_⟩
  · cases hkept.single with
    | idle hflag hdrains => simp [hdrains]
    | running drain hflag hdrains => simp [hdrains]
  · rcases hkept.drained hpending with hrunning | htimer
    · cases hkept.single with
      | idle hflag hdrains => exact absurd (hflag.symm.trans hrunning) (by simp)
      | running drain hflag hdrains => exact .inl (by simp [hdrains])
    · exact .inr ⟨htimer, hkept.timer htimer⟩

end Realtime

end KComms.Feed
