import KComms.Telephony.IvrSelection
import KComms.Telephony.Lifecycle
import KComms.Telephony.PresenceDisorder

/-!
# The events of the app participant of an answered call (`Telephony.Lifecycle`)

What `callback` keeps of the events of the app participant is a `Presence`, as long as nothing else ends the call.
-/

namespace KComms.Telephony

def Call.presence (call : Call) : Presence where
  connected := call.appConnectedAt.isSome
  sid := call.appProviderSid
  eventAt := call.appEventAt
  pendingSid := call.appPendingSid
  pendingAt := call.appPendingAt

/-- An answered call that is connected by the app, before the first event of its participant is handled; the events
that come before the answer are joinings, and are handled in the same way. -/
structure Call.AnsweredByApp (call : Call) : Prop where
  answered : call.status = .answered
  identity : call.appIdentity ≠ none
  presence : call.presence = Presence.start
  connecting : call.appReconnectDeadline = none
  inRoom : call.controlState ≠ .transferred ∧ call.controlState ≠ .voicemail

/-- The event of the provider. -/
def AppEvent.provider (call : Call) (event : AppEvent) : ProviderEvent where
  eventId := event.id
  eventType := if event.leaves then .participantLeft else .participantJoined
  room := call.providerRoom
  participantIdentity := call.appIdentity
  participantSid := some event.sid
  sipParticipant := false
  providerCallId := none
  trunkId := none
  toNumber := none
  occurredAt := some event.occurredAt
  admissionEnabled := true

/-- A call and the events of its app participant that are recorded. -/
structure AppCall where
  record : CallRecord
  recorded : List AppEvent

/-- `callback`; the event is recorded before it is applied. -/
def AppCall.deliver (app : AppCall) (delivery : EventReads × AppEvent) : AppCall :=
  let seen := app.recorded.any (·.id = delivery.2.id)
  let recorded := if seen then app.recorded else delivery.2 :: app.recorded
  let reads := { delivery.1 with seen := seen, epochClosed := closedEpochs recorded }
  match callback reads (delivery.2.provider app.record.call) app.record with
  | some record => ⟨record, recorded⟩
  | none => app

def AppCall.run (app : AppCall) (deliveries : List (EventReads × AppEvent)) : AppCall := deliveries.foldl deliver app

/-- Nothing but its events ends the call: the access holds, no deadline has passed, and the caller is in the room. -/
structure EventReads.Undisturbed (reads : EventReads) (call : Call) : Prop where
  authorized : reads.authorized = true
  inTime : due reads.reads call = false
  inRoom : providerHandoff reads.reads call = false ∧ providerCapture reads.reads call = false

def AppCall.Undisturbed : AppCall → List (EventReads × AppEvent) → Prop
  | _, [] => True
  | app, delivery :: deliveries =>
    delivery.1.Undisturbed app.record.call ∧ (app.deliver delivery).Undisturbed deliveries

/-- However the events come, the participant ends connected just when some session has joined and not left. -/
def AppHistory.Agrees (history : AppHistory) (record : CallRecord) : Prop :=
  ∀ deliveries, history.Delivered (deliveries.map Prod.snd) → AppCall.Undisturbed ⟨record, []⟩ deliveries →
    ((AppCall.run ⟨record, []⟩ deliveries).record.call.appConnectedAt ≠ none ↔ history.Present)

/-! ### What a call keeps of the events -/

section

variable {reads : EventReads} {record record' : CallRecord} {sid : String} {occurredAt : Int}

private theorem stale_presence (call : Call) : staleAppEvent call occurredAt = call.presence.stale occurredAt := rfl

private theorem appJoined_presence : (appJoined reads record sid occurredAt).call.presence =
    record.call.presence.joined reads.epochClosed sid occurredAt := by
  unfold appJoined Presence.joined
  dsimp only
  rw [stale_presence]
  split
  · rfl
  have hconnected : (decide (record.call.appConnectedAt ≠ none) && decide (record.call.appEventAt = some occurredAt) &&
      decide (record.call.appProviderSid ≠ some sid)) = (record.call.presence.connected &&
      decide (record.call.presence.eventAt = some occurredAt) && decide (record.call.presence.sid ≠ some sid)) := by
    cases hat : record.call.appConnectedAt <;> simp [Call.presence, hat]
  rw [hconnected]
  split <;> rfl

/-- `appLeft`, for a call that is answered. -/
private def leftCall (reads : EventReads) (call : Call) (sid : String) (occurredAt : Int) : Call :=
  if call.appPendingSid = some sid then { call with appPendingSid := none, appPendingAt := none }
  else if staleAppEvent call occurredAt || call.appProviderSid ≠ some sid then call
  else if call.appPendingSid.any (!reads.epochClosed ·) then
    { call with
      appProviderSid := call.appPendingSid
      appEventAt := some (call.appPendingAt.elim occurredAt (max occurredAt))
      appLeftSid := some sid
      appConnectedAt := some reads.reads.now
      appReconnectDeadline := none
      appPendingSid := none
      appPendingAt := none }
  else
    { call with
      appConnectedAt := none
      appReconnectDeadline :=
        some (call.appReconnectDeadline.getD (earliestExpiry (reads.reads.now + seconds 30) (some call.expiresAt)))
      appLeftSid := some sid
      appEventAt := some occurredAt }

private theorem appLeft_answered (hanswered : record.call.status = .answered) :
    appLeft reads record sid occurredAt = { record with call := leftCall reads record.call sid occurredAt } := by
  unfold appLeft leftCall
  dsimp only
  by_cases hpending : record.call.appPendingSid = some sid
  · rw [if_pos hpending, if_pos hpending]
  rw [if_neg hpending, if_neg hpending]
  by_cases hstale : staleAppEvent record.call occurredAt = true
  · rw [if_pos hstale, hstale, Bool.true_or, if_pos rfl]
  rw [if_neg hstale, Bool.eq_false_iff.mpr hstale, Bool.false_or]
  have hringing : ¬ (decide (record.call.appProviderSid = none) && decide (record.call.status = .ringing)) = true := by
    simp [hanswered]
  rw [if_neg hringing]
  by_cases hsid : record.call.appProviderSid = some sid
  · have hsame : ¬ decide (record.call.appProviderSid ≠ some sid) = true := by simpa using hsid
    rw [if_neg (not_not_intro hsid), if_neg hsame]
    by_cases hopen : (record.call.appPendingSid.any (!reads.epochClosed ·)) = true
    · rw [if_pos hopen, if_pos hopen]
    · rw [if_neg hopen, if_neg hopen, if_neg (not_not_intro hanswered)]
  · rw [if_pos hsid, if_pos (by simpa using hsid)]

private theorem leftCall_presence (call : Call) :
    (leftCall reads call sid occurredAt).presence = call.presence.left reads.epochClosed sid occurredAt := by
  unfold leftCall Presence.left
  rw [stale_presence]
  by_cases hpending : call.appPendingSid = some sid
  · have hpending' : call.presence.pendingSid = some sid := hpending
    rw [if_pos hpending, if_pos hpending']
    rfl
  have hpending' : ¬ call.presence.pendingSid = some sid := hpending
  rw [if_neg hpending, if_neg hpending']
  show _ = if (call.presence.stale occurredAt || decide (call.appProviderSid ≠ some sid)) = true then _ else _
  split
  · rfl
  show _ = if (call.appPendingSid.any (!reads.epochClosed ·)) = true then _ else _
  split <;> rfl

private theorem appJoined_call : (appJoined reads record sid occurredAt).call.status = record.call.status ∧
    (appJoined reads record sid occurredAt).call.appIdentity = record.call.appIdentity := by
  unfold appJoined
  dsimp only
  split
  · exact ⟨rfl, rfl⟩
  split <;> exact ⟨rfl, rfl⟩

private theorem leftCall_call (call : Call) : (leftCall reads call sid occurredAt).status = call.status ∧
    (leftCall reads call sid occurredAt).appIdentity = call.appIdentity := by
  unfold leftCall
  split
  · exact ⟨rfl, rfl⟩
  split
  · exact ⟨rfl, rfl⟩
  split <;> exact ⟨rfl, rfl⟩

/-- What an event of the app participant does to the row of the call. -/
private def appEvent (reads : EventReads) (event : AppEvent) (record : CallRecord) : CallRecord :=
  if event.leaves then appLeft reads record event.sid event.occurredAt
  else appJoined reads record event.sid event.occurredAt

private theorem callback_app {event : AppEvent} (hseen : reads.seen = false)
    (hanswered : record.call.status = .answered) (hidentity : record.call.appIdentity ≠ none)
    (hundisturbed : reads.Undisturbed record.call)
    (hbounded : 0 < event.sid.utf8ByteSize ∧ event.sid.utf8ByteSize ≤ 200) :
    callback reads (event.provider record.call) record = some (appEvent reads event record) := by
  have hmatches : eventMatches record.call (event.provider record.call) = true := by
    simp [eventMatches, AppEvent.provider, hidentity]
  have hactive : record.call.active = true := by
    simp [Call.active, hanswered, CallStatus.active]
  have hepoch : appEpoch (event.provider record.call) = some (event.sid, event.occurredAt) := by
    simp [appEpoch, AppEvent.provider, hbounded]
  have hidentity' : (event.provider record.call).participantIdentity = record.call.appIdentity := rfl
  unfold callback
  dsimp only
  rw [hseen, hmatches, hactive, hundisturbed.inTime, hundisturbed.authorized, if_neg Bool.false_ne_true,
    if_neg (by decide), if_neg (by decide), if_neg Bool.false_ne_true, if_pos rfl]
  unfold applyEvent applyRoomEvent appEvent
  rw [hundisturbed.inRoom.1, hundisturbed.inRoom.2, Bool.or_self, Bool.false_and, if_neg Bool.false_ne_true]
  cases hleaves : event.leaves with
  | false =>
    have htype : (event.provider record.call).eventType = .participantJoined := by
      simp [AppEvent.provider, hleaves]
    rw [htype]
    dsimp only
    rw [if_pos hidentity', hepoch, Option.map_some, if_neg Bool.false_ne_true]
  | true =>
    have htype : (event.provider record.call).eventType = .participantLeft := by
      simp [AppEvent.provider, hleaves]
    rw [htype]
    dsimp only
    rw [if_pos hidentity', hepoch, Option.map_some, if_pos rfl]

private theorem callback_seen {event : ProviderEvent} (hseen : reads.seen = true) :
    callback reads event record = some record := by
  unfold callback
  dsimp only
  rw [hseen, if_pos rfl]

end

/-! ### The call follows its presence -/

private structure AppCall.Follows (app : AppCall) (state : PresenceState) : Prop where
  presence : app.record.call.presence = state.presence
  recorded : app.recorded = state.recorded
  answered : app.record.call.status = .answered
  identity : app.record.call.appIdentity ≠ none

section

variable {app : AppCall} {state : PresenceState} {delivery : EventReads × AppEvent}

private theorem deliver_eq (hanswered : app.record.call.status = .answered)
    (hidentity : app.record.call.appIdentity ≠ none) (hundisturbed : delivery.1.Undisturbed app.record.call)
    (hbounded : 0 < delivery.2.sid.utf8ByteSize ∧ delivery.2.sid.utf8ByteSize ≤ 200) :
    app.deliver delivery = if app.recorded.any (·.id = delivery.2.id) then app else
      ⟨appEvent { delivery.1 with seen := false, epochClosed := closedEpochs (delivery.2 :: app.recorded) }
        delivery.2 app.record, delivery.2 :: app.recorded⟩ := by
  unfold AppCall.deliver
  dsimp only
  cases hseen : app.recorded.any (·.id = delivery.2.id) with
  | true =>
    rw [callback_seen rfl, if_pos rfl]
    rfl
  | false =>
    have hreads : ({ delivery.1 with
        seen := false
        epochClosed := closedEpochs (delivery.2 :: app.recorded) } : EventReads).Undisturbed app.record.call :=
      ⟨hundisturbed.authorized, hundisturbed.inTime, hundisturbed.inRoom⟩
    rw [if_neg Bool.false_ne_true, callback_app rfl hanswered hidentity hreads hbounded]
    rfl

private theorem AppCall.Follows.deliver (h : app.Follows state) (hundisturbed : delivery.1.Undisturbed app.record.call)
    (hbounded : 0 < delivery.2.sid.utf8ByteSize ∧ delivery.2.sid.utf8ByteSize ≤ 200) :
    (app.deliver delivery).Follows (state.step delivery.2) := by
  rw [deliver_eq h.answered h.identity hundisturbed hbounded]
  unfold PresenceState.step
  rw [h.recorded]
  split
  · exact h
  unfold appEvent
  cases hleaves : delivery.2.leaves with
  | false =>
    rw [if_neg Bool.false_ne_true]
    refine ⟨?_, rfl, appJoined_call.1.trans h.answered, fun hnone => h.identity ?_⟩
    · refine appJoined_presence.trans ?_
      rw [h.presence]
      simp only [PresenceState.handle, Presence.apply, hleaves, if_neg Bool.false_ne_true]
    · exact appJoined_call.2.symm.trans hnone
  | true =>
    rw [if_pos rfl]
    rw [appLeft_answered h.answered]
    refine ⟨?_, rfl, (leftCall_call _).1.trans h.answered, fun hnone => h.identity ?_⟩
    · refine (leftCall_presence _).trans ?_
      rw [h.presence]
      simp only [PresenceState.handle, Presence.apply, hleaves, if_pos]
    · exact (leftCall_call _).2.symm.trans hnone

private theorem AppCall.Follows.run (h : app.Follows state) {deliveries : List (EventReads × AppEvent)}
    (hundisturbed : app.Undisturbed deliveries)
    (hbounded : ∀ event ∈ deliveries.map Prod.snd, 0 < event.sid.utf8ByteSize ∧ event.sid.utf8ByteSize ≤ 200) :
    (app.run deliveries).Follows (state.run (deliveries.map Prod.snd)) := by
  induction deliveries generalizing app state with
  | nil => exact h
  | cons delivery deliveries ih =>
    rw [List.map_cons, List.forall_mem_cons] at hbounded
    exact ih (h.deliver hundisturbed.1 hbounded.1) hundisturbed.2 hbounded.2

end

/-! ### Deliveries that nothing disturbs -/

/-- A delivery just before the call expires. -/
def quietReads (call : Call) : EventReads where
  reads :=
    { now := call.expiresAt - 1
      captureCommand := false
      handoffCommand := false
      captureLifecycle := .absent }
  seen := false
  authorized := true
  epochClosed := fun _ => false
  answerGrant := none
  maximumSeconds := 0

private structure Call.Quiet (now : Int) (call : Call) : Prop where
  inRoom : call.controlState ≠ .transferred ∧ call.controlState ≠ .voicemail
  inTime : now < call.expiresAt
  connecting : ∀ deadline ∈ call.appReconnectDeadline, now < deadline

section

variable {reads : EventReads} {record : CallRecord} {sid : String} {occurredAt : Int}

private theorem Call.Quiet.undisturbed {call call' : Call} (h : call.Quiet (call'.expiresAt - 1)) :
    (quietReads call').Undisturbed call := by
  have hcapture : providerCapture (quietReads call').reads call = false := by
    simp [providerCapture, quietReads, h.inRoom.2]
  have hhandoff : providerHandoff (quietReads call').reads call = false := by
    simp [providerHandoff, quietReads, h.inRoom.1]
  refine ⟨rfl, ?_, hhandoff, hcapture⟩
  unfold due expiryDeadline
  rw [if_neg h.inRoom.1, hcapture, hhandoff, if_neg Bool.false_ne_true, if_neg Bool.false_ne_true,
    decide_eq_false_iff_not]
  have hnow : (quietReads call').reads.now = call'.expiresAt - 1 := rfl
  have hinTime := h.inTime
  rw [hnow]
  cases hdeadline : call.appReconnectDeadline with
  | none =>
    show ¬ call.expiresAt ≤ _
    omega
  | some deadline =>
    have hconnecting := h.connecting deadline hdeadline
    simp only [earliestExpiry]
    split <;> omega

private theorem lt_earliestExpiry {now first second : Int} (hfirst : now < first) (hsecond : now < second) :
    now < earliestExpiry first (some second) := by
  simp only [earliestExpiry]
  split <;> assumption

private theorem appJoined_quiet (h : record.call.Quiet reads.reads.now) :
    (appJoined reads record sid occurredAt).call.Quiet reads.reads.now := by
  unfold appJoined
  dsimp only
  split
  · exact h
  split
  · exact ⟨h.inRoom, h.inTime, h.connecting⟩
  · refine ⟨h.inRoom, h.inTime, ?_⟩
    intro deadline hdeadline
    cases hdeadline

private theorem leftCall_quiet {call : Call} (h : call.Quiet reads.reads.now) :
    (leftCall reads call sid occurredAt).Quiet reads.reads.now := by
  unfold leftCall
  split
  · exact ⟨h.inRoom, h.inTime, h.connecting⟩
  split
  · exact h
  split
  · refine ⟨h.inRoom, h.inTime, ?_⟩
    intro deadline hdeadline
    cases hdeadline
  · refine ⟨h.inRoom, h.inTime, fun deadline hdeadline => ?_⟩
    cases hdeadline
    cases hknown : call.appReconnectDeadline with
    | some known => exact h.connecting known hknown
    | none =>
      rw [Option.getD_none]
      refine lt_earliestExpiry ?_ h.inTime
      unfold seconds
      omega

private theorem appEvent_quiet (reads : EventReads) {event : AppEvent} (hanswered : record.call.status = .answered)
    (h : record.call.Quiet reads.reads.now) : (appEvent reads event record).call.Quiet reads.reads.now := by
  unfold appEvent
  split
  · rw [appLeft_answered hanswered]
    exact leftCall_quiet h
  · exact appJoined_quiet h

private theorem undisturbed_quiet {app : AppCall} {state : PresenceState} {call : Call} (h : app.Follows state)
    (hquiet : app.record.call.Quiet (call.expiresAt - 1)) {events : List AppEvent}
    (hbounded : ∀ event ∈ events, 0 < event.sid.utf8ByteSize ∧ event.sid.utf8ByteSize ≤ 200) :
    app.Undisturbed (events.map fun event => (quietReads call, event)) := by
  induction events generalizing app state with
  | nil => exact trivial
  | cons event events ih =>
    rw [List.forall_mem_cons] at hbounded
    have hundisturbed : (quietReads call).Undisturbed app.record.call := hquiet.undisturbed
    refine ⟨hundisturbed, ih (h.deliver hundisturbed hbounded.1) ?_ hbounded.2⟩
    rw [deliver_eq h.answered h.identity hundisturbed hbounded.1]
    split
    · exact hquiet
    · exact appEvent_quiet { quietReads call with epochClosed := closedEpochs (event :: app.recorded) } h.answered hquiet

end

/-! ### The decision -/

section

variable {record : CallRecord} {history : AppHistory}

private theorem Call.AnsweredByApp.follows (h : record.call.AnsweredByApp) :
    AppCall.Follows ⟨record, []⟩ PresenceState.start :=
  ⟨h.presence, rfl, h.answered, h.identity⟩

private theorem Delivered.bounded {events : List AppEvent} (h : history.Delivered events) :
    ∀ event ∈ events, 0 < event.sid.utf8ByteSize ∧ event.sid.utf8ByteSize ≤ 200 := by
  intro event hevent
  obtain ⟨session, -, rfl | ⟨leave, -, rfl⟩⟩ := AppHistory.mem_events ((h event).1 hevent)
  · exact session.bounded
  · exact session.bounded

private theorem connected_iff {deliveries : List (EventReads × AppEvent)} (h : record.call.AnsweredByApp)
    (hdelivered : history.Delivered (deliveries.map Prod.snd))
    (hundisturbed : AppCall.Undisturbed ⟨record, []⟩ deliveries) :
    (AppCall.run ⟨record, []⟩ deliveries).record.call.appConnectedAt ≠ none ↔
      (PresenceState.start.run (deliveries.map Prod.snd)).presence.connected = true := by
  have hfollows := h.follows.run hundisturbed (Delivered.bounded hdelivered)
  rw [← hfollows.presence, ← Option.isSome_iff_ne_none]
  rfl

theorem AppHistory.agrees_iff (h : record.call.AnsweredByApp) : history.Agrees record ↔ history.Converges := by
  constructor
  · intro hagrees events hdelivered
    have hmap : (events.map fun event => (quietReads record.call, event)).map Prod.snd = events := by
      rw [List.map_map]
      exact List.map_id _
    have hquiet : record.call.Quiet (record.call.expiresAt - 1) := by
      refine ⟨h.inRoom, by omega, ?_⟩
      rw [h.connecting]
      intro deadline hdeadline
      cases hdeadline
    have hundisturbed : AppCall.Undisturbed ⟨record, []⟩ (events.map fun event => (quietReads record.call, event)) :=
      undisturbed_quiet h.follows hquiet (Delivered.bounded hdelivered)
    have hdelivered' := hdelivered
    rw [← hmap] at hdelivered'
    have hend := connected_iff h hdelivered' hundisturbed
    rw [hmap] at hend
    rw [← hend]
    exact hagrees _ hdelivered' hundisturbed
  · intro hconverges deliveries hdelivered hundisturbed
    rw [connected_iff h hdelivered hundisturbed]
    exact hconverges _ hdelivered

/-- Just the histories that settle end the same in every order. -/
theorem app_presence_order (record : CallRecord) (h : record.call.AnsweredByApp) (history : AppHistory) :
    history.Agrees record ↔ history.Settles := by
  rw [AppHistory.agrees_iff h]
  exact history.converges_iff

end

/-! ### A session that joins again -/

def sampleAnsweredCall : CallRecord where
  call :=
    { sampleCall with
      status := .answered
      appIdentity := some "kc_tel_app_1"
      answeredAt := some 0
      routingStatus := .individual }
  ivr := none

/-- The first session leaves at 3; the second joins at the given time and stays. -/
def sampleHistory (rejoinedAt : Int) : AppHistory where
  sessions :=
    [⟨"PA_1", by decide, "e-1", 1, some ("e-2", 3), by simp⟩,
      ⟨"PA_2", by decide, "e-3", rejoinedAt, none, by simp⟩]
  sids := by simp
  ids := by simp [AppSession.events, AppSession.joinEvent, AppSession.leaveEvent]

private theorem sampleAnsweredCall_answered : sampleAnsweredCall.call.AnsweredByApp := by
  refine ⟨rfl, ?_, rfl, rfl, ?_, ?_⟩ <;> decide

theorem app_presence_order_sample : (sampleHistory 5).Agrees sampleAnsweredCall := by
  refine (app_presence_order sampleAnsweredCall sampleAnsweredCall_answered (sampleHistory 5)).2 (.inl ?_)
  refine ⟨_, ⟨List.mem_cons_of_mem _ (List.mem_singleton_self _), rfl, ?_, ?_⟩, ?_⟩
  · simp [sampleHistory]
  · simp [sampleHistory]
  · intro session used leave hrelay hleft hnow other hother hclosed hjoined
    simp only [sampleHistory, List.mem_cons, List.not_mem_nil, or_false] at hother
    rcases hother with rfl | rfl
    · cases hjoined
    · exact absurd rfl hclosed

/-- The second session joins before the first one leaves, and is heard after it. -/
theorem late_join_is_taken_as_old : ¬ (sampleHistory 2).Agrees sampleAnsweredCall := by
  rw [AppHistory.agrees_iff sampleAnsweredCall_answered]
  intro hconverges
  have hend := hconverges [⟨"e-1", "PA_1", false, 1⟩, ⟨"e-2", "PA_1", true, 3⟩, ⟨"e-3", "PA_2", false, 2⟩] (by
    intro event
    simp [sampleHistory, AppHistory.events, AppSession.events, AppSession.joinEvent, AppSession.leaveEvent])
  have hpresent : (sampleHistory 2).Present := ⟨_, List.mem_cons_of_mem _ (List.mem_singleton_self _), rfl⟩
  have hconnected := hend.mpr hpresent
  revert hconnected
  decide

end KComms.Telephony
