import KComms.Telephony.CallExclusive

/-!
# A finished room has no call (`Telephony.Lifecycle.callback`)

A room that finishes before its call is there leaves a tombstone, and a call that starts in it later starts ended; a
room that finishes later ends its call.  Either way (`RoomFinished`) no call of the room is active any more, as long as
the tombstone is kept.  A call whose leg the PBX holds does not end with its room (`CallRecord.Detached`).
-/

namespace KComms.Telephony

/-- The PBX holds the caller, after a transfer or for a voicemail. -/
def CallRecord.Detached (reads : CallReads) (record : CallRecord) : Prop :=
  providerHandoff reads record.call = true ∨ providerCapture reads record.call = true

def isUuid (id : String) : Bool := id.toList.all fun c => c.isDigit || ('a' ≤ c && c ≤ 'f') || c = '-'

/-- The id of a new call is a UUID. -/
def CallMove.GivesUuid : CallMove → Prop
  | .startOutbound _ _ _ new _ => isUuid new.id = true
  | .callback _ _ new _ => isUuid new.id = true
  | _ => True

/-- An event is handled before the time. -/
def CallMove.Before (time : Int) : CallMove → Prop
  | .callback _ _ new _ => new.now < time
  | _ => True

/-- There is a call of the room, and it is over. -/
structure RoomEnded (room : String) (calls : List CallRecord) : Prop where
  known : ∃ record ∈ calls, record.call.providerRoom = room
  ended : ∀ record ∈ calls, record.call.providerRoom = room → record.call.active = false

/-- There is no call of the room, and a tombstone with the expiry. -/
structure Tombstoned (hash room : String) (expiry : Int) (system : CallSystem) : Prop where
  unknown : ∀ record ∈ system.calls, record.call.providerRoom ≠ room
  kept : (hash, expiry) ∈ system.tombstones

/-! ### The event that finishes the room -/

variable {event : ProviderEvent} {record record' : CallRecord} {new : NewCall} {expiry : Int} {eventReads : EventReads}
  {tombstones : List (String × Int)}

private theorem changeCall_callback {tenantOf : String → String} {reads : RoutingReads} {calls : List CallRecord}
    {result : Unit} (h : changeCall tenantOf reads calls (.callback eventReads event) record = some (record', result)) :
    callback eventReads event record = some record' := by
  unfold changeCall at h
  rw [Option.bind_eq_some_iff] at h
  obtain ⟨changed, happly, h⟩ := h
  rw [Option.map_eq_some_iff] at h
  obtain ⟨row, hrow, hresult⟩ := h
  cases hresult
  unfold ownedRow at hrow
  split at hrow
  · cases hrow
    exact happly
  · cases hrow

private theorem finishUnanswered_ended (record : CallRecord) (reason : String) (now : Int) :
    (finishUnanswered record reason now).call.active = false :=
  unansweredOutcome_ended record.call reason

private theorem expireCall_ended (record : CallRecord) (now : Int) : (expireCall record now).call.active = false := by
  have hended := unansweredOutcome_ended record.call "ring_timeout"
  unfold expireCall
  generalize unansweredOutcome record.call "ring_timeout" = outcome at hended
  exact hended

private theorem callback_finished {reads : EventReads} (hfinish : event.eventType = .roomFinished)
    (hseen : reads.seen = false) (hattached : ¬ record.Detached reads.reads)
    (h : callback reads event record = some record') :
    record'.call.active = false := by
  unfold CallRecord.Detached at hattached
  rw [not_or, Bool.not_eq_true, Bool.not_eq_true] at hattached
  have hmatches : eventMatches record.call event = true := by
    simp [eventMatches, hfinish]
  unfold callback at h
  dsimp only at h
  rw [hseen, hmatches, if_neg Bool.false_ne_true, if_neg (by decide)] at h
  split at h
  · rename_i hinactive
    rw [Bool.not_eq_true'] at hinactive
    rw [if_neg (by rw [hfinish]; exact ProviderEventType.noConfusion)] at h
    cases h
    exact hinactive
  split at h
  · cases h
    exact expireCall_ended _ _
  split at h
  · unfold applyEvent applyRoomEvent at h
    rw [hattached.1, hattached.2, Bool.or_self, Bool.false_and, if_neg Bool.false_ne_true, hfinish] at h
    cases h
    exact finishUnanswered_ended _ _ _
  · cases h
    rfl

/-! ### New calls of a finished room -/

section

variable {tenantOf fingerprint : String → String} {reads : RoutingReads} {calls calls' : List CallRecord}

private theorem initialStatus_ended (event : ProviderEvent) (eligible busy : Bool) :
    (initialStatus event eligible true busy).active = false := by
  cases eligible <;> rfl

private theorem inbound_new {ended : Bool} (h : inbound tenantOf reads ended event new calls = some record) :
    record.call.providerRoom = event.room ∧ (ended = true → record.call.active = false) := by
  unfold inbound at h
  split at h
  · cases h
  dsimp only at h
  split at h
  · cases h
    refine ⟨rfl, ?_⟩
    rintro rfl
    exact initialStatus_ended _ _ _
  · cases h

private theorem insertCall_rows (h : insertCall tenantOf record calls = some calls') :
    calls' = record :: calls := by
  unfold insertCall at h
  split at h
  · cases h
  rw [Option.map_eq_some_iff] at h
  obtain ⟨row, hrow, rfl⟩ := h
  unfold ownedRow at hrow
  split at hrow
  · cases hrow
    rfl
  · cases hrow

/-- The rooms of outbound calls are not those of inbound calls. -/
private theorem outbound_room {id : String} (huuid : isUuid id = true) :
    ("kc_tel_" ++ compact id).startsWith "kc_tel_inbound_" = false := by
  rw [String.startsWith_string_eq_false_iff]
  intro hstart
  rw [String.toList_append, show "kc_tel_inbound_".toList = "kc_tel_".toList ++ "inbound_".toList by decide,
    List.prefix_append_right_inj] at hstart
  have hmem : 'i' ∈ (compact id).toList := hstart.subset (by decide)
  unfold compact at hmem
  rw [String.toList_ofList, List.mem_filter] at hmem
  unfold isUuid at huuid
  rw [List.all_eq_true] at huuid
  exact absurd (huuid 'i' hmem.1) (by decide)

private theorem startOutbound_new {grant : Grant} {destination key : String}
    (h : startOutbound tenantOf reads grant destination key new calls = some calls') :
    calls' = calls ∨ ∃ record : CallRecord, record.call.providerRoom = "kc_tel_" ++ compact new.id ∧
      calls' = record :: calls := by
  unfold startOutbound at h
  split at h
  · cases h
  split at h
  · cases h
  dsimp only at h
  split at h
  · split at h
    · cases h
      exact .inl rfl
    · cases h
  split at h
  · cases h
  · exact .inr ⟨_, rfl, insertCall_rows h⟩

/-- A change of a row brings no call into a room. -/
private theorem unknown_of_changed {room : String} {before after : List CallRecord}
    (hunknown : ∀ other ∈ before ++ record :: after, other.call.providerRoom ≠ room)
    (change : RowChange (before ++ record :: after) record record') :
    ∀ other ∈ before ++ record' :: after, other.call.providerRoom ≠ room := by
  refine forall_mem_replace hunknown ?_
  rw [change.room]
  exact hunknown record (List.mem_append_right _ List.mem_cons_self)

end

/-! ### A room that has ended -/

private theorem CallsChange.roomEnded {tenantOf : String → String} {calls calls' : List CallRecord} {room : String}
    (h : CallsChange tenantOf calls calls') (hended : RoomEnded room calls) : RoomEnded room calls' := by
  obtain ⟨⟨known, hknown, hroom⟩, hall⟩ := hended
  cases h with
  | kept => exact ⟨⟨known, hknown, hroom⟩, hall⟩
  | inserted record fresh freshRoom owned invariant takes =>
    refine ⟨⟨known, List.mem_cons_of_mem record hknown, hroom⟩, ?_⟩
    rw [List.forall_mem_cons]
    refine ⟨fun hrecord => ?_, hall⟩
    exact absurd (hroom.trans hrecord.symm) (freshRoom known hknown)
  | @changed before after record record' rows owned change =>
    subst rows
    have hrecord : record ∈ before ++ record :: after := List.mem_append_right _ List.mem_cons_self
    refine ⟨?_, forall_mem_replace hall fun hroom' => ?_⟩
    · by_cases hchanged : record.call.providerRoom = room
      · exact ⟨record', List.mem_append_right _ List.mem_cons_self, change.room.trans hchanged⟩
      · refine ⟨known, ?_, hroom⟩
        have hne : known ≠ record := by
          rintro rfl
          exact hchanged hroom
        simp only [List.mem_append, List.mem_cons, hne, false_or] at hknown ⊢
        exact hknown.imp_right Or.inr
    · have hinactive := hall record hrecord (change.room.symm.trans hroom')
      have hsame := change.inactive hinactive
      unfold Call.active at hinactive ⊢
      rw [hsame]
      exact hinactive

section

variable {tenantOf fingerprint : String → String} {system system' : CallSystem} {room : String}

private theorem run_roomEnded (howned : CallsInvariant tenantOf system.calls) (hended : RoomEnded room system.calls)
    (moves : List CallMove) : RoomEnded room (system.run tenantOf fingerprint moves).calls := by
  induction moves generalizing system with
  | nil => exact hended
  | cons move moves ih =>
    have hchange := system.step_calls fingerprint howned.owned move
    exact ih (hchange.invariant howned) (hchange.roomEnded hended)

/-! ### A room with a tombstone -/

private theorem roomEnded_of_kept {hash : String} {now : Int} (hkept : (hash, expiry) ∈ tombstones)
    (hnow : now < expiry) : roomEnded hash now tombstones = true := by
  unfold roomEnded
  rw [List.any_eq_true]
  exact ⟨_, hkept, by simpa using hnow⟩

private theorem tombstoneRoom_keeps {tombstones' : List (String × Int)} {hash other : String} {now : Int}
    (h : tombstoneRoom other now tombstones = some tombstones') (hkept : (hash, expiry) ∈ tombstones)
    (hnow : now < expiry) : (hash, expiry) ∈ tombstones' := by
  have hfilter : (hash, expiry) ∈ tombstones.filter fun tombstone => now < tombstone.2 := by
    rw [List.mem_filter]
    exact ⟨hkept, by simpa using hnow⟩
  unfold tombstoneRoom at h
  dsimp only at h
  split at h
  · cases h
    exact hfilter
  split at h
  · cases h
  · cases h
    exact List.mem_cons_of_mem _ hfilter

/-- The row that the first event of a room brings is of that room, and over if the room has ended. -/
private theorem firstEvent_new {reads : RoutingReads} {ended : Bool} {calls : List CallRecord}
    (hinbound : inbound tenantOf reads ended event new calls = some record)
    (hcallback : Telephony.callback eventReads event record = some record') :
    record'.call.providerRoom = event.room ∧ (ended = true → record'.call.active = false) := by
  obtain ⟨hroom, hinactive⟩ := inbound_new hinbound
  have happly : (CallCommand.callback eventReads event).apply record = some record' := hcallback
  have hchange : record.ChangesTo (fun _ => False) record' := apply_changes happly
  refine ⟨(CallChange.sameCall hchange).2.2.trans hroom, fun hended => ?_⟩
  have hsame : record'.call.status = record.call.status := (CallChange.inactive hchange (hinactive hended)).1
  have hbefore := hinactive hended
  unfold Call.active at hbefore ⊢
  rw [hsame]
  exact hbefore

private theorem callback_tombstoned {reads : RoutingReads} (hnow : new.now < expiry)
    (howned : ∀ record ∈ system.calls, record.Owned tenantOf) (hroom : Tombstoned (fingerprint room) room expiry system)
    (h : system.callback tenantOf fingerprint event eventReads new reads = some system') :
    Tombstoned (fingerprint room) room expiry system' ∨ RoomEnded room system'.calls := by
  unfold CallSystem.callback at h
  split at h
  · cases h
  split at h
  · rw [Option.map_eq_some_iff] at h
    obtain ⟨⟨rows, result⟩, hupdate, rfl⟩ := h
    obtain ⟨before, record, record', after, hrows, -, hchange, rfl⟩ := updateRow_eq_some hupdate
    have hrow := (changeCall_row howned hchange).2
    have hunknown := hroom.unknown
    rw [hrows] at hunknown hrow
    exact .inl ⟨unknown_of_changed hunknown hrow, hroom.kept⟩
  split at h
  · rw [Option.map_eq_some_iff] at h
    obtain ⟨tombstones, htombstones, rfl⟩ := h
    exact .inl ⟨hroom.unknown, tombstoneRoom_keeps htombstones hroom.kept hnow⟩
  · simp only [Option.bind_eq_bind, Option.bind_eq_some_iff] at h
    obtain ⟨record, hinbound, record', hcallback, calls', hinsert, h⟩ := h
    cases h
    obtain ⟨hnew, hinactive⟩ := firstEvent_new hinbound hcallback
    obtain rfl := insertCall_rows hinsert
    by_cases hsame : event.room = room
    · -- The call starts in the finished room, and starts ended.
      subst hsame
      refine .inr ⟨⟨record', List.mem_cons_self, hnew⟩, ?_⟩
      rw [List.forall_mem_cons]
      refine ⟨fun _ => hinactive (roomEnded_of_kept hroom.kept hnow), fun other hother hother' => ?_⟩
      exact absurd hother' (hroom.unknown other hother)
    · refine .inl ⟨?_, hroom.kept⟩
      rw [List.forall_mem_cons, hnew]
      exact ⟨hsame, hroom.unknown⟩

private theorem step_tombstoned (hinbound : room.startsWith "kc_tel_inbound_" = true)
    (howned : ∀ record ∈ system.calls, record.Owned tenantOf) (hroom : Tombstoned (fingerprint room) room expiry system)
    {move : CallMove} (huuid : move.GivesUuid) (hbefore : move.Before expiry) :
    Tombstoned (fingerprint room) room expiry (system.step tenantOf fingerprint move) ∨
      RoomEnded room (system.step tenantOf fingerprint move).calls := by
  unfold CallSystem.step
  cases h : move.apply tenantOf fingerprint system with
  | none => exact .inl hroom
  | some system' =>
    rw [Option.getD_some]
    cases move with
    | startOutbound grant destination key new reads =>
      simp only [CallMove.apply, Option.map_eq_some_iff] at h
      obtain ⟨calls', hstart, rfl⟩ := h
      rcases startOutbound_new hstart with rfl | ⟨record, hrecord, rfl⟩
      · exact .inl ⟨hroom.unknown, hroom.kept⟩
      · refine .inl ⟨?_, hroom.kept⟩
        rw [List.forall_mem_cons]
        refine ⟨fun hsame => ?_, hroom.unknown⟩
        rw [← hsame, hrecord, outbound_room huuid] at hinbound
        cases hinbound
    | callback event eventReads new reads => exact callback_tombstoned hbefore howned hroom h
    | command id command reads =>
      simp only [CallMove.apply, Option.map_eq_some_iff] at h
      obtain ⟨⟨rows, result⟩, hupdate, rfl⟩ := h
      obtain ⟨before, record, record', after, hrows, -, hchange, rfl⟩ := updateRow_eq_some hupdate
      have hrow := (changeCall_row howned hchange).2
      have hunknown := hroom.unknown
      rw [hrows] at hunknown hrow
      exact .inl ⟨unknown_of_changed hunknown hrow, hroom.kept⟩
    | ivr runId work ivrReads reads =>
      simp only [CallMove.apply, Option.map_eq_some_iff] at h
      obtain ⟨⟨rows, receipts⟩, hupdate, rfl⟩ := h
      obtain ⟨before, record, record', after, hrows, -, hchange, rfl⟩ := updateRow_eq_some hupdate
      have hrow := (changeRun_row howned hchange).2
      have hunknown := hroom.unknown
      rw [hrows] at hunknown hrow
      exact .inl ⟨unknown_of_changed hunknown hrow, hroom.kept⟩

private theorem run_tombstoned (hinbound : room.startsWith "kc_tel_inbound_" = true)
    (inv : CallsInvariant tenantOf system.calls) (hroom : Tombstoned (fingerprint room) room expiry system)
    {moves : List CallMove} (huuid : ∀ move ∈ moves, move.GivesUuid) (hbefore : ∀ move ∈ moves, move.Before expiry) :
    ∀ record ∈ (system.run tenantOf fingerprint moves).calls, record.call.providerRoom = room →
      record.call.active = false := by
  induction moves generalizing system with
  | nil => exact fun record hrecord hsame => absurd hsame (hroom.unknown record hrecord)
  | cons move moves ih =>
    rw [List.forall_mem_cons] at huuid hbefore
    have inv' := (system.step_calls fingerprint inv.owned move).invariant inv
    rcases step_tombstoned hinbound inv.owned hroom huuid.1 hbefore.1 with hroom' | hended
    · exact ih inv' hroom' huuid.2 hbefore.2
    · exact (run_roomEnded inv' hended moves).ended

/-! ### The first event that finishes the room -/

private theorem tombstoneRoom_entry {tombstones' : List (String × Int)} {hash : String} {now : Int}
    (h : tombstoneRoom hash now tombstones = some tombstones') : ∃ expiry, (hash, expiry) ∈ tombstones' := by
  unfold tombstoneRoom at h
  dsimp only at h
  split at h
  · rename_i hany
    cases h
    rw [List.any_eq_true] at hany
    obtain ⟨⟨known, expiry⟩, hkept, hsame⟩ := hany
    rw [decide_eq_true_eq] at hsame
    subst hsame
    exact ⟨expiry, hkept⟩
  split at h
  · cases h
  · cases h
    exact ⟨_, List.mem_cons_self⟩

private theorem callback_finishes {reads : RoutingReads} (hinbound : event.room.startsWith "kc_tel_inbound_" = true)
    (hfinish : event.eventType = .roomFinished) (inv : CallsInvariant tenantOf system.calls)
    (hattached : ∀ record ∈ system.calls, record.call.providerRoom = event.room → ¬ record.Detached eventReads.reads)
    (h : system.callback tenantOf fingerprint event eventReads new reads = some system') :
    RoomEnded event.room system'.calls ∨ ∃ expiry, Tombstoned (fingerprint event.room) event.room expiry system' := by
  have inv' := (callback_change inv.owned h).invariant inv
  unfold CallSystem.callback at h
  split at h
  · cases h
  split at h
  · rw [Option.map_eq_some_iff] at h
    obtain ⟨⟨rows, result⟩, hupdate, rfl⟩ := h
    obtain ⟨before, record, record', after, hrows, hroom, hchange, rfl⟩ := updateRow_eq_some hupdate
    have hroom' : record'.call.providerRoom = event.room :=
      (changeCall_row inv.owned hchange).2.room.trans hroom
    have hmem : record' ∈ before ++ record' :: after := List.mem_append_right _ List.mem_cons_self
    have hinactive : record'.call.active = false := by
      refine callback_finished hfinish rfl ?_ (changeCall_callback hchange)
      refine hattached record ?_ hroom
      rw [hrows]
      exact List.mem_append_right _ List.mem_cons_self
    refine .inl ⟨⟨record', hmem, hroom'⟩, fun other hother hsame => ?_⟩
    rw [List.inj_on_of_nodup_map inv'.rooms hother hmem (hsame.trans hroom'.symm)]
    exact hinactive
  rename_i hunknown
  rw [hfinish, hinbound, if_pos (by decide), Option.map_eq_some_iff] at h
  obtain ⟨tombstones, htombstones, rfl⟩ := h
  obtain ⟨expiry, hkept⟩ := tombstoneRoom_entry htombstones
  refine .inr ⟨expiry, ⟨fun record hrecord hsame => hunknown ?_, hkept⟩⟩
  rw [List.any_eq_true]
  exact ⟨record, hrecord, by simpa using hsame⟩

/-- Once a room has been finished, no call of it is active, as long as its tombstone is kept; and an event that is
recorded is not handled again. -/
theorem finished_room_stays_finished (tenantOf fingerprint : String → String) (moves : List CallMove)
    (event : ProviderEvent) (eventReads : EventReads) (new : NewCall) (reads : RoutingReads) :
    let system := CallSystem.start.run tenantOf fingerprint moves
    (∀ system' later, event.room.startsWith "kc_tel_inbound_" = true → event.eventType = .roomFinished →
        (∀ record ∈ system.calls, record.call.providerRoom = event.room → ¬ record.Detached eventReads.reads) →
        (CallMove.callback event eventReads new reads).apply tenantOf fingerprint system = some system' →
        (∀ move ∈ later, move.GivesUuid) →
        (∀ expiry, (fingerprint event.room, expiry) ∈ system'.tombstones →
          (∀ record ∈ system'.calls, record.call.providerRoom ≠ event.room) → ∀ move ∈ later, move.Before expiry) →
        ∀ record ∈ (system'.run tenantOf fingerprint later).calls, record.call.providerRoom = event.room →
          record.call.active = false) ∧
      (event.eventId ∈ system.events →
        system.step tenantOf fingerprint (.callback event eventReads new reads) = system) := by
  intro system
  have inv : CallsInvariant tenantOf system.calls := run_calls tenantOf fingerprint (start_calls tenantOf) moves
  constructor
  · intro system' later hinbound hfinish hattached happly huuid hbefore
    have hcallback : system.callback tenantOf fingerprint event eventReads new reads = some system' := happly
    have inv' := (callback_change inv.owned hcallback).invariant inv
    rcases callback_finishes hinbound hfinish inv hattached hcallback with hended | ⟨expiry, hroom⟩
    · exact (run_roomEnded inv' hended later).ended
    · exact run_tombstoned hinbound inv' hroom huuid (hbefore expiry hroom.kept hroom.unknown)
  · intro hseen
    have hrefused : (CallMove.callback event eventReads new reads).apply tenantOf fingerprint system = none := by
      simp [CallMove.apply, CallSystem.callback, hseen]
    unfold CallSystem.step
    rw [hrefused]
    rfl

end

/-! ### Runs -/

def sampleNumber : Number where
  id := "n-1"
  tenantId := "t-1"
  userId := "u-1"
  phoneNumber := "+15550100"
  inboundTrunkId := "in-1"
  outboundTrunkId := "out-1"

def sampleRoutingReads : RoutingReads where
  now := 0
  numbers := [sampleNumber]
  routes := []
  menus := []
  activeHuman := fun _ => true
  ready := fun _ => true
  queues := true
  sharedLines := true
  allowAudioCalls := true
  ivrReady := false
  approvedPrompt := fun _ => false

def sampleCallReads : CallReads where
  now := 1
  captureCommand := false
  handoffCommand := false
  captureLifecycle := .absent

def sampleEventReads : EventReads where
  reads := sampleCallReads
  seen := false
  authorized := true
  epochClosed := fun _ => false
  answerGrant := some none
  maximumSeconds := 3600

def sampleNewCall : NewCall where
  id := "a1"
  runId := "r-1"
  now := 1
  ringSeconds := 60

def sampleCallerEvent (eventId : String) (eventType : ProviderEventType) : ProviderEvent where
  eventId := eventId
  eventType := eventType
  room := "kc_tel_inbound_1"
  participantIdentity := some "sip-1"
  participantSid := some "PA_1"
  sipParticipant := true
  providerCallId := some "SCL_1"
  trunkId := some "in-1"
  toNumber := some "+15550100"
  occurredAt := some 1
  admissionEnabled := true

def sampleGrant : Grant where
  tenantId := "t-1"
  userId := "u-1"
  sessionId := "s-1"
  deviceId := "d1"
  effectiveExpiresAt := none

def sampleAppEvent : ProviderEvent :=
  { sampleCallerEvent "e-2" .participantJoined with
    participantIdentity := some "kc_tel_app_a1_d1"
    sipParticipant := false
    providerCallId := none
    trunkId := none }

def sampleAnswer : DispatchDetails where
  answered := true
  providerCallId := some "SCL_1"
  providerRoom := none
  providerIdentity := none

/-- The user takes the call, and hands it off to the PBX. -/
def sampleHandoffMoves : List CallMove :=
  [.callback (sampleCallerEvent "e-1" .participantJoined) sampleEventReads sampleNewCall sampleRoutingReads,
    .command "a1" (.credential .answer sampleGrant "" sampleCallReads true false true) sampleRoutingReads,
    .callback sampleAppEvent sampleEventReads sampleNewCall sampleRoutingReads,
    .command "a1" (.completeDispatch sampleEventReads (.ok sampleAnswer)) sampleRoutingReads,
    .command "a1" (.bindControl (some .transferred) [("caller", some "channel-1")]) sampleRoutingReads]

theorem finished_room_stays_finished_sample :
    ∃ system', (CallMove.callback (sampleCallerEvent "e-3" .roomFinished) sampleEventReads sampleNewCall
        sampleRoutingReads).apply (fun _ => "t-1") id CallSystem.start = some system' ∧
      ∀ record ∈ (system'.run (fun _ => "t-1") id sampleHandoffMoves).calls,
        record.call.providerRoom = "kc_tel_inbound_1" → record.call.active = false := by
  have hfinished := (finished_room_stays_finished (fun _ => "t-1") id [] (sampleCallerEvent "e-3" .roomFinished)
    sampleEventReads sampleNewCall sampleRoutingReads).1
  have happly : (CallMove.callback (sampleCallerEvent "e-3" .roomFinished) sampleEventReads sampleNewCall
        sampleRoutingReads).apply (fun _ => "t-1") id CallSystem.start =
      some { CallSystem.start with tombstones := [("kc_tel_inbound_1", 86400000001)] } := by
    have hinbound : "kc_tel_inbound_1".startsWith "kc_tel_inbound_" = true := by decide +kernel
    simp [CallMove.apply, CallSystem.callback, CallSystem.start, sampleCallerEvent, hinbound, tombstoneRoom,
      sampleNewCall, seconds]
  refine ⟨_, happly, hfinished _ sampleHandoffMoves (by decide +kernel) rfl (List.forall_mem_nil _) happly ?_ ?_⟩
  · have huuid : isUuid "a1" = true := by decide
    simp [sampleHandoffMoves, CallMove.GivesUuid, sampleNewCall, huuid]
  · simp [sampleHandoffMoves, CallMove.Before, sampleCallerEvent, sampleNewCall]

/-- A call that has been handed off before its room finishes stays answered. -/
theorem handed_off_call_outlives_room :
    ((CallMove.callback (sampleCallerEvent "e-3" .roomFinished) sampleEventReads sampleNewCall
        sampleRoutingReads).apply (fun _ => "t-1") id
      (CallSystem.start.run (fun _ => "t-1") id sampleHandoffMoves)).any
        (fun system => system.calls.any fun record =>
          record.call.providerRoom = "kc_tel_inbound_1" && record.call.status = .answered) = true := by
  decide +kernel

end KComms.Telephony
