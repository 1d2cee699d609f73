import KComms.Telephony.Ivr

/-!
# The transactions on one call (`Telephony.Lifecycle`)

Everything besides the IVR that writes a call that exists: the requests of users, the events of the provider, the
workers, the queue, the voicemail and the control commands.  A transaction gets the locked row of the call and the run
of its menu, if it has one, and gives them back, or `none` where it rolls back.
-/

namespace KComms.Telephony

/-- A call and the run of its menu: the call of a run is unique. -/
structure CallRecord where
  call : Call
  ivr : Option IvrRun
  deriving DecidableEq, Repr

structure Grant where
  tenantId : String
  userId : String
  sessionId : String
  deviceId : String
  effectiveExpiresAt : Option Int
  deriving DecidableEq, Repr

/-- `Mailboxes.capture_lifecycle` -/
inductive CaptureLifecycle
  | pending (deadline : Int) | complete | absent
  deriving DecidableEq, Repr

/-- `Mailboxes.capture_lifecycle(call) in [:complete, :absent]` -/
def CaptureLifecycle.finished : CaptureLifecycle → Bool
  | .pending _ => false
  | _ => true

/-- The clock, and what the tables of the control commands and of the voicemails say about the call. -/
structure CallReads where
  now : Int
  captureCommand : Bool
  handoffCommand : Bool
  captureLifecycle : CaptureLifecycle
  deriving DecidableEq, Repr

inductive ProviderEventType
  | participantJoined | participantLeft | participantConnectionAborted | roomFinished | answered | providerFailed
  deriving DecidableEq, Repr

structure ProviderEvent where
  eventId : String
  eventType : ProviderEventType
  room : String
  participantIdentity : Option String
  participantSid : Option String
  sipParticipant : Bool
  providerCallId : Option String
  trunkId : Option String
  toNumber : Option String
  occurredAt : Option Int
  admissionEnabled : Bool
  deriving DecidableEq, Repr

/-! ### Deadlines and endings -/

def earliestExpiry (first : Int) : Option Int → Int
  | none => first
  | some second => if first < second then first else second

/-- `Ivr.original_deadline` -/
def CallRecord.originalDeadline (record : CallRecord) : Option Int := record.ivr.map IvrRun.expiresAt

def providerCapture (reads : CallReads) (call : Call) : Bool :=
  call.pbxState ≠ [] && (call.controlState = .voicemail || reads.captureCommand)

def providerHandoff (reads : CallReads) (call : Call) : Bool :=
  call.pbxState ≠ [] && (call.controlState = .transferred || reads.handoffCommand)

def expiryDeadline (reads : CallReads) (call : Call) : Int :=
  if call.controlState = .transferred then call.expiresAt
  else if providerCapture reads call then
    match reads.captureLifecycle with
    | .pending deadline => earliestExpiry call.expiresAt (some deadline)
    | _ => reads.now
  else if providerHandoff reads call then call.expiresAt
  else earliestExpiry call.expiresAt call.appReconnectDeadline

def due (reads : CallReads) (call : Call) : Bool := expiryDeadline reads call ≤ reads.now

/-- `finish!` -/
def finish (record : CallRecord) (status : CallStatus) (reason : String) (now : Int) : CallRecord where
  call := { record.call with status := status, endedAt := some now, endReason := some reason }
  ivr := record.ivr.map (IvrRun.cancel · now)

def CallStatus.text : CallStatus → String
  | .ringing => "ringing"
  | .answered => "answered"
  | .declined => "declined"
  | .noAnswer => "no_answer"
  | .cancelled => "cancelled"
  | .failed => "failed"
  | .ended => "ended"
  | .busy => "busy"

def unansweredOutcome (call : Call) (reason : String) : CallStatus × String :=
  if call.answeredAt ≠ none then (.ended, reason)
  else if call.direction = .inbound ∧ call.answerSessionId ≠ none ∧ call.appConnectedAt ≠ none then
    (.failed, "answer_unconfirmed")
  else (.noAnswer, reason)

def finishUnanswered (record : CallRecord) (reason : String) (now : Int) : CallRecord :=
  finish record (unansweredOutcome record.call reason).1 (unansweredOutcome record.call reason).2 now

def expireCall (record : CallRecord) (now : Int) : CallRecord :=
  let (status, defaultReason) := unansweredOutcome record.call "ring_timeout"
  let reason :=
    if record.call.answeredAt = none then defaultReason
    else if record.call.appReconnectDeadline.any (· ≤ now) then "app_reconnect_timeout"
    else "maximum_duration"
  finish record status reason now

/-! ### Requests of users -/

/-- The calls that a user may act on (`own_call!`). -/
def ownCall (call : Call) (grant : Grant) : Bool :=
  call.tenantId = grant.tenantId && !call.routingStatus.parked &&
    (call.userId = grant.userId ||
      (call.status = .ringing && call.routingStatus = .offered && call.offeredUserIds.contains grant.userId))

inductive CredentialOperation
  | answer | join
  deriving DecidableEq, Repr

/-- `answer` and `join`.  `eligible` is `Routing.eligible_recipient?`, `busy` is `active_user_call?` for the user of
the grant, and `issued` is whether the issuer gave a credential. -/
def credential (operation : CredentialOperation) (grant : Grant) (identity : String) (reads : CallReads)
    (eligible busy issued : Bool) (record : CallRecord) : Option CallRecord :=
  let call := record.call
  if !ownCall call grant then none
  else if !call.active || due reads call then none
  else if call.controlState = .transferred || call.controlState = .voicemail || providerHandoff reads call ||
      providerCapture reads call then none
  else if operation = .answer && (call.direction ≠ .inbound || call.status ≠ .ringing) then none
  else if operation = .join && call.direction = .inbound && call.answerSessionId = none then none
  else if call.answerSessionId ≠ none &&
      (call.answerSessionId ≠ some grant.sessionId || call.answerDeviceId ≠ some grant.deviceId) then none
  else if call.direction = .inbound && call.answerSessionId = none &&
      (!eligible || (call.userId ≠ grant.userId && busy)) then none
  else if !issued then none
  else some
    { record with
      call :=
        { call with
          userId := grant.userId
          routingStatus := if call.routeId.isSome then .claimed else call.routingStatus
          offeredUserIds := []
          answerSessionId := some grant.sessionId
          answerDeviceId := some grant.deviceId
          appIdentity := some (call.appIdentity.getD identity)
          expiresAt := earliestExpiry call.expiresAt grant.effectiveExpiresAt } }

inductive Termination
  | declined | ended
  deriving DecidableEq, Repr

/-- `reject` and `end_call` -/
def terminate (desired : Termination) (grant : Grant) (now : Int) (record : CallRecord) : Option CallRecord :=
  let call := record.call
  if !ownCall call grant then none
  else if !call.active then some record
  else
    match desired with
    | .declined =>
      if call.direction ≠ .inbound || call.status ≠ .ringing || call.answerSessionId ≠ none then none
      else some (finish record .declined "user_declined" now)
    | .ended =>
      if call.answerSessionId ≠ none && call.answerSessionId ≠ some grant.sessionId then none
      else if call.answeredAt = none then some (finish record .cancelled "user_cancelled" now)
      else some (finish record .ended "user_ended" now)

/-! ### Events of the provider -/

/-- What the transaction of an event reads besides: whether the event was seen before, whether the access of the call
still holds, the closed epochs of the app, and the grant of the user who answered, with its expiry. -/
structure EventReads where
  reads : CallReads
  seen : Bool
  authorized : Bool
  epochClosed : String → Bool
  answerGrant : Option (Option Int)
  maximumSeconds : Int

def eventMatches (call : Call) (event : ProviderEvent) : Bool :=
  event.eventType = .roomFinished ||
    (event.participantIdentity ≠ none &&
      (event.participantIdentity = some call.providerIdentity || event.participantIdentity = call.appIdentity) &&
      (event.providerCallId = none || call.providerCallId = none || event.providerCallId = call.providerCallId) &&
      (event.trunkId = none || event.trunkId = some call.inboundTrunkId || event.trunkId = some call.outboundTrunkId))

/-- `answer_connected!`: the call of a menu keeps the deadline of its run. -/
def answerConnected (record : CallRecord) (answerGrant : Option (Option Int)) (maximumSeconds now : Int) :
    Option CallRecord :=
  if record.call.status = .answered then some record
  else
    match answerGrant with
    | none => none
    | some effectiveExpiresAt => some
      { record with
        call :=
          { record.call with
            status := .answered
            answeredAt := some now
            expiresAt :=
              earliestExpiry (earliestExpiry (now + seconds maximumSeconds) effectiveExpiresAt)
                record.originalDeadline } }

def staleAppEvent (call : Call) (occurredAt : Int) : Bool := call.appEventAt.any (occurredAt < ·)

def appJoined (reads : EventReads) (record : CallRecord) (sid : String) (occurredAt : Int) : CallRecord :=
  let call := record.call
  if staleAppEvent call occurredAt || reads.epochClosed sid then record
  else if call.appConnectedAt ≠ none && call.appEventAt = some occurredAt && call.appProviderSid ≠ some sid then
    { record with call := { call with appPendingSid := some sid, appPendingAt := some occurredAt } }
  else
    { record with
      call :=
        { call with
          appConnectedAt := some (call.appConnectedAt.getD reads.reads.now)
          appReconnectDeadline := none
          appProviderSid := some sid
          appEventAt := some occurredAt
          appPendingSid := none
          appPendingAt := none } }

def appLeft (reads : EventReads) (record : CallRecord) (sid : String) (occurredAt : Int) : CallRecord :=
  let call := record.call
  let now := reads.reads.now
  if call.appPendingSid = some sid then
    { record with call := { call with appPendingSid := none, appPendingAt := none } }
  else if staleAppEvent call occurredAt then record
  else if call.appProviderSid = none && call.status = .ringing then
    finishUnanswered { record with call := { call with appLeftSid := some sid, appEventAt := some occurredAt } }
      "participant_left" now
  else if call.appProviderSid ≠ some sid then record
  else if call.appPendingSid.any (!reads.epochClosed ·) then
    { record with
      call :=
        { call with
          appProviderSid := call.appPendingSid
          appEventAt := some (call.appPendingAt.elim occurredAt (max occurredAt))
          appLeftSid := some sid
          appConnectedAt := some now
          appReconnectDeadline := none
          appPendingSid := none
          appPendingAt := none } }
  else if call.status ≠ .answered then finishUnanswered record "participant_left" now
  else
    { record with
      call :=
        { call with
          appConnectedAt := none
          appReconnectDeadline :=
            some (call.appReconnectDeadline.getD (earliestExpiry (now + seconds 30) (some call.expiresAt)))
          appLeftSid := some sid
          appEventAt := some occurredAt } }

/-- `require_app_epoch!` -/
def appEpoch (event : ProviderEvent) : Option (String × Int) :=
  match event.participantSid, event.occurredAt with
  | some sid, some occurredAt =>
    if 0 < sid.utf8ByteSize ∧ sid.utf8ByteSize ≤ 200 then some (sid, occurredAt) else none
  | _, _ => none

def applyRoomEvent (reads : EventReads) (event : ProviderEvent) (record : CallRecord) : Option CallRecord :=
  let now := reads.reads.now
  let ofApp := event.participantIdentity = record.call.appIdentity
  match event.eventType with
  | .participantJoined =>
    if ofApp then (appEpoch event).map fun epoch => appJoined reads record epoch.1 epoch.2 else some record
  | .answered =>
    if record.call.direction = .outbound then
      answerConnected record reads.answerGrant reads.maximumSeconds now
    else some record
  | .participantLeft =>
    if ofApp then (appEpoch event).map fun epoch => appLeft reads record epoch.1 epoch.2
    else some (finishUnanswered record "participant_left" now)
  | .participantConnectionAborted => some (finish record .failed "connection_aborted" now)
  | .roomFinished => some (finishUnanswered record "room_finished" now)
  | .providerFailed => some (finish record .failed "provider_failed" now)

def applyEvent (reads : EventReads) (event : ProviderEvent) (record : CallRecord) : Option CallRecord :=
  if (providerHandoff reads.reads record.call || providerCapture reads.reads record.call) &&
      (event.eventType = .participantLeft || event.eventType = .participantConnectionAborted ||
        event.eventType = .roomFinished) then some record
  else applyRoomEvent reads event record

/-- `callback`, for an event of a call that exists. -/
def callback (reads : EventReads) (event : ProviderEvent) (record : CallRecord) : Option CallRecord :=
  let call := record.call
  if reads.seen then some record
  else if !eventMatches call event then none
  else if !call.active then
    if event.eventType = .participantJoined then some { record with call := { call with cleanupCompletedAt := none } }
    else some record
  else if due reads.reads call then some (expireCall record reads.reads.now)
  else if reads.authorized then applyEvent reads event record
  else some (finish record .failed "access_revoked" reads.reads.now)

/-! ### Workers -/

structure DispatchDetails where
  answered : Bool
  providerCallId : Option String
  providerRoom : Option String
  providerIdentity : Option String
  deriving DecidableEq, Repr

inductive DispatchError
  | noAnswer | busy | declined | other (reason : String)
  deriving DecidableEq, Repr

inductive DispatchResult
  | pending | ok (details : DispatchDetails) | error (reason : DispatchError) | other
  deriving DecidableEq, Repr

def validAnswerResult (call : Call) (details : DispatchDetails) : Bool :=
  details.answered &&
    details.providerCallId.any (fun id => 0 < id.utf8ByteSize && id.utf8ByteSize ≤ 200) &&
    (call.providerCallId = none || call.providerCallId = details.providerCallId) &&
    (details.providerRoom = none || details.providerRoom = some call.providerRoom) &&
    (details.providerIdentity = none || details.providerIdentity = some call.providerIdentity)

def dispatchStarted (call : Call) (details : DispatchDetails) : Call :=
  { call with providerCallId := details.providerCallId, dispatchStatus := .started }

def correlateLateAnswer (call : Call) : DispatchResult → Call
  | .ok details => if validAnswerResult call details then dispatchStarted call details else call
  | _ => call

def claimDispatch (reads : CallReads) (leaseActive : Bool) (record : CallRecord) : CallRecord :=
  let call := record.call
  if !call.active then record
  else if due reads call then expireCall record reads.now
  else if call.dispatchStatus = .started || call.appConnectedAt = none || call.dispatchStatus = .dispatching ||
      leaseActive then record
  else { record with call := { call with dispatchStatus := .dispatching, dispatchClaimedAt := some reads.now } }

def completeDispatch (reads : EventReads) (result : DispatchResult) (record : CallRecord) : Option CallRecord :=
  let call := record.call
  let now := reads.reads.now
  if !call.active then
    some { record with call := { correlateLateAnswer call result with cleanupCompletedAt := none } }
  else if due reads.reads call then
    let expired := expireCall { record with call := correlateLateAnswer call result } now
    some { expired with call := { expired.call with cleanupCompletedAt := none } }
  else
    match result with
    | .pending =>
      if call.direction = .inbound then some { record with call := { call with dispatchClaimedAt := none } }
      else some record
    | .ok details =>
      if validAnswerResult call details then
        answerConnected { record with call := dispatchStarted call details } reads.answerGrant reads.maximumSeconds now
      else some (finish record .failed "provider_invalid_outcome" now)
    | .error .noAnswer => some (finishUnanswered record "provider_no_answer" now)
    | .error .busy => some (finish record .busy "provider_busy" now)
    | .error .declined => some (finish record .declined "provider_declined" now)
    | .error (.other reason) => some (finish record .failed ("provider_" ++ reason) now)
    | .other => some (finish record .failed "provider_invalid_outcome" now)

/-- `expire`; `remoteEnded` is what `bound_call_status` answers. -/
def expire (reads : CallReads) (remoteEnded : Bool) (record : CallRecord) : CallRecord :=
  let call := record.call
  let captured := providerCapture reads call
  if !call.active then record
  else if captured && reads.captureLifecycle.finished then finish record .ended "voicemail_capture_complete" reads.now
  else if !due reads call && (providerHandoff reads call || captured) then
    if remoteEnded then
      finish record .ended (if captured then "voicemail_remote_end" else "transferred_remote_end") reads.now
    else record
  else if !due reads call then record
  else if call.routingStatus = .waiting &&
      call.routeExpiresAt.any (fun expiry => (reads.now - expiry) / 1000000 ≤ 15) &&
      record.originalDeadline = none then record
  else expireCall record reads.now

def claimCleanup (leaseActive : Bool) (now : Int) (record : CallRecord) : CallRecord :=
  if record.call.active || record.call.cleanupCompletedAt ≠ none || leaseActive then record
  else { record with call := { record.call with cleanupClaimedAt := some now } }

/-- `complete_cleanup`; `clean` is whether the result is `:ok`. -/
def completeCleanup (clean leaseActive : Bool) (now : Int) (record : CallRecord) : CallRecord :=
  let call := record.call
  if call.active then { record with call := { call with cleanupClaimedAt := none } }
  else if call.cleanupCompletedAt ≠ none || clean then
    if call.dispatchStatus = .dispatching && leaseActive then
      { record with call := { call with cleanupClaimedAt := none } }
    else { record with call := { call with cleanupCompletedAt := some now, cleanupClaimedAt := none } }
  else { record with call := { call with cleanupClaimedAt := none } }

def expireRoute (now : Int) (record : CallRecord) : CallRecord :=
  if record.call.active && record.call.routingStatus = .waiting then finish record .noAnswer "queue_expired" now
  else record

/-- `revoke_query!`, for one of the calls of the query. -/
def revoke (reason : String) (now : Int) (record : CallRecord) : CallRecord :=
  if record.call.active then finish record .ended reason now else record

/-- What `worker_transaction` does in the place of a job of the dispatch that is not authorized any more. -/
def revokeDispatch (now : Int) (record : CallRecord) : CallRecord :=
  if record.call.active then finish record .failed "access_revoked" now else record

/-! ### The queue, the voicemail and the controls -/

/-- `Routing.advance`, for the selected candidate.  `ready` is that the route takes calls, and the queue of the
provider as well. -/
def offer (selected : Option String) (ready : Bool) (now : Int) (record : CallRecord) : CallRecord :=
  let call := record.call
  if call.status ≠ .ringing || call.routingStatus ≠ .waiting then record
  else if call.routeExpiresAt.all (· ≤ now) || !ready then record
  else
    match selected with
    | none => record
    | some user =>
      { record with call := { call with userId := user, offeredUserIds := [user], routingStatus := .offered } }

/-- `CallMonitor.enqueue_capture_monitor!` -/
def captureMonitor (deadline : Int) (record : CallRecord) : CallRecord :=
  if record.call.active then
    { record with
      call :=
        { record.call with
          expiresAt := if record.call.expiresAt < deadline then record.call.expiresAt else deadline } }
  else record

/-- `capture_deadline`: only the call of a menu keeps its own deadline. -/
def captureDeadline (recordingDeadline expiresAt : Int) : Option Int → Int
  | none => recordingDeadline
  | some deadline => min (min recordingDeadline expiresAt) deadline

/-- `queue_voicemail`; the row of the voicemail, which `Mailboxes.reserve!` gives, has the user and the deadline, and
`queued` is whether the command is there already. -/
def queueVoicemail (userId : String) (recordingDeadline now : Int) (queued : Bool) (record : CallRecord) :
    Option CallRecord :=
  let record := captureMonitor recordingDeadline record
  let call := record.call
  if call.status ≠ .ringing || call.routingStatus ≠ .waiting then none
  else if record.originalDeadline.any (fun deadline => deadline ≤ now || call.expiresAt ≤ now) then none
  else if queued then some record
  else some
    { record with
      call :=
        { call with
          routingStatus := .voicemail
          controlState := .voicemail
          userId := userId
          offeredUserIds := []
          expiresAt := captureDeadline recordingDeadline call.expiresAt record.originalDeadline } }

/-- `bind` and `finish_control!` -/
def bindControl (controlState : Option ControlState) (pbxState : Bindings) (record : CallRecord) : CallRecord :=
  { record with
    call := { record.call with controlState := controlState.getD record.call.controlState, pbxState := pbxState } }

/-! ### All transactions -/

inductive CallCommand
  | credential (operation : CredentialOperation) (grant : Grant) (identity : String) (reads : CallReads)
    (eligible busy issued : Bool)
  | terminate (desired : Termination) (grant : Grant) (now : Int)
  | callback (reads : EventReads) (event : ProviderEvent)
  | claimDispatch (reads : CallReads) (leaseActive : Bool)
  | completeDispatch (reads : EventReads) (result : DispatchResult)
  | expire (reads : CallReads) (remoteEnded : Bool)
  | claimCleanup (leaseActive : Bool) (now : Int)
  | completeCleanup (clean leaseActive : Bool) (now : Int)
  | expireRoute (now : Int)
  | revoke (reason : String) (now : Int)
  | revokeDispatch (now : Int)
  | offer (selected : Option String) (ready : Bool) (now : Int)
  | queueVoicemail (userId : String) (recordingDeadline now : Int) (queued : Bool)
  | bindControl (controlState : Option ControlState) (pbxState : Bindings)
  | captureMonitor (deadline : Int)

def CallCommand.apply (record : CallRecord) : CallCommand → Option CallRecord
  | .credential operation grant identity reads eligible busy issued =>
    Telephony.credential operation grant identity reads eligible busy issued record
  | .terminate desired grant now => Telephony.terminate desired grant now record
  | .callback reads event => Telephony.callback reads event record
  | .claimDispatch reads leaseActive => some (Telephony.claimDispatch reads leaseActive record)
  | .completeDispatch reads result => Telephony.completeDispatch reads result record
  | .expire reads remoteEnded => some (Telephony.expire reads remoteEnded record)
  | .claimCleanup leaseActive now => some (Telephony.claimCleanup leaseActive now record)
  | .completeCleanup clean leaseActive now => some (Telephony.completeCleanup clean leaseActive now record)
  | .expireRoute now => some (Telephony.expireRoute now record)
  | .revoke reason now => some (Telephony.revoke reason now record)
  | .revokeDispatch now => some (Telephony.revokeDispatch now record)
  | .offer selected ready now => some (Telephony.offer selected ready now record)
  | .queueVoicemail userId recordingDeadline now queued =>
    Telephony.queueVoicemail userId recordingDeadline now queued record
  | .bindControl controlState pbxState => some (Telephony.bindControl controlState pbxState record)
  | .captureMonitor deadline => some (Telephony.captureMonitor deadline record)

end KComms.Telephony
