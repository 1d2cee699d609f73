import KComms.AudioCalls.Participants

/-!
# The life of a call (`AudioCalls.Lifecycle`)

A call of a conversation is active until it is ended or has expired; while the provider cleans up its room, in the same
transaction, it is ending.  Calls are started and joined by members under the locks of the conversation and the call.
-/

namespace KComms.AudioCalls.Lifecycle

open Attempt
open KComms.Conversations (Membership)

/-! ### Authority (`AuthorizationPolicy`) -/

/-- `lock_access` -/
def lockCallAccess (facts : CallFacts) (subject : CallSubject) (scope : CallScope) : CallTransaction CallAccess :=
  match facts.policy with
  | none => rollback .forbidden
  | some (allowAudioCalls, allowVideoCalls) => do
    check (facts.available && scope.shared.serverReadable && scope.shared.conversation.archivedAt.isNone) .forbidden
    check facts.granted .forbidden
    match (scope.shared.memberships.find subject.userId).filter Membership.active with
    | none => rollback .forbidden
    | some membership => pure ⟨subject.userId, membership.role, allowAudioCalls, allowVideoCalls⟩

/-- `media_enabled` -/
def mediaEnabled (mediaKind : MediaKind) (access : CallAccess) : CallTransaction Unit :=
  match mediaKind with
  | .audio => check access.allowAudioCalls .audioCallsDisabled
  | .video => check access.allowVideoCalls .videoCallsDisabled

/-- `authorize_end` -/
def authorizeEnd (access : CallAccess) (call : AudioCall) : CallTransaction Unit :=
  check (access.userId = call.startedByUserId || access.membershipRole = .owner ||
    access.membershipRole = .moderator) .forbidden

/-! ### The end of a call -/

/-- `transition_to_ending!` -/
def AudioCall.beginEnding (call : AudioCall) : AudioCall := { call with status := .ending }

@[simp] theorem AudioCall.beginEnding_id (call : AudioCall) : call.beginEnding.id = call.id := rfl

/-- The attributes of `end_call!`. -/
def AudioCall.finish (endedByUserId : Option String) (reason : String) (now : Int) (call : AudioCall) : AudioCall :=
  { call with status := .ended, endedByUserId := endedByUserId, endedAt := some now, endReason := some reason }

@[simp] theorem AudioCall.finish_id (endedByUserId : Option String) (reason : String) (now : Int) (call : AudioCall) :
    (call.finish endedByUserId reason now).id = call.id := rfl

def MediaKind.name : MediaKind → String
  | .audio => "audio"
  | .video => "video"

/-- The events of a call: one for all calls, and one more for audio. -/
def callEvents (change : String) (call : AudioCall) : List CallEvent :=
  ⟨"call." ++ change ++ ".v1", call⟩ ::
    (if call.mediaKind = .audio then [⟨"audio_call." ++ change ++ ".v1", call⟩] else [])

/-- `cleanup_provider!` -/
def cleanupProvider (facts : CallFacts) (call : AudioCall) : CallTransaction Unit := do
  let cleaned ← issue (.cleanup call.providerRoom) facts.cleaned
  check cleaned .audioProviderUnavailable

/-- `end_call!` -/
def finishCall (facts : CallFacts) (actor endedByUserId : Option String) (reason : String) (call : AudioCall)
    (scope : CallScope) : CallTransaction (AudioCall × CallScope) := do
  let (_, scope) ← revokeMatching facts (.call call.id) (if reason = "expired" then "call_expired" else "call_ended")
    scope
  check facts.recorded .invalidRow
  let ended := call.finish endedByUserId reason facts.endedAt
  pure (ended, { scope with
    calls := scope.calls.update call.id (AudioCall.finish endedByUserId reason facts.endedAt)
      (AudioCall.finish_id endedByUserId reason facts.endedAt)
    audits := scope.audits ++ [⟨call.mediaKind.name ++ "_call.end", actor, call.id⟩]
    events := scope.events ++ callEvents "ended" ended })

/-- An active call goes through `ending` to its end. -/
def endActive (facts : CallFacts) (actor endedByUserId : Option String) (reason : String) (call : AudioCall)
    (scope : CallScope) : CallTransaction (AudioCall × CallScope) := do
  let ending := { scope with
    calls := scope.calls.update call.id AudioCall.beginEnding AudioCall.beginEnding_id }
  cleanupProvider facts call.beginEnding
  finishCall facts actor endedByUserId reason call.beginEnding ending

/-! ### Start -/

inductive StartStatus
  | created | existing
  deriving DecidableEq, Repr

def maximumCallSeconds : Int := 8 * 60 * 60

/-- `provider_room` -/
def providerRoom (callId : String) : String := "kc_call_" ++ String.ofList (callId.toList.filter (· ≠ '-'))

def newCall (facts : CallFacts) (callId userId : String) (mediaKind : MediaKind) : AudioCall where
  id := callId
  startedByUserId := userId
  endedByUserId := none
  providerRoom := providerRoom callId
  mediaKind := mediaKind
  status := .active
  startedAt := facts.startedAt
  expiresAt := facts.startedAt + seconds maximumCallSeconds
  endedAt := none
  endReason := none

/-- `create_call!` -/
def createCall (facts : CallFacts) (callId userId : String) (mediaKind : MediaKind) (scope : CallScope) :
    CallTransaction (AudioCall × CallScope) := do
  let call := newCall facts callId userId mediaKind
  check facts.recorded .invalidRow
  match scope.calls.insert call with
  | none => rollback .invalidRow
  | some calls =>
    pure (call, { scope with
      calls := calls
      jobs := scope.jobs ++ [.expiry call.id call.expiresAt]
      audits := scope.audits ++ [⟨mediaKind.name ++ "_call.start", some userId, call.id⟩]
      events := scope.events ++ callEvents "started" call })

/-- `expired?` -/
def expired (now : Int) (call : AudioCall) : Bool := call.expiresAt ≤ now

/-- `start_locked!` -/
def startLocked (facts : CallFacts) (callId userId : String) (mediaKind : MediaKind) (scope : CallScope) :
    CallTransaction (AudioCall × StartStatus × CallScope) :=
  match scope.calls.rows.find? AudioCall.isOpen with
  | none => do
    let (call, scope) ← createCall facts callId userId mediaKind scope
    pure (call, .created, scope)
  | some call =>
    if call.status = .ending then rollback .audioCallEnding
    else if expired facts.checkedAt call then do
      let (_, scope) ← endActive facts (some userId) none "expired" call scope
      let (call, scope) ← createCall facts callId userId mediaKind scope
      pure (call, .created, scope)
    else do
      check (call.mediaKind = mediaKind) .callMediaKindConflict
      pure (call, .existing, scope)

/-- `start` -/
def start (facts : CallFacts) (subject : CallSubject) (callId : String) (mediaKind : MediaKind) (scope : CallScope) :
    CallTransaction (AudioCall × StartStatus × CallScope) := do
  check facts.authorizedBefore .forbidden
  let access ← lockCallAccess facts subject scope
  mediaEnabled mediaKind access
  startLocked facts callId subject.userId mediaKind scope

/-- `ensure_active!` -/
def ensureActive (now : Int) (call : AudioCall) : CallTransaction Unit :=
  match call.status with
  | .ended => rollback .audioCallEnded
  | .ending => rollback .audioCallEnding
  | .active => check (!expired now call) .audioCallExpired

/-- `start_with_join_authorized` -/
def startWithJoinAuthorized (facts : CallFacts) (subject : CallSubject) (callId participantId identity : String)
    (mediaKind : MediaKind) (scope : CallScope) :
    CallTransaction (AudioCall × AudioCallParticipant × CallScope) := do
  let (call, _, scope) ← start facts subject callId mediaKind scope
  ensureActive facts.ensuredAt call
  let (participant, scope) ← admitAndIssue facts call subject participantId identity scope
  pure (call, participant, scope)

/-! ### Join and end -/

/-- `lock_call!` -/
def lockCall (callId : String) (scope : CallScope) : CallTransaction AudioCall :=
  match scope.calls.find callId with
  | none => rollback .notFound
  | some call => pure call

/-- `ensure_media_kind!` -/
def ensureMediaKind (expectedKind : Option MediaKind) (call : AudioCall) : CallTransaction Unit :=
  check (expectedKind.all (call.mediaKind = ·)) .callMediaKindConflict

/-- `with_join_authorized` -/
def withJoinAuthorized (facts : CallFacts) (subject : CallSubject) (callId participantId identity : String)
    (expectedKind : Option MediaKind) (scope : CallScope) :
    CallTransaction (AudioCall × AudioCallParticipant × CallScope) := do
  let access ← lockCallAccess facts subject scope
  let call ← lockCall callId scope
  ensureMediaKind expectedKind call
  mediaEnabled call.mediaKind access
  ensureActive facts.ensuredAt call
  let (participant, scope) ← admitAndIssue facts call subject participantId identity scope
  pure (call, participant, scope)

/-- `end_reason` -/
def endReason (reason : Option String) : Except CallError String :=
  let reason := ElixirString.trim (reason.getD "ended_by_user")
  if 3 ≤ reason.length ∧ reason.length ≤ 120 then .ok reason else .error .invalidEndReason

/-- `end_call` -/
def endCall (facts : CallFacts) (subject : CallSubject) (callId : String) (reason : Option String)
    (expectedKind : Option MediaKind) (scope : CallScope) : CallTransaction (AudioCall × CallScope) := do
  let reason ← ofExcept (endReason reason)
  let access ← lockCallAccess facts subject scope
  let call ← lockCall callId scope
  ensureMediaKind expectedKind call
  authorizeEnd access call
  match call.status with
  | .ended => pure (call, scope)
  | .ending => rollback .audioCallEnding
  | .active => endActive facts (some subject.userId) (some subject.userId) reason call scope

inductive ExpiryResult
  | alreadyEnded | notDue (seconds : Int) | expired
  deriving DecidableEq, Repr

/-- `expire_call` -/
def expireCall (facts : CallFacts) (callId : String) (scope : CallScope) :
    CallTransaction (ExpiryResult × CallScope) := do
  check facts.authorizedWorker .forbidden
  let call ← lockCall callId scope
  match call.status with
  | .ended => pure (.alreadyEnded, scope)
  | .ending => rollback .audioCallEnding
  | .active =>
    if !Lifecycle.expired facts.checkedAt call then
      pure (.notDue (max (diffSeconds call.expiresAt facts.checkedAt) 1), scope)
    else do
      let (_, scope) ← endActive facts none none "expired" call scope
      pure (.expired, scope)

end KComms.AudioCalls.Lifecycle
