import KComms.AudioCalls.Meetings
import KComms.Conversations.SharedOwners
import KComms.Lib.ElixirString

/-!
# The participants of calls (`AudioCalls.Participants`)

The calls of one conversation and those who were admitted to them.  A participant is admitted until it is revoked; then
the provider is asked to remove it, until an attempt that starts after the enforcement period succeeds.  Times are in
microseconds.
-/

namespace KComms.AudioCalls.Lifecycle

open Attempt
open KComms.Conversations (SharedConversation)
open KComms.Rooms (MembershipRole)

inductive MediaKind
  | audio | video
  deriving DecidableEq, Repr

inductive CallStatus
  | active | ending | ended
  deriving DecidableEq, Repr

structure AudioCall where
  id : String
  startedByUserId : String
  endedByUserId : Option String
  providerRoom : String
  mediaKind : MediaKind
  status : CallStatus
  startedAt : Int
  expiresAt : Int
  endedAt : Option Int
  endReason : Option String
  deriving DecidableEq, Repr

/-- `call.status in [:active, :ending]` -/
def AudioCall.isOpen (call : AudioCall) : Bool := call.status = .active || call.status = .ending

inductive ParticipantStatus
  | admitted | revoked | evicted
  deriving DecidableEq, Repr

inductive EvictionStatus
  | notRequired | pending | enforcing | completed
  deriving DecidableEq, Repr

structure AudioCallParticipant where
  id : String
  audioCallId : String
  userId : String
  deviceId : String
  sessionId : String
  providerIdentity : String
  status : ParticipantStatus
  admittedAt : Int
  credentialIssuedAt : Option Int
  credentialIssueCount : Nat
  revokedAt : Option Int
  revocationReason : Option String
  evictionStatus : EvictionStatus
  evictionEnforceUntil : Option Int
  lastEvictionAttemptAt : Option Int
  lastEvictionSuccessAt : Option Int
  evictedAt : Option Int
  evictionAttempts : Nat
  deriving DecidableEq, Repr

/-- `audio_call_participants_state_consistent` -/
def AudioCallParticipant.consistent (participant : AudioCallParticipant) : Bool :=
  if participant.status = .admitted then
    participant.revokedAt.isNone && participant.revocationReason.isNone &&
      participant.evictionStatus = .notRequired && participant.evictionEnforceUntil.isNone
  else
    participant.revokedAt.isSome && participant.revocationReason.isSome &&
      participant.evictionStatus ≠ .notRequired && participant.evictionEnforceUntil.isSome

structure CallAudit where
  action : String
  actorUserId : Option String
  callId : String
  deriving DecidableEq, Repr

/-- An event, with the call that its payload is made from. -/
structure CallEvent where
  eventType : String
  call : AudioCall
  deriving DecidableEq, Repr

inductive CallJob
  | expiry (callId : String) (scheduledAt : Int)
  | eviction (participantId : String)
  deriving DecidableEq, Repr

/-- One conversation with its members, its calls and their participants. -/
structure CallScope where
  shared : SharedConversation
  calls : KeyedTable AudioCall.id
  participants : KeyedTable AudioCallParticipant.id
  jobs : List CallJob
  audits : List CallAudit
  events : List CallEvent

/-- What the provider is asked for: to clean up a room, and to make a credential for a participant of a call. -/
inductive CallEffect
  | cleanup (providerRoom : String)
  | issue (call : AudioCall) (participant : AudioCallParticipant)
  deriving DecidableEq, Repr

inductive CallError
  | notFound | forbidden | audioCallsDisabled | videoCallsDisabled | callMediaKindConflict
  | audioCallEnding | audioCallEnded | audioCallExpired | audioProviderUnavailable
  | meetingCancelled | recordingRefused | invalidRow | raised
  | invalidEndReason | invalidAudioRevocationReason | notClaimable
  | membership (reason : Conversations.MembershipError)
  deriving DecidableEq, Repr

abbrev CallTransaction (α : Type) := Attempt CallEffect CallError α

structure CallSubject where
  userId : String
  deviceId : String
  sessionId : String
  deriving DecidableEq, Repr

/-- Facts from outside of the rows: the checks before the transaction, the policy of the tenant (audio and video), that
the conversation is not a room that is unavailable, that the session is live, that the meeting of the call and its
recordings allow what is done, that rows, jobs and events are inserted, what the provider answers, and that the caller
is the worker of the job; and the clock, as each part reads it. -/
structure CallFacts where
  authorizedBefore : Bool
  policy : Option (Bool × Bool)
  available : Bool
  granted : Bool
  meetingOpen : Bool
  admissionAllowed : Bool
  recordingsStopped : Bool
  recorded : Bool
  cleaned : Bool
  issued : Bool
  authorizedWorker : Bool
  enforcementSeconds : Int
  checkedAt : Int
  startedAt : Int
  ensuredAt : Int
  admittedAt : Int
  issuedAt : Int
  revokedAt : Int
  endedAt : Int
  deriving DecidableEq, Repr

def seconds (n : Int) : Int := n * 1000000

/-! ### Admission -/

/-- `create_admission!` -/
def newAdmission (facts : CallFacts) (call : AudioCall) (subject : CallSubject) (participantId identity : String) :
    AudioCallParticipant where
  id := participantId
  audioCallId := call.id
  userId := subject.userId
  deviceId := subject.deviceId
  sessionId := subject.sessionId
  providerIdentity := identity
  status := .admitted
  admittedAt := facts.admittedAt
  credentialIssuedAt := none
  credentialIssueCount := 0
  revokedAt := none
  revocationReason := none
  evictionStatus := .notRequired
  evictionEnforceUntil := none
  lastEvictionAttemptAt := none
  lastEvictionSuccessAt := none
  evictedAt := none
  evictionAttempts := 0

/-- `active_admission!` -/
def activeAdmission (facts : CallFacts) (call : AudioCall) (subject : CallSubject) (participantId identity : String)
    (scope : CallScope) : CallTransaction (AudioCallParticipant × CallScope) :=
  match scope.participants.rows.find? fun participant =>
    participant.audioCallId = call.id && participant.sessionId = subject.sessionId &&
      participant.status = .admitted with
  | some participant => pure (participant, scope)
  | none => do
    check facts.recorded .invalidRow
    match scope.participants.insert (newAdmission facts call subject participantId identity) with
    | none => rollback .invalidRow
    | some participants =>
      pure (newAdmission facts call subject participantId identity, { scope with participants := participants })

def AudioCallParticipant.recordIssuance (now : Int) (participant : AudioCallParticipant) : AudioCallParticipant :=
  { participant with
    credentialIssuedAt := some now
    credentialIssueCount := participant.credentialIssueCount + 1 }

@[simp] theorem AudioCallParticipant.recordIssuance_id (now : Int) (participant : AudioCallParticipant) :
    (participant.recordIssuance now).id = participant.id := rfl

/-- `issue_credential!`, with the record of the credential. -/
def issueCredential (facts : CallFacts) (call : AudioCall) (participant : AudioCallParticipant) (scope : CallScope) :
    CallTransaction CallScope := do
  let issued ← issue (.issue call participant) facts.issued
  check issued .audioProviderUnavailable
  pure { scope with
    participants := scope.participants.update participant.id (AudioCallParticipant.recordIssuance facts.issuedAt)
      (AudioCallParticipant.recordIssuance_id facts.issuedAt) }

/-- `admit_and_issue!` -/
def admitAndIssue (facts : CallFacts) (call : AudioCall) (subject : CallSubject) (participantId identity : String)
    (scope : CallScope) : CallTransaction (AudioCallParticipant × CallScope) := do
  check facts.meetingOpen .meetingCancelled
  check facts.admissionAllowed .recordingRefused
  let (participant, scope) ← activeAdmission facts call subject participantId identity scope
  let scope ← issueCredential facts call participant scope
  pure (participant, scope)

/-! ### Revocation -/

/-- The participants that the functions `revoke_for_…` choose. -/
inductive RevocationScope
  | sessions (ids : List String)
  | device (deviceId : String)
  | user (userId : String)
  | membership (userId : String)
  | conversation
  | tenant
  | tenantKind (mediaKind : MediaKind)
  | call (callId : String)
  | callParticipant (callId participantId : String)
  deriving DecidableEq, Repr

def RevocationScope.covers (calls : KeyedTable AudioCall.id) (participant : AudioCallParticipant) :
    RevocationScope → Bool
  | .sessions ids => ids.contains participant.sessionId
  | .device deviceId => participant.deviceId = deviceId
  | .user userId => participant.userId = userId
  | .membership userId => participant.userId = userId
  | .conversation => true
  | .tenant => true
  | .tenantKind mediaKind => (calls.find participant.audioCallId).any (·.mediaKind = mediaKind)
  | .call callId => participant.audioCallId = callId
  | .callParticipant callId participantId => participant.audioCallId = callId && participant.id = participantId

/-- `revocation_reason` -/
def revocationReason (reason : String) : Except CallError String :=
  let reason := ElixirString.trim reason
  if 3 ≤ reason.length ∧ reason.length ≤ 120 then .ok reason else .error .invalidAudioRevocationReason

/-- `revoke_participant!` -/
def AudioCallParticipant.revoke (reason : String) (now enforceUntil : Int) (participant : AudioCallParticipant) :
    AudioCallParticipant :=
  { participant with
    status := .revoked
    revokedAt := some now
    revocationReason := some reason
    evictionStatus := .pending
    evictionEnforceUntil := some enforceUntil }

@[simp] theorem AudioCallParticipant.revoke_id (reason : String) (now enforceUntil : Int)
    (participant : AudioCallParticipant) : (participant.revoke reason now enforceUntil).id = participant.id := rfl

/-- The admissions of a scope in calls that have not ended. -/
def revocable (target : RevocationScope) (calls : KeyedTable AudioCall.id) (participant : AudioCallParticipant) :
    Bool :=
  target.covers calls participant && participant.status = .admitted &&
    (calls.find participant.audioCallId).any AudioCall.isOpen

/-- `revoke_matching` -/
def revokeMatching (facts : CallFacts) (target : RevocationScope) (reason : String) (scope : CallScope) :
    CallTransaction (Nat × CallScope) := do
  let reason ← ofExcept (revocationReason reason)
  let enforceUntil := facts.revokedAt + seconds facts.enforcementSeconds
  let revoked := scope.participants.rows.filter (revocable target scope.calls)
  check (revoked.isEmpty || facts.recorded) .invalidRow
  check (revoked.isEmpty || facts.recordingsStopped) .recordingRefused
  pure (revoked.length, { scope with
    participants := scope.participants.modify (revocable target scope.calls)
      (AudioCallParticipant.revoke reason facts.revokedAt enforceUntil)
      (AudioCallParticipant.revoke_id reason facts.revokedAt enforceUntil)
    jobs := scope.jobs ++ revoked.map fun participant => .eviction participant.id })

/-! ### Eviction -/

inductive EvictionResult
  | removed | failed
  deriving DecidableEq, Repr

/-- `claim_eviction` -/
def claimEviction (facts : CallFacts) (participantId : String) (scope : CallScope) :
    CallTransaction (AudioCallParticipant × AudioCall) := do
  check facts.authorizedWorker .forbidden
  match scope.participants.find participantId with
  | none => rollback .notFound
  | some participant => do
    check (participant.evictionStatus = .pending || participant.evictionStatus = .enforcing) .notClaimable
    match scope.calls.find participant.audioCallId with
    | none => rollback .notFound
    | some call => pure (participant, call)

/-- Whether an attempt ends the eviction. -/
def completesEviction (result : EvictionResult) (attemptStartedAt : Int) (participant : AudioCallParticipant) : Bool :=
  result = .removed && participant.evictionEnforceUntil.any (· ≤ attemptStartedAt)

/-- The eviction after an attempt. -/
def evictionAfter (result : EvictionResult) (attemptStartedAt : Int) (participant : AudioCallParticipant) :
    EvictionStatus :=
  if completesEviction result attemptStartedAt participant then .completed
  else if result = .removed then .enforcing
  else .pending

/-- The attributes of `record_eviction`. -/
def AudioCallParticipant.recordAttempt (result : EvictionResult) (attemptStartedAt now : Int)
    (participant : AudioCallParticipant) : AudioCallParticipant :=
  { participant with
    lastEvictionAttemptAt := some attemptStartedAt
    evictionAttempts := participant.evictionAttempts + 1
    evictionStatus := evictionAfter result attemptStartedAt participant
    status := if result = .removed then .evicted else participant.status
    lastEvictionSuccessAt := if result = .removed then some attemptStartedAt else participant.lastEvictionSuccessAt
    evictedAt := if result = .removed then some (participant.evictedAt.getD now) else participant.evictedAt }

@[simp] theorem AudioCallParticipant.recordAttempt_id (result : EvictionResult) (attemptStartedAt now : Int)
    (participant : AudioCallParticipant) :
    (participant.recordAttempt result attemptStartedAt now).id = participant.id := rfl

/-- `record_eviction`; the comparison of a time with no time raises. -/
def recordEviction (facts : CallFacts) (participantId : String) (result : EvictionResult) (attemptStartedAt : Int)
    (scope : CallScope) : CallTransaction CallScope := do
  check facts.authorizedWorker .forbidden
  match scope.participants.find participantId with
  | none => rollback .notFound
  | some participant => do
    check (result = .failed || participant.evictionEnforceUntil.isSome) .raised
    check (participant.recordAttempt result attemptStartedAt facts.checkedAt).consistent .invalidRow
    pure { scope with
      participants := scope.participants.update participantId
        (AudioCallParticipant.recordAttempt result attemptStartedAt facts.checkedAt)
        (AudioCallParticipant.recordAttempt_id result attemptStartedAt facts.checkedAt) }

end KComms.AudioCalls.Lifecycle
