import KComms.AudioCalls.Lifecycle

/-!
# Calls under their commands

The commands on the calls of a conversation and on its members, each one transaction.  Whoever leaves the conversation
has the admissions to its calls revoked in the same transaction.
-/

namespace KComms.AudioCalls.Lifecycle

open Attempt
open KComms.Conversations (Membership MembershipStep SharedConversation)

/-! ### The end of memberships -/

/-- A revocation whose count does not matter. -/
def revokeAll (facts : CallFacts) (target : RevocationScope) (reason : String) (scope : CallScope) :
    CallTransaction CallScope := do
  let (_, scope) ← revokeMatching facts target reason scope
  pure scope

/-- The revocation that follows a command on memberships: `remove` and `leave` revoke, unless there was nothing to
leave. -/
def revocationAfter (step : MembershipStep) (before : SharedConversation) : Option (RevocationScope × String) :=
  match step.command with
  | .remove userId _ => some (.membership userId, "membership_removed")
  | .leave _ =>
    if (before.memberships.find step.subject).any Membership.active then
      some (.membership step.subject, "membership_left")
    else none
  | _ => none

/-- `Memberships` and `PublicChannels`, with what they revoke. -/
def changeMembership (facts : CallFacts) (step : MembershipStep) (scope : CallScope) : CallTransaction CallScope := do
  let shared ← ofExcept ((step.transaction scope.shared).outcome.mapError CallError.membership)
  match revocationAfter step scope.shared with
  | none => pure { scope with shared := shared }
  | some (target, reason) => revokeAll facts target reason { scope with shared := shared }

/-- The membership of a user ends, if it has not ended. -/
def endMembership (userId : String) (timestamp : Int) (scope : CallScope) : CallScope :=
  { scope with
    shared := { scope.shared with
      memberships := scope.shared.memberships.modify
        (fun membership => membership.userId = userId && membership.active) (Membership.leave timestamp)
        (Conversations.Membership.leave_userId timestamp) } }

/-- `revoke_locked_admission!` of a guest. -/
def revokeGuest (facts : CallFacts) (userId reason : String) (timestamp : Int) (scope : CallScope) :
    CallTransaction CallScope :=
  revokeAll facts (.membership userId) reason (endMembership userId timestamp scope)

/-- The end of all memberships of an expired room. -/
def expireRoom (facts : CallFacts) (timestamp : Int) (scope : CallScope) : CallTransaction CallScope :=
  (scope.shared.memberships.rows.filter Membership.active).foldlM
    (fun scope membership =>
      revokeAll facts (.membership membership.userId) "ephemeral_room_expired"
        (endMembership membership.userId timestamp scope)) scope

/-- The erasure of a user drains the calls first. -/
def eraseUser (facts : CallFacts) (userId : String) (timestamp : Int) (scope : CallScope) :
    CallTransaction CallScope := do
  let scope ← revokeAll facts (.user userId) "governance_user_erasure" scope
  pure (endMembership userId timestamp scope)

/-- `Meetings.cancel`, for the calls of the occurrences of the meeting. -/
def cancelMeeting (facts : CallFacts) (callIds : List String) (scope : CallScope) : CallTransaction CallScope := do
  check facts.authorizedBefore .forbidden
  callIds.foldlM (fun scope callId => revokeAll facts (.call callId) "meeting_cancelled" scope) scope

/-! ### Commands -/

inductive CallCommand
  | start (callId : String) (mediaKind : MediaKind)
  | startWithJoinAuthorized (callId participantId identity : String) (mediaKind : MediaKind)
  | withJoinAuthorized (callId participantId identity : String) (expectedKind : Option MediaKind)
  | endCall (callId : String) (reason : Option String) (expectedKind : Option MediaKind)
  | expireCall (callId : String)
  | cancelMeeting (callIds : List String)
  | revoke (target : RevocationScope) (reason : String)
  | changeMembership (step : MembershipStep)
  | revokeGuest (userId reason : String) (timestamp : Int)
  | expireRoom (timestamp : Int)
  | eraseUser (userId : String) (timestamp : Int)
  | claimEviction (participantId : String)
  | recordEviction (participantId : String) (result : EvictionResult) (attemptStartedAt : Int)

structure CallStep where
  facts : CallFacts
  subject : CallSubject
  command : CallCommand

/-- The call and the participant that a credential is for. -/
structure Credential where
  call : AudioCall
  participant : AudioCallParticipant
  deriving DecidableEq, Repr

/-- A command that gives no credential. -/
def plain (transaction : CallTransaction CallScope) : CallTransaction (Option Credential × CallScope) := do
  let scope ← transaction
  pure (none, scope)

/-- A command that gives a credential. -/
def granting (transaction : CallTransaction (AudioCall × AudioCallParticipant × CallScope)) :
    CallTransaction (Option Credential × CallScope) := do
  let (call, participant, scope) ← transaction
  pure (some ⟨call, participant⟩, scope)

/-- A command whose result is not a credential. -/
def withoutResult {α : Type} (transaction : CallTransaction (α × CallScope)) : CallTransaction CallScope := do
  let (_, scope) ← transaction
  pure scope

def CallStep.transaction (step : CallStep) (scope : CallScope) : CallTransaction (Option Credential × CallScope) :=
  match step.command with
  | .start callId mediaKind => plain (do
    let (_, _, scope) ← Lifecycle.start step.facts step.subject callId mediaKind scope
    pure scope)
  | .startWithJoinAuthorized callId participantId identity mediaKind =>
    granting (Lifecycle.startWithJoinAuthorized step.facts step.subject callId participantId identity mediaKind scope)
  | .withJoinAuthorized callId participantId identity expectedKind =>
    granting (Lifecycle.withJoinAuthorized step.facts step.subject callId participantId identity expectedKind scope)
  | .endCall callId reason expectedKind =>
    plain (withoutResult (Lifecycle.endCall step.facts step.subject callId reason expectedKind scope))
  | .expireCall callId => plain (withoutResult (Lifecycle.expireCall step.facts callId scope))
  | .cancelMeeting callIds => plain (Lifecycle.cancelMeeting step.facts callIds scope)
  | .revoke target reason => plain (revokeAll step.facts target reason scope)
  | .changeMembership membership => plain (Lifecycle.changeMembership step.facts membership scope)
  | .revokeGuest userId reason timestamp => plain (Lifecycle.revokeGuest step.facts userId reason timestamp scope)
  | .expireRoom timestamp => plain (Lifecycle.expireRoom step.facts timestamp scope)
  | .eraseUser userId timestamp => plain (Lifecycle.eraseUser step.facts userId timestamp scope)
  | .claimEviction participantId => plain (do
    let _ ← Lifecycle.claimEviction step.facts participantId scope
    pure scope)
  | .recordEviction participantId result attemptStartedAt =>
    plain (Lifecycle.recordEviction step.facts participantId result attemptStartedAt scope)

/-- The rows after a command; one that is rolled back leaves them as they are. -/
def CallScope.next (scope : CallScope) (step : CallStep) : CallScope :=
  match (step.transaction scope).outcome with
  | .ok (_, scope) => scope
  | .error _ => scope

end KComms.AudioCalls.Lifecycle
