import Mathlib.Data.List.Basic

/-!
# The row of a phone call (`Telephony.Call`)

The fields that the transactions on a call read and write, and when a call counts as a call of its user
(`Call.ofUser`).  Times are microseconds.
-/

namespace KComms.Telephony

inductive CallStatus
  | ringing | answered | declined | noAnswer | cancelled | failed | ended | busy
  deriving DecidableEq, Repr

inductive RoutingStatus
  | individual | offered | claimed | waiting | unavailable | voicemail | ivr | ivrDestination
  deriving DecidableEq, Repr

inductive Direction
  | inbound | outbound
  deriving DecidableEq, Repr

inductive DispatchStatus
  | pending | dispatching | started
  deriving DecidableEq, Repr

inductive ControlState
  | connected | held | consulting | transferred | voicemail
  deriving DecidableEq, Repr

/-- The handles of the PBX by their names; a handle may be null. -/
abbrev Bindings := List (String × Option String)

def Bindings.get (bindings : Bindings) (name : String) : Option String := (bindings.lookup name).join

/-- `String.replace(id, "-", "")` -/
def compact (id : String) : String := String.ofList (id.toList.filter (· ≠ '-'))

/-- `@active` -/
def CallStatus.active (status : CallStatus) : Bool := status = .ringing || status = .answered

/-- The routing states in which a call waits without its user. -/
def RoutingStatus.parked (routing : RoutingStatus) : Bool :=
  routing = .waiting || routing = .voicemail || routing = .ivr || routing = .ivrDestination

structure Call where
  id : String
  tenantId : String
  numberId : String
  userId : String
  direction : Direction
  status : CallStatus
  toNumber : String
  inboundTrunkId : String
  outboundTrunkId : String
  providerRoom : String
  providerIdentity : String
  providerCallId : Option String
  idempotencyKey : Option String
  answerSessionId : Option String
  answerDeviceId : Option String
  appIdentity : Option String
  appConnectedAt : Option Int
  appReconnectDeadline : Option Int
  appProviderSid : Option String
  appLeftSid : Option String
  appEventAt : Option Int
  appPendingSid : Option String
  appPendingAt : Option Int
  dispatchStatus : DispatchStatus
  dispatchClaimedAt : Option Int
  cleanupClaimedAt : Option Int
  cleanupCompletedAt : Option Int
  startedAt : Int
  answeredAt : Option Int
  endedAt : Option Int
  expiresAt : Int
  endReason : Option String
  routeId : Option String
  routingStatus : RoutingStatus
  offeredUserIds : List String
  routeExpiresAt : Option Int
  controlState : ControlState
  pbxState : Bindings
  deriving DecidableEq, Repr

def Call.active (call : Call) : Bool := call.status.active

/-- The calls that `active_user_call?` looks for: a user has at most one. -/
def Call.ofUser (call : Call) : Bool := call.active && !call.routingStatus.parked

theorem Call.ofUser_iff (call : Call) :
    call.ofUser = true ↔ call.active = true ∧ call.routingStatus.parked = false := by
  simp [Call.ofUser]

end KComms.Telephony
