import KComms.Rooms.Lifecycle

/-!
# Joining an instant room (`EphemeralRooms.Admission`)

Guests and users of the workspace join by the token of the room; a join makes an idle room active again.  A join that
is repeated within its window is answered from the first one.
-/

namespace KComms.Rooms

open Attempt KComms.Accounts

/-- The identity of a guest as the accounts answer it, and the ids of new rows. -/
structure GuestIdentity where
  userId : String
  sessionId : String
  membershipId : String
  admissionId : String
  deriving DecidableEq, Repr

structure JoinKey where
  tokenDigest : String
  idempotencyDigest : String
  fingerprint : String
  deriving DecidableEq, Repr

def newMembership (scope : RoomScope) (membershipId userId : String) (joinedAt : Int) : RoomMembership where
  id := membershipId
  userId := userId
  role := .member
  joinedAt := joinedAt
  leftAt := none
  lastReadSequence := scope.nextSequence - 1

def addMembership (membership : RoomMembership) (scope : RoomScope) : RoomTransaction RoomScope :=
  match scope.memberships.insert membership with
  | some memberships => pure { scope with memberships := memberships }
  | none => rollback .invalid

def addAdmission (admission : GuestAdmission) (scope : RoomScope) : RoomTransaction RoomScope :=
  match scope.admissions.insert admission with
  | some admissions => pure { scope with admissions := admissions }
  | none => rollback .invalid

def lockJoinAdmission (scope : RoomScope) (digest : String) : Option GuestAdmission :=
  scope.admissions.rows.find? fun admission => admission.joinIdempotencyDigest = some digest

/-- `replay_guest_join!` -/
def replayGuestJoin (facts : RoomFacts) (times : Readings) (sessionId : String) (key : JoinKey)
    (admission : GuestAdmission) (scope : RoomScope) : RoomTransaction RoomScope := do
  check (admission.requestFingerprint = some key.fingerprint) .idempotencyConflict
  check (admission.idempotencyExpiresAt.any (times.third < ·)) .idempotencyReplayExpired
  let (deadline, scope) ← ensureRollingAuthority facts times.fourth scope
  check facts.identity .identityRefused
  pure { scope with
    admissions := scope.admissions.update admission.id
      (fun admission => { admission with sessionId := sessionId, expiresAt := deadline }) fun _ => rfl }

/-- `join_guest!` -/
def joinGuest (facts : RoomFacts) (times : Readings) (identity : GuestIdentity) (key : JoinKey) (scope : RoomScope) :
    RoomTransaction RoomScope :=
  match lockJoinAdmission scope key.idempotencyDigest with
  | some admission => replayGuestJoin facts times identity.sessionId key admission scope
  | none => do
    ensureMemberCapacity scope
    let (deadline, scope) ← ensureRollingAuthority facts times.third scope
    check facts.identity .identityRefused
    let scope ← addMembership (newMembership scope identity.membershipId identity.userId times.fourth) scope
    addAdmission
      { id := identity.admissionId, guestUserId := identity.userId, membershipId := identity.membershipId,
        sessionId := identity.sessionId, admittedAt := times.fourth, expiresAt := deadline, revokedAt := none,
        convertedAt := none, historyFromSequence := scope.nextSequence,
        joinIdempotencyDigest := some key.idempotencyDigest, requestFingerprint := some key.fingerprint,
        idempotencyExpiresAt := some (times.fourth + idempotencyWindow) } scope

def lockHumanJoinReceipt (scope : RoomScope) (digest : String) : Option JoinReceipt :=
  scope.receipts.find? fun receipt => receipt.idempotencyDigest = digest

/-- The membership of a user of the workspace: as it is, activated again, or new. -/
def humanMembership (times : Readings) (userId membershipId : String) (scope : RoomScope) :
    RoomTransaction (String × RoomScope) :=
  match scope.memberships.rows.find? fun membership => membership.userId = userId with
  | some membership =>
    if membership.leftAt.isNone then pure (membership.id, scope)
    else do
      ensureMemberCapacity scope
      pure (membership.id, { scope with
        memberships := scope.memberships.update membership.id
          (fun membership => { membership with role := .member, joinedAt := times.third, leftAt := none })
          fun _ => rfl })
  | none => do
    ensureMemberCapacity scope
    let scope ← addMembership (newMembership scope membershipId userId times.third) scope
    pure (membershipId, scope)

/-- `join_human!` -/
def joinHuman (times : Readings) (userId membershipId : String) (key : JoinKey) (scope : RoomScope) :
    RoomTransaction RoomScope :=
  match lockHumanJoinReceipt scope key.idempotencyDigest with
  | some receipt => do
    check (receipt.requestFingerprint = key.fingerprint) .idempotencyConflict
    check (times.third < receipt.expiresAt) .idempotencyReplayExpired
    check (scope.memberships.rows.any fun membership =>
      membership.id = receipt.membershipId && membership.userId = userId && membership.leftAt.isNone) .forbidden
    pure scope
  | none => do
    let (member, scope) ← humanMembership times userId membershipId scope
    pure { scope with
      receipts := { userId := userId, membershipId := member, idempotencyDigest := key.idempotencyDigest,
                    requestFingerprint := key.fingerprint, expiresAt := times.fourth + idempotencyWindow } ::
        scope.receipts }

inductive Joiner
  | guest (identity : GuestIdentity)
  | human (userId membershipId : String)
  deriving DecidableEq, Repr

def joinAs (facts : RoomFacts) (times : Readings) (key : JoinKey) (scope : RoomScope) :
    Joiner → RoomTransaction RoomScope
  | .guest identity => joinGuest facts times identity key scope
  | .human userId membershipId => joinHuman times userId membershipId key scope

/-- `do_join` -/
def join (facts : RoomFacts) (times : Readings) (key : JoinKey) (joiner : Joiner) (scope : RoomScope) :
    RoomTransaction RoomScope := do
  check facts.locked .unavailable
  check (scope.link.tokenDigest = key.tokenDigest) .unavailable
  check facts.actorCurrent .unavailable
  check (availableRoom scope times.first) .unavailable
  let scope ← reactivateRoom facts times.second scope
  let scope ← joinAs facts times key scope joiner
  check facts.valid .invalid
  pure scope

end KComms.Rooms
