import KComms.Accounts.Session
import KComms.Lib.EffectTransaction
import KComms.Lib.KeyedTable

/-!
# Instant rooms (`Conversations.EphemeralRoom`) and their authority (`EphemeralRooms.Authority`)

The rows that belong to one room: the room, its guest link, its conversation, admissions, memberships, leases of
presence and receipts of joins.  The deadline of the authority of guests is kept in the room, in the link and in every
live admission.  Times are microseconds.
-/

namespace KComms.Rooms

open Attempt KComms.Accounts

inductive RoomStatus
  | active | idle | expired
  deriving DecidableEq, Repr

inductive OwnerKind
  | guest | registered
  deriving DecidableEq, Repr

structure EphemeralRoom where
  creatorUserId : String
  creatorSessionId : String
  ownerKind : OwnerKind
  status : RoomStatus
  requestFingerprint : String
  idempotencyExpiresAt : Int
  generation : Nat
  participantLimit : Nat
  reconnectGraceSeconds : Int
  idleTtlSeconds : Int
  authorityExpiresAt : Int
  lastPresenceAt : Option Int
  idleSince : Option Int
  expiresAt : Option Int
  expiredAt : Option Int
  insertedAt : Int
  deriving DecidableEq, Repr

structure GuestLink where
  tokenDigest : String
  expiresAt : Int
  revokedAt : Option Int
  deriving DecidableEq, Repr

structure GuestAdmission where
  id : String
  guestUserId : String
  membershipId : String
  sessionId : String
  admittedAt : Int
  expiresAt : Int
  revokedAt : Option Int
  convertedAt : Option Int
  historyFromSequence : Nat
  joinIdempotencyDigest : Option String
  requestFingerprint : Option String
  idempotencyExpiresAt : Option Int
  deriving DecidableEq, Repr

/-- Neither revoked nor converted. -/
def GuestAdmission.live (admission : GuestAdmission) : Bool :=
  admission.revokedAt.isNone && admission.convertedAt.isNone

inductive MembershipRole
  | member | moderator | owner
  deriving DecidableEq, Repr

structure RoomMembership where
  id : String
  userId : String
  role : MembershipRole
  joinedAt : Int
  leftAt : Option Int
  lastReadSequence : Nat
  deriving DecidableEq, Repr

structure PresenceLease where
  id : String
  userId : String
  sessionId : String
  connectionDigest : String
  openedAt : Int
  lastSeenAt : Int
  expiresAt : Int
  closedAt : Option Int
  deriving DecidableEq, Repr

structure JoinReceipt where
  userId : String
  membershipId : String
  idempotencyDigest : String
  requestFingerprint : String
  expiresAt : Int
  deriving DecidableEq, Repr

structure RoomScope where
  room : EphemeralRoom
  link : GuestLink
  archivedAt : Option Int
  nextSequence : Nat
  admissions : KeyedTable GuestAdmission.id
  memberships : KeyedTable RoomMembership.id
  leases : KeyedTable PresenceLease.id
  receipts : List JoinReceipt

structure RoomSettings where
  guestIdleTtlSeconds : Int
  registeredIdleTtlSeconds : Int
  reconnectGraceSeconds : Int
  presenceLeaseSeconds : Int
  maxParticipants : Nat
  deriving DecidableEq, Repr

/-- `idle_ttl` -/
def RoomSettings.idleTtl (settings : RoomSettings) : OwnerKind → Int
  | .guest => settings.guestIdleTtlSeconds
  | .registered => settings.registeredIdleTtlSeconds

inductive RoomError
  | unavailable | notFound | forbidden | presenceNotFound | presenceLimitExceeded | idempotencyConflict
  | idempotencyReplayExpired | idempotencyReplayUnavailable | memberQuotaExceeded | conversationQuotaExceeded
  | identityRefused | invalid
  deriving DecidableEq, Repr

/-- A transaction on the rows of a room, under their locks. -/
abbrev RoomTransaction (α : Type) := Attempt Empty RoomError α

/-- The clock as a transaction reads it, one time after the other. -/
structure Readings where
  first : Int
  second : Int
  third : Int
  fourth : Int
  ordered : first ≤ second ∧ second ≤ third ∧ third ≤ fourth

/-- Facts from outside of the rows: that the parents were locked in time and the actor is still the same, what the
accounts answer for the identities of guests, that the rows are valid, and that calls and whiteboards follow. -/
structure RoomFacts where
  locked : Bool
  actorCurrent : Bool
  identity : Bool
  valid : Bool
  contributed : Bool
  deriving DecidableEq, Repr

/-! ### Authority -/

def authorityHorizon : Int := seconds (24 * 60 * 60)

def authorityRefresh : Int := seconds (12 * 60 * 60)

def idempotencyWindow : Int := seconds (10 * 60)

/-- `available_room` -/
def availableRoom (scope : RoomScope) (timestamp : Int) : Bool :=
  (scope.room.status = .active || scope.room.status = .idle) && scope.room.expiredAt.isNone && scope.archivedAt.isNone &&
    scope.link.revokedAt.isNone && timestamp < scope.link.expiresAt &&
    (scope.room.status = .active || scope.room.expiresAt.any (timestamp < ·))

/-- The rows with this deadline in the room, in the link and in the live admissions. -/
def RoomScope.withDeadline (scope : RoomScope) (deadline : Int) : RoomScope :=
  { scope with
    room := { scope.room with authorityExpiresAt := deadline }
    link := { scope.link with expiresAt := deadline }
    admissions := scope.admissions.modify GuestAdmission.live (fun admission => { admission with expiresAt := deadline })
      fun _ => rfl }

/-- `extend_link_and_admissions!`: the sessions of the guests follow. -/
def extendLinkAndAdmissions (facts : RoomFacts) (deadline : Int) (scope : RoomScope) : RoomTransaction RoomScope := do
  check (facts.identity || !scope.admissions.rows.any GuestAdmission.live) .identityRefused
  pure (scope.withDeadline deadline)

/-- The deadline of the authority is near. -/
def refreshDue (room : EphemeralRoom) (timestamp : Int) : Bool := room.authorityExpiresAt ≤ timestamp + authorityRefresh

/-- `ensure_rolling_authority!`, which is never forced -/
def ensureRollingAuthority (facts : RoomFacts) (timestamp : Int) (scope : RoomScope) :
    RoomTransaction (Int × RoomScope) :=
  if refreshDue scope.room timestamp then do
    let extended ← extendLinkAndAdmissions facts (timestamp + authorityHorizon) scope
    pure (timestamp + authorityHorizon, extended)
  else pure (scope.room.authorityExpiresAt, scope)

def activeMembers (scope : RoomScope) : List RoomMembership :=
  scope.memberships.rows.filter fun membership => membership.leftAt.isNone

/-- `ensure_member_capacity` -/
def ensureMemberCapacity (scope : RoomScope) : RoomTransaction Unit :=
  check ((activeMembers scope).length < scope.room.participantLimit) .memberQuotaExceeded

/-- `active_membership?` -/
def activeMembership (scope : RoomScope) (userId : String) : Bool :=
  (activeMembers scope).any (·.userId = userId) && scope.archivedAt.isNone

end KComms.Rooms
