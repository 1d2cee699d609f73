import KComms.Rooms.Lifecycle

/-!
# Presence in an instant room (`EphemeralRooms.Presence`)

A connection opens a lease, renews it by heartbeats and closes it.  Whoever opens or renews a lease makes an idle room
active again.
-/

namespace KComms.Rooms

open Attempt KComms.Accounts

/-- The access grant of the one who is present. -/
structure Grant where
  userId : String
  sessionId : String
  guest : Bool
  deriving DecidableEq, Repr

inductive PresenceMode
  | openLease | heartbeat
  deriving DecidableEq, Repr

def GuestAdmission.ofGrant (admission : GuestAdmission) (grant : Grant) : Bool :=
  admission.live && admission.guestUserId = grant.userId && admission.sessionId = grant.sessionId

/-- `authorize!` -/
def authorizePresence (scope : RoomScope) (grant : Grant) : RoomTransaction Unit :=
  check (activeMembership scope grant.userId && (!grant.guest || scope.admissions.rows.any (·.ofGrant grant))) .forbidden

theorem extended_id (deadline : Int) (admission : GuestAdmission) :
    { admission with expiresAt := deadline }.id = admission.id := rfl

/-- `maybe_extend_present_guest!` -/
def maybeExtendPresentGuest (grant : Grant) (deadline : Int) (scope : RoomScope) : RoomTransaction RoomScope :=
  if grant.guest then
    match scope.admissions.rows.find? (·.ofGrant grant) with
    | none => rollback .forbidden
    | some admission => pure { scope with
        admissions := scope.admissions.update admission.id (fun admission => { admission with expiresAt := deadline })
          (extended_id deadline) }
  else pure scope

def maxActiveLeasesPerUser : Nat := 5

/-- `enforce_lease_limit!` -/
def enforceLeaseLimit (scope : RoomScope) (userId : String) (timestamp : Int) : RoomTransaction Unit :=
  check ((scope.leases.rows.filter fun lease =>
      lease.userId = userId && lease.closedAt.isNone && timestamp < lease.expiresAt).length < maxActiveLeasesPerUser)
    .presenceLimitExceeded

def leaseOfConnection (scope : RoomScope) (digest : String) : Option PresenceLease :=
  scope.leases.rows.find? fun lease => lease.connectionDigest = digest

/-- The lease that is opened or renewed. -/
def upsertLease (mode : PresenceMode) (grant : Grant) (leaseId digest : String) (timestamp expiresAt : Int)
    (scope : RoomScope) : RoomTransaction RoomScope :=
  match leaseOfConnection scope digest with
  | none =>
    match mode with
    | .heartbeat => rollback .presenceNotFound
    | .openLease => do
      enforceLeaseLimit scope grant.userId timestamp
      match scope.leases.insert { id := leaseId, userId := grant.userId, sessionId := grant.sessionId,
                                  connectionDigest := digest, openedAt := timestamp, lastSeenAt := timestamp,
                                  expiresAt := expiresAt, closedAt := none } with
      | some leases => pure { scope with leases := leases }
      | none => rollback .invalid
  | some lease =>
    if lease.userId = grant.userId && lease.sessionId = grant.sessionId then
      pure { scope with
        leases := scope.leases.update lease.id
          (fun lease => { lease with lastSeenAt := timestamp, expiresAt := expiresAt, closedAt := none }) fun _ => rfl }
    else rollback .forbidden

/-- `upsert` -/
def upsert (settings : RoomSettings) (facts : RoomFacts) (times : Readings) (mode : PresenceMode) (grant : Grant)
    (leaseId digest : String) (scope : RoomScope) : RoomTransaction RoomScope := do
  check facts.locked .forbidden
  check facts.actorCurrent .forbidden
  check (availableRoom scope times.first) .unavailable
  authorizePresence scope grant
  let scope ← reactivateRoom facts times.second scope
  let (deadline, scope) ← ensureRollingAuthority facts times.third scope
  let scope ← maybeExtendPresentGuest grant deadline scope
  let scope ← upsertLease mode grant leaseId digest times.first (times.first + seconds settings.presenceLeaseSeconds)
    scope
  check facts.valid .invalid
  pure { scope with room := { scope.room with lastPresenceAt := some times.first } }

/-- `advance_last_presence!` -/
def EphemeralRoom.advanceLastPresence (room : EphemeralRoom) (timestamp : Int) : EphemeralRoom :=
  if room.lastPresenceAt.any (timestamp ≤ ·) then room else { room with lastPresenceAt := some timestamp }

def PresenceLease.close (timestamp : Int) (lease : PresenceLease) : PresenceLease :=
  match lease.closedAt with
  | some _ => lease
  | none => { lease with lastSeenAt := timestamp, expiresAt := timestamp + seconds 1, closedAt := some timestamp }

def PresenceLease.closedOr (lease : PresenceLease) (timestamp : Int) : Int := lease.closedAt.getD timestamp

@[simp] theorem PresenceLease.close_id (timestamp : Int) (lease : PresenceLease) :
    (lease.close timestamp).id = lease.id := by
  unfold PresenceLease.close
  split <;> rfl

/-- `close` -/
def closePresence (facts : RoomFacts) (times : Readings) (grant : Grant) (digest : String) (scope : RoomScope) :
    RoomTransaction RoomScope := do
  check facts.locked .forbidden
  check facts.actorCurrent .forbidden
  authorizePresence scope grant
  match scope.leases.rows.find? fun lease => lease.connectionDigest = digest && lease.userId = grant.userId &&
      lease.sessionId = grant.sessionId with
  | none => rollback .presenceNotFound
  | some lease => do
    check facts.valid .invalid
    pure { scope with
      leases := scope.leases.update lease.id (·.close times.first) (PresenceLease.close_id times.first)
      room := scope.room.advanceLastPresence (lease.closedOr times.first) }

end KComms.Rooms
