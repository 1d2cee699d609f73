import KComms.Rooms.EphemeralRoom

/-!
# The lifecycle of an instant room (`EphemeralRooms.Lifecycle`)

A room without presence becomes idle, and expires when it stays idle.  Each change of the status raises the generation,
and a job acts only when it carries the generation of the room.
-/

namespace KComms.Rooms

open Attempt KComms.Accounts

/-- `live_presence?` -/
def livePresence (scope : RoomScope) (timestamp : Int) : Bool :=
  scope.leases.rows.any fun lease => lease.closedAt.isNone && timestamp < lease.expiresAt

def EphemeralRoom.presenceBaseline (room : EphemeralRoom) : Int := room.lastPresenceAt.getD room.insertedAt

/-- `within_reconnect_grace?` -/
def withinReconnectGrace (room : EphemeralRoom) (timestamp : Int) : Bool :=
  timestamp < room.presenceBaseline + seconds room.reconnectGraceSeconds

/-- `reactivate_room!` -/
def reactivateRoom (facts : RoomFacts) (timestamp : Int) (scope : RoomScope) : RoomTransaction RoomScope :=
  match scope.room.status with
  | .active => pure scope
  | .idle => do
    check facts.valid .invalid
    extendLinkAndAdmissions facts (timestamp + authorityHorizon)
      { scope with room := { scope.room with
          status := .active
          idleSince := none
          expiresAt := none
          lastPresenceAt := some timestamp
          generation := scope.room.generation + 1 } }
  | .expired => rollback .unavailable

/-- The room after `transition_to_idle!`: idle since the last presence. -/
def EphemeralRoom.becomeIdle (room : EphemeralRoom) : EphemeralRoom :=
  { room with
    status := .idle
    idleSince := some room.presenceBaseline
    expiresAt := some (room.presenceBaseline + seconds room.idleTtlSeconds)
    generation := room.generation + 1 }

/-- `transition_to_idle!`, with `shorten_link_and_admissions!` -/
def transitionToIdle (facts : RoomFacts) (scope : RoomScope) : RoomTransaction RoomScope := do
  check facts.valid .invalid
  pure ({ scope with room := scope.room.becomeIdle }.withDeadline
    (scope.room.presenceBaseline + seconds scope.room.idleTtlSeconds))

/-- `reconcile` -/
def reconcile (facts : RoomFacts) (times : Readings) (expectedGeneration : Nat) (scope : RoomScope) :
    RoomTransaction RoomScope := do
  check facts.locked .notFound
  if scope.room.status = .expired then pure scope
  else if scope.room.generation ≠ expectedGeneration then pure scope
  else if livePresence scope times.first then pure scope
  else if withinReconnectGrace scope.room times.second then pure scope
  else if scope.room.status = .idle then pure scope
  else transitionToIdle facts scope

/-- The rows after `expire_locked!`. -/
def RoomScope.expire (scope : RoomScope) (timestamp : Int) : RoomScope :=
  { scope with
    admissions := scope.admissions.modify GuestAdmission.live
      (fun admission => { admission with revokedAt := some timestamp }) fun _ => rfl
    memberships := scope.memberships.modify (fun membership => membership.leftAt.isNone)
      (fun membership => { membership with leftAt := some timestamp }) fun _ => rfl
    link :=
      if scope.link.revokedAt.isNone then { scope.link with revokedAt := some timestamp, expiresAt := timestamp }
      else scope.link
    archivedAt := some (scope.archivedAt.getD timestamp)
    room := { scope.room with
      status := .expired
      expiredAt := some timestamp
      expiresAt := some timestamp
      generation := scope.room.generation + 1 } }

/-- `expire` -/
def expire (facts : RoomFacts) (times : Readings) (expectedGeneration : Nat) (scope : RoomScope) :
    RoomTransaction RoomScope := do
  check facts.locked .notFound
  if scope.room.status = .expired then pure scope
  else if scope.room.generation ≠ expectedGeneration then pure scope
  else if scope.room.status = .active || livePresence scope times.first then pure scope
  else if scope.room.expiresAt.any (times.first < ·) then pure scope
  else do
    check facts.contributed .invalid
    check facts.valid .invalid
    pure (scope.expire times.first)

end KComms.Rooms
