import KComms.Rooms.Admission

/-!
# The creation of an instant room (`EphemeralRooms.Creation`), and its conversion (`EphemeralRooms.ConversionHooks`)

A creation that is repeated within its window is answered from the room (`replayCreation`).  When the guest who created
a room becomes a user of the workspace, the room is upgraded (`convert`).
-/

namespace KComms.Rooms

open Attempt KComms.Accounts

/-- The creator; for a guest with the identity and the ids that the accounts answer. -/
inductive Creator
  | guest (identity : GuestIdentity)
  | registered (userId sessionId membershipId : String)
  deriving DecidableEq, Repr

def Creator.ownerKind : Creator → OwnerKind
  | .guest _ => .guest
  | .registered _ _ _ => .registered

def Creator.userId : Creator → String
  | .guest identity => identity.userId
  | .registered userId _ _ => userId

def Creator.sessionId : Creator → String
  | .guest identity => identity.sessionId
  | .registered _ sessionId _ => sessionId

def Creator.membershipId : Creator → String
  | .guest identity => identity.membershipId
  | .registered _ _ membershipId => membershipId

/-- `maybe_create_creator_admission!` -/
def creatorAdmission (creator : Creator) (timestamp : Int) : KeyedTable GuestAdmission.id :=
  match creator with
  | .guest identity =>
    ⟨[{ id := identity.admissionId, guestUserId := identity.userId, membershipId := identity.membershipId,
        sessionId := identity.sessionId, admittedAt := timestamp, expiresAt := timestamp + authorityHorizon,
        revokedAt := none, convertedAt := none, historyFromSequence := 1, joinIdempotencyDigest := none,
        requestFingerprint := none, idempotencyExpiresAt := none }], List.nodup_singleton _⟩
  | .registered _ _ _ => .empty

/-- The rows of a new room, created at this time; the row itself is inserted at the later one. -/
def createdScope (settings : RoomSettings) (creator : Creator) (tokenDigest fingerprint : String)
    (maxConversationMembers : Nat) (times : Readings) : RoomScope where
  room :=
    { creatorUserId := creator.userId
      creatorSessionId := creator.sessionId
      ownerKind := creator.ownerKind
      status := .active
      requestFingerprint := fingerprint
      idempotencyExpiresAt := times.first + idempotencyWindow
      generation := 1
      participantLimit := min settings.maxParticipants maxConversationMembers
      reconnectGraceSeconds := settings.reconnectGraceSeconds
      idleTtlSeconds := settings.idleTtl creator.ownerKind
      authorityExpiresAt := times.first + authorityHorizon
      lastPresenceAt := none
      idleSince := none
      expiresAt := none
      expiredAt := none
      insertedAt := times.second }
  link := { tokenDigest := tokenDigest, expiresAt := times.first + authorityHorizon, revokedAt := none }
  archivedAt := none
  nextSequence := 1
  admissions := creatorAdmission creator times.first
  memberships := ⟨[{ id := creator.membershipId, userId := creator.userId, role := .owner, joinedAt := times.first,
                     leftAt := none, lastReadSequence := 0 }], List.nodup_singleton _⟩
  leases := .empty
  receipts := []

/-- `create_new_room`; the quota of conversations is a fact from outside. -/
def createRoom (settings : RoomSettings) (facts : RoomFacts) (quota : Bool) (creator : Creator)
    (tokenDigest fingerprint : String) (maxConversationMembers : Nat) (times : Readings) :
    RoomTransaction RoomScope := do
  check facts.locked .forbidden
  check facts.actorCurrent .forbidden
  check quota .conversationQuotaExceeded
  check facts.identity .identityRefused
  check facts.valid .invalid
  pure (createdScope settings creator tokenDigest fingerprint maxConversationMembers times)

def lockCreatorAdmission (scope : RoomScope) : Option GuestAdmission :=
  scope.admissions.rows.find? fun admission => admission.live && admission.guestUserId = scope.room.creatorUserId

/-- `replay_guest_creator!` -/
def replayGuestCreator (facts : RoomFacts) (times : Readings) (sessionId : String) (scope : RoomScope) :
    RoomTransaction RoomScope :=
  match lockCreatorAdmission scope with
  | none => rollback .idempotencyReplayUnavailable
  | some admission => do
    let extended ← ensureRollingAuthority facts times.second scope
    check facts.identity .identityRefused
    let scope := extended.2
    pure { scope with
      admissions := scope.admissions.update admission.id
        (fun admission => { admission with sessionId := sessionId, expiresAt := extended.1 }) fun _ => rfl
      room := { scope.room with creatorSessionId := sessionId, authorityExpiresAt := extended.1 } }

/-- `replay_creation`, with `replay_creation_locked!`; that the token is still readable is a fact from outside. -/
def replayCreation (facts : RoomFacts) (times : Readings) (kind : OwnerKind) (fingerprint sessionId : String)
    (decrypted : Bool) (scope : RoomScope) : RoomTransaction RoomScope := do
  check facts.locked .notFound
  check facts.actorCurrent .forbidden
  check (scope.room.requestFingerprint = fingerprint) .idempotencyConflict
  check (times.first < scope.room.idempotencyExpiresAt) .idempotencyReplayExpired
  check decrypted .idempotencyReplayUnavailable
  match kind with
  | .guest => replayGuestCreator facts times sessionId scope
  | .registered => pure scope

/-! ### Conversion -/

/-- `ensure_convertible!` -/
def convertible (scope : RoomScope) (admission : GuestAdmission) (timestamp : Int) : Bool :=
  scope.archivedAt.isNone && scope.link.revokedAt.isNone && timestamp < scope.link.expiresAt && admission.live &&
    timestamp < admission.expiresAt &&
    scope.memberships.rows.any fun membership => membership.id = admission.membershipId && membership.leftAt.isNone

/-- The room after `upgrade_converted_owner`. -/
def EphemeralRoom.upgrade (room : EphemeralRoom) (settings : RoomSettings) (sessionId : String) : EphemeralRoom :=
  { room with
    ownerKind := .registered
    creatorSessionId := sessionId
    idleTtlSeconds := settings.registeredIdleTtlSeconds
    expiresAt :=
      if room.status = .idle then room.idleSince.map (· + seconds settings.registeredIdleTtlSeconds) else none
    generation := room.generation + 1 }

/-- `upgrade_converted_owner` -/
def upgradeConvertedOwner (settings : RoomSettings) (facts : RoomFacts) (userId sessionId : String)
    (scope : RoomScope) : RoomTransaction RoomScope :=
  if scope.room.creatorUserId = userId && scope.room.ownerKind = .guest then do
    check facts.valid .invalid
    let upgraded := { scope with room := scope.room.upgrade settings sessionId }
    match upgraded.room.status, upgraded.room.expiresAt with
    | .idle, some expiresAt => extendLinkAndAdmissions facts expiresAt upgraded
    | .idle, none => rollback .invalid
    | _, _ => pure upgraded
  else pure scope

def PresenceLease.handOff (userId oldSessionId newSessionId : String) (timestamp : Int) (lease : PresenceLease) :
    PresenceLease :=
  if lease.userId = userId && lease.sessionId = oldSessionId then
    { lease with sessionId := newSessionId, closedAt := some (lease.closedAt.getD timestamp) }
  else lease

@[simp] theorem PresenceLease.handOff_id (userId oldSessionId newSessionId : String) (timestamp : Int)
    (lease : PresenceLease) : (lease.handOff userId oldSessionId newSessionId timestamp).id = lease.id := by
  unfold PresenceLease.handOff
  split <;> rfl

/-- `handoff_converted_presence` -/
def handoffConvertedPresence (userId oldSessionId newSessionId : String) (timestamp : Int) (scope : RoomScope) :
    RoomScope :=
  { scope with
    leases := scope.leases.modify (fun _ => true) (·.handOff userId oldSessionId newSessionId timestamp)
      (PresenceLease.handOff_id userId oldSessionId newSessionId timestamp) }

/-- `convert_account` -/
def convert (settings : RoomSettings) (facts : RoomFacts) (times : Readings) (admissionId newSessionId : String)
    (scope : RoomScope) : RoomTransaction RoomScope := do
  check facts.locked .forbidden
  match scope.admissions.find admissionId with
  | none => rollback .forbidden
  | some admission => do
    check (convertible scope admission times.first) .forbidden
    check facts.identity .identityRefused
    let converted := { scope with
      admissions := scope.admissions.update admissionId
        (fun admission => { admission with convertedAt := some times.first }) fun _ => rfl }
    let upgraded ← upgradeConvertedOwner settings facts admission.guestUserId newSessionId converted
    check (convertible scope admission times.second) .forbidden
    pure (handoffConvertedPresence admission.guestUserId admission.sessionId newSessionId times.first upgraded)

end KComms.Rooms
