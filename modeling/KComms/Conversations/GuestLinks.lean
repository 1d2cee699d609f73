import KComms.Conversations.Conversation

/-!
# Guest links (`GuestAccess.LinkManagement`), their redemption (`GuestAccess.Redemption`), and message slots

The rows of one conversation under its row lock.  A redemption provisions an identity, and inserts a membership and an
admission, in one transaction that checks the link before and after.  A guest who joins an instant room
(`EphemeralRooms.Admission`) is admitted through the link of the room, and does not use it.  The slot of a message
(`ContentAccess`) is taken from the same row of the conversation.
-/

namespace KComms.Conversations

open Attempt
open KComms.Rooms (MembershipRole Readings authorityHorizon idempotencyWindow)

/-- A link that a manager has created, or the one of an instant room. -/
inductive LinkPurpose | standard | ephemeralRoom
  deriving DecidableEq, Repr

structure GuestLink where
  id : String
  purpose : LinkPurpose
  tokenDigest : String
  conversionEmail : Option String
  expiresAt : Int
  maxUses : Nat
  useCount : Nat
  revokedAt : Option Int
  deriving DecidableEq, Repr

structure GuestAdmission where
  id : String
  guestLinkId : String
  guestUserId : String
  membershipId : String
  sessionId : String
  admittedAt : Int
  expiresAt : Int
  revokedAt : Option Int
  convertedAt : Option Int
  historyFromSequence : Nat
  joinIdempotencyDigest : Option String
  requestFingerprint : Option String
  idempotencyExpiresAt : Option Int
  deriving DecidableEq, Repr

/-- The user of a guest with its session, as the accounts insert them. -/
structure GuestIdentity where
  userId : String
  sessionId : String
  guestExpiresAt : Int
  deriving DecidableEq, Repr

structure MessageRow where
  id : String
  conversationSequence : Nat
  deriving DecidableEq, Repr

structure GuestScope where
  conversation : Conversation
  links : KeyedTable GuestLink.id
  identities : KeyedTable GuestIdentity.userId
  memberships : KeyedTable Membership.id
  admissions : KeyedTable GuestAdmission.id
  messages : List MessageRow

inductive GuestLinkError
  | guestLinkUnavailable | guestLinkNotFound | guestLinksNotSupported | invalidGuestLinkExpiry | invalidGuestLinkMaxUses
  | guestAccountConversionRequiresSingleUse | guestAccountConversionForbidden | conversationMemberQuotaExceeded
  | forbidden | invalid | messageSlotUpdateFailed | ephemeralRoomUnavailable | idempotencyConflict
  | idempotencyReplayExpired
  deriving DecidableEq, Repr

abbrev GuestTransaction (α : Type) := Attempt Empty GuestLinkError α

/-- `ensure_guest_capable`, of a conversation that is not archived -/
def guestCapable (conversation : Conversation) : Bool :=
  (conversation.kind = .group || conversation.kind = .channel) && conversation.archivedAt.isNone

/-! ### Links -/

/-- Facts from outside of the rows: that the parents were locked, and locked again at the end, that the manager of the
links is still the same one, and that the manager may choose an email for the conversion of an account. -/
structure ManagerFacts where
  parents : Bool
  manager : Bool
  mayConvert : Bool
  current : Bool
  parentsAgain : Bool
  deriving DecidableEq, Repr

def minExpirySeconds : Int := 10 * 60

def maxExpirySeconds : Int := 24 * 60 * 60

structure LinkRequest where
  linkId : String
  tokenDigest : String
  conversionEmail : Option String
  expirySeconds : Int
  maxUses : Nat
  deriving DecidableEq, Repr

def newLink (request : LinkRequest) (timestamp : Int) : GuestLink where
  id := request.linkId
  purpose := .standard
  tokenDigest := request.tokenDigest
  conversionEmail := request.conversionEmail
  expiresAt := timestamp + 1000000 * request.expirySeconds
  maxUses := request.maxUses
  useCount := 0
  revokedAt := none

/-- `create_link` -/
def createLink (facts : ManagerFacts) (timestamp : Int) (request : LinkRequest) (scope : GuestScope) :
    GuestTransaction GuestScope := do
  check (minExpirySeconds ≤ request.expirySeconds && request.expirySeconds ≤ maxExpirySeconds) .invalidGuestLinkExpiry
  check (1 ≤ request.maxUses && request.maxUses ≤ 25) .invalidGuestLinkMaxUses
  check (request.conversionEmail.isNone || facts.mayConvert) .guestAccountConversionForbidden
  check (request.conversionEmail.isNone || request.maxUses = 1) .guestAccountConversionRequiresSingleUse
  check facts.parents .forbidden
  check facts.manager .forbidden
  check (guestCapable scope.conversation) .guestLinksNotSupported
  match scope.links.insert (newLink request timestamp) with
  | none => rollback .invalid
  | some links => do
    check facts.current .forbidden
    check facts.parentsAgain .forbidden
    pure { scope with links := links }

def GuestAdmission.live (admission : GuestAdmission) : Bool :=
  admission.revokedAt.isNone && admission.convertedAt.isNone

def GuestAdmission.liveThrough (admission : GuestAdmission) (linkId : String) : Bool :=
  admission.guestLinkId = linkId && admission.live

def GuestAdmission.revoke (timestamp : Int) (admission : GuestAdmission) : GuestAdmission :=
  { admission with revokedAt := some timestamp }

@[simp] theorem GuestAdmission.revoke_id (timestamp : Int) (admission : GuestAdmission) :
    (admission.revoke timestamp).id = admission.id := rfl

/-- `revoke_admission!`, for all live admissions of the link -/
def revokeAdmissions (timestamp : Int) (linkId : String) (scope : GuestScope) : GuestScope :=
  { scope with
    memberships := scope.memberships.modify
      (fun membership => membership.active && scope.admissions.rows.any fun admission =>
        admission.liveThrough linkId && admission.membershipId = membership.id)
      (Membership.leave timestamp) (Membership.leave_id timestamp)
    admissions := scope.admissions.modify (·.liveThrough linkId) (GuestAdmission.revoke timestamp)
      (GuestAdmission.revoke_id timestamp) }

def GuestLink.revoke (timestamp : Int) (link : GuestLink) : GuestLink :=
  { link with revokedAt := some (link.revokedAt.getD timestamp) }

@[simp] theorem GuestLink.revoke_id (timestamp : Int) (link : GuestLink) : (link.revoke timestamp).id = link.id := rfl

/-- `revoke_link`; that the admissions are those that were read before the lock, and that the sessions and the calls of
the guests were revoked, are facts from outside. -/
def revokeLink (facts : ManagerFacts) (bindings revoked : Bool) (timestamp : Int) (linkId : String)
    (scope : GuestScope) : GuestTransaction GuestScope := do
  check facts.parents .forbidden
  check facts.manager .forbidden
  check (guestCapable scope.conversation) .guestLinksNotSupported
  match scope.links.find linkId with
  | none => rollback .guestLinkNotFound
  | some _ => do
    check bindings .forbidden
    check facts.current .forbidden
    check revoked .forbidden
    check facts.parentsAgain .forbidden
    pure { revokeAdmissions timestamp linkId scope with
      links := scope.links.update linkId (GuestLink.revoke timestamp) (GuestLink.revoke_id timestamp) }

/-! ### Redemption -/

/-- Facts from outside of the rows, in the order in which a redemption asks for them. -/
structure RedemptionFacts where
  parents : Bool
  maxConversationMembers : Nat
  identity : Bool
  audited : Bool
  parentsAgain : Bool
  capabilities : Bool
  deriving DecidableEq, Repr

/-- The token as it was parsed, and the ids of the new rows. -/
structure Redemption where
  linkId : String
  tokenDigest : String
  userId : String
  sessionId : String
  membershipId : String
  admissionId : String
  deriving DecidableEq, Repr

/-- `available_link` -/
def availableLink (link : GuestLink) (timestamp : Int) : Bool :=
  link.revokedAt.isNone && timestamp < link.expiresAt && link.useCount < link.maxUses

/-- `lock_available_link!` -/
def lockAvailableLink (redemption : Redemption) (scope : GuestScope) : GuestTransaction GuestLink :=
  match scope.links.find redemption.linkId with
  | none => rollback .guestLinkUnavailable
  | some link => do
    check (redemption.tokenDigest = link.tokenDigest) .guestLinkUnavailable
    pure link

/-- The members that `ensure_conversation_member_capacity` counts: a guest counts as long as it is admitted. -/
def activeMembers (scope : GuestScope) (timestamp : Int) : List Membership :=
  scope.memberships.rows.filter fun membership =>
    membership.active && scope.admissions.rows.all fun admission =>
      admission.membershipId ≠ membership.id || admission.convertedAt.isSome ||
        (admission.revokedAt.isNone && timestamp < admission.expiresAt)

/-- `provision_guest_identity!`, if the accounts agree -/
def provisionGuestIdentity (agreed : Bool) (identity : GuestIdentity) (scope : GuestScope) :
    GuestTransaction GuestScope := do
  check agreed .forbidden
  match scope.identities.insert identity with
  | none => rollback .invalid
  | some identities => pure { scope with identities := identities }

def insertMembership (membership : Membership) (scope : GuestScope) : GuestTransaction GuestScope :=
  match scope.memberships.insert membership with
  | none => rollback .invalid
  | some memberships => pure { scope with memberships := memberships }

def insertAdmission (admission : GuestAdmission) (scope : GuestScope) : GuestTransaction GuestScope :=
  match scope.admissions.insert admission with
  | none => rollback .invalid
  | some admissions => pure { scope with admissions := admissions }

def guestMembership (membershipId userId : String) (nextSequence : Nat) (timestamp : Int) : Membership where
  id := membershipId
  userId := userId
  role := .member
  joinedAt := timestamp
  leftAt := none
  lastReadSequence := nextSequence - 1
  lockVersion := 1

def newAdmission (redemption : Redemption) (link : GuestLink) (nextSequence : Nat) (timestamp : Int) :
    GuestAdmission where
  id := redemption.admissionId
  guestLinkId := link.id
  guestUserId := redemption.userId
  membershipId := redemption.membershipId
  sessionId := redemption.sessionId
  admittedAt := timestamp
  expiresAt := link.expiresAt
  revokedAt := none
  convertedAt := none
  historyFromSequence := nextSequence
  joinIdempotencyDigest := none
  requestFingerprint := none
  idempotencyExpiresAt := none

def GuestLink.use (link row : GuestLink) : GuestLink := { row with useCount := link.useCount + 1 }

@[simp] theorem GuestLink.use_id (link row : GuestLink) : (link.use row).id = row.id := rfl

/-- `redeem_link`: the link that is checked at the end is the one that was read. -/
def redeemLink (facts : RedemptionFacts) (times : Readings) (redemption : Redemption) (scope : GuestScope) :
    GuestTransaction GuestScope := do
  check facts.parents .forbidden
  check (guestCapable scope.conversation) .guestLinkUnavailable
  let link ← lockAvailableLink redemption scope
  check (availableLink link times.first) .guestLinkUnavailable
  check (memberCapacity facts.maxConversationMembers (activeMembers scope times.second).length)
    .conversationMemberQuotaExceeded
  let provisioned ← provisionGuestIdentity facts.identity
    { userId := redemption.userId, sessionId := redemption.sessionId, guestExpiresAt := link.expiresAt } scope
  let joined ← insertMembership
    (guestMembership redemption.membershipId redemption.userId scope.conversation.nextSequence times.first) provisioned
  let admitted ← insertAdmission (newAdmission redemption link scope.conversation.nextSequence times.first) joined
  check facts.audited .invalid
  check (availableLink link times.third) .guestLinkUnavailable
  check facts.parentsAgain .forbidden
  check facts.capabilities .forbidden
  pure { admitted with
    links := admitted.links.update link.id link.use link.use_id }

/-! ### Joining an instant room -/

/-- Facts from outside of the rows: that the parents were locked, that the room is there and has not ended, the deadline
of its authority and whether it was moved there, because the room was idle or the deadline near, and what the accounts
answer. -/
structure JoinFacts where
  parents : Bool
  room : Bool
  deadline : Int
  extended : Bool
  participantLimit : Nat
  identity : Bool
  budget : Bool
  deriving DecidableEq, Repr

structure JoinRequest where
  linkId : String
  tokenDigest : String
  idempotencyDigest : String
  fingerprint : String
  userId : String
  sessionId : String
  membershipId : String
  admissionId : String
  deriving DecidableEq, Repr

/-- `lock_room_scope_by_link!` -/
def lockRoomLink (join : JoinRequest) (scope : GuestScope) : GuestTransaction GuestLink :=
  match scope.links.find join.linkId with
  | none => rollback .ephemeralRoomUnavailable
  | some link => do
    check (link.purpose = .ephemeralRoom) .ephemeralRoomUnavailable
    check (join.tokenDigest = link.tokenDigest) .ephemeralRoomUnavailable
    pure link

/-- `available_room` -/
def availableRoom (facts : JoinFacts) (link : GuestLink) (timestamp : Int) (scope : GuestScope) : Bool :=
  facts.room && scope.conversation.archivedAt.isNone && link.revokedAt.isNone && timestamp < link.expiresAt

def GuestLink.extend (deadline : Int) (link : GuestLink) : GuestLink := { link with expiresAt := deadline }

def GuestIdentity.extend (deadline : Int) (identity : GuestIdentity) : GuestIdentity :=
  { identity with guestExpiresAt := deadline }

def GuestAdmission.extend (deadline : Int) (admission : GuestAdmission) : GuestAdmission :=
  { admission with expiresAt := deadline }

/-- `extend_link_and_admissions!`: the guests who are admitted follow. -/
def extendLinkAndAdmissions (deadline : Int) (link : GuestLink) (scope : GuestScope) : GuestScope :=
  { scope with
    links := scope.links.update link.id (GuestLink.extend deadline) fun _ => rfl
    identities := scope.identities.modify
      (fun identity => scope.admissions.rows.any fun admission =>
        admission.live && admission.guestUserId = identity.userId)
      (GuestIdentity.extend deadline) fun _ => rfl
    admissions := scope.admissions.modify (·.live) (GuestAdmission.extend deadline) fun _ => rfl }

def joinedAdmission (join : JoinRequest) (link : GuestLink) (deadline : Int) (nextSequence : Nat) (timestamp : Int) :
    GuestAdmission where
  id := join.admissionId
  guestLinkId := link.id
  guestUserId := join.userId
  membershipId := join.membershipId
  sessionId := join.sessionId
  admittedAt := timestamp
  expiresAt := deadline
  revokedAt := none
  convertedAt := none
  historyFromSequence := nextSequence
  joinIdempotencyDigest := some join.idempotencyDigest
  requestFingerprint := some join.fingerprint
  idempotencyExpiresAt := some (timestamp + idempotencyWindow)

/-- `resume_ephemeral_guest_identity` -/
def GuestIdentity.resume (sessionId : String) (deadline : Int) (identity : GuestIdentity) : GuestIdentity :=
  { identity with sessionId := sessionId, guestExpiresAt := deadline }

def GuestAdmission.resume (sessionId : String) (deadline : Int) (admission : GuestAdmission) : GuestAdmission :=
  { admission with sessionId := sessionId, expiresAt := deadline }

/-- `replay_guest_join!` -/
def replayGuestJoin (facts : JoinFacts) (times : Readings) (join : JoinRequest) (admission : GuestAdmission)
    (scope : GuestScope) : GuestTransaction GuestScope := do
  check (admission.requestFingerprint = some join.fingerprint) .idempotencyConflict
  check (admission.idempotencyExpiresAt.any (times.third < ·)) .idempotencyReplayExpired
  check facts.identity .forbidden
  pure { scope with
    identities := scope.identities.update admission.guestUserId (GuestIdentity.resume join.sessionId facts.deadline)
      fun _ => rfl
    admissions := scope.admissions.update admission.id (GuestAdmission.resume join.sessionId facts.deadline)
      fun _ => rfl }

/-- `join_guest!` -/
def joinGuest (facts : JoinFacts) (times : Readings) (join : JoinRequest) (link : GuestLink) (scope : GuestScope) :
    GuestTransaction GuestScope :=
  match scope.admissions.rows.find? fun admission =>
      admission.guestLinkId = link.id && admission.joinIdempotencyDigest = some join.idempotencyDigest with
  | some admission => replayGuestJoin facts times join admission scope
  | none => do
    check ((scope.memberships.rows.filter (·.active)).length < facts.participantLimit) .conversationMemberQuotaExceeded
    let provisioned ← provisionGuestIdentity facts.identity
      { userId := join.userId, sessionId := join.sessionId, guestExpiresAt := facts.deadline } scope
    let joined ← insertMembership
      (guestMembership join.membershipId join.userId scope.conversation.nextSequence times.fourth) provisioned
    insertAdmission (joinedAdmission join link facts.deadline scope.conversation.nextSequence times.fourth) joined

/-- `join`, of a guest -/
def joinRoom (facts : JoinFacts) (times : Readings) (join : JoinRequest) (scope : GuestScope) :
    GuestTransaction GuestScope := do
  check facts.parents .ephemeralRoomUnavailable
  let link ← lockRoomLink join scope
  check (availableRoom facts link times.first scope) .ephemeralRoomUnavailable
  let joined ← joinGuest facts times join link
    (if facts.extended then extendLinkAndAdmissions facts.deadline link scope else scope)
  check facts.budget .forbidden
  pure joined

/-! ### Messages -/

/-- `reserve_message_slot` -/
def reserveMessageSlot (valid : Bool) (scope : GuestScope) : GuestTransaction (Nat × GuestScope) := do
  check valid .messageSlotUpdateFailed
  pure (scope.conversation.nextSequence,
    { scope with conversation := { scope.conversation with nextSequence := scope.conversation.nextSequence + 1 } })

/-- A message is accepted at its slot; that it is authorized and valid is a fact from outside. -/
def acceptMessage (valid authorized : Bool) (messageId : String) (scope : GuestScope) :
    GuestTransaction GuestScope := do
  let (sequence, reserved) ← reserveMessageSlot valid scope
  check authorized .forbidden
  pure { reserved with messages := ⟨messageId, sequence⟩ :: reserved.messages }

end KComms.Conversations
