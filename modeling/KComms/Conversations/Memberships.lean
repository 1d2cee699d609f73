import KComms.Accounts.TenantUsers
import KComms.Conversations.Conversation

/-!
# Members of shared conversations (`Conversations.Memberships`, `Conversations.PublicChannels`)

The memberships of one conversation under its row lock: members are added, removed and given roles by those who manage
the conversation, and users join and leave the channels of the tenant by themselves.
-/

namespace KComms.Conversations

open Attempt
open KComms.Accounts (Role)
open KComms.Rooms (MembershipRole)

/-- The event and the audit of a changed membership. -/
structure MembershipEvent where
  eventType : String
  actorUserId : String
  userId : String
  action : Option String
  beforeRole : Option MembershipRole
  role : MembershipRole
  membershipVersion : Option Nat
  source : Option String
  deriving DecidableEq, Repr

/-- One conversation; a user has at most one membership in it. -/
structure SharedConversation where
  conversation : Conversation
  serverReadable : Bool
  memberships : KeyedTable Membership.userId
  events : List MembershipEvent

inductive MembershipError
  | forbidden | notFound | directMembershipImmutable | invalidMember | versionRequired | staleVersion
  | cannotRemoveOwner | conversationMemberQuotaExceeded | conversationArchived | publicChannelsDisabled
  | federationFence | invalid
  deriving DecidableEq, Repr

abbrev MembershipTransaction (α : Type) := Attempt Empty MembershipError α

/-- Facts from outside of the rows: what was allowed before the lock; the role of the subject in the tenant as the
transaction reads it, each time, when the session is good; that the conversation is not an expired room; the quota, and
the memberships of guests whose admission is over; and the answers of the other components. -/
structure MembershipFacts where
  authorizedBefore : Bool
  manage : Option Role
  ownership : Option Role
  humanWorkspace : Bool
  available : Bool
  channelsEnabled : Bool
  activeUser : Bool
  maxConversationMembers : Nat
  lapsedGuests : List String
  fenced : Bool
  timestamp : Int
  deriving DecidableEq, Repr

/-! ### Authority (`AccessPolicy`) -/

inductive ManageAction
  | manageConversation | manageConversationOwnership
  deriving DecidableEq, Repr

/-- `active_membership` -/
def activeMembership (facts : MembershipFacts) (userId : String) (scope : SharedConversation) : Option Membership :=
  (scope.memberships.find userId).filter fun membership =>
    membership.active && scope.conversation.archivedAt.isNone && facts.available

def ManageAction.allows : ManageAction → MembershipRole → Bool
  | .manageConversation, role => role = .owner || role = .moderator
  | .manageConversationOwnership, role => role = .owner

def tenantChannel (conversation : Conversation) : Bool :=
  conversation.kind = .channel && conversation.visibility = .tenant

/-- A tenant owner or admin, on a channel of the tenant. -/
def channelAdmin (role : Option Role) (conversation : Conversation) : Bool :=
  (role = some .owner || role = some .admin) && tenantChannel conversation

/-- `authorize_management` -/
def authorizeManagement (action : ManageAction) (facts : MembershipFacts) (role : Option Role) (userId : String)
    (scope : SharedConversation) : Bool :=
  role.isSome && scope.serverReadable &&
    ((activeMembership facts userId scope).any (fun membership => action.allows membership.role) ||
      channelAdmin role scope.conversation)

/-- `authorize_ownership_change!` -/
def authorizeOwnershipChange (current requested : Option MembershipRole) (facts : MembershipFacts) (userId : String)
    (scope : SharedConversation) : MembershipTransaction Unit :=
  if current = some .owner || requested = some .owner then
    check (authorizeManagement .manageConversationOwnership facts facts.ownership userId scope) .forbidden
  else pure ()

/-- `ensure_conversation_owner_remains!` -/
def ensureConversationOwnerRemains (membership : Membership) (scope : SharedConversation) :
    MembershipTransaction Unit :=
  if membership.role = .owner then
    check (scope.memberships.rows.any fun other =>
      other.userId ≠ membership.userId && other.role = .owner && other.active) .cannotRemoveOwner
  else pure ()

/-- `ensure_conversation_member_capacity` -/
def ensureConversationMemberCapacity (facts : MembershipFacts) (scope : SharedConversation) :
    MembershipTransaction Unit :=
  check (memberCapacity facts.maxConversationMembers (scope.memberships.rows.filter fun membership =>
    membership.active && !facts.lapsedGuests.contains membership.id).length) .conversationMemberQuotaExceeded

/-! ### Writes -/

def newMember (membershipId userId : String) (role : MembershipRole) (timestamp : Int) : Membership where
  id := membershipId
  userId := userId
  role := role
  joinedAt := timestamp
  leftAt := none
  lastReadSequence := 0
  lockVersion := 1

/-- A departed member comes back, with this role. -/
def Membership.rejoin (role : MembershipRole) (timestamp : Int) (membership : Membership) : Membership :=
  { membership with role := role, joinedAt := timestamp, leftAt := none, lockVersion := membership.lockVersion + 1 }

/-- The same role is no change, and keeps the version. -/
def Membership.changeRole (role : MembershipRole) (membership : Membership) : Membership :=
  if membership.role = role then membership
  else { membership with role := role, lockVersion := membership.lockVersion + 1 }

@[simp] theorem Membership.rejoin_userId (role : MembershipRole) (timestamp : Int) (membership : Membership) :
    (membership.rejoin role timestamp).userId = membership.userId := rfl

@[simp] theorem Membership.changeRole_userId (role : MembershipRole) (membership : Membership) :
    (membership.changeRole role).userId = membership.userId := by
  unfold Membership.changeRole
  split <;> rfl

@[simp] theorem Membership.changeRole_role (membership : Membership) (role : MembershipRole) :
    (membership.changeRole role).role = role := by
  unfold Membership.changeRole
  split
  · assumption
  · rfl

@[simp] theorem Membership.changeRole_active (membership : Membership) (role : MembershipRole) :
    (membership.changeRole role).active = membership.active := by
  unfold Membership.changeRole
  split <;> rfl

theorem Membership.changeRole_version (role : MembershipRole) (membership : Membership) :
    membership.changeRole role = membership ∨ (membership.changeRole role).lockVersion = membership.lockVersion + 1 := by
  unfold Membership.changeRole
  split
  · exact .inl rfl
  · exact .inr rfl

@[simp] theorem Membership.leave_userId (timestamp : Int) (membership : Membership) :
    (membership.leave timestamp).userId = membership.userId := rfl

def SharedConversation.record (event : MembershipEvent) (scope : SharedConversation) : SharedConversation :=
  { scope with events := scope.events ++ [event] }

/-- Inserts a membership under its quota. -/
def admitNew (facts : MembershipFacts) (membershipId userId : String) (role : MembershipRole)
    (scope : SharedConversation) : MembershipTransaction SharedConversation := do
  ensureConversationMemberCapacity facts scope
  match scope.memberships.insert (newMember membershipId userId role facts.timestamp) with
  | none => rollback .invalid
  | some memberships => pure { scope with memberships := memberships }

/-- Takes a departed member back under the quota. -/
def readmit (facts : MembershipFacts) (userId : String) (role : MembershipRole) (scope : SharedConversation) :
    MembershipTransaction SharedConversation := do
  ensureConversationMemberCapacity facts scope
  pure { scope with
    memberships := scope.memberships.update userId (Membership.rejoin role facts.timestamp)
      (Membership.rejoin_userId role facts.timestamp) }

/-- Ends a membership; calls and federation follow. -/
def depart (facts : MembershipFacts) (userId : String) (event : MembershipEvent) (scope : SharedConversation) :
    MembershipTransaction SharedConversation := do
  check facts.fenced .federationFence
  pure (SharedConversation.record event { scope with
    memberships := scope.memberships.update userId (Membership.leave facts.timestamp)
      (Membership.leave_userId facts.timestamp) })

/-! ### Managed memberships -/

def addedEvent (subject userId : String) (role : MembershipRole) : MembershipEvent where
  eventType := "membership.changed.v1"
  actorUserId := subject
  userId := userId
  action := some "added"
  beforeRole := none
  role := role
  membershipVersion := none
  source := none

def removedEvent (subject userId : String) (role : MembershipRole) : MembershipEvent where
  eventType := "membership.changed.v1"
  actorUserId := subject
  userId := userId
  action := some "removed"
  beforeRole := none
  role := role
  membershipVersion := none
  source := none

def roleChangedEvent (subject : String) (membership : Membership) (role : MembershipRole) : MembershipEvent where
  eventType := "membership.role_changed.v1"
  actorUserId := subject
  userId := membership.userId
  action := none
  beforeRole := some membership.role
  role := role
  membershipVersion := some (membership.changeRole role).lockVersion
  source := none

/-- What `add`, `remove` and `change_role` check under the lock. -/
def manageable (facts : MembershipFacts) (subject : String) (scope : SharedConversation) :
    MembershipTransaction Unit := do
  check facts.authorizedBefore .forbidden
  check scope.conversation.archivedAt.isNone .notFound
  check (scope.conversation.kind ≠ .direct) .directMembershipImmutable
  check (authorizeManagement .manageConversation facts facts.manage subject scope) .forbidden

/-- The row that `add` finds, or a new one. -/
def addMember (facts : MembershipFacts) (subject membershipId userId : String) (role : MembershipRole)
    (scope : SharedConversation) : MembershipTransaction SharedConversation :=
  match scope.memberships.find userId with
  | none => do
    authorizeOwnershipChange none (some role) facts subject scope
    let added ← admitNew facts membershipId userId role scope
    pure (added.record (addedEvent subject userId role))
  | some membership =>
    if membership.active then do
      authorizeOwnershipChange (some membership.role) (some role) facts subject scope
      check (membership.role = role) .versionRequired
      pure scope
    else do
      authorizeOwnershipChange none (some role) facts subject scope
      let added ← readmit facts userId role scope
      pure (added.record (addedEvent subject userId role))

/-- `Memberships.add` -/
def add (facts : MembershipFacts) (subject membershipId userId : String) (role : MembershipRole)
    (scope : SharedConversation) : MembershipTransaction SharedConversation := do
  manageable facts subject scope
  check facts.activeUser .invalidMember
  addMember facts subject membershipId userId role scope

/-- The active membership that `remove` and `change_role` find. -/
def lockedMember (userId : String) (scope : SharedConversation) : MembershipTransaction Membership :=
  match scope.memberships.find userId with
  | none => rollback .notFound
  | some membership => do
    check membership.active .notFound
    pure membership

/-- `Memberships.remove` -/
def remove (facts : MembershipFacts) (subject userId : String) (expectedVersion : Nat) (scope : SharedConversation) :
    MembershipTransaction SharedConversation := do
  manageable facts subject scope
  let membership ← lockedMember userId scope
  authorizeOwnershipChange (some membership.role) none facts subject scope
  check (membership.lockVersion = expectedVersion) .staleVersion
  ensureConversationOwnerRemains membership scope
  depart facts userId (removedEvent subject userId membership.role) scope

/-- `Memberships.change_role` -/
def changeRole (facts : MembershipFacts) (subject userId : String) (role : MembershipRole) (expectedVersion : Nat)
    (scope : SharedConversation) : MembershipTransaction SharedConversation := do
  manageable facts subject scope
  let membership ← lockedMember userId scope
  authorizeOwnershipChange (some membership.role) (some role) facts subject scope
  check (membership.lockVersion = expectedVersion) .staleVersion
  if role ≠ .owner then ensureConversationOwnerRemains membership scope
  pure (SharedConversation.record (roleChangedEvent subject membership role) { scope with
    memberships := scope.memberships.update userId (Membership.changeRole role) (Membership.changeRole_userId role) })

/-! ### Channels of the tenant -/

def selfServiceEvent (subject action : String) (role : MembershipRole) (version : Nat) : MembershipEvent where
  eventType := "membership.changed.v1"
  actorUserId := subject
  userId := subject
  action := some action
  beforeRole := none
  role := role
  membershipVersion := some version
  source := some "self_service"

/-- `ensure_public_channel!` -/
def ensurePublicChannel (scope : SharedConversation) : MembershipTransaction Unit := do
  check scope.conversation.archivedAt.isNone .conversationArchived
  check (tenantChannel scope.conversation) .forbidden

/-- The row that `join` finds, or a new one; a member who has joined already stays as it is. -/
def joinMember (facts : MembershipFacts) (subject membershipId : String) (scope : SharedConversation) :
    MembershipTransaction SharedConversation :=
  match scope.memberships.find subject with
  | none => do
    let joined ← admitNew facts membershipId subject .member scope
    pure (joined.record (selfServiceEvent subject "added" .member 1))
  | some membership =>
    if membership.active then pure scope
    else do
      let joined ← readmit facts subject .member scope
      pure (joined.record (selfServiceEvent subject "added" .member (membership.lockVersion + 1)))

/-- `PublicChannels.join` -/
def join (facts : MembershipFacts) (subject membershipId : String) (scope : SharedConversation) :
    MembershipTransaction SharedConversation := do
  check facts.authorizedBefore .forbidden
  ensurePublicChannel scope
  check facts.channelsEnabled .publicChannelsDisabled
  check (facts.manage.isSome && facts.humanWorkspace) .forbidden
  joinMember facts subject membershipId scope

/-- The row that `leave` finds; a member who has left already stays as it is. -/
def leaveMember (facts : MembershipFacts) (subject : String) (expectedVersion : Nat) (scope : SharedConversation) :
    MembershipTransaction SharedConversation :=
  match scope.memberships.find subject with
  | none => rollback .notFound
  | some membership =>
    if membership.active then do
      check (membership.lockVersion = expectedVersion) .staleVersion
      ensureConversationOwnerRemains membership scope
      depart facts subject (selfServiceEvent subject "removed" membership.role (membership.lockVersion + 1)) scope
    else pure scope

/-- `PublicChannels.leave` -/
def leave (facts : MembershipFacts) (subject : String) (expectedVersion : Nat) (scope : SharedConversation) :
    MembershipTransaction SharedConversation := do
  check facts.authorizedBefore .forbidden
  ensurePublicChannel scope
  check facts.manage.isSome .forbidden
  leaveMember facts subject expectedVersion scope

end KComms.Conversations
