import KComms.Rooms.EphemeralRoom

/-!
# Conversations (`Conversations.Conversation`) and their memberships (`Conversations.Membership`)

A membership has a version, which rises whenever its role or its end changes.  Times are microseconds.
-/

namespace KComms.Conversations

open KComms.Rooms (MembershipRole)

inductive ConversationKind
  | direct | group | channel
  deriving DecidableEq, Repr

inductive Visibility
  | private_ | tenant
  deriving DecidableEq, Repr

structure Conversation where
  kind : ConversationKind
  visibility : Visibility
  archivedAt : Option Int
  nextSequence : Nat
  deriving DecidableEq, Repr

structure Membership where
  id : String
  userId : String
  role : MembershipRole
  joinedAt : Int
  leftAt : Option Int
  lastReadSequence : Nat
  lockVersion : Nat
  deriving DecidableEq, Repr

def Membership.active (membership : Membership) : Bool := membership.leftAt.isNone

/-- The membership ends. -/
def Membership.leave (timestamp : Int) (membership : Membership) : Membership :=
  { membership with leftAt := some timestamp, lockVersion := membership.lockVersion + 1 }

@[simp] theorem Membership.leave_id (timestamp : Int) (membership : Membership) :
    (membership.leave timestamp).id = membership.id := rfl

/-- Checks the capacity of a conversation for one more member. -/
def memberCapacity (maxConversationMembers activeMembers : Nat) : Bool := activeMembers + 1 ≤ maxConversationMembers

end KComms.Conversations
