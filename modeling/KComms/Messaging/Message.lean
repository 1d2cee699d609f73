import Mathlib.Data.List.Basic

/-!
# Messages

The rows of messages, of what belongs to them, and of conversations; instants are in microseconds.
-/

namespace KComms.Messaging

inductive Status
  | active | deleted | moderated
  deriving DecidableEq, Repr

structure Message where
  id : String
  tenantId : String
  conversationId : String
  senderUserId : String
  senderDeviceId : String
  replyToMessageId : Option String
  threadRootMessageId : Option String
  clientMessageId : String
  conversationSequence : Nat
  body : Option String
  attachmentCount : Nat
  metadata : List (String × String)
  status : Status
  editedAt : Option Nat
  deletedAt : Option Nat
  insertedAt : Nat
  deriving DecidableEq, Repr

/-- The unique index of messages of a device. -/
structure IdempotencyKey where
  tenantId : String
  senderDeviceId : String
  clientMessageId : String
  deriving DecidableEq, Repr

def Message.key (message : Message) : IdempotencyKey :=
  ⟨message.tenantId, message.senderDeviceId, message.clientMessageId⟩

structure MessageMention where
  id : String
  tenantId : String
  messageId : String
  userId : String
  insertedAt : Nat
  deriving DecidableEq, Repr

structure Conversation where
  id : String
  tenantId : String
  nextSequence : Nat
  deriving DecidableEq, Repr

end KComms.Messaging
