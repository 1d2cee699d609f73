import KComms.Lib.ContiguousPrefix
import KComms.Lib.OrderedMap
import KComms.Messaging.History

/-!
# Messages in the browser (`conversationFeedReducer.ts`)

What the page of a conversation does with the messages it gets.  The page compares messages as objects, so the ones it
holds carry the identity of their object: an object that is copied gets the next one.
-/

namespace KComms.Feed

open Messaging (Status MessageView)

structure Reaction where
  userId : String
  emoji : String
  deriving DecidableEq, Repr

structure Message where
  id : String
  tenantId : String
  conversationId : String
  senderUserId : String
  threadRootMessageId : Option String
  threadReplyCount : Option Nat
  conversationSequence : Nat
  body : Option String
  status : Status
  reactions : List Reaction
  deriving DecidableEq, Repr

/-- `ConversationContent.message`, as the page reads it. -/
def presented (view : MessageView) : Message :=
  { id := view.message.id, tenantId := view.message.tenantId, conversationId := view.message.conversationId,
    senderUserId := view.message.senderUserId, threadRootMessageId := view.message.threadRootMessageId,
    threadReplyCount := some view.threadReplyCount, conversationSequence := view.message.conversationSequence,
    body := view.message.body, status := view.message.status,
    reactions := view.reactions.map fun reaction => ⟨reaction.userId, reaction.emoji⟩ }

/-- A message with the identity of its object. -/
structure Loaded where
  ref : Nat
  message : Message
  deriving DecidableEq, Repr

/-! ### Summaries of conversations -/

structure InboxMessage where
  id : String
  sequence : Nat
  senderUserId : String
  status : Status
  excerpt : String
  deriving DecidableEq, Repr

structure Inbox where
  message : Option InboxMessage
  deriving DecidableEq, Repr

structure Conversation where
  id : String
  tenantId : String
  latestSequence : Nat
  lastReadSequence : Option Nat
  unreadCount : Option Nat
  inbox : Option Inbox
  deriving DecidableEq, Repr

structure ConversationActivity where
  latest : Nat
  hasMessageFromOther : Bool
  deriving DecidableEq, Repr

def collectConversationActivity (incoming : List Message) (currentUserId : Option String) :
    OrderedMap String ConversationActivity :=
  incoming.foldl (fun activityByConversation message =>
    let current := activityByConversation.get? message.conversationId
    activityByConversation.set message.conversationId
      ⟨max ((current.map ConversationActivity.latest).getD 0) message.conversationSequence,
        (current.map ConversationActivity.hasMessageFromOther).getD false ||
          some message.senderUserId != currentUserId⟩) OrderedMap.empty

def updateConversationActivity (conversations : List Conversation)
    (activityByConversation : OrderedMap String ConversationActivity) (activeConversationId : Option String)
    (visibleAndNearBottom : Bool) : List Conversation :=
  conversations.map fun conversation =>
    match activityByConversation.get? conversation.id with
    | none => conversation
    | some activity =>
      let latestSequence := max conversation.latestSequence activity.latest
      let shouldRemainUnread := some conversation.id != activeConversationId || !visibleAndNearBottom
      { conversation with
        latestSequence := latestSequence
        unreadCount :=
          if shouldRemainUnread && activity.hasMessageFromOther then
            some (max (conversation.unreadCount.getD 0) (latestSequence - conversation.lastReadSequence.getD 0))
          else conversation.unreadCount }

/-! ### The loaded messages -/

def bySequence (loaded loaded' : Loaded) : Prop :=
  loaded.message.conversationSequence ≤ loaded'.message.conversationSequence

instance : DecidableRel bySequence := fun _ _ => inferInstanceAs (Decidable (_ ≤ _))

/-- `new Map(messages.map((message) => [message.id, message]))` -/
def byId (messages : List Loaded) : OrderedMap String Loaded :=
  OrderedMap.ofList (messages.map fun loaded => (loaded.message.id, loaded))

/-- `[...byId.values()].sort(...)` -/
def sorted (byId : OrderedMap String Loaded) : List Loaded := byId.values.insertionSort bySequence

/-- The copy of the root of a thread with the count of a reply. -/
def recount (ref : Nat) (root message : Message) : Loaded :=
  ⟨ref, { root with threadReplyCount := some (max (root.threadReplyCount.getD 0) (message.threadReplyCount.getD 0)) }⟩

/-- One turn of the loop of `mergeConversationMessages`, with the identity of the next copy. -/
def mergeMessage (acc : OrderedMap String Loaded × Nat) (loaded : Loaded) : OrderedMap String Loaded × Nat :=
  let byId := acc.1.set loaded.message.id loaded
  match loaded.message.threadRootMessageId.bind byId.get? with
  | none => (byId, acc.2)
  | some root => (byId.set root.message.id (recount acc.2 root.message loaded.message), acc.2 + 1)

def mergeConversationMessages (nextRef : Nat) (current incoming : List Loaded) : List Loaded × Nat :=
  let merged := incoming.foldl mergeMessage (byId current, nextRef)
  (sorted merged.1, merged.2)

structure ReactionEvent where
  messageId : String
  userId : String
  emoji : String
  deriving DecidableEq, Repr

def Message.react (message : Message) (event : ReactionEvent) (add : Bool) : Message :=
  let without := message.reactions.filter fun reaction =>
    ¬ (reaction.userId = event.userId ∧ reaction.emoji = event.emoji)
  { message with reactions := if add then without ++ [⟨event.userId, event.emoji⟩] else without }

/-- Every copy has an identity of its own. -/
def applyMessageReaction (nextRef : Nat) (messages : List Loaded) (event : ReactionEvent) (add : Bool) :
    List Loaded × Nat :=
  (messages.mapIdx fun i loaded =>
    if loaded.message.id ≠ event.messageId then loaded else ⟨nextRef + i, loaded.message.react event add⟩,
   nextRef + messages.length)

/-- The sequences beyond the contiguous ones are kept in a set. -/
def addFuture (current : Nat) (futureSequences : Finset Nat) (incoming : List Message) : Finset Nat :=
  incoming.foldl (fun future message =>
    if current < message.conversationSequence then insert message.conversationSequence future else future)
    futureSequences

def advanceContiguousSequence (current : Nat) (futureSequences : Finset Nat) (incoming : List Message) :
    Nat × Finset Nat :=
  ContiguousPrefix.drain current (addFuture current futureSequences incoming)

end KComms.Feed
