import KComms.Feed.ReconcileLoadedMessages

/-!
# The feed of a conversation (`useConversationFeed.ts`, `useConversationRealtime.ts`)

What the page keeps of the conversation that is open, and what it does with what arrives.  Messages come from events
and pages, in any order and more than once; the contiguous sequence is the one that receipts are derived from.
-/

namespace KComms.Feed

structure MessageDeliveryCursor where
  recipientUserId : String
  deviceRef : String
  deliveredSequence : Nat
  readSequence : Nat
  deriving DecidableEq, Repr

structure ReadCursorEvent where
  userId : String
  sequence : Nat
  deriving DecidableEq, Repr

structure ConversationFeed where
  activeConversationId : Option String
  sessionUserId : Option String
  messages : List Loaded
  nextRef : Nat
  conversations : List Conversation
  knownMessageIds : Finset String
  visible : Bool
  nearBottom : Bool
  newMessageCount : Nat
  contiguousSequence : Nat
  futureSequences : Finset Nat
  pendingCatchUpRequest : Option CatchUpRequest
  hasOlder : Bool
  olderLoading : Bool
  loadOlderRequestGeneration : Nat
  readCursors : OrderedMap String Nat
  deliveryCursors : List MessageDeliveryCursor

/-! ### One message -/

/-- Whether a message replaces or outdates the preview of a conversation. -/
def invalidatesInboxMessage (conversation : Conversation) (message : Message) : Bool :=
  if message.conversationId ≠ conversation.id then false
  else
    match conversation.inbox.bind Inbox.message with
    | none => message.threadRootMessageId.isNone && 0 < message.conversationSequence
    | some preview =>
      if message.id = preview.id then
        message.tenantId != conversation.tenantId || message.threadRootMessageId.isSome ||
          message.status != .active || preview.status != .active ||
          message.conversationSequence != preview.sequence || message.senderUserId != preview.senderUserId ||
          String.ofList ((message.body.getD "").toList.take 200) != preview.excerpt
      else message.threadRootMessageId.isNone && preview.sequence < message.conversationSequence

def Conversation.withoutPreview (conversation : Conversation) : Conversation :=
  { conversation with inbox := conversation.inbox.map fun inbox => { inbox with message := none } }

/-- Messages that arrive are objects of their own. -/
def load (nextRef : Nat) (incoming : List Message) : List Loaded :=
  incoming.mapIdx fun i message => ⟨nextRef + i, message⟩

/-- Removal is terminal here: an active message does not replace one that is not. -/
def replaced (loaded updated : Loaded) : Loaded :=
  if loaded.message.id ≠ updated.message.id then loaded
  else if loaded.message.status ≠ .active ∧ updated.message.status = .active then loaded
  else updated

structure OlderRequest where
  conversationId : String
  generation : Nat
  oldest : Nat
  deriving DecidableEq, Repr

/-! ### One receipt -/

def MessageDeliveryCursor.key (cursor : MessageDeliveryCursor) : String :=
  cursor.recipientUserId ++ ":" ++ cursor.deviceRef

/-- `mergeDeliveryCursor` -/
def mergeDeliveryCursor (cursors : List MessageDeliveryCursor) (incoming : MessageDeliveryCursor) :
    List MessageDeliveryCursor :=
  (cursors.filter fun cursor => cursor.key ≠ incoming.key) ++ [incoming]

namespace ConversationFeed

variable (feed : ConversationFeed)

/-- The start of the effect of a conversation, up to the first page. -/
def opened (conversationId : String) (start : Nat) : ConversationFeed :=
  { feed with
    activeConversationId := some conversationId
    messages := []
    knownMessageIds := ∅
    readCursors := OrderedMap.empty
    deliveryCursors := []
    futureSequences := ∅
    nearBottom := true
    newMessageCount := 0
    loadOlderRequestGeneration := feed.loadOlderRequestGeneration + 1
    olderLoading := false
    hasOlder := false
    pendingCatchUpRequest := none
    contiguousSequence := start }

/-! ### Messages -/

def updateConversationSummaries (incoming : List Message) : ConversationFeed :=
  let activityByConversation := collectConversationActivity incoming feed.sessionUserId
  if activityByConversation.size = 0 then feed
  else
    { feed with
      conversations :=
        (updateConversationActivity feed.conversations activityByConversation feed.activeConversationId
          (feed.visible && feed.nearBottom)).map fun conversation =>
            if incoming.any (invalidatesInboxMessage conversation) then conversation.withoutPreview
            else conversation }

def requestCatchUp (afterSequence : Int) (beforeSequence : Option Int) : ConversationFeed :=
  { feed with
    pendingCatchUpRequest := some (mergeCatchUpRequests feed.pendingCatchUpRequest ⟨afterSequence, beforeSequence⟩) }

def active (incoming : List Message) : List Message :=
  incoming.filter fun message => some message.conversationId = feed.activeConversationId

/-- The counters of `receiveMessages`. -/
def note (activeIncoming : List Message) : ConversationFeed :=
  let newMessagesFromOthers := activeIncoming.countP fun message =>
    message.id ∉ feed.knownMessageIds ∧ some message.senderUserId ≠ feed.sessionUserId
  let advanced := advanceContiguousSequence feed.contiguousSequence feed.futureSequences activeIncoming
  { feed with
    knownMessageIds := feed.knownMessageIds ∪ (activeIncoming.map Message.id).toFinset
    newMessageCount :=
      if !feed.nearBottom && 0 < newMessagesFromOthers then feed.newMessageCount + newMessagesFromOthers
      else feed.newMessageCount
    contiguousSequence := advanced.1
    futureSequences := advanced.2 }

def mergeMessages (activeIncoming : List Message) : ConversationFeed :=
  let merged := mergeConversationMessages (feed.nextRef + activeIncoming.length) feed.messages
    (load feed.nextRef activeIncoming)
  { feed with messages := merged.1, nextRef := merged.2 }

def receiveMessages (incoming : List Message) : ConversationFeed :=
  if incoming = [] then feed
  else
    let feed := feed.updateConversationSummaries incoming
    let activeIncoming := feed.active incoming
    if activeIncoming = [] then feed
    else
      let feed := feed.note activeIncoming
      let feed := if feed.futureSequences ≠ ∅ then feed.requestCatchUp feed.contiguousSequence none else feed
      feed.mergeMessages activeIncoming

def updateLoadedMessage (updated : Message) : ConversationFeed :=
  if some updated.conversationId ≠ feed.activeConversationId then feed
  else
    { feed with
      conversations := feed.conversations.map fun conversation =>
        if (conversation.inbox.bind Inbox.message).map InboxMessage.id = some updated.id then
          conversation.withoutPreview
        else conversation
      messages :=
        if feed.messages.any fun loaded => loaded.message.id = updated.id then
          feed.messages.map fun loaded => replaced loaded ⟨feed.nextRef, updated⟩
        else feed.messages
      nextRef := feed.nextRef + 1 }

def applyReaction (event : ReactionEvent) (add : Bool) : ConversationFeed :=
  let applied := applyMessageReaction feed.nextRef feed.messages event add
  { feed with messages := applied.1, nextRef := applied.2 }

/-- `reconcileLoadedMessages` when the messages of the snapshot are read again. -/
def reconcileLoadedMessages (snapshot : List Loaded) (incoming : List Message) : ConversationFeed :=
  { feed with
    messages := (mergeReconciledMessages feed.messages snapshot (load feed.nextRef incoming)).1
    nextRef := feed.nextRef + incoming.length }

/-! ### Older messages -/

/-- `loadOlder` up to the request of the page after `oldest - 201` and before `oldest`. -/
def loadOlder : ConversationFeed × Option OlderRequest :=
  match feed.activeConversationId with
  | none => (feed, none)
  | some conversationId =>
    if feed.olderLoading then (feed, none)
    else
      let feed := { feed with loadOlderRequestGeneration := feed.loadOlderRequestGeneration + 1 }
      let oldest := (feed.messages.head?.map fun loaded => loaded.message.conversationSequence).getD 0
      if oldest ≤ 1 then ({ feed with hasOlder := false }, none)
      else
        ({ feed with olderLoading := true }, some ⟨conversationId, feed.loadOlderRequestGeneration, oldest⟩)

/-- `loadOlder` from the answer on: what the page holds already stays. -/
def receiveOlder (request : OlderRequest) (page : List Message) : ConversationFeed :=
  if request.generation ≠ feed.loadOlderRequestGeneration ∨
      feed.activeConversationId ≠ some request.conversationId then feed
  else
    { feed with
      knownMessageIds := feed.knownMessageIds ∪ (page.map Message.id).toFinset
      messages := sorted (byId (load feed.nextRef page ++ feed.messages))
      nextRef := feed.nextRef + page.length
      hasOlder := decide (1 < (page.head?.map Message.conversationSequence).getD request.oldest)
      olderLoading := false }

/-! ### Receipts -/

/-- The answer of `api.deliveryCursors`. -/
def setDeliveryCursors (cursors : List MessageDeliveryCursor) : ConversationFeed := { feed with deliveryCursors := cursors }

def onRead (event : ReadCursorEvent) : ConversationFeed :=
  { feed with readCursors := feed.readCursors.set event.userId event.sequence }

def onDelivery (event : MessageDeliveryCursor) : ConversationFeed :=
  { feed with deliveryCursors := mergeDeliveryCursor feed.deliveryCursors event }

/-- The answer of `api.markDelivered`. -/
def markedDelivered (incoming : MessageDeliveryCursor) : ConversationFeed :=
  { feed with deliveryCursors := mergeDeliveryCursor feed.deliveryCursors incoming }

def updateNearBottom (nearBottom : Bool) : ConversationFeed :=
  { feed with
    nearBottom := nearBottom
    newMessageCount := if nearBottom then 0 else feed.newMessageCount }

end ConversationFeed

/-! ### Runs -/

/-- What the page of an open conversation processes, one at a time. -/
inductive FeedEvent
  | messages (incoming : List Message)
  | updated (message : Message)
  | reaction (event : ReactionEvent) (add : Bool)
  | reconciled (snapshot : List Loaded) (incoming : List Message)
  | scrolledUp
  | older (request : OlderRequest) (page : List Message)
  | read (event : ReadCursorEvent)
  | delivery (event : MessageDeliveryCursor)
  | markedDelivered (incoming : MessageDeliveryCursor)
  | deliveryCursors (cursors : List MessageDeliveryCursor)
  | catchUpRequired (afterSequence : Int)
  | nearBottom (nearBottom : Bool)
  | visibility (visible : Bool)

def ConversationFeed.step (feed : ConversationFeed) : FeedEvent → ConversationFeed
  | .messages incoming => feed.receiveMessages incoming
  | .updated message => feed.updateLoadedMessage message
  | .reaction event add => feed.applyReaction event add
  | .reconciled snapshot incoming => feed.reconcileLoadedMessages snapshot incoming
  | .scrolledUp => feed.loadOlder.1
  | .older request page => feed.receiveOlder request page
  | .read event => feed.onRead event
  | .delivery event => feed.onDelivery event
  | .markedDelivered incoming => feed.markedDelivered incoming
  | .deliveryCursors cursors => feed.setDeliveryCursors cursors
  | .catchUpRequired afterSequence => feed.requestCatchUp afterSequence none
  | .nearBottom nearBottom => feed.updateNearBottom nearBottom
  | .visibility visible => { feed with visible := visible }

def ConversationFeed.run (feed : ConversationFeed) (events : List FeedEvent) : ConversationFeed :=
  events.foldl ConversationFeed.step feed

end KComms.Feed
