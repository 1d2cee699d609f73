import KComms.Messaging.Message
import Mathlib.Data.List.Sort
import Mathlib.Data.Fintype.Defs

/-!
# Reading messages (`History`, `ReadModel`, `Accounts.resolve_retained_sender_labels`)

Pages of the messages of a conversation, hydrated with what belongs to them.  A guest reads from the sequence of the
admission on.
-/

namespace KComms.Messaging

/-! ### The tables -/

structure Attachment where
  id : String
  messageId : Option String
  ownerUserId : String
  fileName : String
  status : String
  deriving DecidableEq, Repr

structure Reaction where
  id : String
  messageId : String
  userId : String
  emoji : String
  deriving DecidableEq, Repr

structure User where
  id : String
  tenantId : String
  displayName : String
  deleted : Bool
  deriving DecidableEq, Repr

inductive AccountType
  | human | guest | service
  deriving DecidableEq, Repr

/-- Who reads; a claim of a guest may lack the sequence of the admission. -/
structure Reader where
  tenantId : String
  userId : String
  accountType : AccountType
  guestHistoryFromSequence : Option Int
  deriving DecidableEq, Repr

inductive ReadError
  | forbidden | notFound | invalidMessageIds
  deriving DecidableEq, Repr

/-- The tables, with the unique index of the sequences, and what memberships allow. -/
structure Content where
  messages : List Message
  attachments : List Attachment
  reactions : List Reaction
  mentions : List MessageMention
  users : List User
  authorizeRead : String → Reader → Except ReadError Unit
  sequences : (messages.map fun message => (message.conversationId, message.conversationSequence)).Nodup

/-! ### Labels of senders -/

structure RetainedSenderLabelView where
  id : String
  displayName : String
  redacted : Bool
  deriving DecidableEq, Repr

def maximumRetainedSenderLabelIds : Nat := 200

/-- `resolve_retained_sender_labels` -/
def resolveRetainedSenderLabels (uuid : String → Bool) (users : List User) (tenantId : String) (userIds : List String) :
    List RetainedSenderLabelView :=
  let normalizedIds := userIds.eraseDups.insertionSort fun id id' => id ≤ id'
  if !uuid tenantId then []
  else if normalizedIds = [] ∨ maximumRetainedSenderLabelIds < normalizedIds.length then []
  else if ¬ normalizedIds.all uuid then []
  else
    ((users.filter fun user => user.tenantId = tenantId ∧ user.id ∈ normalizedIds).insertionSort
      fun user user' => user.id ≤ user'.id).map fun user =>
        ⟨user.id, if user.deleted then "Deleted user" else user.displayName, user.deleted⟩

/-! ### Hydrated messages -/

structure MessageView where
  message : Message
  threadReplyCount : Nat
  mentionedUserIds : List String
  attachments : List Attachment
  reactions : List Reaction
  deriving DecidableEq, Repr

/-- The root of the thread of a message, which is the message itself where it replies to none. -/
def Message.root (message : Message) : String := message.threadRootMessageId.getD message.id

/-- The count of the query of `hydrate_messages`. -/
def Content.replies (content : Content) (rootId : String) : Nat :=
  content.messages.countP fun message => message.threadRootMessageId = some rootId

/-- `hydrate_messages` of one message, with `Projector.message`. -/
def hydrateMessage (content : Content) (message : Message) : MessageView :=
  { message := message,
    threadReplyCount := content.replies message.root,
    mentionedUserIds := ((content.mentions.filter fun mention => mention.messageId = message.id).map
      MessageMention.userId).insertionSort fun id id' => id ≤ id',
    attachments := content.attachments.filter fun attachment => attachment.messageId = some message.id,
    reactions := content.reactions.filter fun reaction => reaction.messageId = message.id }

def hydrateMessages (content : Content) (messages : List Message) : List MessageView :=
  messages.map (hydrateMessage content)

/-! ### Pages -/

/-- `scoped_history_after_sequence` -/
def scopedHistoryAfterSequence (reader : Reader) (requestedAfterSequence : Int) : Except ReadError Int :=
  match reader.accountType, reader.guestHistoryFromSequence with
  | .guest, some historyFromSequence =>
    if 0 < historyFromSequence then .ok (max requestedAfterSequence (historyFromSequence - 1)) else .error .forbidden
  | .guest, none => .error .forbidden
  | _, _ => .ok requestedAfterSequence

structure Options where
  afterSequence : Int
  beforeSequence : Option Int
  limit : Int
  probeMore : Bool
  includeSenderLabels : Bool
  deriving DecidableEq, Repr

def clampLimit (value maxLimit : Int) : Nat := (min (max value 1) maxLimit).toNat

def maximumHistoryPageLimit : Int := 200

/-- The query of `list_history`. -/
def Content.rows (content : Content) (tenantId conversationId : String) (afterSequence : Int)
    (beforeSequence : Option Int) : List Message :=
  (content.messages.filter fun message =>
    message.tenantId = tenantId ∧ message.conversationId = conversationId ∧
      afterSequence < message.conversationSequence ∧
      ∀ before ∈ beforeSequence, (message.conversationSequence : Int) < before).insertionSort
    fun message message' => message.conversationSequence ≤ message'.conversationSequence

variable {content : Content}

theorem mem_rows {tenantId conversationId : String} {afterSequence : Int} {beforeSequence : Option Int}
    {message : Message} :
    message ∈ content.rows tenantId conversationId afterSequence beforeSequence ↔
      message ∈ content.messages ∧ message.tenantId = tenantId ∧ message.conversationId = conversationId ∧
        afterSequence < message.conversationSequence ∧
        ∀ before ∈ beforeSequence, (message.conversationSequence : Int) < before := by
  unfold Content.rows
  rw [List.mem_insertionSort, List.mem_filter, decide_eq_true_eq]

def listHistory (content : Content) (conversationId : String) (reader : Reader) (opts : Options) :
    Except ReadError (List MessageView) := do
  content.authorizeRead conversationId reader
  let afterSequence ← scopedHistoryAfterSequence reader opts.afterSequence
  let maxLimit := if opts.probeMore then 501 else 500
  let rows := content.rows reader.tenantId conversationId afterSequence opts.beforeSequence
  .ok (hydrateMessages content (rows.take (clampLimit opts.limit maxLimit)))

section ListHistory

variable {conversationId : String} {reader : Reader}

theorem listHistory_ok (hauthorize : content.authorizeRead conversationId reader = .ok ()) (opts : Options)
    {after : Int} (hscoped : scopedHistoryAfterSequence reader opts.afterSequence = .ok after) :
    listHistory content conversationId reader opts = .ok (hydrateMessages content
      ((content.rows reader.tenantId conversationId after opts.beforeSequence).take
        (clampLimit opts.limit (if opts.probeMore then 501 else 500)))) := by
  unfold listHistory
  rw [hauthorize, hscoped]
  rfl

theorem listHistory_denied {reason : ReadError}
    (hauthorize : content.authorizeRead conversationId reader = .error reason) (opts : Options) :
    listHistory content conversationId reader opts = .error reason := by
  unfold listHistory
  rw [hauthorize]
  rfl

theorem listHistory_unscoped (hauthorize : content.authorizeRead conversationId reader = .ok ()) (opts : Options)
    {reason : ReadError} (hscoped : scopedHistoryAfterSequence reader opts.afterSequence = .error reason) :
    listHistory content conversationId reader opts = .error reason := by
  unfold listHistory
  rw [hauthorize, hscoped]
  rfl

theorem listHistory_conversation {opts : Options} {views : List MessageView}
    (h : listHistory content conversationId reader opts = .ok views) {view : MessageView} (hmem : view ∈ views) :
    view.message.conversationId = conversationId := by
  cases hauthorize : content.authorizeRead conversationId reader with
  | error reason =>
    rw [listHistory_denied hauthorize] at h
    cases h
  | ok allowed =>
    cases hscoped : scopedHistoryAfterSequence reader opts.afterSequence with
    | error reason =>
      rw [listHistory_unscoped hauthorize opts hscoped] at h
      cases h
    | ok after =>
      rw [listHistory_ok hauthorize opts hscoped] at h
      cases h
      obtain ⟨message, hmessage, rfl⟩ := List.mem_map.1 hmem
      exact (mem_rows.1 (List.mem_of_mem_take hmessage)).2.2.1

end ListHistory

/-- `retained_sender_labels` of a page. -/
def retainedSenderLabels (uuid : String → Bool) (content : Content) (reader : Reader) (opts : Options)
    (page : List MessageView) : List RetainedSenderLabelView :=
  if opts.includeSenderLabels then
    resolveRetainedSenderLabels uuid content.users reader.tenantId
      ((page.map fun view => view.message.senderUserId).eraseDups)
  else []

structure HistoryPage where
  messages : List MessageView
  senderLabels : List RetainedSenderLabelView
  hasMore : Bool
  nextAfterSequence : Option Nat
  deriving DecidableEq, Repr

def listHistoryPage (uuid : String → Bool) (content : Content) (conversationId : String) (reader : Reader)
    (opts : Options) : Except ReadError HistoryPage := do
  let limitCount := clampLimit opts.limit maximumHistoryPageLimit
  -- one more message than the page has tells whether there are more
  let messages ← listHistory content conversationId reader { opts with limit := limitCount + 1 }
  let page := messages.take limitCount
  .ok { messages := page,
        senderLabels := retainedSenderLabels uuid content reader opts page,
        hasMore := decide (limitCount < messages.length),
        nextAfterSequence := page.getLast?.map fun view => view.message.conversationSequence }

/-! ### Other reads of a guest -/

def maximumSenderLabelRefreshMessageIds : Nat := 200

def validMessageIds (uuid : String → Bool) (messageIds : List String) : Bool :=
  messageIds ≠ [] ∧ messageIds.length ≤ maximumSenderLabelRefreshMessageIds ∧ messageIds.Nodup ∧
    ∀ id ∈ messageIds, uuid id

def refreshSenderLabels (uuid : String → Bool) (content : Content) (conversationId : String) (messageIds : List String)
    (reader : Reader) : Except ReadError (List RetainedSenderLabelView) := do
  content.authorizeRead conversationId reader
  if !validMessageIds uuid messageIds then .error .invalidMessageIds
  let afterSequence ← scopedHistoryAfterSequence reader 0
  let visibleSenderIds := (((content.messages.filter fun message =>
    message.tenantId = reader.tenantId ∧ message.conversationId = conversationId ∧
      afterSequence < message.conversationSequence ∧ message.id ∈ messageIds).map Message.senderUserId)).eraseDups
  .ok (resolveRetainedSenderLabels uuid content.users reader.tenantId visibleSenderIds)

/-- `message_event_visible?` -/
def messageEventVisible (uuid : String → Bool) (content : Content) (conversationId messageId : String)
    (reader : Reader) : Except ReadError Bool :=
  if uuid conversationId ∧ uuid messageId then do
    content.authorizeRead conversationId reader
    let afterSequence ← scopedHistoryAfterSequence reader 0
    .ok (content.messages.any fun message =>
      message.id = messageId ∧ message.tenantId = reader.tenantId ∧ message.conversationId = conversationId ∧
        afterSequence < message.conversationSequence)
  else .error .forbidden

end KComms.Messaging
