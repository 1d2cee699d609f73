import KComms.Lib.ElixirString
import KComms.Messaging.Message
import Mathlib.Algebra.Ring.Nat

/-!
# Accepting messages (`MessageCommands`)

A call is checked, and then runs as a transaction that takes the lock of its idempotency key, looks for a message with
the key, and else takes the next sequence of the conversation from its locked row, asks whether it may send, and writes.
Transactions run beside one another; each sees what has been committed and its own writes.  Other components are asked
at the stages of a transaction, and their answers come with the events.
-/

namespace KComms.Messaging

open ElixirString (trim)

/-! ### Checking a call -/

inductive Reason
  | identityMismatch
  | missingFields (fields : List String)
  | messageBodyRequired | messageTooLarge
  | invalidReplyTarget | invalidMentions | tooManyMentions | invalidMentionId
  | tooManyAttachments | duplicateAttachmentIds | invalidAttachmentId
  | metadataTooManyProperties | metadataTooLarge
  | conversationNotFound | messageSlotUpdateFailed | forbidden
  | raised
  | other (reason : String)
  deriving DecidableEq, Repr

structure Subject where
  tenantId : String
  userId : String
  deviceId : String
  requestId : Option String
  deriving DecidableEq, Repr

/-- The attributes of a call, found under atoms or strings; what is not a list of ids is no list of mentions. -/
structure Attrs where
  tenantId : Option String
  conversationId : Option String
  senderUserId : Option String
  senderDeviceId : Option String
  clientMessageId : Option String
  replyToMessageId : Option String
  mentionedUserIds : Option (List String)
  body : Option String
  metadata : List (String × String)
  attachmentIds : List String
  deriving DecidableEq, Repr

/-- What the runtime gives: UUIDs, lengths of strings, encoded metadata, and the lock of an idempotency key. -/
structure Runtime where
  uuid : String → Bool
  graphemes : String → Nat
  encodedMetadata : List (String × String) → Option Nat
  validateMetadata : List (String × String) → Except Reason Unit
  lockKey : IdempotencyKey → Int

def maximumMetadataBytes : Nat := 65536

/-- A checked call. -/
structure Request where
  tenantId : String
  conversationId : String
  senderUserId : String
  senderDeviceId : String
  clientMessageId : String
  replyToMessageId : Option String
  mentionedUserIds : List String
  body : Option String
  metadata : List (String × String)
  attachmentIds : List String
  requestId : Option String
  deriving DecidableEq, Repr

def Request.key (request : Request) : IdempotencyKey :=
  ⟨request.tenantId, request.senderDeviceId, request.clientMessageId⟩

def validateBody (rt : Runtime) : Option String → Except Reason Unit
  | none => .error .messageBodyRequired
  | some body =>
    if body = "" then .error .messageBodyRequired
    else if 65535 < rt.graphemes body then .error .messageTooLarge
    else .ok ()

def validateIdentity (attrs : Attrs) (subject : Subject) : Except Reason Unit :=
  if attrs.tenantId = some subject.tenantId ∧ attrs.senderUserId = some subject.userId ∧
      attrs.senderDeviceId = some subject.deviceId then .ok ()
  else .error .identityMismatch

/-- The required fields that a call does not have. -/
def missing (attrs : Attrs) : List String :=
  ([("tenant_id", attrs.tenantId), ("conversation_id", attrs.conversationId), ("sender_user_id", attrs.senderUserId),
    ("sender_device_id", attrs.senderDeviceId), ("client_message_id", attrs.clientMessageId)].filter fun field =>
      field.2 = none ∨ field.2 = some "").map Prod.fst

/-- `validate` of normalized attributes. -/
def validate (rt : Runtime) (attrs : Attrs) (mentionedUserCount : Nat) : Except Reason Unit := do
  let bodyValidation :=
    if (attrs.body = none ∨ attrs.body = some "") ∧ attrs.attachmentIds ≠ [] then .ok () else validateBody rt attrs.body
  if missing attrs ≠ [] then .error (.missingFields (missing attrs))
  bodyValidation
  if attrs.replyToMessageId.any fun id => !rt.uuid id then .error .invalidReplyTarget
  match attrs.mentionedUserIds with
  | none => .error .invalidMentions
  | some mentionedUserIds =>
    if 50 < mentionedUserCount then .error .tooManyMentions
    if mentionedUserIds.any fun id => !rt.uuid id then .error .invalidMentionId
    if 20 < attrs.attachmentIds.length then .error .tooManyAttachments
    if ¬ attrs.attachmentIds.Nodup then .error .duplicateAttachmentIds
    if attrs.attachmentIds.any fun id => !rt.uuid id then .error .invalidAttachmentId
    if 32 < attrs.metadata.length then .error .metadataTooManyProperties
    if ¬ (rt.encodedMetadata attrs.metadata).any (fun bytes => decide (bytes ≤ maximumMetadataBytes)) then
      .error .metadataTooLarge
    rt.validateMetadata attrs.metadata

/-- `normalize`, beside the number of mentions as they came. -/
def normalize (attrs : Attrs) : Attrs × Nat :=
  ({ attrs with body := attrs.body.map trim, mentionedUserIds := attrs.mentionedUserIds.map List.eraseDups },
   (attrs.mentionedUserIds.getD []).length)

/-- What `accept_message_with_status` does before its transaction. -/
def check (rt : Runtime) (attrs : Attrs) (subject : Subject) : Except Reason Request := do
  let (attrs, mentionedUserCount) := normalize attrs
  validateIdentity attrs subject
  validate rt attrs mentionedUserCount
  .ok { tenantId := subject.tenantId, conversationId := attrs.conversationId.getD "", senderUserId := subject.userId,
        senderDeviceId := subject.deviceId, clientMessageId := attrs.clientMessageId.getD "",
        replyToMessageId := attrs.replyToMessageId, mentionedUserIds := attrs.mentionedUserIds.getD [],
        body := attrs.body, metadata := attrs.metadata, attachmentIds := attrs.attachmentIds,
        requestId := subject.requestId }

/-! ### The tables -/

/-- The payload of an event of a message; a field is there or not. -/
structure Payload where
  id : String
  conversationId : String
  conversationSequence : Nat
  senderUserId : String
  replyToMessageId : Option (Option String)
  threadRootMessageId : Option String
  mentionedUserIds : List String
  body : Option (Option String)
  deriving DecidableEq, Repr

structure OutboxRow where
  tenantId : String
  eventType : String
  aggregateId : String
  payload : Payload
  availableAt : Nat
  deriving DecidableEq, Repr

structure AuditRow where
  tenantId : String
  actorUserId : String
  action : String
  resourceId : String
  metadata : Payload
  requestId : Option String
  deriving DecidableEq, Repr

structure Db where
  conversations : List Conversation
  messages : List Message
  mentions : List MessageMention
  outbox : List OutboxRow
  audit : List AuditRow
  deriving DecidableEq, Repr

def Db.messagesOf (db : Db) (conversationId : String) : List Message :=
  db.messages.filter fun message => message.conversationId = conversationId

/-- What a transaction has written: the next sequence of a conversation, and rows. -/
structure Writes where
  nextSequence : Option (String × Nat)
  messages : List Message
  mentions : List MessageMention
  outbox : List OutboxRow
  audit : List AuditRow
  deriving DecidableEq, Repr

def Writes.empty : Writes := ⟨none, [], [], [], []⟩

def Db.setNextSequence (db : Db) : Option (String × Nat) → List Conversation
  | none => db.conversations
  | some (id, sequence) =>
    db.conversations.map fun conversation =>
      if conversation.id = id then { conversation with nextSequence := sequence } else conversation

/-- A commit. -/
def Db.apply (db : Db) (writes : Writes) : Db :=
  { conversations := db.setNextSequence writes.nextSequence,
    messages := db.messages ++ writes.messages,
    mentions := db.mentions ++ writes.mentions,
    outbox := db.outbox ++ writes.outbox,
    audit := db.audit ++ writes.audit }

/-- `existing` -/
def Db.existing (db : Db) (key : IdempotencyKey) : Option Message := db.messages.find? fun message => message.key = key

/-! ### Transactions -/

structure MessageWriteSlot where
  id : String
  tenantId : String
  sequence : Nat
  deriving DecidableEq, Repr

inductive Accepted
  | created | duplicate
  deriving DecidableEq, Repr

/-- What a call does next, or what came of it. -/
inductive Stage
  | lockWriteAuthority
  | lockIdempotencyKey
  | existing
  | authorizeExisting (message : Message)
  | reserveMessageSlot
  | authorize (slot : MessageWriteSlot)
  | resolveThreadRoot (slot : MessageWriteSlot)
  | validateMentions (slot : MessageWriteSlot) (threadRootMessageId : Option String)
  | insert (slot : MessageWriteSlot) (threadRootMessageId : Option String)
  | attach (message : Message)
  | record (message : Message)
  | currentWriteAuthority (message : Message) (status : Accepted)
  | committed (message : Message) (status : Accepted)
  | failed (reason : Reason)
  deriving DecidableEq, Repr

structure Tx where
  request : Request
  stage : Stage
  /-- The advisory lock that is held. -/
  keyLock : Option Int
  /-- The conversation whose row is locked. -/
  rowLock : Option String
  writes : Writes
  deriving DecidableEq, Repr

def Tx.start (request : Request) : Tx := ⟨request, .lockWriteAuthority, none, none, Writes.empty⟩

/-- A rollback. -/
def Tx.rollback (tx : Tx) (reason : Reason) : Tx :=
  { tx with stage := .failed reason, keyLock := none, rowLock := none, writes := Writes.empty }

def Tx.to (tx : Tx) (stage : Stage) : Tx := { tx with stage := stage }

def Tx.running (tx : Tx) : Bool :=
  match tx.stage with
  | .committed _ _ => false
  | .failed _ => false
  | _ => true

/-- The answers of the other components at a stage. -/
structure Answer where
  verdict : Except Reason Unit
  /-- Of the mentioned users, who are members, and which of them are active. -/
  memberUserIds : List String
  activeUserIds : List String
  newId : Nat → String
  now : Nat

/-- `validate_active_members` -/
def validateActiveMembers (answer : Answer) (userIds : List String) : Except Reason Unit :=
  if userIds = [] then .ok ()
  else if (∀ id ∈ userIds, id ∈ answer.memberUserIds ∧ id ∈ answer.activeUserIds) ∧
      (∀ id ∈ answer.memberUserIds, id ∈ userIds) ∧ (∀ id ∈ answer.activeUserIds, id ∈ userIds) then .ok ()
  else .error .invalidMentions

/-- `resolve_thread_root` -/
def resolveThreadRoot (db : Db) (request : Request) (slot : MessageWriteSlot) : Except Reason (Option String) :=
  match request.replyToMessageId with
  | none => .ok none
  | some id =>
    match db.messages.find? fun message => message.id = id ∧ message.tenantId = slot.tenantId ∧
        message.conversationId = slot.id with
    | some parent => .ok (some (parent.threadRootMessageId.getD parent.id))
    | none => .error .invalidReplyTarget

/-- The row of a new message; the cast of an empty body is no body. -/
def newMessage (request : Request) (slot : MessageWriteSlot) (threadRootMessageId : Option String) (answer : Answer) :
    Message :=
  { id := answer.newId 0, tenantId := request.tenantId, conversationId := request.conversationId,
    senderUserId := request.senderUserId, senderDeviceId := request.senderDeviceId,
    replyToMessageId := request.replyToMessageId, threadRootMessageId := threadRootMessageId,
    clientMessageId := request.clientMessageId, conversationSequence := slot.sequence,
    body := request.body.filter fun body => body ≠ "",
    attachmentCount := request.attachmentIds.length, metadata := request.metadata, status := .active, editedAt := none,
    deletedAt := none, insertedAt := answer.now }

/-- `Message.changeset`, as far as the call has not been checked for it. -/
def validChangeset (rt : Runtime) (message : Message) : Bool :=
  trim message.clientMessageId ≠ "" ∧ 8 ≤ rt.graphemes message.clientMessageId ∧
    rt.graphemes message.clientMessageId ≤ 128 ∧
    (∀ body, message.body = some body → rt.graphemes body ≤ 65535) ∧
    ((∃ body, message.body = some body ∧ trim body ≠ "") ∨ message.attachmentCount ≠ 0)

/-- Two rows that a unique index of the messages does not allow. -/
def clash (message message' : Message) : Bool :=
  message.id = message'.id ∨ message.key = message'.key ∨
    message.conversationId = message'.conversationId ∧ message.conversationSequence = message'.conversationSequence

/-- `persist_mentions` -/
def newMentions (message : Message) (userIds : List String) (answer : Answer) : List MessageMention :=
  userIds.zipIdx.map fun (userId, n) => ⟨answer.newId (n + 1), message.tenantId, message.id, userId, answer.now⟩

/-- The payload of `message.created.v1`. -/
def createdPayload (message : Message) (mentionedUserIds : List String) : Payload :=
  { id := message.id, conversationId := message.conversationId, conversationSequence := message.conversationSequence,
    senderUserId := message.senderUserId, replyToMessageId := some message.replyToMessageId,
    threadRootMessageId := message.threadRootMessageId, mentionedUserIds := mentionedUserIds, body := some message.body }

/-- The events of a new message, with their payloads. -/
def newEvents (message : Message) (mentionedUserIds : List String) : List (String × Payload) :=
  let created := createdPayload message mentionedUserIds
  ("message.created", created) ::
    if mentionedUserIds = [] then []
    else [("mention.created", { created with replyToMessageId := none, body := none })]

def outboxRow (message : Message) (answer : Answer) (event : String × Payload) : OutboxRow :=
  ⟨message.tenantId, event.1 ++ ".v1", message.id, event.2, answer.now⟩

def auditRow (request : Request) (message : Message) (event : String × Payload) : AuditRow :=
  ⟨message.tenantId, request.senderUserId, event.1, message.id, { event.2 with body := none }, request.requestId⟩

/-- A database with transactions. -/
structure State where
  db : Db
  txs : List Tx
  deriving DecidableEq, Repr

/-- No other transaction has a property. -/
def State.others (s : State) (p : Nat) (property : Tx → Bool) : Bool :=
  s.txs.zipIdx.all fun entry => entry.2 = p || !property entry.1

def maximumSequence : Nat := 2 ^ 63 - 1

/-- The next stage on the verdict of a component. -/
def Tx.asked (tx : Tx) (verdict : Except Reason Unit) (next : Tx) : Tx :=
  match verdict with
  | .ok _ => next
  | .error reason => tx.rollback reason

/-- The next stage of a transaction that does not commit, or nothing while it waits for another. -/
def advance (rt : Runtime) (s : State) (p : Nat) (tx : Tx) (answer : Answer) : Option Tx :=
  match tx.stage with
  | .lockWriteAuthority => some (tx.asked answer.verdict (tx.to .lockIdempotencyKey))
  | .lockIdempotencyKey =>
    let lock := rt.lockKey tx.request.key
    if s.others p fun other => other.keyLock = some lock then some { tx.to .existing with keyLock := some lock } else none
  | .existing =>
    match s.db.existing tx.request.key with
    | some message => some (tx.to (.authorizeExisting message))
    | none => some (tx.to .reserveMessageSlot)
  | .authorizeExisting message =>
    some (tx.asked answer.verdict (tx.to (.currentWriteAuthority message .duplicate)))
  | .reserveMessageSlot =>
    match s.db.conversations.find? fun conversation =>
        conversation.id = tx.request.conversationId ∧ conversation.tenantId = tx.request.tenantId with
    | none => some (tx.rollback .conversationNotFound)
    | some conversation =>
      if s.others p fun other => other.rowLock = some conversation.id then
        if maximumSequence < conversation.nextSequence + 1 then some (tx.rollback .raised)
        else
          match answer.verdict with
          | .error _ => some (tx.rollback .messageSlotUpdateFailed)
          | .ok _ =>
            some { tx.to (.authorize ⟨conversation.id, conversation.tenantId, conversation.nextSequence⟩) with
              rowLock := some conversation.id,
              writes := { Writes.empty with nextSequence := some (conversation.id, conversation.nextSequence + 1) } }
      else none
  | .authorize slot => some (tx.asked answer.verdict (tx.to (.resolveThreadRoot slot)))
  | .resolveThreadRoot slot =>
    match resolveThreadRoot s.db tx.request slot with
    | .ok threadRootMessageId => some (tx.to (.validateMentions slot threadRootMessageId))
    | .error reason => some (tx.rollback reason)
  | .validateMentions slot threadRootMessageId =>
    some (tx.asked (validateActiveMembers answer tx.request.mentionedUserIds) (tx.to (.insert slot threadRootMessageId)))
  | .insert slot threadRootMessageId =>
    let message := newMessage tx.request slot threadRootMessageId answer
    if !validChangeset rt message then some (tx.rollback .raised)
    -- a unique index waits for the transaction that has written the same
    else if s.others p fun other => other.running && other.writes.messages.any (clash message) then
      if s.db.messages.any (clash message) then some (tx.rollback .raised)
      else some { tx.to (.attach message) with writes := { tx.writes with messages := [message] } }
    else none
  | .attach message => some (tx.asked answer.verdict (tx.to (.record message)))
  | .record message =>
    let events := newEvents message tx.request.mentionedUserIds
    some (tx.asked answer.verdict { tx.to (.currentWriteAuthority message .created) with
      writes := { tx.writes with mentions := newMentions message tx.request.mentionedUserIds answer,
                                 outbox := events.map (outboxRow message answer),
                                 audit := events.map (auditRow tx.request message) } })
  | .currentWriteAuthority _ _ =>
    match answer.verdict with
    | .ok _ => none
    | .error reason => some (tx.rollback reason)
  | .committed _ _ => none
  | .failed _ => none

/-- What can happen: a call comes, a transaction goes on, or it is aborted (on its deadline, in a deadlock, or with its
process). -/
inductive Event
  | call (attrs : Attrs) (subject : Subject)
  | advance (p : Nat) (answer : Answer)
  | abort (p : Nat) (reason : Reason)

/-- The commit of a transaction that has come to its end. -/
def commit (s : State) (p : Nat) (tx : Tx) (message : Message) (status : Accepted) : State :=
  { db := s.db.apply tx.writes,
    txs := s.txs.set p { tx.to (.committed message status) with keyLock := none, rowLock := none } }

/-- The state after an event, if it can happen. -/
def step (rt : Runtime) (s : State) : Event → Option State
  | .call attrs subject =>
    match check rt attrs subject with
    | .ok request => some { s with txs := s.txs ++ [Tx.start request] }
    -- no transaction is begun
    | .error _ => some s
  | .advance p answer =>
    match s.txs[p]? with
    | none => none
    | some tx =>
      match tx.stage, answer.verdict with
      | .currentWriteAuthority message status, .ok _ => some (commit s p tx message status)
      | _, _ => (advance rt s p tx answer).map fun tx => { s with txs := s.txs.set p tx }
  | .abort p reason =>
    match s.txs[p]? with
    | none => none
    | some tx => if tx.running then some { s with txs := s.txs.set p (tx.rollback reason) } else none

def run (rt : Runtime) (s : State) (events : List Event) : Option State := events.foldlM (step rt) s

end KComms.Messaging
