import KComms.Lib.KeyedTable

/-!
# The content of a tenant, and its erasure

The rows that the erasure of a user, of a conversation or of a message reaches (`Messaging.GovernanceQueries`,
`Attachments.Erasure`, `Whiteboards.Erasure`), with the fields that it reads and writes.
-/

namespace KComms.Governance

inductive DeletionTarget
  | user (id : String)
  | conversation (id : String)
  | message (id : String)
  deriving DecidableEq, Repr

structure MessageRow where
  id : String
  conversationId : String
  senderUserId : String
  body : Option String
  metadata : List (String × String)
  deleted : Bool
  deriving DecidableEq, Repr

structure RevisionRow where
  messageId : String
  editorUserId : String
  body : String
  revision : Nat
  deriving DecidableEq, Repr

structure ReactionRow where
  messageId : String
  userId : String
  emoji : String
  deriving DecidableEq, Repr

structure AttachmentRow where
  id : String
  ownerUserId : String
  messageId : Option String
  objectKey : String
  fileName : String
  contentType : String
  checksumSha256 : Option String
  deleted : Bool
  deriving DecidableEq, Repr

structure VariantRow where
  attachmentId : String
  kind : String
  objectKey : String
  deriving DecidableEq, Repr

structure BoardRow where
  id : String
  conversationId : String
  title : String
  titleActorUserId : Option String
  libraryVersion : Nat
  deriving DecidableEq, Repr

inductive OperationKind
  | sceneUpdate | boardClear
  deriving DecidableEq, Repr

structure OperationRow where
  whiteboardId : String
  conversationId : String
  actorUserId : String
  sourceActorUserIds : List String
  kind : OperationKind
  elements : List String
  sequence : Nat
  deriving DecidableEq, Repr

structure SnapshotRow where
  whiteboardId : String
  conversationId : String
  throughSequence : Nat
  elements : List String
  deriving DecidableEq, Repr

structure VersionRow where
  id : String
  whiteboardId : String
  conversationId : String
  actorUserId : String
  sourceActorUserIds : List String
  label : String
  elements : List String
  deriving DecidableEq, Repr

structure AssetRow where
  whiteboardId : String
  attachmentId : String
  actorUserId : String
  deriving DecidableEq, Repr

structure Content where
  messages : KeyedTable MessageRow.id
  revisions : List RevisionRow
  reactions : List ReactionRow
  attachments : KeyedTable AttachmentRow.id
  variants : List VariantRow
  boards : KeyedTable BoardRow.id
  operations : List OperationRow
  snapshots : List SnapshotRow
  versions : List VersionRow
  assets : List AssetRow

/-! ### What a target reaches -/

/-- `governance_target` -/
def DeletionTarget.selects (target : DeletionTarget) (message : MessageRow) : Bool :=
  match target with
  | .user id => message.senderUserId = id
  | .conversation id => message.conversationId = id
  | .message id => message.id = id

structure GovernanceImpact where
  messageIds : List String
  conversationIds : List String
  userIds : List String
  deriving DecidableEq, Repr

/-- `governance_impact`, and `lock_for_erasure` in the same transaction -/
def governanceImpact (content : Content) (target : DeletionTarget) : GovernanceImpact :=
  let selected := content.messages.rows.filter target.selects
  { messageIds := selected.map (·.id), conversationIds := selected.map (·.conversationId),
    userIds := selected.map (·.senderUserId) }

/-- `erasure_objects`: the attachments of the messages and of the owner that are not deleted. -/
def erasureObjects (content : Content) (messageIds : List String) (owner : Option String) : List AttachmentRow :=
  content.attachments.rows.filter fun attachment =>
    !attachment.deleted && (attachment.messageId.any messageIds.contains || owner = some attachment.ownerUserId)

/-! ### Erasure -/

def MessageRow.tombstone (message : MessageRow) : MessageRow :=
  { message with body := none, metadata := [], deleted := true }

/-- `tombstone_for_erasure` -/
def tombstoneForErasure (messageIds : List String) (content : Content) : Content :=
  { content with
    revisions := content.revisions.filter fun revision => !messageIds.contains revision.messageId
    reactions := content.reactions.filter fun reaction => !messageIds.contains reaction.messageId
    messages := content.messages.modify (fun message => messageIds.contains message.id) MessageRow.tombstone
      fun _ => rfl }

def AttachmentRow.erase (attachment : AttachmentRow) : AttachmentRow :=
  { attachment with
    deleted := true
    fileName := "deleted"
    contentType := "application/octet-stream"
    checksumSha256 := none }

/-- `mark_deleted_for_erasure` -/
def markDeletedForErasure (attachmentIds : List String) (content : Content) : Content :=
  { content with
    attachments := content.attachments.modify (fun attachment => attachmentIds.contains attachment.id)
      AttachmentRow.erase fun _ => rfl
    variants := content.variants.filter fun variant => !attachmentIds.contains variant.attachmentId }

def OperationRow.concerns (operation : OperationRow) (userId : String) : Bool :=
  operation.actorUserId = userId || operation.sourceActorUserIds.contains userId

def VersionRow.concerns (version : VersionRow) (userId : String) : Bool :=
  version.actorUserId = userId || version.sourceActorUserIds.contains userId

def OperationRow.neutralize (operation : OperationRow) : OperationRow := { operation with elements := [] }

/-- The boards with an operation of the user. -/
def affectedBoards (content : Content) (userId : String) : List String :=
  (content.boards.rows.filter fun board =>
    content.operations.any fun operation => operation.whiteboardId = board.id && operation.concerns userId).map (·.id)

def BoardRow.untitle (board : BoardRow) : BoardRow :=
  { board with title := "Untitled board", titleActorUserId := none, libraryVersion := board.libraryVersion + 1 }

/-- `erase` for a conversation: the rows of a board go with the board. -/
def eraseBoards (conversationId : String) (content : Content) : Content :=
  let boards := (content.boards.rows.filter fun board => board.conversationId = conversationId).map (·.id)
  { content with
    operations := content.operations.filter fun operation =>
      !(operation.conversationId = conversationId || boards.contains operation.whiteboardId)
    boards := content.boards.delete fun board => board.conversationId = conversationId
    snapshots := content.snapshots.filter fun snapshot => !boards.contains snapshot.whiteboardId
    versions := content.versions.filter fun version => !boards.contains version.whiteboardId
    assets := content.assets.filter fun asset => !boards.contains asset.whiteboardId }

/-- `erase` for a user -/
def eraseAuthor (userId : String) (content : Content) : Content :=
  let boards := affectedBoards content userId
  { content with
    boards := content.boards.modify (fun board => board.titleActorUserId = some userId) BoardRow.untitle fun _ => rfl
    assets := content.assets.filter fun asset => asset.actorUserId ≠ userId
    versions := content.versions.filter fun version =>
      !(boards.contains version.whiteboardId || version.concerns userId)
    operations := content.operations.map fun operation =>
      if operation.concerns userId && operation.kind = .sceneUpdate then operation.neutralize else operation
    snapshots := content.snapshots.filter fun snapshot => !boards.contains snapshot.whiteboardId }

/-- `erase_whiteboards` -/
def eraseWhiteboards (target : DeletionTarget) (content : Content) : Content :=
  match target with
  | .user id => eraseAuthor id content
  | .conversation id => eraseBoards id content
  | .message _ => content

end KComms.Governance
