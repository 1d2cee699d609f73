import KComms.Whiteboards.Commands

/-!
# The library of a whiteboard and its erasure (`Whiteboards.Library`, `.Erasure`)

Titles, checkpoints and their restores, and approved images; and what the erasure of a user or of a conversation leaves.
A restore appends in the transaction of the library: first a clear, then the elements of the checkpoint in chunks, each
with the authors that the checkpoint was recorded with.
-/

namespace KComms.Whiteboards

open ElixirString (trim)

/-! ### The library -/

def trimmed : Option String → String
  | some value => trim value
  | none => ""

/-- The title of a board or the label of a checkpoint. -/
def validTitle (rt : Runtime) (title : String) : Bool := decide (1 ≤ rt.graphemes title) && decide (rt.graphemes title ≤ 160)

/-- `write_transaction` with `lock_board!`. -/
def withBoard {β : Type} (call : Call) (s : Store) (conversationId : String)
    (operation : Whiteboard → Except WhiteboardError β) : Except WhiteboardError β := do
  call.check .authorize
  call.check .lock
  match s.board? call.subject.tenantId conversationId with
  | none => .error .notFound
  | some board => do
    call.check .board
    let result ← operation board
    call.check .close
    .ok result

def rename (rt : Runtime) (call : Call) (conversationId : String) (title : Option String) (expectedVersion : Option Nat)
    (s : Store) : Except WhiteboardError Store :=
  if validTitle rt (trimmed title) then
    withBoard call s conversationId fun board =>
      if expectedVersion ≠ some board.libraryVersion then .error .staleBoardVersion
      else
        .ok (s.putBoard { board with title := trimmed title, titleActorUserId := some call.subject.userId,
                                     libraryVersion := board.libraryVersion + 1 })
  else .error .invalidBoardTitle

/-- `scene!`: the elements that a board shows. -/
def sceneOf (rt : Runtime) (s : Store) (board : Whiteboard) : Except WhiteboardError (List Element) := do
  let generation := s.latestClear board.id
  let (baseElements, afterSequence) := match Snapshots.current s board.id with
    | some snapshot =>
      if snapshot.throughSequence ≤ board.sequence then (snapshot.elements, snapshot.throughSequence)
      else ([], generation)
    | none => ([], generation)
  let initial ← Scene.new rt.encodedBytes baseElements
  let scene ← Snapshots.projectTail rt s board.id afterSequence board.sequence initial
  .ok (Scene.elements rt.entries scene)

/-- `scene_authors!`: who wrote the updates since the latest clear, and whose work they restored. -/
def sceneAuthors (s : Store) (board : Whiteboard) : List String :=
  let generation := s.latestClear board.id
  let rows := (s.operationsOf board.id).filter fun op =>
    generation < op.sequence ∧ op.sequence ≤ board.sequence ∧ op.kind = .sceneUpdate
  ((rows.flatMap fun op => op.actorUserId :: op.sourceActorUserIds).eraseDups).insertionSort fun a b => a ≤ b

def checkpoint (rt : Runtime) (call : Call) (conversationId : String) (label : Option String)
    (expectedSequence : Option Nat) (s : Store) : Except WhiteboardError Store :=
  if validTitle rt (trimmed label) then
    withBoard call s conversationId fun board =>
      if expectedSequence ≠ some board.sequence then .error .staleBoardVersion
      else if 100 ≤ (s.versions.filter fun v => v.whiteboardId = board.id).length then .error .whiteboardVersionCapacity
      else do
        let elements ← sceneOf rt s board
        call.check .write
        let version : Version :=
          { id := call.newId [0], tenantId := board.tenantId, whiteboardId := board.id,
            conversationId := board.conversationId, actorUserId := call.subject.userId, label := trimmed label,
            throughSequence := board.sequence, elements := elements, sourceActorUserIds := sceneAuthors s board }
        -- the primary key of the new row
        if version.id ∈ s.versions.map Version.id then .error .forbidden
        else .ok { s with versions := s.versions ++ [version] }
  else .error .invalidBoardTitle

/-- One round of the loop of `chunk_elements`. -/
def chunkElement (rt : Runtime) (state : List (List Element) × List Element × Nat) (element : Element) :
    List (List Element) × List Element × Nat :=
  let (chunks, current, bytes) := state
  let elementBytes := rt.encodedBytes element
  let nextBytes := bytes + elementBytes + if 0 < current.length then 1 else 0
  if current.length = Payload.maximumElementsPerUpdate ∨ Payload.maximumEncodedBytes < nextBytes then
    (chunks ++ [current], [element], 15 + elementBytes)
  else (chunks, current ++ [element], nextBytes)

def chunkElements (rt : Runtime) (elements : List Element) : List (List Element) :=
  let (chunks, current, _) := elements.foldl (chunkElement rt) ([], [], 15)
  if current = [] then chunks else chunks ++ [current]

/-- A stored element as it is sent again. -/
def Element.attrs (element : Element) : ElementAttrs :=
  { id := some element.id, type := some element.type, version := element.version, versionNonce := element.versionNonce,
    linked := false, isDeleted := element.isDeleted, fileId := element.fileId, sourced := false, rest := element.rest }

def restoreClear (call : Call) : AppendAttrs :=
  { clientOperationId := some ("restore-clear-" ++ call.newId [2]), kind := some .boardClear, baseSequence := none,
    elements := none, payloadEmpty := true }

def restoreScene (call : Call) (sequence : Nat) (chunk : List Element) : AppendAttrs :=
  { clientOperationId := some ("restore-scene-" ++ call.newId [2]), kind := some .sceneUpdate,
    baseSequence := some sequence, elements := some (chunk.map Element.attrs), payloadEmpty := false }

/-- An append in the transaction of a restore: a stored duplicate is not what `restore` expects. -/
def appendCreated (rt : Runtime) (call : Call) (conversationId : String) (attrs : AppendAttrs)
    (sourceVersionId : Option String) (s : Store) : Except WhiteboardError (Store × Operation) := do
  let (s, operation, status) ← appendWithSource rt call conversationId attrs sourceVersionId s
  match status with
  | .created => .ok (s, operation)
  | .duplicate => .error .forbidden

def restore (rt : Runtime) (call : Call) (conversationId versionId : String) (expectedSequence : Option Nat)
    (s : Store) : Except WhiteboardError Store :=
  match rt.uuidCast versionId with
  | none => .error .notFound
  | some versionId =>
    withBoard call s conversationId fun board =>
      if expectedSequence ≠ some board.sequence then .error .staleBoardVersion
      else
        match s.versions.find? fun v => v.id = versionId ∧ v.tenantId = board.tenantId ∧ v.whiteboardId = board.id with
        | none => .error .notFound
        | some version => do
          validateAssets rt call s board version.elements
          let (s, clear) ← appendCreated rt (call.part 0) conversationId (restoreClear (call.part 0)) none s
          (chunkElements rt version.elements).zipIdx.foldlM
            (fun s entry => do
              let call := call.part (entry.2 + 1)
              let (s, _) ← appendCreated rt call conversationId (restoreScene call clear.sequence entry.1)
                (some version.id) s
              .ok s) s

/-- `BoardAssetPort.claim` of the attachment gives its id and its source message, if it succeeds. -/
def addAsset (rt : Runtime) (call : Call) (conversationId attachmentId : String) (receipt : Option (String × String))
    (s : Store) : Except WhiteboardError Store :=
  match rt.uuidCast attachmentId with
  | none => .error .assetUnavailable
  | some attachmentId =>
    withBoard call s conversationId fun board =>
      if 100 ≤ (s.assets.filter fun a => a.whiteboardId = board.id).length then .error .whiteboardAssetCapacity
      else
        match receipt with
        | none => .error .assetUnavailable
        | some (receiptAttachmentId, sourceMessageId) => do
          call.check .write
          match s.assets.find? fun a => a.whiteboardId = board.id ∧ a.attachmentId = attachmentId with
          | some _ => .ok s
          | none =>
            let asset : Asset :=
              { id := call.newId [0], tenantId := board.tenantId, whiteboardId := board.id,
                conversationId := conversationId, attachmentId := receiptAttachmentId, sourceMessageId := sourceMessageId,
                actorUserId := call.subject.userId }
            -- the primary key of the new row
            if asset.id ∈ s.assets.map Asset.id then .error .forbidden
            else .ok { s with assets := s.assets ++ [asset] }

/-! ### Erasure -/

namespace Erasure

/-- The operation was written by the user or restores work of the user. -/
def involves (userId : String) (op : Operation) : Bool :=
  op.actorUserId = userId || op.sourceActorUserIds.contains userId

/-- `erase(tenant_id, :conversation, conversation_id)`; the other rows of a board go with it. -/
def eraseConversation (tenantId conversationId : String) (s : Store) : Store :=
  let gone := (s.boards.filter fun b => b.tenantId = tenantId ∧ b.conversationId = conversationId).map Whiteboard.id
  { boards := s.boards.filter fun b => ¬ (b.tenantId = tenantId ∧ b.conversationId = conversationId),
    operations := s.operations.filter fun op =>
      ¬ (op.tenantId = tenantId ∧ op.conversationId = conversationId) ∧ op.whiteboardId ∉ gone,
    snapshots := s.snapshots.filter fun snapshot => snapshot.whiteboardId ∉ gone,
    versions := s.versions.filter fun v => v.whiteboardId ∉ gone,
    assets := s.assets.filter fun a => a.whiteboardId ∉ gone }

/-- The boards with an operation that involves the user. -/
def affected (tenantId userId : String) (s : Store) : List String :=
  (s.boards.filter fun b => b.tenantId = tenantId ∧
    (s.operations.any fun op => op.tenantId = tenantId ∧ involves userId op ∧ op.whiteboardId = b.id)).map
    Whiteboard.id

/-- `erase(tenant_id, :user, user_id)` -/
def eraseUser (tenantId userId : String) (s : Store) : Store :=
  let boardIds := affected tenantId userId s
  { boards := s.boards.map fun b =>
      if b.tenantId = tenantId ∧ b.titleActorUserId = some userId then
        { b with title := "Untitled board", titleActorUserId := none, libraryVersion := b.libraryVersion + 1 }
      else b,
    operations := s.operations.map fun op =>
      if op.tenantId = tenantId ∧ involves userId op ∧ op.kind = .sceneUpdate then { op with elements := [] }
      else op,
    snapshots := s.snapshots.filter fun snapshot => ¬ (snapshot.tenantId = tenantId ∧ snapshot.whiteboardId ∈ boardIds),
    versions := s.versions.filter fun v =>
      ¬ (v.tenantId = tenantId ∧
        (v.whiteboardId ∈ boardIds ∨ v.actorUserId = userId ∨ v.sourceActorUserIds.contains userId)),
    assets := s.assets.filter fun a => ¬ (a.tenantId = tenantId ∧ a.actorUserId = userId) }

end Erasure

/-! ### Runs of the server -/

inductive Command
  | append (conversationId : String) (attrs : AppendAttrs)
  | rename (conversationId : String) (title : Option String) (expectedVersion : Option Nat)
  | checkpoint (conversationId : String) (label : Option String) (expectedSequence : Option Nat)
  | restore (conversationId versionId : String) (expectedSequence : Option Nat)
  | addAsset (conversationId attachmentId : String) (receipt : Option (String × String))
  deriving DecidableEq, Repr

/-- The store after an accepted command. -/
def exec (rt : Runtime) (call : Call) (s : Store) : Command → Except WhiteboardError Store
  | .append conversationId attrs => (append rt call conversationId attrs s).map Prod.fst
  | .rename conversationId title expectedVersion => rename rt call conversationId title expectedVersion s
  | .checkpoint conversationId label expectedSequence => checkpoint rt call conversationId label expectedSequence s
  | .restore conversationId versionId expectedSequence => restore rt call conversationId versionId expectedSequence s
  | .addAsset conversationId attachmentId receipt => addAsset rt call conversationId attachmentId receipt s

end KComms.Whiteboards
