import KComms.Lib.ElixirString
import KComms.Whiteboards.Scene
import Mathlib.Algebra.Ring.Nat

/-!
# Appending to a whiteboard and reading its history (`Whiteboards.Commands`, `.Payload`, `.Snapshots`, `.History`)

The tables of the whiteboards, the command that appends an operation to the log of a board, the snapshot that is kept
of its scene, and the pages in which the history is read.  A command runs in one transaction under the row lock of its
board, so it is a function from the store before to the store after; an error rolls the transaction back.

What a command asks of other components is in `Call`: the verdicts of the account and conversation checks and of the
time budget, whether an approved attachment can be read, and the ids that are generated.  `Runtime` has what is fixed
for a server: the order in which a map is enumerated, the sizes of elements as JSON, the UUID parser, the number of
graphemes of a string and the configured interval of the snapshots.
-/

namespace KComms.Whiteboards

open ElixirString (trim)

inductive OperationKind
  | sceneUpdate
  | boardClear
  deriving DecidableEq, Repr

/-! ### The tables -/

/-- A row of `whiteboards`. -/
structure Whiteboard where
  id : String
  tenantId : String
  conversationId : String
  sequence : Nat
  title : String
  libraryVersion : Nat
  titleActorUserId : Option String
  deriving DecidableEq, Repr

/-- A row of `whiteboard_operations`; `elements` are those of the payload, none for a clear. -/
structure Operation where
  id : String
  whiteboardId : String
  tenantId : String
  conversationId : String
  actorUserId : String
  actorDeviceId : String
  clientOperationId : String
  sequence : Nat
  kind : OperationKind
  elements : List Element
  sourceActorUserIds : List String
  deriving DecidableEq, Repr

/-- A row of `whiteboard_snapshots`. -/
structure Snapshot where
  whiteboardId : String
  tenantId : String
  conversationId : String
  throughSequence : Nat
  generationSequence : Nat
  elements : List Element
  deriving DecidableEq, Repr

/-- A row of `whiteboard_versions`. -/
structure Version where
  id : String
  tenantId : String
  whiteboardId : String
  conversationId : String
  actorUserId : String
  label : String
  throughSequence : Nat
  elements : List Element
  sourceActorUserIds : List String
  deriving DecidableEq, Repr

/-- A row of `whiteboard_assets`. -/
structure Asset where
  id : String
  tenantId : String
  whiteboardId : String
  conversationId : String
  attachmentId : String
  sourceMessageId : String
  actorUserId : String
  deriving DecidableEq, Repr

structure Store where
  boards : List Whiteboard
  operations : List Operation
  snapshots : List Snapshot
  versions : List Version
  assets : List Asset
  deriving DecidableEq, Repr

def Store.empty : Store := ⟨[], [], [], [], []⟩

/-- `Repo.get_by(Whiteboard, tenant_id: …, conversation_id: …)` -/
def Store.board? (s : Store) (tenantId conversationId : String) : Option Whiteboard :=
  s.boards.find? fun b => b.tenantId = tenantId ∧ b.conversationId = conversationId

def Store.operationsOf (s : Store) (whiteboardId : String) : List Operation :=
  s.operations.filter fun op => op.whiteboardId = whiteboardId

def Store.putBoard (s : Store) (b : Whiteboard) : Store :=
  { s with boards := s.boards.map fun b' => if b'.id = b.id then b else b' }

/-! ### Calls -/

structure Subject where
  tenantId : String
  userId : String
  deviceId : String
  deriving DecidableEq, Repr

/-- The places where a command asks for authority, in the order in which it passes them.  A restore makes further calls
within its transaction. -/
inductive Check
  | authorize
  | lock
  | board
  | write
  | close
  | part (index : Nat) (check : Check)
  deriving DecidableEq, Repr

/-- The circumstances of one command. -/
structure Call where
  subject : Subject
  /-- What a check rolls the transaction back with, if anything. -/
  refusal : Check → Option WhiteboardError
  /-- `BoardAssetPort.read` of an attachment and its source message succeeds. -/
  readable : String → String → Bool
  newId : List Nat → String

/-- What the database makes of a payload.  It writes numbers out without exponents, so what is read back may be longer
than what was sent; written again it stays as it is. -/
structure Jsonb where
  rest : String → String
  rest_rest : ∀ members, rest (rest members) = rest members
  /-- `==` of Elixir, which compares numbers by value. -/
  same : List Element → List Element → Bool

/-- The element as it is read back. -/
def Jsonb.element (jsonb : Jsonb) (element : Element) : Element := { element with rest := jsonb.rest element.rest }

structure Runtime where
  entries : Enumeration String Scene.Entry
  encodedBytes : Element → Nat
  jsonb : Jsonb
  uuidCast : String → Option String
  graphemes : String → Nat
  snapshotInterval : Nat

def Call.check (call : Call) (check : Check) : Except WhiteboardError Unit :=
  match call.refusal check with
  | some error => .error error
  | none => .ok ()

/-- The circumstances of a call within the transaction of `call`. -/
def Call.part (call : Call) (index : Nat) : Call :=
  { call with refusal := fun check => call.refusal (.part index check), newId := fun path => call.newId (index :: path) }

/-! ### The payload -/

/-- An element as it is sent.  A member of the wrong type is absent; `linked` says that it has a link or custom data,
`sourced` that it brings its image along. -/
structure ElementAttrs where
  id : Option String
  type : Option ElementType
  version : Option Int
  versionNonce : Option Int
  linked : Bool
  isDeleted : DeletedFlag
  fileId : Option String
  sourced : Bool
  rest : String
  deriving DecidableEq, Repr

/-- The parameters of `append`; `elements` is absent if the payload has no list of them.  What is no integer counts as a
negative `baseSequence`. -/
structure AppendAttrs where
  clientOperationId : Option String
  kind : Option OperationKind
  baseSequence : Option Int
  elements : Option (List ElementAttrs)
  payloadEmpty : Bool
  deriving DecidableEq, Repr

namespace Payload

def maximumElementsPerUpdate : Nat := 200

def maximumEncodedBytes : Nat := 512000

def maximumElementBytes : Nat := 64000

/-- The size of `{"elements":[…]}`. -/
def encodedBytes (rt : Runtime) (elements : List Element) : Nat :=
  15 + (elements.map rt.encodedBytes).sum + (elements.length - 1)

def identifier : Option String → Option String
  | some value => if 8 ≤ (trim value).utf8ByteSize ∧ (trim value).utf8ByteSize ≤ 128 then some (trim value) else none
  | none => none

def validImageReference (rt : Runtime) (type : ElementType) (attrs : ElementAttrs) : Bool :=
  type ≠ .image || ((attrs.fileId.bind rt.uuidCast).isSome && !attrs.sourced)

def normalizeElement (rt : Runtime) (attrs : ElementAttrs) : Option Element :=
  match identifier attrs.id, attrs.type, attrs.version, attrs.versionNonce with
  | some id, some type, some version, some versionNonce =>
    if 0 < version ∧ !attrs.linked ∧ validImageReference rt type attrs then
      let normalized : Element :=
        { id := id, type := type, version := some version, versionNonce := some versionNonce,
          isDeleted := attrs.isDeleted, fileId := attrs.fileId, rest := attrs.rest }
      if rt.encodedBytes normalized ≤ maximumElementBytes then some normalized else none
    else none
  | _, _, _, _ => none

def validate (rt : Runtime) (attrs : AppendAttrs) : Except WhiteboardError (OperationKind × List Element) :=
  match attrs.kind, attrs.elements with
  | some .sceneUpdate, some elements =>
    if 1 ≤ elements.length ∧ elements.length ≤ maximumElementsPerUpdate then
      match elements.mapM (normalizeElement rt) with
      | some normalized =>
        if encodedBytes rt normalized ≤ maximumEncodedBytes then .ok (.sceneUpdate, normalized)
        else .error .invalidWhiteboardOperation
      | none => .error .invalidWhiteboardOperation
    else .error .invalidWhiteboardOperation
  | some .boardClear, _ => if attrs.payloadEmpty then .ok (.boardClear, []) else .error .invalidWhiteboardOperation
  | _, _ => .error .invalidWhiteboardOperation

end Payload

/-! ### Snapshots -/

/-- `max(operation.sequence)` over the clears of a board, or 0. -/
def Store.latestClear (s : Store) (whiteboardId : String) : Nat :=
  (((s.operationsOf whiteboardId).filter fun op => op.kind = .boardClear).map Operation.sequence).foldl max 0

namespace Snapshots

def load (s : Store) (whiteboardId : String) : Option Snapshot :=
  s.snapshots.find? fun snapshot => snapshot.whiteboardId = whiteboardId

def projectTail (rt : Runtime) (s : Store) (whiteboardId : String) (afterSequence throughSequence : Nat)
    (scene : Scene) : Except WhiteboardError Scene :=
  let rows := ((s.operationsOf whiteboardId).filter fun op =>
    afterSequence < op.sequence ∧ op.sequence ≤ throughSequence).insertionSort fun op op' => op.sequence ≤ op'.sequence
  rows.foldlM (fun scene op => Scene.merge rt.encodedBytes scene op.elements) scene

inductive Prepared
  | clear (scene : Scene)
  | update (scene : Scene) (generation : Nat) (existing : Option Snapshot)

/-- `{base_elements, from_sequence}` of `prepare`. -/
def base (existing : Option Snapshot) (generation : Nat) : List Element × Nat :=
  match existing with
  | some snapshot =>
    if snapshot.generationSequence = generation ∧ generation ≤ snapshot.throughSequence then
      (snapshot.elements, snapshot.throughSequence)
    else ([], generation)
  | none => ([], generation)

def prepare (rt : Runtime) (s : Store) (whiteboard : Whiteboard) (generation : Nat) (kind : OperationKind)
    (elements : List Element) : Except WhiteboardError Prepared :=
  match kind with
  | .boardClear => do
    let scene ← Scene.new rt.encodedBytes []
    .ok (.clear scene)
  | .sceneUpdate => do
    let existing := load s whiteboard.id
    let (baseElements, fromSequence) := base existing generation
    let scene ← Scene.new rt.encodedBytes baseElements
    let scene ← projectTail rt s whiteboard.id fromSequence whiteboard.sequence scene
    let scene ← Scene.merge rt.encodedBytes scene elements
    .ok (.update scene generation existing)

def due (rt : Runtime) (existing : Option Snapshot) (sequence : Nat) : Bool :=
  match existing with
  | none => max rt.snapshotInterval 1 ≤ sequence
  | some snapshot => (max rt.snapshotInterval 1 : Int) ≤ (sequence : Int) - snapshot.throughSequence

/-- Insert the row of the board or update it. -/
def persist (rt : Runtime) (s : Store) (whiteboard : Whiteboard) (scene : Scene) (sequence generation : Nat) : Store :=
  let row : Snapshot :=
    { whiteboardId := whiteboard.id, tenantId := whiteboard.tenantId, conversationId := whiteboard.conversationId,
      throughSequence := sequence, generationSequence := generation, elements := Scene.elements rt.entries scene }
  match load s whiteboard.id with
  | none => { s with snapshots := s.snapshots ++ [row] }
  | some _ => { s with snapshots := s.snapshots.map fun old => if old.whiteboardId = whiteboard.id then row else old }

def maintain (rt : Runtime) (s : Store) (whiteboard : Whiteboard) (sequence : Nat) : Prepared → Store
  | .clear scene => persist rt s whiteboard scene sequence sequence
  | .update scene generation existing =>
    if due rt existing sequence then persist rt s whiteboard scene sequence generation else s

/-- The snapshot that a joining client may start from. -/
def current (s : Store) (whiteboardId : String) : Option Snapshot :=
  match load s whiteboardId with
  | none => none
  | some snapshot =>
    let generation := s.latestClear whiteboardId
    if snapshot.generationSequence = generation ∧ generation ≤ snapshot.throughSequence then some snapshot else none

end Snapshots

/-! ### Appending -/

def maximumOperations : Nat := 100000

def clientOperationId : Option String → Except WhiteboardError String
  | some value =>
    if 8 ≤ (trim value).utf8ByteSize ∧ (trim value).utf8ByteSize ≤ 128 then .ok (trim value)
    else .error .invalidWhiteboardOperation
  | none => .error .invalidWhiteboardOperation

def baseSequence : Option OperationKind → Option Int → Except WhiteboardError Nat
  | some .sceneUpdate, some value => if 0 ≤ value then .ok value.toNat else .error .invalidWhiteboardOperation
  | _, _ => .ok 0

/-- `lock_or_create_whiteboard!` -/
def lockOrCreateWhiteboard (call : Call) (s : Store) (conversationId : String) :
    Except WhiteboardError (Store × Whiteboard) :=
  match s.board? call.subject.tenantId conversationId with
  | some whiteboard => .ok (s, whiteboard)
  | none =>
    let whiteboard : Whiteboard :=
      { id := call.newId [0], tenantId := call.subject.tenantId, conversationId := conversationId, sequence := 0,
        title := "Untitled board", libraryVersion := 1, titleActorUserId := none }
    -- the primary key of the new row
    if whiteboard.id ∈ s.boards.map Whiteboard.id then .error .forbidden
    else .ok ({ s with boards := s.boards ++ [whiteboard] }, whiteboard)

/-- `source_authors!`: the authors recorded with the checkpoint that is restored. -/
def sourceAuthors (s : Store) (whiteboard : Whiteboard) : Option String → Except WhiteboardError (List String)
  | none => .ok []
  | some versionId =>
    match s.versions.find? fun v => v.id = versionId ∧ v.tenantId = whiteboard.tenantId ∧
        v.whiteboardId = whiteboard.id with
    | some version => .ok version.sourceActorUserIds
    | none => .error .notFound

/-- `AssetValidation.validate` -/
def validateAssets (rt : Runtime) (call : Call) (s : Store) (whiteboard : Whiteboard) (elements : List Element) :
    Except WhiteboardError Unit :=
  elements.forM fun element =>
    if element.type = .image ∧ !element.isDeleted.isTrue then
      match s.assets.find? fun a => element.fileId.bind rt.uuidCast = some a.id ∧ a.whiteboardId = whiteboard.id ∧
          a.tenantId = whiteboard.tenantId with
      | some asset =>
        if call.readable asset.attachmentId asset.sourceMessageId then .ok () else .error .assetUnavailable
      | none => .error .assetUnavailable
    else .ok ()

/-- `ensure_capacity_and_generation!` -/
def ensureCapacityAndGeneration (whiteboard : Whiteboard) (kind : OperationKind) (baseSequence generation : Nat) :
    Except WhiteboardError Unit :=
  match kind with
  | .sceneUpdate =>
    if baseSequence < generation then .error .staleWhiteboardGeneration
    else if (maximumOperations : Int) ≤ (whiteboard.sequence : Int) - generation then .error .whiteboardCapacityExceeded
    else .ok ()
  | .boardClear => .ok ()

inductive Status
  | created
  | duplicate
  deriving DecidableEq, Repr

/-- The row that `append` inserts. -/
def newOperation (call : Call) (conversationId clientOperationId : String) (whiteboard : Whiteboard)
    (kind : OperationKind) (elements : List Element) (sources : List String) : Operation :=
  { id := call.newId [1], whiteboardId := whiteboard.id, tenantId := call.subject.tenantId,
    conversationId := conversationId, actorUserId := call.subject.userId, actorDeviceId := call.subject.deviceId,
    clientOperationId := clientOperationId, sequence := whiteboard.sequence + 1, kind := kind, elements := elements,
    sourceActorUserIds := sources }

/-- `append_with_source` on the locked board when the operation is new. -/
def appendNew (rt : Runtime) (call : Call) (s : Store) (conversationId clientOperationId : String)
    (whiteboard : Whiteboard) (kind : OperationKind) (elements : List Element) (sources : List String)
    (baseSequence : Nat) : Except WhiteboardError (Store × Operation) := do
  -- the rows are read back from here on, and the scene is measured as it is read back
  let elements := elements.map rt.jsonb.element
  let generation := s.latestClear whiteboard.id
  ensureCapacityAndGeneration whiteboard kind baseSequence generation
  let prepared ← Snapshots.prepare rt s whiteboard generation kind elements
  call.check .write
  let operation := newOperation call conversationId clientOperationId whiteboard kind elements sources
  -- the primary key of the new row
  if operation.id ∈ s.operations.map Operation.id then .error .forbidden
  else
    let inserted := { s with operations := s.operations ++ [operation] }
    let updated := inserted.putBoard { whiteboard with sequence := whiteboard.sequence + 1 }
    .ok (Snapshots.maintain rt updated whiteboard (whiteboard.sequence + 1) prepared, operation)

def existingOperation (call : Call) (s : Store) (conversationId clientOperationId : String) : Option Operation :=
  s.operations.find? fun op => op.tenantId = call.subject.tenantId ∧ op.actorDeviceId = call.subject.deviceId ∧
    op.conversationId = conversationId ∧ op.clientOperationId = clientOperationId

/-- `append_with_source` on the locked board. -/
def appendOrReplay (rt : Runtime) (call : Call) (s : Store) (conversationId clientOperationId : String)
    (whiteboard : Whiteboard) (kind : OperationKind) (elements : List Element) (sources : List String)
    (baseSequence : Nat) : Except WhiteboardError (Store × Operation × Status) :=
  match existingOperation call s conversationId clientOperationId with
  | some operation =>
    if operation.kind = kind ∧ rt.jsonb.same operation.elements elements ∧ operation.sourceActorUserIds = sources then
      .ok (s, operation, .duplicate)
    else .error .idempotencyConflict
  | none => do
    let (s, operation) ← appendNew rt call s conversationId clientOperationId whiteboard kind elements sources
      baseSequence
    .ok (s, operation, .created)

/-- `append_with_source`; a checkpoint that is restored is named by its id. -/
def appendWithSource (rt : Runtime) (call : Call) (conversationId : String) (attrs : AppendAttrs)
    (sourceVersionId : Option String) (s : Store) : Except WhiteboardError (Store × Operation × Status) := do
  call.check .authorize
  let clientOperationId ← clientOperationId attrs.clientOperationId
  let baseSequence ← baseSequence attrs.kind attrs.baseSequence
  let (kind, elements) ← Payload.validate rt attrs
  call.check .lock
  let (s, whiteboard) ← lockOrCreateWhiteboard call s conversationId
  call.check .board
  let sources ← sourceAuthors s whiteboard sourceVersionId
  validateAssets rt call s whiteboard elements
  let result ← appendOrReplay rt call s conversationId clientOperationId whiteboard kind elements sources baseSequence
  call.check .close
  .ok result

def append (rt : Runtime) (call : Call) (conversationId : String) (attrs : AppendAttrs) (s : Store) :
    Except WhiteboardError (Store × Operation × Status) := appendWithSource rt call conversationId attrs none s

/-! ### Reading -/

/-- `OperationView`. -/
structure OperationView where
  id : String
  whiteboardId : String
  tenantId : String
  conversationId : String
  actorUserId : String
  clientOperationId : String
  sequence : Nat
  kind : OperationKind
  elements : List Element
  deriving DecidableEq, Repr

def Projector.operation (op : Operation) : OperationView :=
  { id := op.id, whiteboardId := op.whiteboardId, tenantId := op.tenantId, conversationId := op.conversationId,
    actorUserId := op.actorUserId, clientOperationId := op.clientOperationId, sequence := op.sequence, kind := op.kind,
    elements := op.elements }

structure SnapshotView where
  elements : List Element
  throughSequence : Nat
  deriving DecidableEq, Repr

structure Page where
  operations : List OperationView
  snapshot : Option SnapshotView
  hasMore : Bool
  nextAfterSequence : Nat
  deriving DecidableEq, Repr

namespace History

/-- A snapshot only replaces a fresh replay. -/
def snapshotFor (s : Store) (whiteboard : Whiteboard) (afterSequence : Nat) (snapshot : Bool) : Option Snapshot :=
  if afterSequence = 0 ∧ snapshot then Snapshots.current s whiteboard.id else none

def replayAfter (s : Store) (whiteboard : Whiteboard) (snapshot : Option Snapshot) (afterSequence : Nat) : Nat :=
  match snapshot, afterSequence with
  | some snapshot, 0 => snapshot.throughSequence
  | none, 0 => s.latestClear whiteboard.id - 1
  | _, afterSequence => afterSequence

def nextSequence (page : List Operation) (snapshot : Option Snapshot) (fallback : Nat) : Nat :=
  match page.getLast?, snapshot with
  | some operation, _ => operation.sequence
  | none, some snapshot => snapshot.throughSequence
  | none, none => fallback

/-- The operations after a sequence, in order. -/
def rows (s : Store) (whiteboard : Whiteboard) (replayAfter : Nat) : List Operation :=
  ((s.operationsOf whiteboard.id).filter fun op => replayAfter < op.sequence).insertionSort
    fun op op' => op.sequence ≤ op'.sequence

/-- `list` of a board. -/
def page (s : Store) (whiteboard : Whiteboard) (afterSequence limit : Nat) (snapshot : Bool) : Page :=
  let snapshot := snapshotFor s whiteboard afterSequence snapshot
  let replayAfter := replayAfter s whiteboard snapshot afterSequence
  let operations := (rows s whiteboard replayAfter).take (limit + 1)
  let page := operations.take limit
  { operations := page.map Projector.operation,
    snapshot := snapshot.map fun snapshot => ⟨snapshot.elements, snapshot.throughSequence⟩,
    hasMore := decide (limit < operations.length),
    nextAfterSequence := nextSequence page snapshot afterSequence }

/-- `limit` is 500 by default and from 1 to 500. -/
def pageLimit (limit : Option Int) : Nat := (min (max (limit.getD 500) 1) 500).toNat

/-- `History.list`; an option that is no integer is absent. -/
def list (call : Call) (conversationId : String) (afterSequence limit : Option Int) (snapshot : Bool) (s : Store) :
    Except WhiteboardError Page := do
  let afterSequence := (afterSequence.getD 0).toNat
  call.check .authorize
  match s.board? call.subject.tenantId conversationId with
  | none => .ok ⟨[], none, false, afterSequence⟩
  | some whiteboard => .ok (page s whiteboard afterSequence (pageLimit limit) snapshot)

end History

end KComms.Whiteboards
