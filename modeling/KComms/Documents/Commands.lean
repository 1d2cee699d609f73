import KComms.Documents.Rga
import KComms.Lib.ElixirString

/-!
# Commands and queries on shared documents (`SharedDocuments.Commands`, `.Queries`, `.Erasure`)

The two tables, the commands that change them and the replay query.  A command runs in one transaction under the
tenant's capacity lock and the row lock of its document, so it is a function from the store before to the store after;
an error rolls the whole transaction back and leaves the store as it was.

What the commands ask of other components is in `Call` (the verdicts of the account, conversation and protection
checks, the generated row id, the clock) and in `Runtime` (the enumeration order of maps, the UUID parser and the JSON
encoder, of which only the size is used).  Parameters that are absent or of the wrong type are `none`.
-/

namespace KComms.Documents

open ElixirString (trim)

inductive OperationKind
  | create
  | copy
  | edit
  | rename
  deriving DecidableEq, Repr

/-- The recorded input of an operation, which a retry has to repeat exactly. -/
inductive OperationInput
  | create (title : String) (sourceDocumentId : Option String)
  | edit (generation baseVersion : Nat) (changes : List Change)
  | rename (generation baseVersion : Nat) (title : String)
  deriving DecidableEq, Repr

structure Payload where
  title : Option String
  insertedAtoms : List Atom
  deletedAtomIds : List String
  deriving DecidableEq, Repr

/-- A row of `shared_documents`. -/
structure Document where
  id : String
  tenantId : String
  conversationId : String
  createdByUserId : Option String
  createdByDeviceId : Option String
  clientDocumentId : String
  title : String
  content : String
  atoms : List Atom
  authorUserIds : List String
  lineageVerified : Bool
  generation : Nat
  version : Nat
  retainedOperationBytes : Nat
  erasedAt : Option Nat
  updatedAt : Nat
  deriving DecidableEq, Repr

/-- A row of `shared_document_operations`. -/
structure Operation where
  tenantId : String
  conversationId : String
  documentId : String
  actorUserId : String
  actorDeviceId : String
  clientOperationId : String
  generation : Nat
  version : Nat
  kind : OperationKind
  input : OperationInput
  payload : Payload
  insertedAt : Nat
  deriving DecidableEq, Repr

structure Store where
  documents : List Document
  operations : List Operation
  deriving DecidableEq, Repr

structure Subject where
  tenantId : String
  userId : String
  deviceId : String
  deriving DecidableEq, Repr

/-- The places where a command asks for authority again: `lock!` (with `erase`, `protect!` of the target), the
protection of one document, and the `current!` checks in between. -/
inductive Check
  | lock
  | document (id : String)
  | start
  | write
  | finish
  | close
  deriving DecidableEq, Repr

/-- The circumstances of one command: who calls, what a check rolls the transaction back with (if anything), the id
generated for a new row and the time. -/
structure Call where
  subject : Subject
  refusal : Check → Option Refusal
  newId : String
  now : Nat

structure Runtime where
  values : Enumeration String Atom
  uuidCast : String → Option String
  encodedBytes : OperationInput → Payload → Nat

/-! ### Projections -/

/-- What a client is shown of a document. -/
structure SharedDocument where
  id : String
  conversationId : String
  title : String
  content : String
  generation : Nat
  version : Nat
  updatedAt : Nat
  atoms : List Atom
  readonly : Bool
  deriving DecidableEq, Repr

/-- What a client is shown of an operation. -/
structure DocumentOperation where
  documentId : String
  conversationId : String
  clientOperationId : String
  generation : Nat
  version : Nat
  kind : OperationKind
  title : Option String
  insertedAtoms : List Atom
  deletedAtomIds : List String
  insertedAt : Nat
  deriving DecidableEq, Repr

def Projector.document (d : Document) : SharedDocument where
  id := d.id
  conversationId := d.conversationId
  title := d.title
  content := d.content
  generation := d.generation
  version := d.version
  updatedAt := d.updatedAt
  atoms := d.atoms
  readonly := decide (16776704 ≤ d.retainedOperationBytes ∨ 4000 ≤ d.version ∨ Rga.maximumAtoms ≤ d.atoms.length ∨
    250 ≤ d.authorUserIds.length)

def Projector.operation (op : Operation) : DocumentOperation where
  documentId := op.documentId
  conversationId := op.conversationId
  clientOperationId := op.clientOperationId
  generation := op.generation
  version := op.version
  kind := op.kind
  title := op.payload.title
  insertedAtoms := op.payload.insertedAtoms
  deletedAtomIds := op.payload.deletedAtomIds
  insertedAt := op.insertedAt

/-! ### Rows -/

def Store.empty : Store := ⟨[], []⟩

/-- `Repo.update!` of a document row. -/
def Store.put (s : Store) (d : Document) : Store :=
  { s with documents := s.documents.map fun d' => if d'.id = d.id then d else d' }

/-- The stored operations of a document, in the order of their insertion. -/
def Store.operationsOf (s : Store) (documentId : String) : List Operation :=
  s.operations.filter fun op => op.documentId = documentId

/-! ### Authority -/

def Call.authorize (call : Call) (check : Check) : Except DocumentError Unit :=
  match call.refusal check with
  | some reason => .error (.refused reason)
  | none => .ok ()

/-- `Authority.document!`: erased documents and documents of unknown lineage are refused. -/
def authorityDocument (rt : Runtime) (call : Call) (d : Document) : Except DocumentError Unit :=
  if d.erasedAt.isSome then .error .notFound
  else if d.lineageVerified && d.authorUserIds != [] && d.authorUserIds.all fun u => (rt.uuidCast u).isSome then
    call.authorize (.document d.id)
  else .error .documentLineageUnknown

/-- `Commands.with_document`. -/
def withDocument {β : Type} (rt : Runtime) (call : Call) (s : Store) (documentId : String)
    (operation : Document → Except DocumentError β) : Except DocumentError β :=
  match (rt.uuidCast documentId).bind fun id =>
      s.documents.find? fun d => d.id = id ∧ d.tenantId = call.subject.tenantId with
  | none => .error .notFound
  | some document => do
    call.authorize .lock
    authorityDocument rt call document
    let result ← operation document
    call.authorize .close
    .ok result

/-! ### Input -/

def normalizeTitle : Option String → Except DocumentError String
  | none => .error .invalidDocumentOperation
  | some value =>
    let value := trim value
    if 1 ≤ (codepoints value).length ∧ (codepoints value).length ≤ 160 ∧ value.utf8ByteSize ≤ 640 ∧
        '\x00' ∉ value.toList then .ok value
    else .error .invalidDocumentOperation

def castUuid (rt : Runtime) (value : Option String) : Except DocumentError String :=
  match value.bind rt.uuidCast with
  | some id => .ok id
  | none => .error .invalidDocumentOperation

structure CreateAttrs where
  clientDocumentId : Option String
  title : Option String
  deriving DecidableEq, Repr

inductive EditKind
  | edit
  | rename
  deriving DecidableEq, Repr

structure OperationAttrs where
  clientOperationId : Option String
  generation : Option Nat
  baseVersion : Option Nat
  kind : Option EditKind
  changes : Option (List Change)
  title : Option String
  deriving DecidableEq, Repr

/-- The admitted parameters of `apply_operation`, with the input that is recorded. -/
structure OperationRequest where
  clientId : String
  generation : Nat
  baseVersion : Nat
  input : OperationInput
  deriving DecidableEq, Repr

def normalizeInput (kind : EditKind) (attrs : OperationAttrs) (generation baseVersion : Nat) :
    Except DocumentError OperationInput :=
  match kind with
  | .edit =>
    match attrs.changes with
    | some changes => .ok (.edit generation baseVersion changes)
    | none => .error .invalidDocumentOperation
  | .rename => do
    let title ← normalizeTitle attrs.title
    .ok (.rename generation baseVersion title)

def normalizeRequest (rt : Runtime) (attrs : OperationAttrs) : Except DocumentError OperationRequest := do
  let clientId ← castUuid rt attrs.clientOperationId
  match attrs.generation, attrs.baseVersion, attrs.kind with
  | some generation, some baseVersion, some kind =>
    if 1 ≤ generation then
      let input ← normalizeInput kind attrs generation baseVersion
      .ok ⟨clientId, generation, baseVersion, input⟩
    else .error .invalidDocumentOperation
  | _, _, _ => .error .invalidDocumentOperation

/-! ### Writing an operation -/

def maximumRetainedBytes : Nat := 16777216

/-- `insert_operation!`: store the operation and charge its size to the document. -/
def insertOperation (rt : Runtime) (call : Call) (s : Store) (d : Document) (clientId : String) (kind : OperationKind)
    (input : OperationInput) (payload : Payload) (version : Nat) : Except DocumentError (Store × Operation) :=
  let retained := d.retainedOperationBytes + rt.encodedBytes input payload + 512
  if retained > maximumRetainedBytes then .error .documentCapacityExceeded
  else
    let op : Operation :=
      { tenantId := d.tenantId, conversationId := d.conversationId, documentId := d.id,
        actorUserId := call.subject.userId, actorDeviceId := call.subject.deviceId, clientOperationId := clientId,
        generation := d.generation, version := version, kind := kind, input := input, payload := payload,
        insertedAt := call.now }
    .ok (({ s with operations := s.operations ++ [op] }).put { d with retainedOperationBytes := retained }, op)

/-! ### Creating and copying -/

/-- One round of the loop of `copy_atoms`. -/
def copyAtom (operationId : String) (state : List Atom × Option String) (entry : String × Nat) :
    List Atom × Option String :=
  let atom : Atom :=
    { id := Rga.atomId operationId entry.2, afterId := state.2, text := entry.1, deleted := false,
      order := 32000 + entry.2 }
  (atom :: state.1, some atom.id)

def copyAtoms (content operationId : String) : List Atom :=
  (((codepoints content).zipIdx.foldl (copyAtom operationId) ([], none)).1).reverse

/-- The row that `create_locked!` inserts: empty, or a copy of the content of `source`. -/
def newDocument (call : Call) (conversationId clientId title : String) (source : Option Document)
    (authors : List String) : Document where
  id := call.newId
  tenantId := call.subject.tenantId
  conversationId := conversationId
  createdByUserId := some call.subject.userId
  createdByDeviceId := some call.subject.deviceId
  clientDocumentId := clientId
  title := title
  content := (source.map Document.content).getD ""
  atoms := (source.map fun source => copyAtoms source.content clientId).getD []
  authorUserIds := authors
  lineageVerified := true
  generation := 1
  version := 1
  retainedOperationBytes := 0
  erasedAt := none
  updatedAt := call.now

/-- `create_locked!` when the client has created the document before. -/
def createAgain (rt : Runtime) (call : Call) (s : Store) (existing : Document) (input : OperationInput) :
    Except DocumentError (Store × SharedDocument) := do
  authorityDocument rt call existing
  match s.operations.find? fun op => op.documentId = existing.id ∧ op.version = 1 with
  | none => .error .notFound
  | some operation =>
    if existing.createdByUserId = some call.subject.userId ∧
        existing.createdByDeviceId = some call.subject.deviceId ∧ operation.input = input then
      .ok (s, Projector.document existing)
    else .error .idempotencyConflict

/-- `create_locked!` when the document is new. -/
def createFresh (rt : Runtime) (call : Call) (s : Store) (conversationId clientId title : String)
    (source : Option Document) (input : OperationInput) : Except DocumentError (Store × SharedDocument) :=
  let tenantId := call.subject.tenantId
  let authors := (call.subject.userId :: (source.map Document.authorUserIds).getD []).eraseDups
  if 40 ≤ (s.documents.filter fun d => d.tenantId = tenantId ∧ d.conversationId = conversationId).length ∨
      1000 ≤ (s.documents.filter fun d => d.tenantId = tenantId).length then .error .documentCapacityExceeded
  else if authors.length > 250 then .error .documentCapacityExceeded
  -- the primary key of the new row
  else if call.newId ∈ s.documents.map Document.id then .error .notFound
  else do
    let document := newDocument call conversationId clientId title source authors
    let kind := if source.isSome then OperationKind.copy else OperationKind.create
    let (s', _) ← insertOperation rt call { s with documents := s.documents ++ [document] } document clientId kind
      input ⟨some title, document.atoms, []⟩ 1
    call.authorize .finish
    match s'.documents.find? fun d => d.id = document.id with
    | some stored => .ok (s', Projector.document stored)
    | none => .error .notFound

/-- `create_locked!`, for a new document or a copy of `source`. -/
def createLocked (rt : Runtime) (call : Call) (s : Store) (conversationId clientId title : String)
    (source : Option Document) : Except DocumentError (Store × SharedDocument) := do
  call.authorize .start
  let input := OperationInput.create title (source.map Document.id)
  match s.documents.find? fun d => d.tenantId = call.subject.tenantId ∧ d.conversationId = conversationId ∧
      d.clientDocumentId = clientId with
  | some existing => createAgain rt call s existing input
  | none => createFresh rt call s conversationId clientId title source input

def create (rt : Runtime) (call : Call) (conversationId : String) (attrs : CreateAttrs) (s : Store) :
    Except DocumentError (Store × SharedDocument) := do
  let conversationId ← castUuid rt (some conversationId)
  let clientId ← castUuid rt attrs.clientDocumentId
  let title ← normalizeTitle attrs.title
  call.authorize .lock
  createLocked rt call s conversationId clientId title none

def copy (rt : Runtime) (call : Call) (documentId : String) (attrs : CreateAttrs) (s : Store) :
    Except DocumentError (Store × SharedDocument) := do
  let clientId ← castUuid rt attrs.clientDocumentId
  let title ← normalizeTitle attrs.title
  withDocument rt call s documentId fun source =>
    createLocked rt call s source.conversationId clientId title (some source)

/-! ### Editing and renaming -/

inductive Status
  | created
  | duplicate
  deriving DecidableEq, Repr

/-- The new columns of the document and the payload of the operation. -/
def applyInput (rt : Runtime) (d : Document) (clientId : String) (version : Nat) :
    OperationInput → Except DocumentError (Document × Payload × OperationKind)
  | .rename _ _ title => .ok ({ d with title := title }, ⟨some title, [], []⟩, .rename)
  | .edit _ _ changes => do
    let r ← Rga.apply rt.values d.atoms changes clientId version
    .ok ({ d with atoms := r.atoms, content := r.content }, ⟨none, r.inserted, r.deleted⟩, .edit)
  | .create _ _ => .error .invalidDocumentOperation

/-- The second write of the row: the new columns with the version, the authors and the time. -/
def Document.revised (updated : Document) (version : Nat) (authors : List String) (retained now : Nat) : Document :=
  { updated with version := version, authorUserIds := authors, retainedOperationBytes := retained, updatedAt := now }

def OperationInput.renames : OperationInput → Bool
  | .rename .. => true
  | _ => false

/-- `apply_operation` on the locked document when the operation is new. -/
def commitOperation (rt : Runtime) (call : Call) (s : Store) (d : Document) (request : OperationRequest) :
    Except DocumentError (Store × DocumentOperation × Status) :=
  let authors := (d.authorUserIds ++ [call.subject.userId]).eraseDups
  if 4000 ≤ d.version then .error .documentCapacityExceeded
  else if request.baseVersion > d.version then .error .invalidDocumentOperation
  else if request.input.renames ∧ request.baseVersion ≠ d.version then .error .staleVersion
  else if authors.length > 250 then .error .documentCapacityExceeded
  else do
    let version := d.version + 1
    let (updated, payload, kind) ← applyInput rt d request.clientId version request.input
    call.authorize .write
    let (s', op) ← insertOperation rt call s d request.clientId kind request.input payload version
    let retained := d.retainedOperationBytes + rt.encodedBytes request.input payload + 512
    .ok (s'.put (updated.revised version authors retained call.now), Projector.operation op, .created)

/-- `apply_operation` on the locked document: an operation that is stored is only reported. -/
def resolveOperation (rt : Runtime) (call : Call) (s : Store) (d : Document) (request : OperationRequest) :
    Except DocumentError (Store × DocumentOperation × Status) :=
  match s.operations.find? fun op => op.documentId = d.id ∧ op.clientOperationId = request.clientId with
  | some op =>
    if op.actorUserId = call.subject.userId ∧ op.actorDeviceId = call.subject.deviceId ∧
        op.input = request.input then .ok (s, Projector.operation op, .duplicate)
    else .error .idempotencyConflict
  | none => commitOperation rt call s d request

def applyOperation (rt : Runtime) (call : Call) (documentId : String) (attrs : OperationAttrs) (s : Store) :
    Except DocumentError (Store × DocumentOperation × Status) := do
  let request ← normalizeRequest rt attrs
  withDocument rt call s documentId fun d =>
    if request.generation ≠ d.generation then .error .staleDocumentGeneration
    else do
      let result ← resolveOperation rt call s d request
      call.authorize .finish
      .ok result

/-! ### Erasure -/

inductive ErasureTarget
  | user (id : String)
  | conversation (id : String)
  deriving DecidableEq, Repr

def ErasureTarget.selects (tenantId : String) (target : ErasureTarget) (d : Document) : Bool :=
  decide (d.tenantId = tenantId) && d.erasedAt.isNone && match target with
    | .user id => d.authorUserIds.contains id || !d.lineageVerified || d.authorUserIds.isEmpty
    | .conversation id => d.conversationId == id

/-- What governed erasure leaves of a document. -/
def Document.erased (d : Document) (now : Nat) : Document :=
  { d with title := "Erased document", content := "", atoms := [], authorUserIds := [], createdByUserId := none,
           createdByDeviceId := none, retainedOperationBytes := 0, erasedAt := some now, updatedAt := now,
           generation := d.generation + 1, version := d.version + 1 }

def erase (rt : Runtime) (call : Call) (target : ErasureTarget) (s : Store) : Except DocumentError Store := do
  call.authorize .lock
  let selected := s.documents.filter (target.selects call.subject.tenantId)
  if selected.length > 1000 then .error .documentErasureScopeExceeded
  else do
    selected.forM (authorityDocument rt call)
    let ids := selected.map Document.id
    .ok { documents := s.documents.map fun d => if d.id ∈ ids then d.erased call.now else d,
          operations := s.operations.filter fun op => op.documentId ∉ ids }

/-! ### Queries -/

def get (rt : Runtime) (call : Call) (documentId : String) (s : Store) : Except DocumentError SharedDocument :=
  withDocument rt call s documentId fun d => .ok (Projector.document d)

/-- `OperationPage`. -/
structure OperationPage where
  generation : Nat
  throughVersion : Nat
  nextAfterVersion : Nat
  operations : List DocumentOperation
  hasMore : Bool
  deriving DecidableEq, Repr

/-- `Queries.replay`: the operations after a version, at most `limit` of them. -/
def replay (rt : Runtime) (call : Call) (documentId : String) (generation afterVersion limit : Nat) (s : Store) :
    Except DocumentError OperationPage :=
  if 1 ≤ generation ∧ 1 ≤ limit ∧ limit ≤ 100 then
    withDocument rt call s documentId fun d =>
      if generation ≠ d.generation then .error .staleDocumentGeneration
      else if afterVersion > d.version then .error .invalidDocumentOperation
      else
        let rows := ((s.operationsOf d.id).filter fun op => op.version > afterVersion).insertionSort
          fun op op' => op.version ≤ op'.version
        let operations := rows.take (limit + 1)
        let page := operations.take limit
        .ok { generation := generation, throughVersion := d.version,
              nextAfterVersion := (page.getLast?.map Operation.version).getD afterVersion,
              operations := page.map Projector.operation, hasMore := decide (limit < operations.length) }
  else .error .invalidDocumentOperation

/-! ### Runs of the server -/

inductive Command
  | create (conversationId : String) (attrs : CreateAttrs)
  | copy (documentId : String) (attrs : CreateAttrs)
  | applyOperation (documentId : String) (attrs : OperationAttrs)
  | erase (target : ErasureTarget)
  deriving DecidableEq, Repr

/-- The store after an accepted command. -/
def exec (rt : Runtime) (call : Call) (s : Store) : Command → Except DocumentError Store
  | .create conversationId attrs => (create rt call conversationId attrs s).map Prod.fst
  | .copy documentId attrs => (copy rt call documentId attrs s).map Prod.fst
  | .applyOperation documentId attrs => (applyOperation rt call documentId attrs s).map Prod.fst
  | .erase target => erase rt call target s

/-- The stores a server goes through, the latest first: one more for every accepted command. -/
inductive Run (rt : Runtime) : List Store → Prop
  | start : Run rt [Store.empty]
  | step {s s' : Store} {past : List Store} (call : Call) (command : Command) :
      Run rt (s :: past) → exec rt call s command = .ok s' → Run rt (s' :: s :: past)

end KComms.Documents
