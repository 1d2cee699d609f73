import KComms.Whiteboards.OperationStream

/-!
# Unacknowledged edits in the browser (`WhiteboardPersistence.ts`)

What `WhiteboardPersistence` does in one turn of the event loop: from an event up to the next `await`, together with the
references that it shares with `useWhiteboardCollaboration.ts` (the scene, its position in the log, the noted revisions).
Calls that wait for a promise are kept as data: `flushes` are the calls of `flushPending` that have taken a batch and have
not ended, `clears` the calls of `clearBoard`.  Timers are fields: a timer that is set may fire at any time.

The browser store is seen through the promise `storageWrite` only: `Event.stored` is the end of a wait for it.  The editor is
seen through the elements that it reports.  `crypto.randomUUID` is a sequence of ids, of which `drawn` have been used.
-/

namespace KComms.Whiteboards

open OperationStream
open SceneModel (WhiteboardScene applyWhiteboardOperation)

/-! ### Revisions (`sceneModel.ts`) -/

/-- What `elementRevision` prints. -/
abbrev Revision := Option Int × Option Int × Bool

abbrev Revisions := OrderedMap String Revision

namespace SceneModel

def elementRevision (element : ElementData) : Revision := (element.version, element.versionNonce, element.isDeleted)

def changedElements (elements : List ElementData) (revisions : Revisions) : List ElementData :=
  elements.filter fun element => revisions.get? element.id ≠ some (elementRevision element)

def noteRevisions (revisions : Revisions) (elements : List ElementData) : Revisions :=
  elements.foldl (fun revisions element => revisions.set element.id (elementRevision element)) revisions

end SceneModel

open SceneModel (elementRevision changedElements noteRevisions)

namespace Persistence

inductive SaveStatus
  | synced
  | syncing
  | unsynced
  | error
  deriving DecidableEq, Repr

structure WhiteboardOutboxEntry where
  id : String
  baseSequence : Nat
  elements : List ElementData
  createdAt : Nat
  deriving DecidableEq, Repr

/-- An element of the editor, of a type in `allowedElementTypes` or of another one. -/
inductive EditorElement
  | allowed (element : ElementData)
  | other
  deriving DecidableEq, Repr

inductive ErrorCode
  | staleWhiteboardGeneration
  | whiteboardCapacityExceeded
  | other
  deriving DecidableEq, Repr

/-- What a request is rejected with; `text` is its `errorText`. -/
structure Reason where
  code : ErrorCode
  text : String
  deriving DecidableEq, Repr

/-- Where a call of `flushPending` stands: `sendBatch` waits for the browser store, or for the reply, or it has ended. -/
inductive FlushStage
  | storing
  | requested
  | ended
  deriving DecidableEq, Repr

structure Flush where
  batch : WhiteboardOutboxEntry
  generation : Nat
  stage : FlushStage
  deriving DecidableEq, Repr

/-- Where a call of `clearBoard` stands: it waits for the running flush, or for the reply. -/
inductive ClearStage
  | flushing
  | requested (clearedElements : List ElementData)
  deriving DecidableEq, Repr

structure Client where
  /-- `scene`, `latestSequence` and the queue of operations that have come too early -/
  stream : Stream
  revisions : Revisions
  clearedRevisions : Revisions
  applyingRemote : Bool
  pending : OrderedMap String ElementData
  pendingBase : Option Nat
  outbox : List WhiteboardOutboxEntry
  inFlight : Option WhiteboardOutboxEntry
  storageAvailable : Bool
  flushTimer : Bool
  retryTimer : Bool
  /-- `flushCompletion !== null` -/
  flushCompletion : Bool
  clearRequested : Bool
  capacityBlocked : Bool
  stopped : Bool
  generation : Nat
  localChangesArmed : Bool
  postClearGuardUntil : Nat
  flushes : List Flush
  clears : List ClearStage
  drawn : Nat
  elementCount : Nat
  saveStatus : SaveStatus
  pendingCount : Nat
  error : Option String
  /-- the number of calls of `onReplayRequested` -/
  replays : Nat

/-- A new instance, with the batches that `restoreOutbox` has found. -/
def Client.restored (stream : Stream) (revisions clearedRevisions : Revisions) (outbox : List WhiteboardOutboxEntry) :
    Client :=
  { stream := stream, revisions := revisions, clearedRevisions := clearedRevisions, applyingRemote := false,
    pending := OrderedMap.empty, pendingBase := none, outbox := outbox, inFlight := none, storageAvailable := true,
    flushTimer := false, retryTimer := false, flushCompletion := false, clearRequested := false,
    capacityBlocked := false, stopped := false, generation := 0, localChangesArmed := false, postClearGuardUntil := 0,
    flushes := [], clears := [], drawn := 0, elementCount := 0, saveStatus := .synced, pendingCount := 0, error := none,
    replays := 0 }

/-- What a run is judged by. -/
inductive Note
  /-- `handleEditorChange` has taken the revision -/
  | admitted (element : ElementData)
  | batched (entry : WhiteboardOutboxEntry)
  | appendRequested (id : String) (baseSequence : Nat) (elements : List ElementData)
  | clearRequested (id : String)
  | acknowledged (entry : WhiteboardOutboxEntry)
  deriving DecidableEq, Repr

def visibleElementCount (scene : WhiteboardScene) : Nat := (scene.values.filter fun element => !element.isDeleted).length

/-! ### Timers and counters -/

def notifyPending (c : Client) : Client :=
  if c.stopped then c
  else { c with pendingCount := c.outbox.length + (if c.inFlight.isSome then 1 else 0) +
    (if 0 < c.pending.size then 1 else 0) }

def scheduleFlush (c : Client) : Client := if c.stopped then c else { c with flushTimer := true }

def cancelTimers (c : Client) : Client := { c with flushTimer := false, retryTimer := false }

/-! ### Batches -/

/-- The variables of `sealPending`. -/
structure Sealing where
  entries : List WhiteboardOutboxEntry
  elements : List ElementData
  bytes : Nat

section Batches

variable (encodedBytes : ElementData → Nat) (uuid : Nat → String) (now : Nat)

/-- The inner function `seal`. -/
def Sealing.seal (drawn baseSequence : Nat) (state : Sealing) : Sealing :=
  if state.elements.length = 0 then state
  else ⟨state.entries ++ [⟨uuid (drawn + state.entries.length), baseSequence, state.elements, now⟩], [], 0⟩

def Sealing.add (drawn baseSequence : Nat) (state : Sealing) (element : ElementData) : Sealing :=
  let size := encodedBytes element
  let state := if state.elements.length ≥ 50 ∨ state.bytes + size > 480000 then state.seal uuid now drawn baseSequence
    else state
  { state with elements := state.elements ++ [element], bytes := state.bytes + size }

/-- The batches of the pending elements. -/
def batches (c : Client) : List WhiteboardOutboxEntry :=
  let baseSequence := c.pendingBase.getD c.stream.latestSequence
  ((c.pending.values.foldl (Sealing.add encodedBytes uuid now c.drawn baseSequence) ⟨[], [], 0⟩).seal uuid now c.drawn
    baseSequence).entries

def sealPending (c : Client) : Client × List Note :=
  if c.pending.size = 0 then (c, [])
  else
    let entries := batches encodedBytes uuid now c
    (notifyPending { c with
      pending := OrderedMap.empty, pendingBase := none, outbox := c.outbox ++ entries, drawn := c.drawn + entries.length },
      entries.map .batched)

end Batches

/-! ### Sending -/

def flushPending (c : Client) : Client :=
  if c.stopped || c.clearRequested || c.capacityBlocked || c.flushCompletion then c
  else
    match c.outbox with
    | [] => c
    | batch :: outbox =>
      let c := notifyPending { c with outbox := outbox, inFlight := some batch }
      { c with saveStatus := .syncing, flushCompletion := true, flushes := c.flushes ++ [⟨batch, c.generation, .storing⟩] }

/-- The call at `index` of `flushes` comes to the next stage. -/
def atStage (c : Client) (index : Nat) (stage : FlushStage) : Client :=
  { c with flushes := c.flushes.modify index fun flush => { flush with stage := stage } }

/-- The `finally` of `sendBatch`. -/
def endSend (c : Client) (index : Nat) : Client := atStage { c with inFlight := none } index .ended

/-! ### Operations of the server -/

section Operations

variable (now : Nat)

def handleAuthoritativeClear (c : Client) (clearedElements currentElements : List ElementData) : Client :=
  let c := notifyPending { cancelTimers c with
    generation := c.generation + 1, capacityBlocked := false, localChangesArmed := false,
    postClearGuardUntil := now + 1000, pending := OrderedMap.empty, pendingBase := none, outbox := [], inFlight := none }
  { c with
    revisions := noteRevisions OrderedMap.empty currentElements,
    clearedRevisions := noteRevisions OrderedMap.empty clearedElements,
    saveStatus := .synced }

/-- Accepted elements are no cleared ones any more. -/
def forget (clearedRevisions : Revisions) (elements : List ElementData) : Revisions :=
  elements.foldl (fun cleared element => cleared.erase element.id) clearedRevisions

/-- The editor shows the new scene until the next frame without reporting it. -/
def applyRemoteOperation (c : Client) (operation : WhiteboardOperation) : Client :=
  let previousElements := c.stream.scene.values
  let next := applyWhiteboardOperation c.stream.scene operation
  let c := { c with stream := { c.stream with scene := next }, elementCount := visibleElementCount next }
  let c := match operation.kind with
    | .sceneUpdate =>
      { c with
        revisions := noteRevisions c.revisions operation.elements,
        clearedRevisions := forget c.clearedRevisions operation.elements }
    | .boardClear => handleAuthoritativeClear now c previousElements []
  { c with applyingRemote := true }

def acceptOperations (c : Client) (operations : List WhiteboardOperation) : Client :=
  let ordered := orderWhiteboardOperations c.stream.latestSequence c.stream.queued operations
  ordered.ready.foldl (applyRemoteOperation now)
    { c with stream := ⟨c.stream.scene, ordered.latestSequence, ordered.queued⟩ }

end Operations

/-! ### Events -/

/-- The filter of `handleEditorChange`, which forgets a cleared revision that the editor has moved on from. -/
def supportedElements (clearedRevisions : Revisions) (elements : List EditorElement) : Revisions × List ElementData :=
  elements.foldl
    (fun state element =>
      match element with
      | .other => state
      | .allowed element =>
        match state.1.get? element.id with
        | none => (state.1, state.2 ++ [element])
        | some cleared =>
          if cleared = elementRevision element then state else (state.1.erase element.id, state.2 ++ [element]))
    (clearedRevisions, [])

inductive Event
  | editorChange (elements : List EditorElement)
  | armLocalChanges
  | frame
  | receive (operations : List WhiteboardOperation)
  | flushTimer
  | retryTimer
  | checkpoint
  | saved (saved : Bool)
  /-- The wait of the call at `index` for `storageWrite` ends. -/
  | stored (index : Nat)
  | reply (index : Nat) (result : Except Reason WhiteboardOperation)
  /-- `flushPending` goes on behind its `await`. -/
  | resume (index : Nat)
  | clearBoard
  /-- The wait of `clearBoard` for the running flush ends. -/
  | clearSend (index : Nat)
  | clearReply (index : Nat) (result : Except Reason WhiteboardOperation)
  | start
  | dispose

section Events

variable (encodedBytes : ElementData → Nat) (uuid : Nat → String) (now : Nat)

def handleEditorChange (c : Client) (elements : List EditorElement) : Client × List Note :=
  if c.stopped || c.clearRequested || c.applyingRemote || !c.localChangesArmed || decide (now < c.postClearGuardUntil) then
    (c, [])
  else
    let (clearedRevisions, supported) := supportedElements c.clearedRevisions elements
    let c := { c with clearedRevisions := clearedRevisions }
    let changed := changedElements supported c.revisions
    if changed.length = 0 then (c, [])
    else
      let scene := changed.foldl (fun scene element => scene.set element.id element) c.stream.scene
      let c := notifyPending { c with
        revisions := noteRevisions c.revisions changed,
        pendingBase := some (c.pendingBase.getD c.stream.latestSequence),
        pending := changed.foldl (fun pending element => pending.set element.id element) c.pending,
        stream := { c.stream with scene := scene } }
      (scheduleFlush { c with
        elementCount := visibleElementCount c.stream.scene,
        saveStatus := if c.capacityBlocked then .error else .unsynced }, changed.map .admitted)

/-- The callback of the flush timer. -/
def flushTimerFires (c : Client) : Client × List Note :=
  let (c, notes) := sealPending encodedBytes uuid now { c with flushTimer := false }
  (if c.retryTimer then c else flushPending c, notes)

def sendStored (c : Client) (index : Nat) (flush : Flush) : Client × List Note :=
  if flush.generation ≠ c.generation ∨ c.stopped then (endSend c index, [])
  else
    (atStage c index .requested, [.appendRequested flush.batch.id flush.batch.baseSequence flush.batch.elements])

/-- `payload.elements`, which a clear does not have. -/
def payloadElements (operation : WhiteboardOperation) : Option (List ElementData) :=
  match operation.kind with
  | .sceneUpdate => some operation.elements
  | .boardClear => none

def sendAccepted (c : Client) (index : Nat) (flush : Flush) (operation : WhiteboardOperation) : Client × List Note :=
  if flush.generation ≠ c.generation ∨ c.stopped then (endSend c index, [.acknowledged flush.batch])
  else
    let c := acceptOperations now c [operation]
    let revisions := noteRevisions c.revisions ((payloadElements operation).getD flush.batch.elements)
    -- newer revisions that are not sent yet are not to be sent twice
    let revisions := c.outbox.foldl (fun revisions entry => noteRevisions revisions entry.elements) revisions
    let c := { c with
      revisions := noteRevisions revisions c.pending.values,
      error := none,
      saveStatus := if 0 < c.outbox.length ∨ 0 < c.pending.size then .unsynced else .synced }
    (endSend c index, [.acknowledged flush.batch])

def capacityMessage (storageAvailable : Bool) : String :=
  "This board reached its capacity. " ++
    (if storageAvailable then "Unsynced changes are retained on this device. "
    else "Browser recovery storage is unavailable; keep this tab open. ") ++ "Clear the board to start a new scene."

def retryMessage (storageAvailable : Bool) (text : String) : String :=
  text ++ (if storageAvailable then " Changes are retained on this device and will retry."
    else " Browser recovery storage is unavailable. Keep this tab open while changes retry.")

/-- The `catch` of `sendBatch`. -/
def sendRefused (c : Client) (flush : Flush) (reason : Reason) : Client :=
  if flush.generation ≠ c.generation then c
  else
    match reason.code with
    | .staleWhiteboardGeneration =>
      let c := { c with pending := OrderedMap.empty, pendingBase := none, outbox := [] }
      if c.stopped then c
      else
        { c with
          saveStatus := .error,
          error := some "This board was cleared elsewhere. Local unsynced changes were not applied.",
          replays := c.replays + 1 }
    | .whiteboardCapacityExceeded =>
      let c := { c with outbox := flush.batch :: c.outbox, capacityBlocked := true }
      if c.stopped then c else { c with saveStatus := .error, error := some (capacityMessage c.storageAvailable) }
    | .other =>
      let c := { c with outbox := flush.batch :: c.outbox }
      if c.stopped then c
      else
        { c with
          saveStatus := .error, error := some (retryMessage c.storageAvailable reason.text), retryTimer := true }

/-- `flushPending` behind its `await`. -/
def flushResumes (c : Client) (index : Nat) : Client :=
  let c := { c with flushes := c.flushes.eraseIdx index, flushCompletion := false }
  if c.stopped then c
  else
    let c := notifyPending c
    if !c.clearRequested && !c.capacityBlocked && decide (0 < c.outbox.length) && !c.retryTimer then scheduleFlush c else c

def clearBoard (c : Client) : Client × List Note :=
  if c.clearRequested then (c, [])
  else
    let c := cancelTimers { c with clearRequested := true, saveStatus := .syncing }
    let (c, notes) := sealPending encodedBytes uuid now c
    ({ c with clears := c.clears ++ [.flushing] }, notes)

/-- The `finally` of `clearBoard`. -/
def endClear (c : Client) (index : Nat) : Client :=
  let c := { c with clears := c.clears.eraseIdx index, clearRequested := false }
  if 0 < c.outbox.length then scheduleFlush c else c

def clearAccepted (c : Client) (clearedElements : List ElementData) (operation : WhiteboardOperation) : Client :=
  let c := acceptOperations now c [operation]
  let c := { c with stream := { c.stream with scene := OrderedMap.empty }, elementCount := 0 }
  { handleAuthoritativeClear now c clearedElements [] with error := none }

def start (c : Client) : Client :=
  let c := notifyPending { c with stopped := false }
  if 0 < c.outbox.length then scheduleFlush { c with saveStatus := .unsynced } else c

/-- One turn; `none` if nothing waits for the event. -/
def step (c : Client) : Event → Option (Client × List Note)
  | .editorChange elements => some (handleEditorChange now c elements)
  | .armLocalChanges => some ({ c with localChangesArmed := true }, [])
  | .frame => some ({ c with applyingRemote := false }, [])
  | .receive operations => some (acceptOperations now c operations, [])
  | .flushTimer => if c.flushTimer then some (flushTimerFires encodedBytes uuid now c) else none
  | .retryTimer => if c.retryTimer then some (flushPending { c with retryTimer := false }, []) else none
  | .checkpoint => some (sealPending encodedBytes uuid now c)
  | .saved saved => some ({ c with storageAvailable := saved }, [])
  | .stored index =>
    match c.flushes[index]? with
    | some ⟨batch, generation, .storing⟩ => some (sendStored c index ⟨batch, generation, .storing⟩)
    | _ => none
  | .reply index result =>
    match c.flushes[index]? with
    | some ⟨batch, generation, .requested⟩ =>
      match result with
      | .ok operation => some (sendAccepted now c index ⟨batch, generation, .requested⟩ operation)
      | .error reason => some (endSend (sendRefused c ⟨batch, generation, .requested⟩ reason) index, [])
    | _ => none
  | .resume index =>
    match c.flushes[index]? with
    | some ⟨_, _, .ended⟩ => some (flushResumes c index, [])
    | _ => none
  | .clearBoard => some (clearBoard encodedBytes uuid now c)
  | .clearSend index =>
    match c.clears[index]? with
    | some .flushing =>
      if c.flushes.all fun flush => flush.stage = .ended then
        some ({ c with clears := c.clears.set index (.requested c.stream.scene.values), drawn := c.drawn + 1 },
          [.clearRequested (uuid c.drawn)])
      else none
    | _ => none
  | .clearReply index result =>
    match c.clears[index]? with
    | some (.requested clearedElements) =>
      match result with
      | .ok operation => some (endClear (clearAccepted now c clearedElements operation) index, [])
      | .error reason => some (endClear { c with saveStatus := .error, error := some reason.text } index, [])
    | _ => none
  | .start => some (start c, [])
  | .dispose =>
    some (sealPending encodedBytes uuid now (cancelTimers { c with stopped := true }))

end Events

/-- Turns one after the other, with the time of each. -/
def run (encodedBytes : ElementData → Nat) (uuid : Nat → String) : Client → List (Event × Nat) → Option (Client × List Note)
  | c, [] => some (c, [])
  | c, (event, now) :: events =>
    match step encodedBytes uuid now c event with
    | none => none
    | some (c', notes) =>
      match run encodedBytes uuid c' events with
      | none => none
      | some (final, later) => some (final, notes ++ later)

/-- The requests that wait for a reply. -/
def Client.requests (c : Client) : Nat :=
  (c.flushes.filter fun flush => flush.stage = .requested).length +
    (c.clears.filter fun stage => stage ≠ .flushing).length

end Persistence

end KComms.Whiteboards
