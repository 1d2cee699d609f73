import KComms.Documents.DocumentModel

/-!
# The client side of the edit protocol (`useSharedDocument.ts`)

The state of one run of the hook's effect, and what the hook does in one turn of the event loop: from an event up to
the next `await`.  A promise that is awaited inside the hook is kept as data: `sync` is the request that the running
synchronisation waits for, `waiting` are the calls of `accept` (and of the timer and of `connect`) that wait for the
synchronisation, `resumed` those whose turn has come, and `pump` is the place where the pump stands.  Events come in any
order, so also the resumptions do.

`connect` and the timers are seen through what they do to this state: they call `synchronize` (`Event.synchronize`),
report an established channel (`Event.connected`) or a lost one (`Event.closed`).
-/

namespace KComms.Documents.UseSharedDocument

open Model

/-! ### Failures -/

def errorStatus : DocumentError → Nat
  | .invalidDocumentOperation | .unknownDocumentAtom => 422
  | .documentCapacityExceeded | .staleDocumentGeneration | .staleVersion | .idempotencyConflict => 409
  | .documentLineageUnknown => 503
  | .notFound => 404
  | .documentErasureScopeExceeded => 500
  | .refused .forbidden => 403
  | .refused .legalHoldActive => 409
  | .refused .documentProtectionUnavailable => 503

/-- What a promise of the hook can be rejected with. -/
inductive Failure
  | response (error : DocumentError)
  | network
  | thrown (error : ModelError)
  | generationChanged
  | replayUnfinished
  deriving DecidableEq, Repr

def Failure.status : Failure → Option Nat
  | response error => some (errorStatus error)
  | _ => none

def accessLost (failure : Failure) : Bool :=
  failure.status == some 401 || failure.status == some 403 || failure.status == some 404 ||
    failure == .generationChanged || failure == .response .staleDocumentGeneration

/-! ### The state -/

structure Engine where
  snapshot : SharedDocument
  pending : List DocumentEdit
  deriving DecidableEq, Repr

/-- The calls that wait for the running synchronisation. -/
inductive Waiter
  | broadcast (operation : DocumentOperation)
  | pump (operation : DocumentOperation)
  | observer
  deriving DecidableEq, Repr

/-- The request that the running synchronisation waits for. -/
inductive SyncPhase
  | idle
  | getting
  | replaying (generation afterVersion pageIndex : Nat)
  deriving DecidableEq, Repr

/-- Where the pump stands: at the request, in `accept`, or behind it. -/
inductive PumpPhase
  | idle
  | applying (input : DocumentEdit)
  | accepting (input : DocumentEdit)
  | settled (input : DocumentEdit) (operation : DocumentOperation) (failure : Option Failure)
  deriving DecidableEq, Repr

structure Client where
  engine : Option Engine
  /-- `currentScope()` -/
  current : Bool
  /-- `statusRef.current === "live"` -/
  live : Bool
  conflicted : Bool
  sync : SyncPhase
  pump : PumpPhase
  waiting : List Waiter
  resumed : List (Waiter × Option Failure)
  deriving DecidableEq, Repr

def Client.initial : Client :=
  { engine := none, current := true, live := false, conflicted := false, sync := .idle, pump := .idle, waiting := [],
    resumed := [] }

inductive Request
  | get
  | replay (generation afterVersion : Nat)
  | apply (input : DocumentEdit)
  deriving DecidableEq, Repr

/-! ### Publishing -/

/-- The atoms of the snapshot with the pending edits on top. -/
def Engine.display (lc : Collation) (engine : Engine) : Except ModelError (List Atom) :=
  engine.pending.zipIdx.foldlM
    (fun atoms entry => optimisticApply lc atoms entry.1 (engine.snapshot.version + entry.2 + 1)) engine.snapshot.atoms

def Engine.publish (lc : Collation) (engine : Engine) : Except ModelError (List Atom × String) := do
  let atoms ← engine.display lc
  let content ← atomText lc atoms
  .ok (atoms, content)

/-- What a call of `publish` throws. -/
def Engine.publishFailure (lc : Collation) (engine : Engine) : Option Failure :=
  match engine.publish lc with
  | .ok _ => none
  | .error error => some (.thrown error)

/-! ### The functions of the effect -/

def unavailable (c : Client) : Client :=
  if c.current then { c with current := false, live := false, engine := none } else c

/-- `synchronize` and the call that waits for it. -/
def synchronize (c : Client) (waiter : Waiter) : Client × List Request :=
  let c := { c with waiting := c.waiting ++ [waiter] }
  match c.sync, c.engine with
  | .idle, none => ({ c with sync := .getting }, [.get])
  | .idle, some engine =>
    ({ c with sync := .replaying engine.snapshot.generation engine.snapshot.version 0 },
      [.replay engine.snapshot.generation engine.snapshot.version])
  | _, _ => (c, [])

/-- The promise of the synchronisation is settled. -/
def finishSync (c : Client) (failure : Option Failure) : Client :=
  { c with sync := .idle, waiting := [], resumed := c.resumed ++ c.waiting.map fun waiter => (waiter, failure) }

/-- `accept` from the point behind the wait. -/
def acceptRest (lc : Collation) (c : Client) (operation : DocumentOperation) : Client × Option Failure :=
  match c.current, c.engine with
  | true, some engine =>
    match committedApply lc engine.snapshot operation with
    | .error error => (c, some (.thrown error))
    | .ok snapshot =>
      let engine := { engine with snapshot := snapshot }
      ({ c with engine := some engine }, engine.publishFailure lc)
  | _, _ => (c, none)

/-- `accept`, up to its end or up to the wait for a synchronisation. -/
inductive Accepted
  | done (failure : Option Failure)
  | waits
  deriving DecidableEq, Repr

def accept (lc : Collation) (c : Client) (operation : DocumentOperation) (waiter : Waiter) :
    Client × List Request × Accepted :=
  match c.current, c.engine with
  | true, some engine =>
    if operation.generation ≠ engine.snapshot.generation then (unavailable c, [], .done none)
    else if operation.version > engine.snapshot.version + 1 then
      let (c, requests) := synchronize c waiter
      (c, requests, .waits)
    else
      let (c, failure) := acceptRest lc c operation
      (c, [], .done failure)
  | _, _ => (c, [], .done none)

/-- The `catch` of the realtime callback. -/
def broadcastFailed (c : Client) (failure : Failure) : Client := if accessLost failure then unavailable c else c

/-- The `catch` of `connect` and of the authority timer. -/
def observerFailed (c : Client) (failure : Failure) : Client :=
  if accessLost failure then unavailable c else if c.current then { c with live := false } else c

/-- The start of `pump`. -/
def startPump (c : Client) : Client × List Request :=
  match c.engine with
  | some ⟨_, input :: _⟩ =>
    if c.current ∧ c.pump = .idle ∧ c.live then ({ c with pump := .applying input }, [.apply input]) else (c, [])
  | _ => (c, [])

/-- The `finally` of `pump`. -/
def finishPump (c : Client) : Client × List Request := startPump { c with pump := .idle }

/-- The `catch` of `pump`. -/
def pumpFailed (c : Client) (failure : Failure) : Client :=
  if !c.current then c
  else if accessLost failure then unavailable c
  else if failure.status = some 400 ∨ failure.status = some 409 ∨ failure.status = some 422 then
    { c with conflicted := true, live := false }
  else { c with live := false }

/-- `pump` behind its `await accept(operation)`. -/
def settlePump (lc : Collation) (c : Client) (input : DocumentEdit) : Option Failure → Client × List Request
  | some failure => finishPump (pumpFailed c failure)
  | none =>
    match c.current, c.engine with
    | true, some engine =>
      let engine := { engine with
        pending := engine.pending.filter fun item => item.clientOperationId ≠ input.clientOperationId }
      let c := { c with engine := some engine }
      match engine.publishFailure lc with
      | some failure => finishPump (pumpFailed c failure)
      | none => finishPump c
    | _, _ => finishPump c

/-- Replay the operations of a page up to the first that throws. -/
def replayPage (lc : Collation) : SharedDocument → List DocumentOperation → SharedDocument × Option Failure
  | snapshot, [] => (snapshot, none)
  | snapshot, operation :: operations =>
    match committedApply lc snapshot operation with
    | .error error => (snapshot, some (.thrown error))
    | .ok snapshot => replayPage lc snapshot operations

/-- What a synchronisation is answered. -/
inductive SyncReply
  | document (document : SharedDocument)
  | page (page : OperationPage)
  | failed (failure : Failure)
  deriving DecidableEq, Repr

/-- The synchronisation behind its `await`; `late` says whether the deadline has passed. -/
def syncReplied (lc : Collation) (c : Client) (late : Bool) : SyncReply → Client × List Request
  | .failed failure => (finishSync c (some failure), [])
  | .document document =>
    match c.sync with
    | .getting =>
      if c.current then
        let engine : Engine := ⟨document, []⟩
        (finishSync { c with engine := some engine } (engine.publishFailure lc), [])
      else (finishSync c none, [])
    | _ => (c, [])
  | .page page =>
    match c.sync, c.current, c.engine with
    | .replaying _ _ pageIndex, true, some engine =>
      if page.generation ≠ engine.snapshot.generation then (finishSync c (some .generationChanged), [])
      else
        let (snapshot, failure) := replayPage lc engine.snapshot page.operations
        let engine := { engine with snapshot := snapshot }
        let c := { c with engine := some engine }
        match failure with
        | some failure => (finishSync c (some failure), [])
        | none =>
          if !page.hasMore then (finishSync c (engine.publishFailure lc), [])
          else if page.operations = [] ∨ late ∨ pageIndex = 39 then (finishSync c (some .replayUnfinished), [])
          else
            ({ c with sync := .replaying snapshot.generation snapshot.version (pageIndex + 1) },
              [.replay snapshot.generation snapshot.version])
    | .replaying .., _, _ => (finishSync c none, [])
    | _, _, _ => (c, [])

/-- A call that waited for the synchronisation goes on. -/
def resume (lc : Collation) (c : Client) : Waiter → Option Failure → Client
  | .observer, none => c
  | .observer, some failure => observerFailed c failure
  | .broadcast _, some failure => broadcastFailed c failure
  | .broadcast operation, none =>
    match acceptRest lc c operation with
    | (c, some failure) => broadcastFailed c failure
    | (c, none) => c
  | .pump operation, some failure =>
    match c.pump with
    | .accepting input => { c with pump := .settled input operation (some failure) }
    | _ => c
  | .pump operation, none =>
    match c.pump with
    | .accepting input =>
      let (c, failure) := acceptRest lc c operation
      { c with pump := .settled input operation failure }
    | _ => c

/-- The realtime callback `operation`. -/
def broadcast (lc : Collation) (c : Client) (operation : DocumentOperation) : Client × List Request :=
  match accept lc c operation (.broadcast operation) with
  | (c, requests, .done (some failure)) => (broadcastFailed c failure, requests)
  | (c, requests, _) => (c, requests)

/-- `pump` behind its request. -/
def applyReplied (lc : Collation) (c : Client) (reply : Except Failure DocumentOperation) : Client × List Request :=
  match c.pump, reply with
  | .applying _, .error failure => finishPump (pumpFailed c failure)
  | .applying input, .ok operation =>
    if !c.current then finishPump c
    else
      match accept lc c operation (.pump operation) with
      | (c, requests, .done failure) => ({ c with pump := .settled input operation failure }, requests)
      | (c, requests, .waits) => ({ c with pump := .accepting input }, requests)
  | _, _ => (c, [])

/-- `edit`, with the id that `crypto.randomUUID` draws. -/
def edit (lc : Collation) (c : Client) (id : String) (changes : List TextChange) : Client × List Request :=
  match c.current, c.engine with
  | true, some engine =>
    if engine.snapshot.readonly ∨ 100 ≤ engine.pending.length then (c, [])
    else
      let outcome : Except ModelError DocumentEdit := do
        let atoms ← engine.display lc
        let changes ← textChanges lc atoms changes
        let input : DocumentEdit := ⟨id, engine.snapshot.generation, engine.snapshot.version, changes⟩
        let _ ← optimisticApply lc atoms input (engine.snapshot.version + engine.pending.length + 1)
        .ok input
      match outcome with
      | .error _ => (c, [])
      | .ok input =>
        let engine := { engine with pending := engine.pending ++ [input] }
        let c := { c with engine := some engine }
        match engine.publishFailure lc with
        | some _ => (c, [])
        | none => startPump c
  | _, _ => (c, [])

/-! ### One turn of the event loop -/

inductive Event
  | synchronize
  | connected
  | closed
  | denied
  | left
  | broadcast (operation : DocumentOperation)
  | syncReplied (reply : SyncReply) (late : Bool)
  | applyReplied (reply : Except Failure DocumentOperation)
  | resumed (index : Nat)
  | pumpResumed
  | edit (id : String) (changes : List TextChange)

def handle (lc : Collation) (c : Client) : Event → Client × List Request
  | .synchronize => if c.current then synchronize c .observer else (c, [])
  | .connected =>
    if !c.current then (c, [])
    else if c.conflicted then ({ c with live := false }, [])
    else startPump { c with live := true }
  | .closed => ({ c with live := false }, [])
  | .denied => (unavailable c, [])
  | .left => ({ c with current := false, live := false, engine := none }, [])
  | .broadcast operation => broadcast lc c operation
  | .syncReplied reply late => syncReplied lc c late reply
  | .applyReplied reply => applyReplied lc c reply
  | .resumed index =>
    match c.resumed[index]? with
    | some (waiter, failure) => (resume lc { c with resumed := c.resumed.eraseIdx index } waiter failure, [])
    | none => (c, [])
  | .pumpResumed =>
    match c.pump with
    | .settled input _ failure => settlePump lc c input failure
    | _ => (c, [])
  | .edit id changes => edit lc c id changes

end KComms.Documents.UseSharedDocument
