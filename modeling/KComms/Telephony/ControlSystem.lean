import KComms.Telephony.CallExclusive
import KComms.Telephony.Controls
import Mathlib.Logic.Function.Basic

/-!
# A call, its commands and the workers (`TelephonyControlWorker`)

Users and workers, any number of them, act on the commands of a call in any order, and all other transactions on the
call go on.  A transaction of a worker is two steps, before and after it has the locks.  A worker may stop at any time;
then its transaction is rolled back, and not what it has asked of the provider.
-/

namespace KComms.Telephony

open Attempt

/-- What the process of a worker knows: it has begun a transaction, or its claim has given it the request of a
command. -/
inductive ControlWorker
  | idle
  | claiming (start : WorkerStart)
  | requested (id : String) (reconcile : Bool)
  | binding (start : WorkerStart) (reconcile : Bool)
  | completing (start : WorkerStart) (reconcile : Bool)
  deriving DecidableEq, Repr

structure ControlSystem where
  rows : ControlRows
  receipts : List IvrEventReceipt
  workers : Nat → ControlWorker
  /-- The calls of `ProviderControlPort.execute_control`. -/
  executed : List ControlExecution

/-- What the second step of a transaction of a worker reads; `commits` is whether the commit gets through. -/
structure WorkerReads where
  control : ControlReads
  bindings : Bindings
  complete : CompleteReads
  commits : Bool

inductive ControlMove
  | lifecycle (command : CallCommand)
  | menu (work : IvrWork) (reads : IvrReads) (id hash : String)
  | request (grant : Grant) (asked : ControlAsk) (reads : ControlReads)
  | completeBrowser (grant : Grant) (id : String) (submitted : Bool) (now : Int)
  | reconcile (grant : Grant) (id : String) (reads : ControlReads)
  | queueVoicemail (id userId hash : String) (reads : ControlReads)
  | notice (now : Int)
  | claim (worker : Nat) (id : String) (authorized : Bool)
  | bind (worker : Nat) (authorized : Bool)
  | complete (worker : Nat) (authorized : Bool)
  | finish (worker : Nat) (reads : WorkerReads)
  | crash (worker : Nat)

/-! ### The menu -/

/-- The key of the command that `capture!` inserts. -/
def captureKey (record : CallRecord) : String := "ivr-voicemail:" ++ record.ivr.elim "" IvrRun.id

/-- A transaction of the menu of the call; `capture!` inserts the command of the voicemail as well. -/
def menuTransaction (fingerprint : String → String) (work : IvrWork) (reads : IvrReads) (id hash : String)
    (system : ControlSystem) : Option (ControlRows × List IvrEventReceipt) :=
  match system.rows.record.ivr with
  | none => none
  | some run =>
    match (work.transaction fingerprint reads ⟨system.rows.record.call, run, system.receipts⟩).outcome with
    | .error _ => none
    | .ok (rows, _) =>
      let record : CallRecord := { call := rows.call, ivr := some rows.run }
      if rows.call.routingStatus = .voicemail ∧ system.rows.record.call.routingStatus ≠ .voicemail then
        let command := systemVoicemailCommand id rows.call.userId (captureKey record) hash
          (min (reads.clock.stamped + seconds 60) system.rows.record.call.expiresAt)
        (insertCommand command system.rows.commands).map fun commands =>
          ({ record := record, commands := commands }, rows.receipts)
      else some ({ system.rows with record := record }, rows.receipts)

/-! ### The workers -/

/-- The first step of a transaction reads the command; the job stops if there is none. -/
def ControlSystem.snapshot (system : ControlSystem) (id : String) (authorized : Bool)
    (begun : WorkerStart → ControlWorker) : ControlWorker :=
  match findCommand id system.rows.commands with
  | none => .idle
  | some command => begun ⟨id, command.status, authorized⟩

/-- The transaction whose second step is next, with what the worker is then; it stops if the transaction rolls back. -/
def ControlWorker.transaction (reads : WorkerReads) (rows : ControlRows) :
    ControlWorker → ControlTransaction (ControlRows × ControlWorker)
  | .claiming start => do
    let (rows, result) ← workerTransaction start reads.control.now (claimControl reads.control) rows
    match result with
    | .request reconcile => pure (rows, .requested start.id reconcile)
    | _ => pure (rows, .idle)
  | .binding start reconcile => do
    let (rows, _) ← workerTransaction start reads.control.now (bindCommand reads.bindings) rows
    pure (rows, .requested start.id reconcile)
  | .completing start reconcile => do
    let (rows, _) ← workerTransaction start reads.complete.now (completeControl reconcile reads.complete) rows
    pure (rows, .idle)
  | _ => rollback ()

/-! ### Runs -/

def ControlSystem.start (record : CallRecord) : ControlSystem where
  rows := { record := record, commands := [] }
  receipts := []
  workers := fun _ => .idle
  executed := []

def ControlSystem.setWorker (system : ControlSystem) (worker : Nat) (next : ControlWorker) : ControlSystem :=
  { system with workers := Function.update system.workers worker next }

/-- A transaction that rolls back, or whose commit does not get through, ends the job; the next attempt claims
again. -/
def ControlSystem.finish (system : ControlSystem) (worker : Nat) (reads : WorkerReads) : ControlSystem :=
  let attempt := (system.workers worker).transaction reads system.rows
  let executed := system.executed ++ attempt.effects
  match attempt.outcome with
  | .ok (rows, next) =>
    if reads.commits then { system.setWorker worker next with rows := rows, executed := executed }
    else { system.setWorker worker .idle with executed := executed }
  | .error _ => { system.setWorker worker .idle with executed := executed }

def ControlSystem.commit (system : ControlSystem) (rows : Option ControlRows) : ControlSystem :=
  { system with rows := rows.getD system.rows }

def ControlSystem.step (fingerprint : String → String) (system : ControlSystem) : ControlMove → ControlSystem
  | .lifecycle command => system.commit ((command.apply system.rows.record).map fun record =>
      { system.rows with record := record })
  | .menu work reads id hash =>
    match menuTransaction fingerprint work reads id hash system with
    | some (rows, receipts) => { system with rows := rows, receipts := receipts }
    | none => system
  | .request grant asked reads => system.commit (requestControl grant asked reads system.rows)
  | .completeBrowser grant id submitted now => system.commit (completeBrowser grant id submitted now system.rows)
  | .reconcile grant id reads => system.commit (reconcileControl grant id reads system.rows)
  | .queueVoicemail id userId hash reads => system.commit (queueVoicemailCommand id userId hash reads system.rows)
  | .notice now => system.commit (noticeCompleted now system.rows)
  | .claim worker id authorized =>
    match system.workers worker with
    | .idle => system.setWorker worker (system.snapshot id authorized .claiming)
    | _ => system
  | .bind worker authorized =>
    match system.workers worker with
    | .requested id reconcile =>
      system.setWorker worker (system.snapshot id authorized (.binding · reconcile))
    | _ => system
  | .complete worker authorized =>
    match system.workers worker with
    | .requested id reconcile =>
      system.setWorker worker (system.snapshot id authorized (.completing · reconcile))
    | _ => system
  | .finish worker reads => system.finish worker reads
  | .crash worker => system.setWorker worker .idle

def ControlSystem.run (fingerprint : String → String) (system : ControlSystem) (moves : List ControlMove) :
    ControlSystem :=
  moves.foldl (ControlSystem.step fingerprint) system

end KComms.Telephony
