import KComms.Telephony.CallChange
import KComms.Telephony.IvrCommit
import Mathlib.Logic.Function.Basic

/-!
# One IVR run, its call and the workers (`TelephonyIvrWorker`)

Any number of workers advance the run, and events of the provider come in, in any order.  A worker keeps a claim that
its job got, between the transactions that issue, consume and execute it; it may stop at any time, and the claim is
lost.  The other transactions on the call go on as well.
-/

namespace KComms.Telephony

open Attempt

/-- What the process of a worker knows between two transactions: nothing, a claim, or a claim that it has consumed.
The number is the `remaining` of `finish`. -/
inductive Worker
  | idle
  | holding (claim : IvrEffectClaim) (remaining : Nat)
  | consumed (claim : IvrEffectClaim) (remaining : Nat)
  deriving DecidableEq, Repr

structure IvrSystem where
  rows : IvrRows
  workers : Nat → Worker
  calls : List ProviderCall

inductive IvrMove
  | webhook (event : IvrEvent) (reads : IvrReads)
  | work (worker : Nat) (reads : IvrReads)
  | crash (worker : Nat)
  | lifecycle (command : CallCommand)
  | foreignReceipt (receipt : IvrEventReceipt)

/-! ### The worker -/

def Worker.transaction (fingerprint : String → String) (reads : IvrReads) (rows : IvrRows) : Worker → IvrTransaction
  | .idle => advance fingerprint reads rows
  | .holding claim _ => consumeClaim fingerprint claim reads rows
  | .consumed claim _ => forwardClaim fingerprint claim reads rows

/-- `finish`: a claim is executed at once, at most twice in one job. -/
def finishJob (outcome : Except IvrError (IvrRows × IvrResult)) (remaining : Nat) : Worker :=
  match outcome with
  | .ok (_, .effect claim) => if 0 < remaining then .holding claim remaining else .idle
  | _ => .idle

def Worker.next (outcome : Except IvrError (IvrRows × IvrResult)) : Worker → Worker
  | .idle => finishJob outcome 2
  | .holding claim remaining =>
    match outcome with
    | .ok (_, .consumed) => .consumed claim remaining
    | _ => .idle
  | .consumed _ remaining => finishJob outcome (remaining - 1)

/-! ### Runs -/

def IvrSystem.start (call : Call) (id : String) (snapshot : Snapshot) (insertedAt : Int)
    (receipts : List IvrEventReceipt) : IvrSystem where
  rows := { call := call, run := reserve call id snapshot insertedAt, receipts := receipts }
  workers := fun _ => .idle
  calls := []

/-- A rollback leaves the rows, and not the calls of the provider. -/
def IvrSystem.settle (system : IvrSystem) (attempt : IvrTransaction) : IvrSystem :=
  { system with
    rows :=
      match attempt.outcome with
      | .ok (rows, _) => rows
      | .error _ => system.rows
    calls := system.calls ++ attempt.effects }

def IvrSystem.step (fingerprint : String → String) (system : IvrSystem) : IvrMove → IvrSystem
  | .webhook event reads => system.settle (eventTransaction event reads system.rows)
  | .work worker reads =>
    let attempt := (system.workers worker).transaction fingerprint reads system.rows
    { system.settle attempt with
      workers := Function.update system.workers worker ((system.workers worker).next attempt.outcome) }
  | .crash worker => { system with workers := Function.update system.workers worker .idle }
  | .lifecycle command =>
    match command.apply { call := system.rows.call, ivr := some system.rows.run } with
    | some record =>
      { system with rows := { system.rows with call := record.call, run := record.ivr.getD system.rows.run } }
    | none => system
  | .foreignReceipt receipt =>
    if receipt.runId = system.rows.run.id ∨ system.rows.receipts.any (·.eventId = receipt.eventId) then system
    else { system with rows := { system.rows with receipts := receipt :: system.rows.receipts } }

def IvrSystem.run (fingerprint : String → String) (system : IvrSystem) (moves : List IvrMove) : IvrSystem :=
  moves.foldl (IvrSystem.step fingerprint) system

/-- The transaction of the move rolls back. -/
def IvrSystem.RollsBack (fingerprint : String → String) (system : IvrSystem) : IvrMove → Prop
  | .webhook event reads => (eventTransaction event reads system.rows).RollsBack
  | .work worker reads => ((system.workers worker).transaction fingerprint reads system.rows).RollsBack
  | .lifecycle command => command.apply { call := system.rows.call, ivr := some system.rows.run } = none
  | _ => False

/-! ### What a move does to the run and its call -/

section

variable {fingerprint : String → String} {system : IvrSystem}

theorem Worker.transaction_commits {reads : IvrReads} {rows rows' : IvrRows} {result : IvrResult} {worker : Worker}
    (h : (worker.transaction fingerprint reads rows).Commits (rows', result)) :
    IvrCommit .job reads rows.call rows.run rows'.call rows'.run := by
  cases worker with
  | idle => exact advance_commits h
  | holding claim remaining => exact consumeClaim_commits h
  | consumed claim remaining => exact forwardClaim_commits h

theorem IvrSystem.settle_commits {attempt : IvrTransaction} {rows : IvrRows} {result : IvrResult}
    (h : attempt.Commits (rows, result)) : (system.settle attempt).rows = rows := by
  unfold Commits at h
  simp [settle, h]

theorem IvrSystem.settle_rollsBack (system : IvrSystem) {attempt : IvrTransaction} (h : attempt.RollsBack) :
    (system.settle attempt).rows = system.rows := by
  obtain ⟨reason, h⟩ := h
  simp [settle, h]

/-- The run and the call before and after a move. -/
inductive RowsChange (fingerprint : String → String) (system system' : IvrSystem) : IvrMove → Prop
  | kept {move} (call : system'.rows.call = system.rows.call) (run : system'.rows.run = system.rows.run) :
    RowsChange fingerprint system system' move
  | handled {event reads}
    (commit : IvrCommit (.event event) reads system.rows.call system.rows.run system'.rows.call system'.rows.run) :
    RowsChange fingerprint system system' (.webhook event reads)
  | worked {worker reads}
    (commit : IvrCommit .job reads system.rows.call system.rows.run system'.rows.call system'.rows.run) :
    RowsChange fingerprint system system' (.work worker reads)
  | changed {command : CallCommand} {ivr : Option IvrRun}
    (change : CallChange command.free system.rows.call.core (some system.rows.run) system'.rows.call.core ivr)
    (run : system'.rows.run = ivr.getD system.rows.run) : RowsChange fingerprint system system' (.lifecycle command)

theorem IvrSystem.step_rows (fingerprint : String → String) (system : IvrSystem) (move : IvrMove) :
    RowsChange fingerprint system (system.step fingerprint move) move := by
  cases move with
  | webhook event reads =>
    rcases commits_or_rollsBack (eventTransaction event reads system.rows) with ⟨⟨rows, result⟩, h⟩ | h
    · refine .handled ?_
      simp only [step, settle_commits h]
      exact eventTransaction_commits h
    · have hrows := system.settle_rollsBack h
      exact .kept (congrArg IvrRows.call hrows) (congrArg IvrRows.run hrows)
  | work worker reads =>
    rcases commits_or_rollsBack ((system.workers worker).transaction fingerprint reads system.rows) with
      ⟨⟨rows, result⟩, h⟩ | h
    · refine .worked ?_
      simp only [step, settle_commits h]
      exact Worker.transaction_commits h
    · have hrows := system.settle_rollsBack h
      exact .kept (congrArg IvrRows.call hrows) (congrArg IvrRows.run hrows)
  | crash worker => exact .kept rfl rfl
  | lifecycle command =>
    simp only [step]
    split
    · rename_i record h
      exact .changed (apply_changes h) rfl
    · exact .kept rfl rfl
  | foreignReceipt receipt =>
    simp only [step]
    split <;> exact .kept rfl rfl

end

end KComms.Telephony
