import KComms.Lib.CommandRuns

/-!
# Transactions under one row lock

Processes run transactions on the same rows.  A transaction waits for the lock, reads the rows when it has it, and
writes when it commits; it may also roll back, or be lost with its process.  In every interleaving the rows are what the
committed transactions make of them one after the other (`serial_run`).
-/

namespace KComms

/-- The rows as they are committed, the transaction that has the lock with the rows that it read, and the transactions
that are committed, the oldest one first. -/
structure RowLock (Process Command Data : Type) where
  data : Data
  holder : Option (Process × Command × Data)
  committed : List Command

inductive LockAction (Process Command : Type)
  | lock (process : Process) (command : Command)
  | finish (process : Process)
  | crash (process : Process)
  deriving DecidableEq, Repr

namespace RowLock

variable {Process Command Data : Type} [DecidableEq Process]

/-- The rows after a transaction that ran to its end; a rollback leaves them. -/
def accept (execute : Command → Data → Option Data) (data : Data) (command : Command) : Data :=
  (execute command data).getD data

/-- The transaction commits. -/
def Accepts (execute : Command → Data → Option Data) (data : Data) (command : Command) : Prop :=
  (execute command data).isSome = true

def start (data : Data) : RowLock Process Command Data := ⟨data, none, []⟩

def next (execute : Command → Data → Option Data) (state : RowLock Process Command Data) :
    LockAction Process Command → RowLock Process Command Data
  | .lock process command =>
    match state.holder with
    | some _ => state
    | none => { state with holder := some (process, command, state.data) }
  | .finish process =>
    match state.holder with
    | some (holder, command, rows) =>
      if holder = process then
        match execute command rows with
        | some written => ⟨written, none, state.committed ++ [command]⟩
        | none => { state with holder := none }
      else state
    | none => state
  | .crash process =>
    match state.holder with
    | some (holder, _, _) => if holder = process then { state with holder := none } else state
    | none => state

variable {execute : Command → Data → Option Data} {state : RowLock Process Command Data} {first : Data}

omit [DecidableEq Process] in
theorem accept_eq {command : Command} {data written : Data} (h : execute command data = some written) :
    accept execute data command = written := by
  unfold accept
  rw [h, Option.getD_some]

/-- The holder of the lock has read what is still committed. -/
def Held (state : RowLock Process Command Data) : Prop :=
  ∀ process command rows, state.holder = some (process, command, rows) → rows = state.data

/-- An action commits the transaction of the holder on the rows as they are, or it leaves the rows. -/
theorem next_cases (h : state.Held) (action : LockAction Process Command) :
    (∃ command written, execute command state.data = some written ∧ (state.next execute action).data = written ∧
      (state.next execute action).committed = state.committed ++ [command] ∧
      (state.next execute action).holder = none) ∨
    (state.next execute action).data = state.data ∧ (state.next execute action).committed = state.committed ∧
      ((state.next execute action).holder = state.holder ∨ (state.next execute action).holder = none ∨
        ∃ process command, (state.next execute action).holder = some (process, command, state.data)) := by
  obtain ⟨data, holder, committed⟩ := state
  cases holder with
  | none =>
    right
    cases action with
    | lock process command => exact ⟨rfl, rfl, .inr (.inr ⟨process, command, rfl⟩)⟩
    | finish process => exact ⟨rfl, rfl, .inl rfl⟩
    | crash process => exact ⟨rfl, rfl, .inl rfl⟩
  | some held =>
    obtain ⟨holder, command, rows⟩ := held
    have hrows : rows = data := h holder command rows rfl
    subst hrows
    cases action with
    | lock process command => exact .inr ⟨rfl, rfl, .inl rfl⟩
    | finish process =>
      unfold next
      dsimp only
      split
      · split
        · rename_i written hwritten
          exact .inl ⟨command, written, hwritten, rfl, rfl, rfl⟩
        · exact .inr ⟨rfl, rfl, .inr (.inl rfl)⟩
      · exact .inr ⟨rfl, rfl, .inl rfl⟩
    | crash process =>
      unfold next
      dsimp only
      split
      · exact .inr ⟨rfl, rfl, .inr (.inl rfl)⟩
      · exact .inr ⟨rfl, rfl, .inl rfl⟩

theorem held_next (h : state.Held) (action : LockAction Process Command) : (state.next execute action).Held := by
  intro process command rows hholder
  rcases next_cases h action with ⟨_, _, _, _, _, hnone⟩ | ⟨hdata, -, hsame | hnone | ⟨_, _, hnew⟩⟩
  · rw [hnone] at hholder
    cases hholder
  · rw [hdata]
    rw [hsame] at hholder
    exact h process command rows hholder
  · rw [hnone] at hholder
    cases hholder
  · rw [hdata]
    rw [hnew] at hholder
    cases hholder
    rfl

/-- The rows are what the committed transactions make of the first rows, one after the other. -/
structure Serial (execute : Command → Data → Option Data) (first : Data) (state : RowLock Process Command Data) :
    Prop where
  held : state.Held
  data : state.data = runCommands (accept execute) first state.committed
  accepted : Guarded (accept execute) (Accepts execute) first state.committed

theorem serial_next (h : Serial execute first state) (action : LockAction Process Command) :
    Serial execute first (state.next execute action) := by
  refine ⟨held_next h.held action, ?_, ?_⟩
  · rcases next_cases h.held action with ⟨command, written, hwritten, hdata, hcommitted, -⟩ | ⟨hdata, hcommitted, -⟩
    · rw [hdata, hcommitted, runCommands_append, ← h.data]
      exact (accept_eq hwritten).symm
    · rw [hdata, hcommitted]
      exact h.data
  · rcases next_cases h.held action with ⟨command, written, hwritten, hdata, hcommitted, -⟩ | ⟨hdata, hcommitted, -⟩
    · rw [hcommitted, Guarded.append, ← h.data]
      refine ⟨h.accepted, ?_, trivial⟩
      show (execute command state.data).isSome = true
      rw [hwritten, Option.isSome_some]
    · rw [hcommitted]
      exact h.accepted

/-- Every interleaving has the rows of the committed transactions, one after the other. -/
theorem serial_run (execute : Command → Data → Option Data) (first : Data)
    (actions : List (LockAction Process Command)) :
    Serial execute first (runCommands (next execute) (start first) actions) := by
  refine runCommands_kept (fun state action h => serial_next h action) ⟨?_, rfl, trivial⟩
  intro process command rows hholder
  cases hholder

/-- What every transaction that commits keeps goes on to hold of the rows. -/
theorem data_kept {Invariant : Data → Prop}
    (hstep : ∀ data command data', Invariant data → execute command data = some data' → Invariant data')
    (hheld : state.Held) (h : Invariant state.data) (actions : List (LockAction Process Command)) :
    Invariant (runCommands (next execute) state actions).data := by
  have hboth : ∀ state : RowLock Process Command Data, ∀ action, state.Held ∧ Invariant state.data →
      (state.next execute action).Held ∧ Invariant (state.next execute action).data := by
    rintro state action ⟨hheld, hdata⟩
    refine ⟨held_next hheld action, ?_⟩
    rcases next_cases hheld action with ⟨command, written, hwritten, hnext, -⟩ | ⟨hnext, -⟩
    · rw [hnext]
      exact hstep state.data command written hdata hwritten
    · rw [hnext]
      exact hdata
  have hrun : (runCommands (next execute) state actions).Held ∧
      Invariant (runCommands (next execute) state actions).data := runCommands_kept hboth ⟨hheld, h⟩
  exact hrun.2

end RowLock

end KComms
