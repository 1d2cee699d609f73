import Mathlib.Data.List.Induction

/-!
# Runs of commands

A system takes one command after the other (`next`), and a command that is refused leaves the state as it is.  An
invariant that every guarded command keeps holds after every guarded run.
-/

namespace KComms

variable {State Command : Type}

/-- The state after the commands. -/
def runCommands (next : State → Command → State) (start : State) (commands : List Command) : State :=
  commands.foldl next start

/-- Each command meets the guard in the state in which it is executed. -/
def Guarded (next : State → Command → State) (guard : State → Command → Prop) : State → List Command → Prop
  | _, [] => True
  | state, command :: commands => guard state command ∧ Guarded next guard (next state command) commands

def Guarded.decide (next : State → Command → State) (guard : State → Command → Prop)
    [∀ state command, Decidable (guard state command)] :
    (start : State) → (commands : List Command) → Decidable (Guarded next guard start commands)
  | _, [] => .isTrue trivial
  | start, command :: commands =>
    have := Guarded.decide next guard (next start command) commands
    inferInstanceAs (Decidable (guard start command ∧ Guarded next guard (next start command) commands))

instance (next : State → Command → State) (guard : State → Command → Prop)
    [∀ state command, Decidable (guard state command)] (start : State) (commands : List Command) :
    Decidable (Guarded next guard start commands) :=
  Guarded.decide next guard start commands

variable {next : State → Command → State} {guard : State → Command → Prop} {start : State} {commands : List Command}

/-- What holds at the start, and every guarded command keeps, holds after every guarded run. -/
theorem runCommands_invariant {Invariant : State → Prop}
    (hstep : ∀ state command, Invariant state → guard state command → Invariant (next state command))
    (hstart : Invariant start) (hguard : Guarded next guard start commands) :
    Invariant (runCommands next start commands) := by
  induction commands generalizing start with
  | nil => exact hstart
  | cons command commands ih => exact ih (hstep start command hstart hguard.1) hguard.2

/-- What every command keeps holds after every run. -/
theorem runCommands_kept {Invariant : State → Prop}
    (hstep : ∀ state command, Invariant state → Invariant (next state command)) (hstart : Invariant start) :
    Invariant (runCommands next start commands) := by
  induction commands generalizing start with
  | nil => exact hstart
  | cons command commands ih => exact ih (hstep start command hstart)

theorem runCommands_append {more : List Command} :
    runCommands next start (commands ++ more) = runCommands next (runCommands next start commands) more :=
  List.foldl_append

/-- A guarded run is guarded up to each of its commands. -/
theorem Guarded.append {more : List Command} : Guarded next guard start (commands ++ more) ↔
    Guarded next guard start commands ∧ Guarded next guard (runCommands next start commands) more := by
  induction commands generalizing start with
  | nil => simp [Guarded, runCommands]
  | cons command commands ih =>
    rw [List.cons_append, Guarded, Guarded, ih, and_assoc]
    rfl

/-- A run that is not guarded has a first command that does not meet the guard. -/
theorem exists_first_unguarded (h : ¬ Guarded next guard start commands) :
    ∃ before command after, before ++ command :: after = commands ∧ Guarded next guard start before ∧
      ¬ guard (runCommands next start before) command := by
  induction commands using List.reverseRecOn with
  | nil => exact absurd trivial h
  | append_singleton history command ih =>
    by_cases hhistory : Guarded next guard start history
    · refine ⟨history, command, [], rfl, hhistory, fun hcommand => h ?_⟩
      exact Guarded.append.mpr ⟨hhistory, hcommand, trivial⟩
    · obtain ⟨before, first, after, rfl, hbefore, hfirst⟩ := ih hhistory
      exact ⟨before, first, after ++ [command], by simp, hbefore, hfirst⟩

end KComms
