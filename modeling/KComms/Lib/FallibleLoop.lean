import Mathlib.Init

/-!
# Loops that can fail

`List.foldlM` in `Except`: a loop that stops at the first round that fails.
-/

namespace FallibleLoop

variable {ε σ α : Type} {f : σ → α → Except ε σ}

theorem bind_ok {β : Type} {x : Except ε σ} {g : σ → Except ε β} {b : β} :
    (x >>= g) = .ok b ↔ ∃ s, x = .ok s ∧ g s = .ok b := by
  cases x with
  | error e => simp [bind, Except.bind]
  | ok s => simp [bind, Except.bind]

theorem bind_error {β : Type} {x : Except ε σ} {g : σ → Except ε β} {e : ε} :
    (x >>= g) = .error e ↔ x = .error e ∨ ∃ s, x = .ok s ∧ g s = .error e := by
  cases x with
  | error e' => simp [bind, Except.bind]
  | ok s => simp [bind, Except.bind]

theorem map_ok {β : Type} {x : Except ε σ} {g : σ → β} {b : β} : x.map g = .ok b ↔ ∃ s, x = .ok s ∧ g s = b := by
  cases x with
  | error e => simp [Except.map]
  | ok s => simp [Except.map]

/-- A loop that succeeds succeeds in its first round and from there on. -/
theorem foldlM_cons_ok {a : α} {l : List α} {s t : σ} :
    (a :: l).foldlM f s = .ok t ↔ ∃ u, f s a = .ok u ∧ l.foldlM f u = .ok t := by
  rw [List.foldlM_cons, bind_ok]

theorem foldlM_append_ok {l l' : List α} {s t : σ} :
    (l ++ l').foldlM f s = .ok t ↔ ∃ u, l.foldlM f s = .ok u ∧ l'.foldlM f u = .ok t := by
  rw [List.foldlM_append, bind_ok]

end FallibleLoop
