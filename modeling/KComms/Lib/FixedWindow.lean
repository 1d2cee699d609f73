import Mathlib.Algebra.Ring.Nat
import Mathlib.Algebra.Order.Group.Nat
import Mathlib.Algebra.BigOperators.Group.List.Basic
import Mathlib.Data.List.Induction
import Mathlib.Tactic.Common

/-!
# Counting in fixed windows

The cost of the entries of a log that satisfy a condition (`total`), the bound on what is admitted while a counter runs
that also counts what is refused (`total_admitted_le`), and how many windows of a fixed length an interval of time meets
(`div_eq_or_succ`).
-/

namespace KComms.FixedWindow

variable {α : Type*} (cost : α → Nat)

/-- The cost of the entries that satisfy a condition. -/
def total (p : α → Bool) (l : List α) : Nat := ((l.filter p).map cost).sum

theorem total_append (p : α → Bool) (l l' : List α) : total cost p (l ++ l') = total cost p l + total cost p l' := by
  unfold total
  rw [List.filter_append, List.map_append, List.sum_append]

theorem total_singleton (p : α → Bool) (a : α) : total cost p [a] = if p a then cost a else 0 := by
  unfold total
  by_cases h : p a
  · simp [h]
  · simp [h]

theorem total_snoc (p : α → Bool) (l : List α) (a : α) :
    total cost p (l ++ [a]) = total cost p l + if p a then cost a else 0 := by
  rw [total_append, total_singleton]

/-- A condition that holds more often costs more. -/
theorem total_mono {p q : α → Bool} {l : List α} (h : ∀ a ∈ l, p a → q a) : total cost p l ≤ total cost q l := by
  induction l with
  | nil => exact le_refl _
  | cons a l ih =>
    have hrest := ih (fun b hb => h b (by simp [hb]))
    have ha := h a (by simp)
    rw [← List.singleton_append, total_append, total_append, total_singleton, total_singleton]
    by_cases hp : p a
    · rw [if_pos hp, if_pos (ha hp)]
      omega
    · rw [if_neg hp]
      omega

theorem total_or_le (p q : α → Bool) (l : List α) :
    total cost (fun a => p a || q a) l ≤ total cost p l + total cost q l := by
  induction l with
  | nil => exact le_refl _
  | cons a l ih =>
    rw [← List.singleton_append, total_append, total_append, total_append, total_singleton, total_singleton,
      total_singleton]
    cases p a <;> cases q a <;> simp <;> omega

theorem total_eq_zero {p : α → Bool} {l : List α} (h : ∀ a ∈ l, p a = false) : total cost p l = 0 := by
  unfold total
  rw [List.filter_eq_nil_iff.2 (fun a ha => by rw [h a ha]; simp)]
  rfl

/-- Only the entries of a condition that is implied matter. -/
theorem total_filter {p q : α → Bool} (l : List α) (h : ∀ a, p a → q a) : total cost p (l.filter q) = total cost p l := by
  unfold total
  rw [List.filter_filter]
  congr 2
  apply List.filter_congr
  intro a _
  by_cases hp : p a
  · rw [hp, h a hp]
    rfl
  · simp [hp]

/-- If every admitted entry leaves the counter at most at the limit, so much is admitted at most. -/
theorem total_admitted_le {p admitted : α → Bool} {limit : Nat} {l : List α}
    (h : ∀ before a after, l = before ++ a :: after → p a → admitted a → total cost p before + cost a ≤ limit) :
    total cost (fun a => p a && admitted a) l ≤ limit := by
  induction l using List.reverseRecOn with
  | nil => exact Nat.zero_le _
  | append_singleton l a ih =>
    have hrest := ih (fun before b after heq => h before b (after ++ [a]) (by rw [heq]; simp))
    rw [total_snoc]
    by_cases hboth : (p a && admitted a) = true
    · rw [if_pos hboth]
      rw [Bool.and_eq_true] at hboth
      have hlast := h l a [] rfl hboth.1 hboth.2
      have hmono := total_mono cost (l := l) (p := fun a => p a && admitted a) (q := p)
        (fun b _ hb => by rw [Bool.and_eq_true] at hb; exact hb.1)
      omega
    · rw [if_neg hboth]
      omega

/-- An interval that is no longer than a window meets at most two windows. -/
theorem div_eq_or_succ {w a t : Nat} (hw : 0 < w) (hle : a ≤ t) (hlt : t ≤ a + w) : t / w = a / w ∨ t / w = a / w + 1 := by
  have hlower : a / w ≤ t / w := Nat.div_le_div_right hle
  have hupper : t / w ≤ (a + w) / w := Nat.div_le_div_right hlt
  rw [Nat.add_div_right a hw] at hupper
  omega

end KComms.FixedWindow
