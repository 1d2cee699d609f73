import Mathlib.Data.List.Basic

/-!
# A register that keeps the last value

Events carry values, or none, to a register that each value overwrites.  The register never goes back with respect to
a preorder exactly when the values come in order (`neverBack_iff`).
-/

namespace LastValue

variable {ε α : Type} (value : ε → Option α)

/-- What the register holds after some events. -/
def after (initial : Option α) (events : List ε) : Option α :=
  events.foldl (fun register event => (value event).or register) initial

/-- A value that was held is followed only by values above it. -/
def NeverBack (r : α → α → Prop) (initial : Option α) (events : List ε) : Prop :=
  ∀ i j, i ≤ j → ∀ a, after value initial (events.take i) = some a →
    ∃ b, after value initial (events.take j) = some b ∧ r a b

/-- The values that come after another, the initial one included. -/
def InOrder (r : α → α → Prop) (initial : Option α) (events : List ε) : Prop :=
  (initial.toList ++ events.filterMap value).Pairwise r

variable {value} {r : α → α → Prop} {initial : Option α} {event : ε} {events : List ε}

theorem after_cons : after value initial (event :: events) = after value ((value event).or initial) events := rfl

theorem neverBack_nil (hrefl : ∀ a, r a a) : NeverBack value r initial [] := by
  intro i j _ a ha
  rw [List.take_nil] at ha ⊢
  exact ⟨a, ha, hrefl a⟩

theorem neverBack_cons (hrefl : ∀ a, r a a) : NeverBack value r initial (event :: events) ↔
    (∀ a, initial = some a → ∀ j, ∃ b, after value ((value event).or initial) (events.take j) = some b ∧ r a b) ∧
      NeverBack value r ((value event).or initial) events := by
  constructor
  · intro h
    constructor
    · intro a ha j
      have hj := h 0 (j + 1) (by omega) a ha
      rwa [List.take_succ_cons, after_cons] at hj
    · intro i j hij a ha
      have hj := h (i + 1) (j + 1) (by omega) a
      rw [List.take_succ_cons, after_cons, List.take_succ_cons, after_cons] at hj
      exact hj ha
  · rintro ⟨hinitial, hrest⟩ i j hij a ha
    match i, j with
    | 0, 0 => exact ⟨a, ha, hrefl a⟩
    | 0, j + 1 =>
      rw [List.take_succ_cons, after_cons]
      exact hinitial a ha j
    | i + 1, j + 1 =>
      rw [List.take_succ_cons, after_cons] at ha ⊢
      exact hrest i j (by omega) a ha

theorem neverBack_iff (hrefl : ∀ a, r a a) (htrans : ∀ a b c, r a b → r b c → r a c) :
    ∀ {initial : Option α}, NeverBack value r initial events ↔ InOrder value r initial events := by
  induction events with
  | nil =>
    intro initial
    refine iff_of_true (neverBack_nil hrefl) ?_
    cases initial <;> simp [InOrder]
  | cons event events ih =>
    intro initial
    rw [neverBack_cons hrefl, ih]
    unfold InOrder
    cases hvalue : value event with
    | none =>
      rw [List.filterMap_cons_none hvalue, Option.none_or]
      refine ⟨fun h => h.2, fun h => ⟨fun a ha j => ?_, h⟩⟩
      have hback : NeverBack value r initial events := ih.2 h
      exact hback 0 j (Nat.zero_le j) a ha
    | some b =>
      rw [List.filterMap_cons_some hvalue, Option.some_or]
      cases initial with
      | none =>
        refine ⟨fun h => h.2, fun h => ⟨fun a ha => ?_, h⟩⟩
        cases ha
      | some a =>
        show _ ∧ (b :: events.filterMap value).Pairwise r ↔ (a :: b :: events.filterMap value).Pairwise r
        rw [List.pairwise_cons (a := a)]
        constructor
        · rintro ⟨hinitial, hpairwise⟩
          obtain ⟨c, hc, hrac⟩ := hinitial a rfl 0
          obtain rfl : b = c := Option.some.inj hc
          refine ⟨fun c hc => ?_, hpairwise⟩
          rcases List.mem_cons.1 hc with rfl | hc
          · exact hrac
          · exact htrans a b c hrac ((List.pairwise_cons.1 hpairwise).1 c hc)
        · rintro ⟨hfirst, hpairwise⟩
          refine ⟨fun a' ha' j => ?_, hpairwise⟩
          obtain rfl : a = a' := Option.some.inj ha'
          have hback : NeverBack value r (some b) events := ih.2 hpairwise
          obtain ⟨c, hc, hrbc⟩ := hback 0 j (Nat.zero_le j) b rfl
          exact ⟨c, hc, htrans a b c (hfirst b (by simp)) hrbc⟩

end LastValue
