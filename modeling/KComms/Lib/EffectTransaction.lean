import Mathlib.Data.List.Basic

/-!
# Transactions with outside effects

A transaction may call another system before it commits.  A rollback undoes what the transaction wrote, and not what
it called: `Attempt` keeps both apart.  `commits_bind` and `mem_effects_bind` take a sequence of steps apart.
-/

namespace KComms

/-- One attempt of a transaction: the effects that it issued, in order, and what it commits, or why it rolls back. -/
structure Attempt (Effect Reason α : Type) where
  effects : List Effect
  outcome : Except Reason α

namespace Attempt

variable {Effect Reason α β : Type}

def rollback (reason : Reason) : Attempt Effect Reason α := ⟨[], .error reason⟩

/-- Issues an effect, for this answer. -/
def issue (effect : Effect) (answer : α) : Attempt Effect Reason α := ⟨[effect], .ok answer⟩

def check (condition : Bool) (reason : Reason) : Attempt Effect Reason Unit :=
  if condition then ⟨[], .ok ()⟩ else rollback reason

def ofExcept (outcome : Except Reason α) : Attempt Effect Reason α := ⟨[], outcome⟩

instance : Monad (Attempt Effect Reason) where
  pure a := ⟨[], .ok a⟩
  bind x f :=
    match x.outcome with
    | .ok a => ⟨x.effects ++ (f a).effects, (f a).outcome⟩
    | .error reason => ⟨x.effects, .error reason⟩

/-- The attempt as a part of one with other reasons to roll back. -/
def mapReason {Reason' : Type} (f : Reason → Reason') (x : Attempt Effect Reason α) : Attempt Effect Reason' α :=
  ⟨x.effects, x.outcome.mapError f⟩

def Commits (x : Attempt Effect Reason α) (a : α) : Prop := x.outcome = .ok a

def RollsBack (x : Attempt Effect Reason α) : Prop := ∃ reason, x.outcome = .error reason

variable {x : Attempt Effect Reason α} {f : α → Attempt Effect Reason β} {effect : Effect} {condition : Bool}

/-! ### What commits -/

@[simp] theorem commits_pure (a b : α) : (pure a : Attempt Effect Reason α).Commits b ↔ a = b := by
  constructor
  · intro h
    exact Except.ok.inj h
  · rintro rfl
    rfl

@[simp] theorem commits_rollback (reason : Reason) (a : α) :
    ¬ (rollback reason : Attempt Effect Reason α).Commits a := by
  intro h
  cases h

@[simp] theorem commits_issue (effect : Effect) (a b : α) :
    (issue effect a : Attempt Effect Reason α).Commits b ↔ a = b := by
  constructor
  · intro h
    exact Except.ok.inj h
  · rintro rfl
    rfl

@[simp] theorem commits_check (condition : Bool) (reason : Reason) (a : Unit) :
    (check condition reason : Attempt Effect Reason Unit).Commits a ↔ condition = true := by
  cases condition with
  | false => simp [check]
  | true => simp [check, Commits]

@[simp] theorem commits_ofExcept (outcome : Except Reason α) (a : α) :
    (ofExcept outcome : Attempt Effect Reason α).Commits a ↔ outcome = .ok a := Iff.rfl

@[simp] theorem commits_bind (x : Attempt Effect Reason α) (f : α → Attempt Effect Reason β) (b : β) :
    (x >>= f).Commits b ↔ ∃ a, x.Commits a ∧ (f a).Commits b := by
  obtain ⟨effects, outcome⟩ := x
  cases outcome with
  | error reason => simp [Commits, bind]
  | ok a => simp [Commits, bind]

@[simp] theorem commits_mapReason {Reason' : Type} (f : Reason → Reason') (x : Attempt Effect Reason α) (a : α) :
    (x.mapReason f).Commits a ↔ x.Commits a := by
  obtain ⟨effects, outcome⟩ := x
  cases outcome with
  | error reason => simp [Commits, mapReason, Except.mapError]
  | ok b => simp [Commits, mapReason, Except.mapError]

theorem toOption_eq_some {a : α} : x.outcome.toOption = some a ↔ x.Commits a := by
  unfold Commits
  cases x.outcome with
  | error reason => simp [Except.toOption]
  | ok b => simp [Except.toOption]

theorem Commits.unique {a b : α} (ha : x.Commits a) (hb : x.Commits b) : a = b :=
  Except.ok.inj (ha.symm.trans hb)

theorem commits_or_rollsBack (x : Attempt Effect Reason α) : (∃ a, x.Commits a) ∨ x.RollsBack := by
  obtain ⟨effects, outcome⟩ := x
  cases outcome with
  | error reason => exact .inr ⟨reason, rfl⟩
  | ok a => exact .inl ⟨a, rfl⟩

/-- Whatever commits has the property. -/
def Ensures (P : α → Prop) (x : Attempt Effect Reason α) : Prop := ∀ a, x.Commits a → P a

section

variable {P : α → Prop} {Q : β → Prop}

@[simp] theorem ensures_pure {a : α} : Ensures P (pure a : Attempt Effect Reason α) ↔ P a := by
  simp [Ensures]

@[simp] theorem ensures_rollback (reason : Reason) : Ensures P (rollback reason : Attempt Effect Reason α) := by
  simp [Ensures]

@[simp] theorem ensures_bind :
    Ensures Q (x >>= f) ↔ Ensures (fun a => Ensures Q (f a)) x := by
  simp only [Ensures, commits_bind]
  constructor
  · intro h a ha b hb
    exact h b ⟨a, ha, hb⟩
  · rintro h b ⟨a, ha, hb⟩
    exact h a ha b hb

/-- What holds in any case. -/
theorem Ensures.of_forall (h : ∀ a, P a) : Ensures P x := fun a _ => h a

end

/-! ### What is issued -/

@[simp] theorem effects_issue (effect : Effect) (a : α) :
    (issue effect a : Attempt Effect Reason α).effects = [effect] := rfl

@[simp] theorem effects_check (condition : Bool) (reason : Reason) :
    (check condition reason : Attempt Effect Reason Unit).effects = [] := by
  cases condition <;> rfl

/-- An effect of two steps is one of the first, or one of the second, which is reached. -/
@[simp] theorem effects_pure (a : α) : (pure a : Attempt Effect Reason α).effects = [] := rfl

@[simp] theorem effects_rollback (reason : Reason) : (rollback reason : Attempt Effect Reason α).effects = [] := rfl

@[simp] theorem effects_ofExcept (outcome : Except Reason α) :
    (ofExcept outcome : Attempt Effect Reason α).effects = [] := rfl

theorem mem_effects_bind :
    effect ∈ (x >>= f).effects ↔ effect ∈ x.effects ∨ ∃ a, x.Commits a ∧ effect ∈ (f a).effects := by
  obtain ⟨effects, outcome⟩ := x
  cases outcome with
  | error reason => simp [Commits, bind]
  | ok a => simp [Commits, bind]

/-- A step that is not reached issues nothing. -/
theorem effects_bind (x : Attempt Effect Reason α) (f : α → Attempt Effect Reason β) :
    (∃ a, x.Commits a ∧ (x >>= f).effects = x.effects ++ (f a).effects) ∨ (x >>= f).effects = x.effects := by
  obtain ⟨effects, outcome⟩ := x
  cases outcome with
  | error reason => exact .inr rfl
  | ok a => exact .inl ⟨a, rfl, rfl⟩

/-- A first step that issues nothing: what is issued is issued by the second one, from what the first one gives. -/
theorem effects_bind_quiet (f : α → Attempt Effect Reason β) (hx : x.effects = []) :
    (x >>= f).effects = [] ∨ ∃ a, x.Commits a ∧ (x >>= f).effects = (f a).effects := by
  rcases effects_bind x f with ⟨a, ha, h⟩ | h
  · right
    refine ⟨a, ha, ?_⟩
    rw [h, hx, List.nil_append]
  · left
    rw [h, hx]

theorem effects_bind_nil (hx : x.effects = []) (hf : ∀ a, (f a).effects = []) : (x >>= f).effects = [] := by
  rcases effects_bind_quiet f hx with h | ⟨a, -, h⟩
  · exact h
  · exact h.trans (hf a)

/-- A check issues nothing, and may stop the attempt. -/
theorem effects_check_bind {reason : Reason} {f : Unit → Attempt Effect Reason α} {effects : List Effect}
    (h : (f ()).effects = [] ∨ (f ()).effects = effects) :
    (check condition reason >>= f).effects = [] ∨ (check condition reason >>= f).effects = effects := by
  rcases effects_bind_quiet f (effects_check condition reason) with hnone | ⟨a, -, hsame⟩
  · exact .inl hnone
  · rw [hsame]
    exact h

/-- A second step that issues nothing. -/
theorem effects_bind_silent (hf : ∀ a, (f a).effects = []) : (x >>= f).effects = x.effects := by
  rcases effects_bind x f with ⟨a, -, h⟩ | h
  · rw [h, hf, List.append_nil]
  · exact h

/-- At most one effect is issued, and it is such an effect. -/
def Issues (P : Effect → Prop) (x : Attempt Effect Reason α) : Prop :=
  x.effects = [] ∨ ∃ effect, P effect ∧ x.effects = [effect]

variable {P : Effect → Prop}

theorem Issues.silent (h : x.effects = []) : Issues P x := .inl h

theorem Issues.bind (hx : x.effects = []) (hf : ∀ a, x.Commits a → Issues P (f a)) : Issues P (x >>= f) := by
  rcases effects_bind_quiet f hx with h | ⟨a, ha, h⟩
  · exact .silent h
  · unfold Issues
    rw [h]
    exact hf a ha

theorem Issues.issue (h : P effect) (answer : α)
    (hf : (f answer).effects = []) : Issues P (issue effect answer >>= f) := by
  right
  refine ⟨effect, h, ?_⟩
  show [effect] ++ (f answer).effects = [effect]
  rw [hf, List.append_nil]

theorem Issues.of_effects {y : Attempt Effect Reason β} (hy : Issues P y)
    (h : x.effects = [] ∨ x.effects = y.effects) : Issues P x := by
  rcases h with h | h
  · exact .silent h
  · unfold Issues
    rw [h]
    exact hy

/-- Every effect that is issued is such an effect. -/
def AllIssued (P : Effect → Prop) (x : Attempt Effect Reason α) : Prop := ∀ effect ∈ x.effects, P effect

@[simp] theorem allIssued_pure (a : α) : AllIssued P (pure a : Attempt Effect Reason α) := by
  simp [AllIssued]

@[simp] theorem allIssued_rollback (reason : Reason) : AllIssued P (rollback reason : Attempt Effect Reason α) := by
  simp [AllIssued]

@[simp] theorem allIssued_check (condition : Bool) (reason : Reason) :
    AllIssued P (check condition reason : Attempt Effect Reason Unit) := by
  simp [AllIssued]

@[simp] theorem allIssued_ofExcept (outcome : Except Reason α) :
    AllIssued P (ofExcept outcome : Attempt Effect Reason α) := by
  simp [AllIssued]

@[simp] theorem allIssued_issue (effect : Effect) (answer : α) :
    AllIssued P (issue effect answer : Attempt Effect Reason α) ↔ P effect := by
  simp [AllIssued]

theorem AllIssued.bind (hx : AllIssued P x) (hf : ∀ a, x.Commits a → AllIssued P (f a)) : AllIssued P (x >>= f) := by
  intro effect heffect
  rcases mem_effects_bind.mp heffect with heffect | ⟨a, ha, heffect⟩
  · exact hx effect heffect
  · exact hf a ha effect heffect

/-- A loop whose steps issue only such effects. -/
theorem AllIssued.foldlM {ι : Type} {step : α → ι → Attempt Effect Reason α}
    (h : ∀ a item, AllIssued P (step a item)) (items : List ι) (a : α) : AllIssued P (items.foldlM step a) := by
  induction items generalizing a with
  | nil => exact allIssued_pure a
  | cons item items ih =>
    rw [List.foldlM_cons]
    exact (h a item).bind fun b _ => ih b

/-- What every step of a loop keeps. -/
theorem commits_foldlM {ι : Type} {step : α → ι → Attempt Effect Reason α} {R : α → α → Prop} (hrefl : ∀ a, R a a)
    (htrans : ∀ a b c, R a b → R b c → R a c) (hstep : ∀ a item b, (step a item).Commits b → R a b) (items : List ι)
    {a b : α} (h : (items.foldlM step a).Commits b) : R a b := by
  induction items generalizing a with
  | nil =>
    rw [List.foldlM_nil, commits_pure] at h
    rw [h]
    exact hrefl b
  | cons item items ih =>
    rw [List.foldlM_cons, commits_bind] at h
    obtain ⟨c, hc, h⟩ := h
    exact htrans a c b (hstep a item c hc) (ih h)

/-! ### Effects and outcome together -/

/-- Commits this value, and has issued just these effects. -/
def Yields (x : Attempt Effect Reason α) (effects : List Effect) (a : α) : Prop :=
  x.effects = effects ∧ x.outcome = .ok a

/-- Rolls back, and has issued just these effects. -/
def Abandons (x : Attempt Effect Reason α) (effects : List Effect) : Prop :=
  x.effects = effects ∧ ∃ reason, x.outcome = .error reason

section

variable {effects : List Effect} {a b : α} {reason : Reason}

@[simp] theorem yields_pure : (pure a : Attempt Effect Reason α).Yields effects b ↔ effects = [] ∧ a = b := by
  constructor
  · rintro ⟨rfl, h⟩
    exact ⟨rfl, Except.ok.inj h⟩
  · rintro ⟨rfl, rfl⟩
    exact ⟨rfl, rfl⟩

@[simp] theorem yields_rollback : ¬ (rollback reason : Attempt Effect Reason α).Yields effects a := by
  rintro ⟨-, h⟩
  cases h

@[simp] theorem yields_issue :
    (issue effect a : Attempt Effect Reason α).Yields effects b ↔ effects = [effect] ∧ a = b := by
  constructor
  · rintro ⟨rfl, h⟩
    exact ⟨rfl, Except.ok.inj h⟩
  · rintro ⟨rfl, rfl⟩
    exact ⟨rfl, rfl⟩

@[simp] theorem yields_check {u : Unit} :
    (check condition reason : Attempt Effect Reason Unit).Yields effects u ↔ effects = [] ∧ condition = true := by
  cases condition with
  | false => simp [check, Yields, rollback]
  | true =>
    constructor
    · rintro ⟨rfl, -⟩
      exact ⟨rfl, rfl⟩
    · rintro ⟨rfl, -⟩
      exact ⟨rfl, rfl⟩

@[simp] theorem yields_bind {b : β} :
    (x >>= f).Yields effects b ↔
      ∃ a first second, x.Yields first a ∧ (f a).Yields second b ∧ effects = first ++ second := by
  obtain ⟨issued, outcome⟩ := x
  cases outcome with
  | error reason =>
    constructor
    · rintro ⟨-, h⟩
      cases h
    · rintro ⟨a, first, second, ⟨-, h⟩, -⟩
      cases h
  | ok a =>
    constructor
    · rintro ⟨rfl, h⟩
      exact ⟨a, issued, (f a).effects, ⟨rfl, rfl⟩, ⟨rfl, h⟩, rfl⟩
    · rintro ⟨a', first, second, ⟨rfl, ha⟩, ⟨rfl, h⟩, rfl⟩
      cases ha
      exact ⟨rfl, h⟩

@[simp] theorem abandons_pure : ¬ (pure a : Attempt Effect Reason α).Abandons effects := by
  rintro ⟨-, reason, h⟩
  cases h

@[simp] theorem abandons_issue : ¬ (issue effect a : Attempt Effect Reason α).Abandons effects := by
  rintro ⟨-, reason, h⟩
  cases h

@[simp] theorem abandons_check :
    (check condition reason : Attempt Effect Reason Unit).Abandons effects ↔ effects = [] ∧ condition = false := by
  cases condition with
  | false =>
    constructor
    · rintro ⟨rfl, -⟩
      exact ⟨rfl, rfl⟩
    · rintro ⟨rfl, -⟩
      exact ⟨rfl, reason, rfl⟩
  | true => simp [check, Abandons]

@[simp] theorem abandons_bind :
    (x >>= f).Abandons effects ↔
      x.Abandons effects ∨
        ∃ a first second, x.Yields first a ∧ (f a).Abandons second ∧ effects = first ++ second := by
  obtain ⟨issued, outcome⟩ := x
  cases outcome with
  | error reason =>
    constructor
    · rintro ⟨rfl, -⟩
      exact .inl ⟨rfl, reason, rfl⟩
    · rintro (⟨rfl, -⟩ | ⟨a, first, second, ⟨-, h⟩, -⟩)
      · exact ⟨rfl, reason, rfl⟩
      · cases h
  | ok a =>
    constructor
    · rintro ⟨rfl, reason, h⟩
      exact .inr ⟨a, issued, (f a).effects, ⟨rfl, rfl⟩, ⟨rfl, reason, h⟩, rfl⟩
    · rintro (⟨-, reason, h⟩ | ⟨a', first, second, ⟨rfl, ha⟩, ⟨rfl, h⟩, rfl⟩)
      · cases h
      · cases ha
        exact ⟨rfl, h⟩

theorem yields_or_abandons (x : Attempt Effect Reason α) :
    (∃ a, x.Yields x.effects a) ∨ x.Abandons x.effects := by
  cases houtcome : x.outcome with
  | error reason => exact .inr ⟨rfl, reason, houtcome⟩
  | ok a => exact .inl ⟨a, rfl, houtcome⟩

end

end Attempt

end KComms
