import Mathlib.Data.List.Basic

/-!
# Sessions with a trace

A session talks to an environment of which nothing is known: every answer comes with the next state of the environment,
and what was asked and answered stays in the trace, whether the session fails or not.  `Ensures` says what every trace of
a session has together with its result; `Ensures.bind` takes a sequence of steps apart.
-/

/-- A program over an environment with states `σ`, whose exchanges are `ξ`. -/
def Session (σ ξ ε α : Type) : Type := σ → Except ε α × List ξ × σ

namespace Session

variable {σ ξ ε α β : Type}

def fail (reason : ε) : Session σ ξ ε α := fun s => (.error reason, [], s)

/-- A question that leaves no trace. -/
def ask (answer : σ → α × σ) : Session σ ξ ε α := fun s => (.ok (answer s).1, [], (answer s).2)

/-- A question that does. -/
def exchange (answer : σ → ξ × σ) : Session σ ξ ε ξ := fun s => (.ok (answer s).1, [(answer s).1], (answer s).2)

/-- A question of which the trace keeps a record. -/
def call (answer : σ → α × σ) (record : α → ξ) : Session σ ξ ε α :=
  fun s => (.ok (answer s).1, [record (answer s).1], (answer s).2)

def ofExcept (result : Except ε α) : Session σ ξ ε α := fun s => (result, [], s)

instance : Monad (Session σ ξ ε) where
  pure a := fun s => (.ok a, [], s)
  bind x f := fun s =>
    match x s with
    | (.error reason, trace, s) => (.error reason, trace, s)
    | (.ok a, trace, s) =>
      let (result, rest, s) := f a s
      (result, trace ++ rest, s)

def result (x : Session σ ξ ε α) (s : σ) : Except ε α := (x s).1

def trace (x : Session σ ξ ε α) (s : σ) : List ξ := (x s).2.1

/-- Every run has a trace and a result of this kind. -/
def Ensures (x : Session σ ξ ε α) (P : List ξ → Except ε α → Prop) : Prop := ∀ s, P (x.trace s) (x.result s)

variable {P : List ξ → Except ε α → Prop} {x : Session σ ξ ε α} {f : α → Session σ ξ ε β}
  {R : List ξ → Except ε β → Prop}

theorem ensures_pure {a : α} (h : P [] (.ok a)) :
    (pure a : Session σ ξ ε α).Ensures P := fun _ => h

theorem ensures_fail {reason : ε} (h : P [] (.error reason)) :
    (fail reason : Session σ ξ ε α).Ensures P := fun _ => h

theorem ensures_ofExcept {result : Except ε α} (h : P [] result) :
    (ofExcept result : Session σ ξ ε α).Ensures P := fun _ => h

theorem ensures_ask {answer : σ → α × σ} (h : ∀ a, P [] (.ok a)) :
    (ask answer : Session σ ξ ε α).Ensures P := fun s => h (answer s).1

theorem ensures_exchange {P : List ξ → Except ε ξ → Prop} {answer : σ → ξ × σ} (h : ∀ s, P [(answer s).1] (.ok (answer s).1)) :
    (exchange answer : Session σ ξ ε ξ).Ensures P := h

theorem ensures_ite {c : Prop} [Decidable c] {y : Session σ ξ ε α} (hx : c → x.Ensures P)
    (hy : ¬ c → y.Ensures P) : (if c then x else y).Ensures P := by
  split
  · rename_i h
    exact hx h
  · rename_i h
    exact hy h

theorem Ensures.mono {Q : List ξ → Except ε α → Prop} (h : x.Ensures P)
    (hPQ : ∀ trace result, P trace result → Q trace result) : x.Ensures Q := fun s => hPQ _ _ (h s)

/-- What holds of the first step and of the second one after it. -/
theorem Ensures.bind (hx : x.Ensures P) (herror : ∀ trace reason, P trace (.error reason) → R trace (.error reason))
    (hok : ∀ trace a, P trace (.ok a) → (f a).Ensures fun rest result => R (trace ++ rest) result) :
    (x >>= f).Ensures R := by
  intro s
  have hfirst := hx s
  unfold Session.trace Session.result at hfirst ⊢
  show R (match x s with
    | (.error reason, trace, s) => ((.error reason, trace, s) : Except ε β × List ξ × σ)
    | (.ok a, trace, s) =>
      let (result, rest, s) := f a s
      (result, trace ++ rest, s)).2.1 (match x s with
    | (.error reason, trace, s) => ((.error reason, trace, s) : Except ε β × List ξ × σ)
    | (.ok a, trace, s) =>
      let (result, rest, s) := f a s
      (result, trace ++ rest, s)).1
  rcases hrun : x s with ⟨_ | a, trace, s'⟩
  · rw [hrun] at hfirst
    exact herror _ _ hfirst
  · rw [hrun] at hfirst
    exact hok trace a hfirst s'

theorem Ensures.bind_call {answer : σ → α × σ} {record : α → ξ}
    (h : ∀ a, (f a).Ensures fun rest result => R (record a :: rest) result) : (call answer record >>= f).Ensures R :=
  fun s => h (answer s).1 (answer s).2

/-- One run of a sequence of steps. -/
theorem bind_of_ok {s s' : σ} {a : α} {trace : List ξ} (hx : x s = (.ok a, trace, s')) :
    (x >>= f) s = ((f a s').1, trace ++ (f a s').2.1, (f a s').2.2) := by
  show (match x s with
    | (.error reason, trace, s) => ((.error reason, trace, s) : Except ε β × List ξ × σ)
    | (.ok a, trace, s) =>
      let (result, rest, s) := f a s
      (result, trace ++ rest, s)) = _
  rw [hx]

theorem bind_of_silent {s s' : σ} {a : α} (hx : x s = (.ok a, [], s')) : (x >>= f) s = f a s' := by
  rw [bind_of_ok hx]
  rfl

/-- A first step without a trace. -/
theorem Ensures.bind_silent {P : Except ε α → Prop} (hx : x.Ensures fun trace result => trace = [] ∧ P result)
    (herror : ∀ reason, P (.error reason) → R [] (.error reason)) (hok : ∀ a, P (.ok a) → (f a).Ensures R) :
    (x >>= f).Ensures R := by
  refine hx.bind ?_ ?_
  · rintro trace reason ⟨rfl, h⟩
    exact herror reason h
  · rintro trace a ⟨rfl, h⟩
    exact hok a h

end Session
