import Mathlib.Data.List.Induction

/-!
# A ledger of proofs that are good once

A verifier takes codes of numbered steps, in rising order, and codes of an issued set, each once; after a number of
rejections in a row it holds back for a time.  `ProofBook` is what a ledger of its answers says about the next one
(`ProofBook.Admits`), and a ledger is `Legal` if each answer was admitted.  Of a legal ledger: the steps rise
(`Legal.steps_rise`), a redeemed code was issued and has not been taken back (`Legal.redeemed_issued`), and nothing is
accepted in a hold (`Legal.held`).
-/

namespace KComms

variable {Code : Type}

inductive ProofEvent (Code : Type)
  | enrolled
  | removed
  | issued (codes : List Code)
  | counted (step checked : Int)
  | redeemed (code : Code) (checked : Int)
  | rejected (decided : Int)

/-- How many rejections in a row make a hold, and how long it is. -/
structure ProofRules where
  limit : Nat
  hold : Int

/-- The steps that were counted, the codes that are left, the rejections in a row, and the ends of the holds. -/
structure ProofBook (Code : Type) where
  steps : List Int
  codes : List Code
  streak : Nat
  holds : List Int

namespace ProofBook

def empty : ProofBook Code := ⟨[], [], 0, []⟩

def record [DecidableEq Code] (rules : ProofRules) (book : ProofBook Code) : ProofEvent Code → ProofBook Code
  | .enrolled => empty
  | .removed => { book with codes := [] }
  | .issued codes => { book with codes := codes }
  | .counted step _ => { book with steps := step :: book.steps, streak := 0 }
  | .redeemed code _ => { book with codes := book.codes.filter (· ≠ code), streak := 0 }
  | .rejected decided =>
    if rules.limit ≤ book.streak + 1 then { book with streak := 0, holds := (decided + rules.hold) :: book.holds }
    else { book with streak := book.streak + 1 }

/-- No hold goes on. -/
def Open (book : ProofBook Code) (checked : Int) : Prop := ∀ ending ∈ book.holds, ending ≤ checked

def Admits (book : ProofBook Code) : ProofEvent Code → Prop
  | .counted step checked => (∀ earlier ∈ book.steps, earlier < step) ∧ book.Open checked
  | .redeemed code checked => code ∈ book.codes ∧ book.Open checked
  | _ => True

def ofLedger [DecidableEq Code] (rules : ProofRules) (ledger : List (ProofEvent Code)) : ProofBook Code :=
  ledger.foldl (record rules) empty

end ProofBook

def Legal [DecidableEq Code] (rules : ProofRules) (ledger : List (ProofEvent Code)) : Prop :=
  ∀ before event after, ledger = before ++ event :: after → (ProofBook.ofLedger rules before).Admits event

section

variable [DecidableEq Code] {rules : ProofRules} {before between after ledger : List (ProofEvent Code)}
  {event : ProofEvent Code}

theorem ofLedger_concat : ProofBook.ofLedger rules (ledger ++ [event]) =
    (ProofBook.ofLedger rules ledger).record rules event := by
  unfold ProofBook.ofLedger
  rw [List.foldl_append]
  rfl

theorem Legal.nil : Legal rules ([] : List (ProofEvent Code)) := by
  intro before event after h
  exact absurd h.symm (List.append_ne_nil_of_right_ne_nil _ (List.cons_ne_nil _ _))

theorem Legal.concat (h : Legal rules ledger) (hevent : (ProofBook.ofLedger rules ledger).Admits event) :
    Legal rules (ledger ++ [event]) := by
  intro before other after hsplit
  rcases List.eq_nil_or_concat after with rfl | ⟨rest, last, rfl⟩
  · obtain ⟨rfl, hlast⟩ := List.append_inj' hsplit rfl
    cases hlast
    exact hevent
  · rw [List.concat_eq_append, ← List.cons_append, ← List.append_assoc] at hsplit
    obtain ⟨rfl, -⟩ := List.append_inj' hsplit rfl
    exact h before other rest rfl

/-! ### What a book keeps until the next enrolment -/

private theorem kept_of_not_enrolled (P : ProofBook Code → Prop)
    (hrecord : ∀ book event, event ≠ .enrolled → P book → P (ProofBook.record rules book event))
    (h : P (ProofBook.ofLedger rules before)) (hbetween : .enrolled ∉ between) :
    P (ProofBook.ofLedger rules (before ++ between)) := by
  induction between using List.reverseRecOn with
  | nil =>
    rw [List.append_nil]
    exact h
  | append_singleton between event ih =>
    rw [List.mem_append, List.mem_singleton, not_or] at hbetween
    rw [← List.append_assoc, ofLedger_concat]
    exact hrecord _ _ (Ne.symm hbetween.2) (ih hbetween.1)

private theorem record_steps {book : ProofBook Code} {step : Int} (hevent : event ≠ .enrolled)
    (h : step ∈ book.steps) : step ∈ (book.record rules event).steps := by
  cases event with
  | enrolled => exact absurd rfl hevent
  | removed => exact h
  | issued codes => exact h
  | counted other checked => exact List.mem_cons_of_mem _ h
  | redeemed code checked => exact h
  | rejected decided =>
    unfold ProofBook.record
    dsimp only
    split <;> exact h

private theorem record_holds {book : ProofBook Code} {ending : Int} (hevent : event ≠ .enrolled)
    (h : ending ∈ book.holds) : ending ∈ (book.record rules event).holds := by
  cases event with
  | enrolled => exact absurd rfl hevent
  | removed => exact h
  | issued codes => exact h
  | counted other checked => exact h
  | redeemed code checked => exact h
  | rejected decided =>
    unfold ProofBook.record
    dsimp only
    split
    · exact List.mem_cons_of_mem _ h
    · exact h

/-- Between two enrolments the steps rise. -/
theorem Legal.steps_rise (h : Legal rules ledger) {first second checked checked' : Int}
    (hsplit : ledger = before ++ .counted first checked :: (between ++ .counted second checked' :: after))
    (hbetween : .enrolled ∉ between) : first < second := by
  have hadmits : (ProofBook.ofLedger rules (before ++ [.counted first checked] ++ between)).Admits
      (.counted second checked') := by
    refine h _ _ after ?_
    rw [hsplit, List.append_assoc, List.append_assoc, List.singleton_append]
  have hkept : first ∈ (ProofBook.ofLedger rules (before ++ [.counted first checked] ++ between)).steps := by
    refine kept_of_not_enrolled (fun book => first ∈ book.steps) (fun _ _ => record_steps) ?_ hbetween
    rw [ofLedger_concat]
    exact List.mem_cons_self
  exact hadmits.1 first hkept

/-- After the rejection that makes a hold, nothing is accepted for the time of the hold. -/
theorem Legal.held (h : Legal rules ledger) {decided checked : Int}
    (hsplit : ledger = before ++ .rejected decided :: (between ++ event :: after))
    (hlast : rules.limit ≤ (ProofBook.ofLedger rules before).streak + 1)
    (hevent : (∃ step, event = .counted step checked) ∨ ∃ code, event = .redeemed code checked)
    (hbetween : .enrolled ∉ between) : decided + rules.hold ≤ checked := by
  have hadmits : (ProofBook.ofLedger rules (before ++ [.rejected decided] ++ between)).Admits event := by
    refine h _ _ after ?_
    rw [hsplit, List.append_assoc, List.append_assoc, List.singleton_append]
  have hopen : (ProofBook.ofLedger rules (before ++ [.rejected decided] ++ between)).Open checked := by
    rcases hevent with ⟨step, rfl⟩ | ⟨code, rfl⟩
    · exact hadmits.2
    · exact hadmits.2
  have hkept : decided + rules.hold ∈
      (ProofBook.ofLedger rules (before ++ [.rejected decided] ++ between)).holds := by
    refine kept_of_not_enrolled (fun book => decided + rules.hold ∈ book.holds) (fun _ _ => record_holds) ?_
      hbetween
    rw [ofLedger_concat]
    unfold ProofBook.record
    dsimp only
    rw [if_pos hlast]
    exact List.mem_cons_self
  exact hopen _ hkept

/-! ### Codes -/

/-- The event leaves the code where it is: it neither replaces nor drops the codes, nor takes this one. -/
def ProofEvent.LeavesCode (code : Code) : ProofEvent Code → Prop
  | .enrolled | .removed | .issued _ => False
  | .redeemed other _ => other ≠ code
  | .counted _ _ | .rejected _ => True

/-- A code that is left was issued, and nothing has touched it since. -/
theorem issued_of_mem_codes {code : Code} (h : code ∈ (ProofBook.ofLedger rules ledger).codes) :
    ∃ before codes since, ledger = before ++ .issued codes :: since ∧ code ∈ codes ∧
      ∀ event ∈ since, ProofEvent.LeavesCode code event := by
  induction ledger using List.reverseRecOn with
  | nil => cases h
  | append_singleton ledger event ih =>
    rw [ofLedger_concat] at h
    have hlater (hmem : code ∈ (ProofBook.ofLedger rules ledger).codes) (hleaves : event.LeavesCode code) :
        ∃ before codes since, ledger ++ [event] = before ++ .issued codes :: since ∧ code ∈ codes ∧
          ∀ event ∈ since, ProofEvent.LeavesCode code event := by
      obtain ⟨before, codes, since, rfl, hcodes, hsince⟩ := ih hmem
      refine ⟨before, codes, since ++ [event], ?_, hcodes, ?_⟩
      · rw [List.append_assoc, List.cons_append]
      · intro other hother
        rw [List.mem_append, List.mem_singleton] at hother
        rcases hother with hother | rfl
        · exact hsince other hother
        · exact hleaves
    cases event with
    | enrolled => cases h
    | removed => cases h
    | issued codes => exact ⟨ledger, codes, [], rfl, h, List.forall_mem_nil _⟩
    | counted step checked => exact hlater h trivial
    | redeemed other checked =>
      have hfilter : code ∈ (ProofBook.ofLedger rules ledger).codes.filter (· ≠ other) := h
      rw [List.mem_filter, decide_eq_true_eq] at hfilter
      exact hlater hfilter.1 (Ne.symm hfilter.2)
    | rejected decided =>
      refine hlater ?_ trivial
      unfold ProofBook.record at h
      dsimp only at h
      split at h <;> exact h

theorem Legal.redeemed_issued (h : Legal rules ledger) {code : Code} {checked : Int}
    (hsplit : ledger = before ++ .redeemed code checked :: after) :
    ∃ earlier codes since, before = earlier ++ .issued codes :: since ∧ code ∈ codes ∧
      ∀ event ∈ since, ProofEvent.LeavesCode code event :=
  issued_of_mem_codes (h before _ after hsplit).1

end

end KComms
