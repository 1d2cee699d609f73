import KComms.Accounts.IdentityRuns
import KComms.Lib.OneTimeProofs

/-!
# Proofs over a run

The log of an identity is a ledger of proofs (`proofLedger`), and the row of the factor keeps its book: the last step,
the codes that are left, the rejections in a row and the lock (`BookKept`).  So the ledger of every run is legal.
-/

namespace KComms.Accounts

/-- Five rejections hold the factor back for five minutes. -/
def proofRules : ProofRules := ⟨maximumAttempts, seconds 300⟩

def IdentityEvent.proofEvent : IdentityEvent → Option (ProofEvent String)
  | .proved consult =>
    match consult.result with
    | .accepted (.totp step) => some (.counted step consult.checked)
    | .accepted (.recovery hash) => some (.redeemed hash consult.checked)
    | .rejected => some (.rejected consult.decided)
    | .rateLimited | .undecryptable => none
  | .enrolled => some .enrolled
  | .issued hashes => some (.issued hashes)
  | .removed => some .removed
  | _ => none

def proofLedger (log : List IdentityEvent) : List (ProofEvent String) := log.filterMap IdentityEvent.proofEvent

def proofBook (log : List IdentityEvent) : ProofBook String := ProofBook.ofLedger proofRules (proofLedger log)

/-- The factor keeps the book; a hold is over by now, or it is the lock of the factor. -/
structure BookKept (book : ProofBook String) (factor : MfaFactor) (clock : Int) : Prop where
  steps : ∀ step ∈ book.steps, step ≤ factor.lastUsedStep
  codes : ∀ hash ∈ factor.recoveryHashes, hash ∈ book.codes
  streak : factor.failedAttempts = book.streak
  holds : ∀ ending ∈ book.holds, ending ≤ clock ∨ factor.lockedUntil = some ending

structure LedgerKept (log : List IdentityEvent) (rows : IdentityRows) (clock : Int) : Prop where
  legal : Legal proofRules (proofLedger log)
  book : ∀ factor, rows.factor = some factor → BookKept (proofBook log) factor clock

variable {book : ProofBook String}

section

variable {crypto : IdentityCrypto} {hash : List UInt8 → String} {log : List IdentityEvent} {rows rows' : IdentityRows}
  {clock clock' : Int} {factor : MfaFactor} {event : IdentityEvent}

private theorem proofLedger_append_silent (log : List IdentityEvent) {added : List IdentityEvent}
    (h : ∀ event ∈ added, event.proofEvent = none) : proofLedger (log ++ added) = proofLedger log := by
  unfold proofLedger
  rw [List.filterMap_append, List.filterMap_eq_nil_iff.mpr h, List.append_nil]

private theorem silent_of_event (h : event.proofEvent = none) : ∀ other ∈ [event], other.proofEvent = none :=
  List.forall_mem_singleton.mpr h

private theorem proofLedger_concat {proof : ProofEvent String} (h : event.proofEvent = some proof) :
    proofLedger (log ++ [event]) = proofLedger log ++ [proof] := by
  unfold proofLedger
  rw [List.filterMap_append, List.filterMap_cons_some h, List.filterMap_nil]

private theorem proofBook_concat {proof : ProofEvent String} (h : event.proofEvent = some proof) :
    proofBook (log ++ [event]) = (proofBook log).record proofRules proof := by
  unfold proofBook
  rw [proofLedger_concat h, ofLedger_concat]

/-! ### One consult -/

/-- What a consult gives, for a factor that is not locked: but for a refusal, that leaves the factor as it is. -/
inductive Verified (reads : IdentityReads) (factor : MfaFactor) : MfaFactor × ProofResult → Prop
  | refused (result : ProofResult) (neither : result = .rateLimited ∨ result = .undecryptable) :
    Verified reads factor (factor, result)
  | rejected (unlocked : ∀ ending, factor.lockedUntil = some ending → ending ≤ reads.checked) :
    Verified reads factor (proofFailure reads.decided factor, .rejected)
  | redeemed (hash : String) (unlocked : ∀ ending, factor.lockedUntil = some ending → ending ≤ reads.checked)
    (left : hash ∈ factor.recoveryHashes) :
    Verified reads factor
      ({ factor with
          recoveryHashes := factor.recoveryHashes.filter (· ≠ hash), failedAttempts := 0, lockedUntil := none },
        .accepted (.recovery hash))
  | counted (step : Int) (unlocked : ∀ ending, factor.lockedUntil = some ending → ending ≤ reads.checked)
    (later : factor.lastUsedStep < step) :
    Verified reads factor
      ({ factor with lastUsedStep := step, failedAttempts := 0, lockedUntil := none }, .accepted (.totp step))

theorem verifyFactor_verified (crypto : IdentityCrypto) (reads : IdentityReads) (allowRecovery : Bool)
    (code : Option String) (factor : MfaFactor) :
    Verified reads factor (verifyFactor crypto reads allowRecovery code factor) := by
  unfold verifyFactor
  dsimp only
  split
  · exact .refused _ (.inl rfl)
  rename_i hopen
  have hunlocked : ∀ ending, factor.lockedUntil = some ending → ending ≤ reads.checked := by
    intro ending hending
    rw [hending, Option.any_some, decide_eq_true_eq] at hopen
    exact Int.not_lt.mp hopen
  split
  · exact .rejected hunlocked
  split
  · exact .refused _ (.inr rfl)
  split
  · rename_i hrecovery
    rw [Bool.and_eq_true, List.contains_iff_mem] at hrecovery
    exact .redeemed _ hunlocked hrecovery.2
  split
  · rename_i step hstep
    have hfound := List.find?_some hstep
    rw [Bool.and_eq_true, decide_eq_true_eq] at hfound
    exact .counted step hunlocked hfound.1
  · exact .rejected hunlocked

private theorem BookKept.later (h : BookKept book factor clock) (hlater : clock ≤ clock') :
    BookKept book factor clock' := by
  refine ⟨h.steps, h.codes, h.streak, fun ending hending => ?_⟩
  rcases h.holds ending hending with hended | hlocked
  · exact .inl (hended.trans hlater)
  · exact .inr hlocked

/-- When the factor is not locked, all holds are over. -/
private theorem BookKept.opened (h : BookKept book factor clock) {checked : Int} (hlater : clock ≤ checked)
    (hunlocked : ∀ ending, factor.lockedUntil = some ending → ending ≤ checked) :
    book.Open checked := by
  intro ending hending
  rcases h.holds ending hending with hended | hlocked
  · exact hended.trans hlater
  · exact hunlocked ending hlocked

private theorem bookKept_failure {checked decided : Int} (h : BookKept book factor clock) (hopen : book.Open checked)
    (hordered : checked ≤ decided) :
    BookKept (book.record proofRules (.rejected decided)) (proofFailure decided factor) decided := by
  have hended : ∀ ending ∈ book.holds, ending ≤ decided := fun ending hending => (hopen ending hending).trans hordered
  unfold proofFailure ProofBook.record
  dsimp only
  rw [h.streak]
  -- the same comparison decides about the lock and about the hold
  by_cases hlimit : maximumAttempts ≤ book.streak + 1
  · rw [if_pos hlimit, if_pos (show proofRules.limit ≤ book.streak + 1 from hlimit)]
    refine ⟨h.steps, h.codes, rfl, fun ending hending => ?_⟩
    rcases List.mem_cons.mp hending with rfl | hending
    · exact .inr rfl
    · exact .inl (hended ending hending)
  · rw [if_neg hlimit, if_neg (show ¬ proofRules.limit ≤ book.streak + 1 from hlimit)]
    exact ⟨h.steps, h.codes, rfl, fun ending hending => .inl (hended ending hending)⟩

/-- A consult is admitted by the book, and the factor keeps the book afterwards. -/
private theorem LedgerKept.consult (h : LedgerKept log rows clock) {reads : IdentityReads} {verified : MfaFactor × ProofResult}
    (hverified : Verified reads factor verified) (hfactor : rows.factor = some factor)
    (hlater : clock ≤ reads.checked) (hordered : reads.checked ≤ reads.decided) (challenge : Option String)
    (hrows' : rows'.factor = some verified.1) :
    LedgerKept (log ++ [.proved ⟨challenge, reads.checked, reads.decided, verified.2⟩]) rows' reads.decided := by
  have hbook := h.book factor hfactor
  have hrow (P : MfaFactor → Prop) (hP : P verified.1) : ∀ factor, rows'.factor = some factor → P factor := by
    intro factor' hfactor'
    rw [hrows', Option.some.injEq] at hfactor'
    rw [← hfactor']
    exact hP
  have hended {ending : Int} (hopen : (proofBook log).Open reads.checked) (hending : ending ∈ (proofBook log).holds) :
      ending ≤ reads.decided := (hopen ending hending).trans hordered
  cases hverified with
  | refused result neither =>
    have hsilent : IdentityEvent.proofEvent (.proved ⟨challenge, reads.checked, reads.decided, result⟩) = none := by
      rcases neither with rfl | rfl <;> rfl
    have hledger := proofLedger_append_silent log (silent_of_event hsilent)
    constructor
    · rw [hledger]
      exact h.legal
    · refine hrow _ ?_
      unfold proofBook
      rw [hledger]
      exact hbook.later (hlater.trans hordered)
  | rejected unlocked =>
    have hopen := hbook.opened hlater unlocked
    constructor
    · rw [proofLedger_concat rfl]
      exact h.legal.concat trivial
    · refine hrow _ ?_
      rw [proofBook_concat rfl]
      exact bookKept_failure hbook hopen hordered
  | redeemed hash unlocked left =>
    have hopen := hbook.opened hlater unlocked
    constructor
    · rw [proofLedger_concat rfl]
      exact h.legal.concat ⟨hbook.codes hash left, hopen⟩
    · refine hrow _ ?_
      rw [proofBook_concat rfl]
      refine ⟨hbook.steps, fun other hother => ?_, rfl, fun ending hending => .inl (hended hopen hending)⟩
      rw [List.mem_filter] at hother
      exact List.mem_filter.mpr ⟨hbook.codes other hother.1, hother.2⟩
  | counted step unlocked later =>
    have hopen := hbook.opened hlater unlocked
    constructor
    · rw [proofLedger_concat rfl]
      exact h.legal.concat ⟨fun earlier hearlier => Int.lt_of_le_of_lt (hbook.steps earlier hearlier) later, hopen⟩
    · refine hrow _ ?_
      rw [proofBook_concat rfl]
      refine ⟨fun earlier hearlier => ?_, hbook.codes, rfl, fun ending hending => .inl (hended hopen hending)⟩
      rcases List.mem_cons.mp hearlier with rfl | hearlier
      · exact Int.le_refl _
      · exact (hbook.steps earlier hearlier).trans (Int.le_of_lt later)

/-! ### Every run -/

/-- What a change does to the factor, with the part of the log that is about it. -/
inductive FactorOp (draft draft' : Draft) : Prop
  | kept (added : List IdentityEvent) (same : draft'.rows.factor = draft.rows.factor)
    (logged : draft'.added = draft.added ++ added) (silent : ∀ event ∈ added, event.proofEvent = none)
    (later : draft.clock ≤ draft'.clock)
  | consulted {factor : MfaFactor} {verified : MfaFactor × ProofResult} (reads : IdentityReads)
    (challenge : Option String) (found : draft.rows.factor = some factor)
    (result : Verified reads factor verified) (later : draft.clock ≤ reads.checked) (ordered : reads.checked ≤ reads.decided)
    (written : draft'.rows.factor = some verified.1)
    (logged : draft'.added = draft.added ++ [.proved ⟨challenge, reads.checked, reads.decided, verified.2⟩])
    (clock : draft'.clock = reads.decided)
  | enrolled (factor : MfaFactor) (disabled : draft.rows.mfaEnabled = false) (written : draft'.rows.factor = some factor)
    (unused : factor.recoveryHashes = []) (untried : factor.failedAttempts = 0)
    (logged : draft'.added = draft.added ++ [.enrolled])
  | issued {factor : MfaFactor} (enabledAt : Option Int) (hashes : List String)
    (found : draft.rows.factor = some factor) (proof : draft.Proved)
    (written : draft'.rows.factor = some { factor with enabledAt := enabledAt, recoveryHashes := hashes })
    (logged : draft'.added = draft.added ++ [.issued hashes]) (clock : draft'.clock = draft.clock)
  | removed (proof : draft.Proved) (written : draft'.rows.factor = none)
    (logged : draft'.added = draft.added ++ [.removed])

private theorem factorOp_of_write {draft : Draft} {rows : IdentityRows} {added : List IdentityEvent}
    (same : rows.factor = draft.rows.factor) (silent : ∀ event ∈ added, event.proofEvent = none) :
    FactorOp draft (draft.write rows added) :=
  .kept added same rfl silent (Int.le_refl _)

theorem factorOp_of_op {draft draft' : Draft} (hop : IdentityOp crypto draft draft') :
    FactorOp draft draft' := by
  cases hop with
  | waited clock later => exact .kept [] rfl (List.append_nil _).symm (List.forall_mem_nil _) later
  | proved reads allowRecovery code found later ordered =>
    exact .consulted reads none found (verifyFactor_verified crypto reads allowRecovery code _) later ordered rfl rfl rfl
  | challengeProved reads code found current within enabled later ordered =>
    exact .consulted reads _ enabled (verifyFactor_verified crypto reads true code _) later ordered rfl rfl rfl
  | enrolled secret insertedAt disabled => exact .enrolled _ disabled rfl rfl rfl rfl
  | issued enabledAt hashes found proof => exact .issued enabledAt hashes found proof rfl rfl rfl
  | removed proof => exact .removed proof rfl rfl
  | attempted found current within => exact factorOp_of_write rfl (List.forall_mem_nil _)
  | invalidated now => exact factorOp_of_write rfl (List.forall_mem_nil _)
  | sessions change keeps => exact factorOp_of_write rfl (List.forall_mem_nil _)
  | challenged challenge inserted current untried => exact factorOp_of_write rfl (silent_of_event rfl)
  | minted session inserted disabled => exact factorOp_of_write rfl (silent_of_event rfl)
  | challengeMinted session now found current proof inserted => exact factorOp_of_write rfl (silent_of_event rfl)
  | upgraded passwordHash => exact factorOp_of_write rfl (silent_of_event rfl)
  | changed passwordHash sessionId challengesOver sessionsOver => exact factorOp_of_write rfl (silent_of_event rfl)
  | requested request now inserted => exact factorOp_of_write rfl (silent_of_event rfl)
  | recovered now found outstanding => exact factorOp_of_write rfl (silent_of_event rfl)
  | pruned keeps => exact factorOp_of_write rfl (List.forall_mem_nil _)
  | status status => exact factorOp_of_write rfl (List.forall_mem_nil _)

/-- The factor keeps the book of the log, in every run. -/
theorem kept_ledger : KeptByChanges crypto LedgerKept where
  discard := by
    intro log rows clock consult _ h
    have hsilent : ∀ event ∈ [IdentityEvent.discarded consult], event.proofEvent = none := silent_of_event rfl
    have hledger := proofLedger_append_silent log hsilent
    refine ⟨?_, fun factor hfactor => ?_⟩
    · rw [hledger]
      exact h.legal
    · unfold proofBook
      rw [hledger]
      exact h.book factor hfactor
  op := by
    intro log draft draft' hop h
    cases factorOp_of_op hop with
    | kept added same logged silent later =>
      have hledger : proofLedger (log ++ draft'.added) = proofLedger (log ++ draft.added) := by
        rw [logged, ← List.append_assoc, proofLedger_append_silent _ silent]
      refine ⟨?_, fun factor hfactor => ?_⟩
      · rw [hledger]
        exact h.legal
      · unfold proofBook
        rw [hledger]
        rw [same] at hfactor
        exact (h.book factor hfactor).later later
    | consulted reads challenge found result later ordered written logged clock =>
      rw [logged, clock, ← List.append_assoc]
      exact h.consult result found later ordered challenge written
    | enrolled factor disabled written unused untried logged =>
      rw [logged, ← List.append_assoc]
      constructor
      · rw [proofLedger_concat rfl]
        exact h.legal.concat trivial
      · intro factor' hfactor
        rw [written, Option.some.injEq] at hfactor
        subst hfactor
        rw [proofBook_concat rfl]
        refine ⟨List.forall_mem_nil _, ?_, untried, List.forall_mem_nil _⟩
        rw [unused]
        exact List.forall_mem_nil _
    | issued enabledAt hashes found proof written logged clock =>
      rw [logged, clock, ← List.append_assoc]
      constructor
      · rw [proofLedger_concat rfl]
        exact h.legal.concat trivial
      · intro factor' hfactor
        rw [written, Option.some.injEq] at hfactor
        subst hfactor
        rw [proofBook_concat rfl]
        have hbook := h.book _ found
        exact ⟨hbook.steps, fun hash hhash => hhash, hbook.streak, hbook.holds⟩
    | removed proof written logged =>
      rw [logged, ← List.append_assoc]
      constructor
      · rw [proofLedger_concat rfl]
        exact h.legal.concat trivial
      · intro factor hfactor
        rw [written] at hfactor
        cases hfactor

end

end KComms.Accounts
