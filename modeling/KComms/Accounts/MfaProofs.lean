import KComms.Accounts.ProofRuns
import KComms.Accounts.SignInRuns

/-!
# Proofs are good once, and guessing is bounded

What holds in every run of an identity: of the steps and of the recovery codes that were accepted, of the time after
five rejections in a row, of each challenge, and of each session that is minted while the factor is enabled.
-/

namespace KComms.Accounts

/-! ### What holds of a log -/

/-- The steps that a factor accepts rise. -/
def StepsRise (log : List IdentityEvent) : Prop :=
  ∀ before first between second after step step',
    log = before ++ .proved first :: (between ++ .proved second :: after) → .enrolled ∉ between →
      first.result = .accepted (.totp step) → second.result = .accepted (.totp step') → step < step'

/-- The event neither replaces nor drops the recovery codes, nor takes this one. -/
def IdentityEvent.LeavesCode (code : String) (event : IdentityEvent) : Prop :=
  ∀ proof, event.proofEvent = some proof → proof.LeavesCode code

/-- A recovery code that is accepted was issued, and nothing has touched it since. -/
def CodesTakenOnce (log : List IdentityEvent) : Prop :=
  ∀ before consult after code, log = before ++ .proved consult :: after →
    consult.result = .accepted (.recovery code) →
      ∃ earlier codes since, before = earlier ++ .issued codes :: since ∧ code ∈ codes ∧
        ∀ event ∈ since, event.LeavesCode code

/-- The rejections in a row, since the enrolment, the last proof that was accepted or the last lock. -/
def rejectionStreak (log : List IdentityEvent) : Nat := (proofBook log).streak

/-- After the fifth rejection in a row, the factor accepts nothing for 300 seconds. -/
def HeldBack (log : List IdentityEvent) : Prop :=
  ∀ before fifth between next after,
    log = before ++ .proved fifth :: (between ++ .proved next :: after) → .enrolled ∉ between →
      fifth.result = .rejected → rejectionStreak before + 1 = maximumAttempts → next.accepted = true →
        fifth.decided + seconds 300 ≤ next.checked

/-- If no factor was enrolled since, the last step has not gone back. -/
def LastStepKept (base : IdentitySystem) (log : List IdentityEvent) (rows : IdentityRows) : Prop :=
  ∃ added, log = base.log ++ added ∧
    (.enrolled ∉ added → ∀ factor factor', base.rows.factor = some factor → rows.factor = some factor' →
      factor.lastUsedStep ≤ factor'.lastUsedStep)

/-- A challenge that is consumed stays so, since then. -/
def ConsumedKept (system later : IdentitySystem) : Prop :=
  ∀ challenge ∈ system.rows.challenges, ∀ consumedAt, challenge.consumedAt = some consumedAt →
    ∃ challenge' ∈ later.rows.challenges, challenge'.id = challenge.id ∧ challenge'.consumedAt = some consumedAt

/-- With an enabled factor, a step that mints a session has an accepted proof. -/
def MintsProved (system next : IdentitySystem) : Prop :=
  ∃ added, next.log = system.log ++ added ∧
    (system.rows.mfaEnabled = true → ∀ session ∈ next.rows.sessions,
      session.id ∉ system.rows.sessions.map (·.id) → ∃ consult, .proved consult ∈ added ∧ consult.accepted = true)

variable {consult : ProofConsult}

section

variable {crypto : IdentityCrypto} {hash : List UInt8 → String} {log : List IdentityEvent}

/-! ### Of the ledger -/

private theorem proofLedger_append {before after : List IdentityEvent} :
    proofLedger (before ++ after) = proofLedger before ++ proofLedger after := List.filterMap_append

private theorem proofLedger_cons {event : IdentityEvent} {proof : ProofEvent String} {after : List IdentityEvent}
    (h : event.proofEvent = some proof) : proofLedger (event :: after) = proof :: proofLedger after :=
  List.filterMap_cons_some h

private theorem not_enrolled {between : List IdentityEvent} (h : .enrolled ∉ between) :
    .enrolled ∉ proofLedger between := by
  intro henrolled
  unfold proofLedger at henrolled
  rw [List.mem_filterMap] at henrolled
  obtain ⟨event, hevent, hproof⟩ := henrolled
  cases event with
  | enrolled => exact h hevent
  | proved consult =>
    simp only [IdentityEvent.proofEvent] at hproof
    split at hproof <;> cases hproof
  | discarded | issued | removed | challenged | minted | upgraded | changed | requested | recovered => cases hproof

private theorem proofEvent_totp {step : Int} (h : consult.result = .accepted (.totp step)) :
    IdentityEvent.proofEvent (.proved consult) = some (.counted step consult.checked) := by
  unfold IdentityEvent.proofEvent
  dsimp only
  rw [h]

private theorem proofEvent_recovery {code : String} (h : consult.result = .accepted (.recovery code)) :
    IdentityEvent.proofEvent (.proved consult) = some (.redeemed code consult.checked) := by
  unfold IdentityEvent.proofEvent
  dsimp only
  rw [h]

private theorem proofEvent_rejected (h : consult.result = .rejected) :
    IdentityEvent.proofEvent (.proved consult) = some (.rejected consult.decided) := by
  unfold IdentityEvent.proofEvent
  dsimp only
  rw [h]

private theorem proofEvent_accepted (h : consult.accepted = true) :
    ∃ proof, IdentityEvent.proofEvent (.proved consult) = some proof ∧
      ((∃ step, proof = .counted step consult.checked) ∨ ∃ code, proof = .redeemed code consult.checked) := by
  cases hresult : consult.result with
  | accepted proof =>
    cases proof with
    | totp step => exact ⟨_, proofEvent_totp hresult, .inl ⟨step, rfl⟩⟩
    | recovery code => exact ⟨_, proofEvent_recovery hresult, .inr ⟨code, rfl⟩⟩
  | rejected | rateLimited | undecryptable =>
    unfold ProofConsult.accepted at h
    rw [hresult] at h
    cases h

theorem stepsRise_of_legal (h : Legal proofRules (proofLedger log)) : StepsRise log := by
  intro before first between second after step step' hsplit hbetween hfirst hsecond
  have hledger : proofLedger log = proofLedger before ++ .counted step first.checked ::
      (proofLedger between ++ .counted step' second.checked :: proofLedger after) := by
    rw [hsplit, proofLedger_append, proofLedger_cons (proofEvent_totp hfirst), proofLedger_append,
      proofLedger_cons (proofEvent_totp hsecond)]
  exact h.steps_rise hledger (not_enrolled hbetween)

theorem codesTakenOnce_of_legal (h : Legal proofRules (proofLedger log)) : CodesTakenOnce log := by
  intro before consult after code hsplit hresult
  have hledger : proofLedger log = proofLedger before ++ .redeemed code consult.checked :: proofLedger after := by
    rw [hsplit, proofLedger_append, proofLedger_cons (proofEvent_recovery hresult)]
  obtain ⟨earlier, codes, since, hbefore, hcode, hleaves⟩ := h.redeemed_issued hledger
  -- the part of the ledger comes from a part of the log
  unfold proofLedger at hbefore
  rw [List.filterMap_eq_append_iff] at hbefore
  obtain ⟨log₁, log₂, rfl, -, hlog₂⟩ := hbefore
  rw [List.filterMap_eq_cons_iff] at hlog₂
  obtain ⟨log₃, event, log₄, rfl, -, hevent, hsince⟩ := hlog₂
  have hissued : event = .issued codes := by
    cases event with
    | issued hashes =>
      cases hevent
      rfl
    | proved consult =>
      simp only [IdentityEvent.proofEvent] at hevent
      split at hevent <;> cases hevent
    | enrolled | discarded | removed | challenged | minted | upgraded | changed | requested | recovered => cases hevent
  refine ⟨log₁ ++ log₃, codes, log₄, ?_, hcode, fun other hother proof hproof => ?_⟩
  · rw [hissued, List.append_assoc]
  · refine hleaves proof ?_
    rw [← hsince, List.mem_filterMap]
    exact ⟨other, hother, hproof⟩

theorem heldBack_of_legal (h : Legal proofRules (proofLedger log)) : HeldBack log := by
  intro before fifth between next after hsplit hbetween hfifth hstreak hnext
  obtain ⟨proof, hproof, haccepted⟩ := proofEvent_accepted hnext
  have hledger : proofLedger log = proofLedger before ++ .rejected fifth.decided ::
      (proofLedger between ++ proof :: proofLedger after) := by
    rw [hsplit, proofLedger_append, proofLedger_cons (proofEvent_rejected hfifth), proofLedger_append,
      proofLedger_cons hproof]
  exact h.held hledger hstreak.ge haccepted (not_enrolled hbetween)

/-! ### Of the rows -/

private theorem Verified.keeps {reads : IdentityReads} {factor : MfaFactor} {verified : MfaFactor × ProofResult}
    (h : Verified reads factor verified) :
    verified.1.enabledAt = factor.enabledAt ∧ factor.lastUsedStep ≤ verified.1.lastUsedStep := by
  cases h with
  | refused result neither => exact ⟨rfl, Int.le_refl _⟩
  | rejected unlocked =>
    unfold proofFailure
    dsimp only
    split <;> exact ⟨rfl, Int.le_refl _⟩
  | redeemed hash unlocked left => exact ⟨rfl, Int.le_refl _⟩
  | counted step unlocked later => exact ⟨rfl, Int.le_of_lt later⟩

private theorem kept_lastStep (base : IdentitySystem) :
    KeptByChanges crypto fun log rows _ => LastStepKept base log rows where
  discard := by
    rintro log rows clock consult - ⟨added, rfl, h⟩
    refine ⟨added ++ [.discarded consult], List.append_assoc _ _ _, fun henrolled => h ?_⟩
    exact fun hadded => henrolled (List.mem_append_left _ hadded)
  op := by
    rintro log draft draft' hop ⟨added, hlog, h⟩
    have hextend {events : List IdentityEvent} (hlogged : draft'.added = draft.added ++ events)
        (hstep : .enrolled ∉ added → .enrolled ∉ events → ∀ factor factor', base.rows.factor = some factor →
          draft'.rows.factor = some factor' → factor.lastUsedStep ≤ factor'.lastUsedStep) :
        LastStepKept base (log ++ draft'.added) draft'.rows := by
      refine ⟨added ++ events, ?_, fun henrolled => ?_⟩
      · rw [hlogged, ← List.append_assoc, hlog, List.append_assoc]
      · rw [List.mem_append, not_or] at henrolled
        exact hstep henrolled.1 henrolled.2
    cases factorOp_of_op hop with
    | kept events same logged silent later =>
      refine hextend logged fun henrolled _ factor factor' hfactor hfactor' => h henrolled factor factor' hfactor ?_
      rw [← same]
      exact hfactor'
    | consulted reads challenge found result later ordered written logged clock =>
      refine hextend logged fun henrolled _ factor factor' hfactor hfactor' => ?_
      rw [written, Option.some.injEq] at hfactor'
      rw [← hfactor']
      exact (h henrolled factor _ hfactor found).trans result.keeps.2
    | enrolled factor disabled written unused untried logged =>
      exact hextend logged fun _ hevents => absurd List.mem_cons_self hevents
    | @issued before enabledAt hashes found proof written logged clock =>
      refine hextend logged fun henrolled _ factor factor' hfactor hfactor' => ?_
      rw [written, Option.some.injEq] at hfactor'
      rw [← hfactor']
      exact h henrolled factor before hfactor found
    | removed proof written logged =>
      refine hextend logged fun _ _ factor factor' _ hfactor' => ?_
      rw [written] at hfactor'
      cases hfactor'

theorem lastStepKept_run (system : IdentitySystem) (moves : List IdentityMove) :
    LastStepKept system (system.run crypto hash moves).log (system.run crypto hash moves).rows := by
  refine (kept_lastStep system).run moves ⟨[], (List.append_nil _).symm, fun _ factor factor' hfactor hfactor' => ?_⟩
  rw [hfactor, Option.some.injEq] at hfactor'
  rw [hfactor']

/-- In a transaction that found the factor enabled: it has an accepted proof, or it has neither disabled the factor nor
minted a session. -/
private def MintsGuarded (base draft : Draft) : Prop :=
  draft.Proved ∨ (draft.rows.mfaEnabled = true ∧ draft.rows.sessions.map (·.id) = base.rows.sessions.map (·.id))

private theorem Draft.Proved.later {draft draft' : Draft} {added : List IdentityEvent} (h : draft.Proved)
    (hlogged : draft'.added = draft.added ++ added) : draft'.Proved := by
  obtain ⟨consult, hconsult, haccepted⟩ := h
  refine ⟨consult, ?_, haccepted⟩
  rw [hlogged]
  exact List.mem_append_left _ hconsult

private theorem mfaEnabled_kept {draft draft' : Draft} (hop : FactorOp draft draft') (h : draft.rows.mfaEnabled = true) :
    draft'.Proved ∨ draft'.rows.mfaEnabled = true := by
  unfold IdentityRows.mfaEnabled at h ⊢
  cases hop with
  | kept added same logged silent later =>
    rw [same]
    exact .inr h
  | consulted reads challenge found result later ordered written logged clock =>
    rw [found, Option.any_some] at h
    rw [written, Option.any_some, result.keeps.1]
    exact .inr h
  | enrolled factor disabled written unused untried logged =>
    unfold IdentityRows.mfaEnabled at disabled
    rw [disabled] at h
    cases h
  | issued enabledAt hashes found proof written logged clock => exact .inl (proof.later logged)
  | removed proof written logged => exact .inl (proof.later logged)

private theorem mintsGuarded_ops {base draft : Draft} (hops : IdentityOps crypto base draft)
    (henabled : base.rows.mfaEnabled = true) : MintsGuarded base draft := by
  induction hops with
  | refl => exact .inr ⟨henabled, rfl⟩
  | @tail draft draft' _ hop ih =>
    have hsignIn := signInOp_of_op hop
    rcases ih with hproved | ⟨henabled, hids⟩
    · left
      cases hsignIn with
      | kept added password challenges sessions logged unrelated => exact hproved.later logged
      | challenged challenge password sessions written fresh logged => exact hproved.later logged
      | minted session origin password challenges written fresh checked logged => exact hproved.later logged
      | upgraded passwordHash password challenges sessions logged => exact hproved.later logged
      | changed passwordHash sessionId password challenges sessions challengesOver sessionsOver logged =>
        exact hproved.later logged
    rcases mfaEnabled_kept (factorOp_of_op hop) henabled with hproved | henabled'
    · exact .inl hproved
    cases hsignIn with
    | kept added password challenges sessions logged unrelated => exact .inr ⟨henabled', sessions.ids.trans hids⟩
    | challenged challenge password sessions written fresh logged =>
      right
      rw [sessions]
      exact ⟨henabled', hids⟩
    | minted session origin password challenges written fresh checked logged =>
      rcases checked with ⟨-, hdisabled⟩ | ⟨_, -, -, -, hproved⟩
      · rw [hdisabled] at henabled
        cases henabled
      · exact .inl (hproved.later logged)
    | upgraded passwordHash password challenges sessions logged =>
      right
      rw [sessions]
      exact ⟨henabled', hids⟩
    | changed passwordHash sessionId password challenges sessions challengesOver sessionsOver logged =>
      right
      rw [sessions]
      exact ⟨henabled', hids⟩

theorem mintsProved_step (system : IdentitySystem) (move : IdentityMove) :
    MintsProved system (system.step crypto hash move) := by
  obtain ⟨added, hlog, hchange⟩ := step_steps crypto hash system move
  refine ⟨added, hlog, fun henabled session hsession hnew => ?_⟩
  have hmem : session.id ∈ (system.step crypto hash move).rows.sessions.map (·.id) := List.mem_map_of_mem hsession
  cases hchange with
  | committed ops =>
    rcases mintsGuarded_ops ops henabled with hproved | ⟨-, hids⟩
    · exact hproved
    · rw [hids] at hmem
      exact absurd hmem hnew
  | rolledBack consults accepted discarded same later =>
    rw [same] at hmem
    exact absurd hmem hnew

theorem consumedKept_run {system : IdentitySystem} (hkept : ChallengesKept system.log system.rows)
    (moves : List IdentityMove) : ConsumedKept system (system.run crypto hash moves) := by
  intro challenge hchallenge consumedAt hconsumed
  exact ((kept_consumed challenge consumedAt).run moves ⟨hkept, challenge, hchallenge, rfl, hconsumed⟩).2

private theorem kept_discarded : KeptByChanges crypto fun log _ _ =>
    ∀ consult, .discarded consult ∈ log → consult.accepted = true where
  discard := by
    intro log rows clock consult haccepted h other hother
    rw [List.mem_append, List.mem_singleton] at hother
    rcases hother with hother | hother
    · exact h other hother
    · cases hother
      exact haccepted
  op := by
    intro log draft draft' hop h consult hconsult
    refine h consult ?_
    cases hop <;> simpa [Draft.write] using hconsult

end

/-! ### Every run -/

/-- Proofs are good once, and guessing is bounded: in every run, and from every state of it on. -/
theorem proofs_single_use (crypto : IdentityCrypto) (hash : List UInt8 → String) (user : User) (clock : Int)
    (moves : List IdentityMove) :
    let system := (IdentitySystem.start user clock).run crypto hash moves
    StepsRise system.log ∧ CodesTakenOnce system.log ∧ HeldBack system.log ∧
      (∀ id, consultCount id system.log ≤ maximumAttempts ∧ mintCount id system.log ≤ 1) ∧
      (∀ consult, .discarded consult ∈ system.log → consult.accepted = true) ∧
      (∀ move, MintsProved system (system.step crypto hash move)) ∧
      ∀ next,
        let later := system.run crypto hash next
        LastStepKept system later.log later.rows ∧ ConsumedKept system later := by
  intro system
  have hledger : LedgerKept system.log system.rows system.clock := by
    refine kept_ledger.run moves ⟨Legal.nil, fun factor hfactor => ?_⟩
    cases hfactor
  have hchallenges : ChallengesKept system.log system.rows := by
    refine kept_challenges.run moves ⟨List.nodup_nil, List.forall_mem_nil _, fun id _ => ⟨rfl, rfl⟩⟩
  refine ⟨stepsRise_of_legal hledger.legal, codesTakenOnce_of_legal hledger.legal, heldBack_of_legal hledger.legal,
    fun id => ?_, ?_, mintsProved_step system, fun next => ⟨lastStepKept_run system next, ?_⟩⟩
  · by_cases hid : id ∈ system.rows.challenges.map (·.id)
    · rw [List.mem_map] at hid
      obtain ⟨challenge, hchallenge, rfl⟩ := hid
      have hcounted := hchallenges.counted challenge hchallenge
      exact ⟨hcounted.consults.trans hcounted.attempts, hcounted.mints⟩
    · obtain ⟨hconsults, hmints⟩ := hchallenges.unknown id hid
      omega
  · exact kept_discarded.run moves fun consult hconsult => absurd hconsult List.not_mem_nil
  · exact consumedKept_run hchallenges next

/-! ### Any five rejections, and consults that roll back -/

/-- After any five rejections in a row, also after some of an earlier lock, the factor accepts nothing for 300 seconds. -/
def HeldAfterAnyFive (log : List IdentityEvent) : Prop :=
  ∀ before (rejections : List ProofConsult) between (next : ProofConsult) after,
    log = before ++ (rejections.map .proved ++ (between ++ .proved next :: after)) → rejections.length = 5 →
      (∀ consult ∈ rejections, consult.result = .rejected) → .enrolled ∉ between → next.accepted = true →
        ∀ last ∈ rejections.getLast?, last.decided + seconds 300 ≤ next.checked

/-- The consults for the challenge, with those of transactions that rolled back. -/
def consultsTried (id : String) (log : List IdentityEvent) : Nat :=
  log.countP fun
    | .proved consult | .discarded consult => consult.challenge = some id
    | _ => false

def sampleCrypto : IdentityCrypto where
  digest text := text
  totp _ step := toString step
  verify password passwordHash := password = passwordHash
  needsRehash _ := false
  validPassword _ := true
  recoveryToken id := id ++ ".nonce.signature"

def sampleFacts : IdentityFacts where
  settings := sampleSettings
  stepUpTtlSeconds := 600
  recoveryTtlSeconds := 900
  recoveryRetentionSeconds := 604800
  tenantActive := true
  deviceActive := true
  deviceUpserted := true
  decrypts := true
  notified := true
  inBudget := true
  inBudgetLater := true

def sampleAsk : IdentityAsk := ⟨sampleFacts, 0, 0, 0, 0, 0⟩

/-- A user with an enabled factor, whose last step is 0. -/
def sampleEnrolled : List IdentityMove :=
  [.verifyIdentity 0 sampleUser.passwordHash, .authenticate 0 ⟨"session", "device", "hash"⟩ sampleAsk,
    .stepUp "session" none sampleUser.passwordHash sampleAsk, .enroll "session" "secret" sampleAsk,
    .confirm "session" (some "0") ["recovery"] sampleAsk]

/-- Five wrong codes, and after the lock four more and a right one. -/
def sampleGuesses : List IdentityMove :=
  sampleEnrolled ++ List.replicate 5 (.verify (some "wrong") sampleAsk) ++ [.wait 300000000] ++
    List.replicate 4 (.verify (some "wrong") sampleAsk) ++ [.verify (some "10") sampleAsk]

/-- Six times a right code for a challenge, each time too late. -/
def sampleLateProofs : List IdentityMove :=
  sampleEnrolled ++
    [.verifyIdentity 1 sampleUser.passwordHash,
      .passwordSignIn 1 ⟨"second", "device", "hash"⟩ ⟨"challenge", "token"⟩ sampleAsk, .wait 30000000] ++
    List.replicate 6
      (.completeSignIn "token" (some "1") ⟨"second", "device", "hash"⟩
        { sampleAsk with facts := { sampleFacts with inBudgetLater := false } })

def sampleRejection (time : Int) : ProofConsult := ⟨none, time, time, .rejected⟩

theorem guesses_after_lock :
    ¬ HeldAfterAnyFive ((IdentitySystem.start sampleUser 0).run sampleCrypto (fun _ => "") sampleGuesses).log ∧
      maximumAttempts < consultsTried "challenge"
        ((IdentitySystem.start sampleUser 0).run sampleCrypto (fun _ => "") sampleLateProofs).log := by
  constructor
  · intro h
    have hheld := h
      [.minted "session" (.password sampleUser.passwordHash), .enrolled, .proved ⟨none, 0, 0, .accepted (.totp 0)⟩,
        .issued ["recovery"], .proved (sampleRejection 0), .proved (sampleRejection 0), .proved (sampleRejection 0),
        .proved (sampleRejection 0)]
      (sampleRejection 0 :: List.replicate 4 (sampleRejection 300000000)) []
      ⟨none, 300000000, 300000000, .accepted (.totp 10)⟩ [] (by decide) rfl (by decide)
      List.not_mem_nil rfl (sampleRejection 300000000) rfl
    revert hheld
    decide
  · decide

end KComms.Accounts
