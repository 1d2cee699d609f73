import KComms.Accounts.IdentitySystem
import Mathlib.Logic.Relation

/-!
# What the transactions on an identity do

A transaction is a sequence of small changes to its rows, each with its part of the log (`IdentityOp`): a proof, a
challenge, a session, a password.  Their guards are what the transaction has checked by then.
-/

namespace KComms.Accounts

open Attempt

/-- A transaction in progress: the rows, what it adds to the log, and the time. -/
structure Draft where
  rows : IdentityRows
  added : List IdentityEvent
  clock : Int

/-- The transaction has an accepted proof. -/
def Draft.Proved (draft : Draft) : Prop := ∃ consult, .proved consult ∈ draft.added ∧ consult.accepted = true

/-- The draft with other rows and one more event. -/
def Draft.write (draft : Draft) (rows : IdentityRows) (added : List IdentityEvent) : Draft :=
  { draft with rows := rows, added := draft.added ++ added }

/-- A change of the sessions keeps their ids, and does not take a revocation back. -/
def KeepsSessions (change : Session → Session) : Prop :=
  ∀ session, (change session).id = session.id ∧ (session.revokedAt ≠ none → (change session).revokedAt ≠ none)

/-- One more attempt of a challenge. -/
def attemptOnce (challenge : AuthChallenge) : AuthChallenge := { challenge with attempts := challenge.attempts + 1 }

inductive IdentityOp (crypto : IdentityCrypto) (draft : Draft) : Draft → Prop
  | waited (clock : Int) (later : draft.clock ≤ clock) : IdentityOp crypto draft { draft with clock := clock }
  | proved {factor} (reads : IdentityReads) (allowRecovery : Bool) (code : Option String)
    (found : draft.rows.factor = some factor) (later : draft.clock ≤ reads.checked)
    (ordered : reads.checked ≤ reads.decided) :
    IdentityOp crypto draft
      { draft.write { draft.rows with factor := some (verifyFactor crypto reads allowRecovery code factor).1 }
          [.proved ⟨none, reads.checked, reads.decided, (verifyFactor crypto reads allowRecovery code factor).2⟩] with
        clock := reads.decided }
  | attempted {challenge} (found : challenge ∈ draft.rows.challenges) (current : challenge.consumedAt = none)
    (within : challenge.attempts < maximumAttempts) :
    IdentityOp crypto draft
      (draft.write
        { draft.rows with
          challenges := updateChallenge challenge.id (fun _ => attemptOnce challenge) draft.rows.challenges } [])
  | challengeProved {challenge factor} (reads : IdentityReads) (code : Option String)
    (found : challenge ∈ draft.rows.challenges) (current : challenge.consumedAt = none)
    (within : challenge.attempts < maximumAttempts) (enabled : draft.rows.factor = some factor)
    (later : draft.clock ≤ reads.checked) (ordered : reads.checked ≤ reads.decided) :
    IdentityOp crypto draft
      { draft.write
          { draft.rows with
            challenges := updateChallenge challenge.id (fun _ => attemptOnce challenge) draft.rows.challenges
            factor := some (verifyFactor crypto reads true code factor).1 }
          [.proved ⟨some challenge.id, reads.checked, reads.decided, (verifyFactor crypto reads true code factor).2⟩] with
        clock := reads.decided }
  | enrolled (secret : String) (insertedAt : Int) (disabled : draft.rows.mfaEnabled = false) :
    IdentityOp crypto draft
      (draft.write
        { draft.rows with
          factor := some
            { secret := secret, enabledAt := none, lastUsedStep := -1, recoveryHashes := [], failedAttempts := 0,
              lockedUntil := none, insertedAt := insertedAt } } [.enrolled])
  | issued {factor} (enabledAt : Option Int) (hashes : List String) (found : draft.rows.factor = some factor)
    (proof : draft.Proved) :
    IdentityOp crypto draft
      (draft.write
        { draft.rows with factor := some { factor with enabledAt := enabledAt, recoveryHashes := hashes } }
        [.issued hashes])
  | removed (proof : draft.Proved) : IdentityOp crypto draft (draft.write { draft.rows with factor := none } [.removed])
  | invalidated (now : Int) :
    IdentityOp crypto draft
      (draft.write { draft.rows with challenges := invalidateIdentityChallenges now draft.rows.challenges } [])
  | sessions (change : Session → Session) (keeps : KeepsSessions change) :
    IdentityOp crypto draft (draft.write { draft.rows with sessions := draft.rows.sessions.map change } [])
  | challenged {challenges} (challenge : AuthChallenge)
    (inserted : insertChallenge challenge draft.rows.challenges = some challenges)
    (current : challenge.consumedAt = none) (untried : challenge.attempts = 0) :
    IdentityOp crypto draft
      (draft.write { draft.rows with challenges := challenges }
        [.challenged challenge.id draft.rows.user.passwordHash])
  | minted {sessions} (session : Session) (inserted : insertSession session draft.rows.sessions = some sessions)
    (disabled : draft.rows.mfaEnabled = false) :
    IdentityOp crypto draft
      (draft.write { draft.rows with sessions := sessions }
        [.minted session.id (.password draft.rows.user.passwordHash)])
  | challengeMinted {challenge sessions} (session : Session) (now : Int) (found : challenge ∈ draft.rows.challenges)
    (current : challenge.consumedAt = none) (proof : draft.Proved)
    (inserted : insertSession session draft.rows.sessions = some sessions) :
    IdentityOp crypto draft
      (draft.write
        { draft.rows with
          challenges :=
            updateChallenge challenge.id (fun challenge => { challenge with consumedAt := some now })
              draft.rows.challenges
          sessions := sessions } [.minted session.id (.challenge challenge.id)])
  | upgraded (passwordHash : String) :
    IdentityOp crypto draft (draft.write (setPassword passwordHash draft.rows) [.upgraded passwordHash])
  | changed (passwordHash : String) (sessionId : Option String)
    (challengesOver : ∀ challenge ∈ draft.rows.challenges, challenge.consumedAt ≠ none)
    (sessionsOver : ∀ session ∈ draft.rows.sessions, sessionId ≠ some session.id → session.revokedAt ≠ none) :
    IdentityOp crypto draft (draft.write (setPassword passwordHash draft.rows) [.changed passwordHash sessionId])
  | requested {recoveries} (request : PasswordRecoveryRequest) (now : Int)
    (inserted :
      insertRecovery request (invalidateRecoveries (fun _ => true) now draft.rows.recoveries) = some recoveries) :
    IdentityOp crypto draft (draft.write { draft.rows with recoveries := recoveries } [.requested request.id])
  | recovered {request} (now : Int) (found : request ∈ draft.rows.recoveries)
    (outstanding : request.outstanding = true) :
    IdentityOp crypto draft
      (draft.write
        { draft.rows with
          recoveries := (invalidateRecoveries (·.id ≠ request.id) now draft.rows.recoveries).map fun other =>
            if other.id = request.id then { other with consumedAt := some now } else other } [.recovered request.id])
  | pruned (keeps : PasswordRecoveryRequest → Bool) :
    IdentityOp crypto draft (draft.write { draft.rows with recoveries := draft.rows.recoveries.filter keeps } [])
  | status (status : UserStatus) :
    IdentityOp crypto draft
      (draft.write { draft.rows with user := { draft.rows.user with status := status } } [])

abbrev IdentityOps (crypto : IdentityCrypto) : Draft → Draft → Prop := Relation.ReflTransGen (IdentityOp crypto)

/-- A transaction that starts with these rows reaches those by such changes, at the latest when it writes a proof. -/
def Reaches (crypto : IdentityCrypto) (reads : IdentityReads) (rows : IdentityRows) (clock : Int)
    (rows' : IdentityRows) (added : List IdentityEvent) : Prop :=
  ∃ clock', (clock' = clock ∨ clock' = reads.decided) ∧ IdentityOps crypto ⟨rows, [], clock⟩ ⟨rows', added, clock'⟩

/-- The same for a transaction that commits, with its proofs and its answer. -/
def Changes (crypto : IdentityCrypto) (reads : IdentityReads) (rows : IdentityRows) (clock : Int)
    (effects : List ProofConsult) (rows' : IdentityRows) (answer : IdentityAnswer) : Prop :=
  Reaches crypto reads rows clock rows' (effects.map .proved ++ answer.events)

/-! ### Parts of transactions -/

variable {code : Option String} {sessionId passwordHash : String} {new : NewSession} {change : Session → Session}

section

variable {crypto : IdentityCrypto} {reads : IdentityReads} {rows rows' : IdentityRows} {clock : Int}
  {effects : List ProofConsult} {answer : IdentityAnswer} {error : Option IdentityError}

theorem keepsSessions_update (id : String) (h : KeepsSessions change) :
    KeepsSessions fun session => if session.id = id then change session else session := by
  intro session
  dsimp only
  by_cases hid : session.id = id
  · rw [if_pos hid]
    exact h session
  · rw [if_neg hid]
    exact ⟨rfl, fun hrevoked => hrevoked⟩

theorem keepsSessions_revoke (revokes : Session → Bool) (now : Int) :
    KeepsSessions fun session =>
      if revokes session && session.revokedAt = none then { session with revokedAt := some now } else session := by
  intro session
  dsimp only
  split
  · exact ⟨rfl, fun _ => Option.some_ne_none _⟩
  · exact ⟨rfl, fun hrevoked => hrevoked⟩

private theorem enabledFactor_eq_some {factor : MfaFactor} (h : rows.enabledFactor = some factor) :
    rows.factor = some factor ∧ factor.enabledAt.isSome = true := by
  unfold IdentityRows.enabledFactor at h
  rw [Option.filter_eq_some_iff] at h
  exact h

/-- A change that needs no proof and adds nothing to the log. -/
private theorem changes_kept (h : answer.events = []) : Changes crypto reads rows clock [] rows answer := by
  refine ⟨clock, .inl rfl, ?_⟩
  rw [h]
  exact .refl

private theorem changes_of_reaches (h : answer.events = [])
    (hreaches : Reaches crypto reads rows clock rows' (effects.map .proved)) :
    Changes crypto reads rows clock effects rows' answer := by
  unfold Changes
  rw [h, List.append_nil]
  exact hreaches

/-- What a consult without a challenge does, whether it is reached or not. -/
private theorem verifyLocked_ops (hlater : clock ≤ reads.checked) (hordered : reads.checked ≤ reads.decided)
    (h : (verifyLocked crypto reads none code rows).Yields effects (rows', error)) :
    Reaches crypto reads rows clock rows' (effects.map .proved) ∧
      (error = none → ∃ consult ∈ effects, consult.accepted = true) ∧ (error = none → rows'.factor.isSome = true) := by
  unfold verifyLocked at h
  split at h
  · rw [yields_pure, Prod.mk.injEq] at h
    obtain ⟨rfl, rfl, rfl⟩ := h
    exact ⟨⟨clock, .inl rfl, .refl⟩, fun hnone => absurd hnone (Option.some_ne_none _),
      fun hnone => absurd hnone (Option.some_ne_none _)⟩
  · rename_i factor hfactor
    simp only [consultFactor, yields_bind, yields_issue, yields_pure] at h
    obtain ⟨-, first, second, ⟨rfl, rfl⟩, ⟨rfl, hrows⟩, rfl⟩ := h
    rw [Prod.mk.injEq] at hrows
    obtain ⟨rfl, rfl⟩ := hrows
    refine ⟨⟨reads.decided, .inr rfl, .single ?_⟩, fun hnone => ?_, fun _ => rfl⟩
    · exact .proved reads true code (enabledFactor_eq_some hfactor).1 hlater hordered
    · refine ⟨_, List.mem_singleton_self _, ?_⟩
      unfold ProofConsult.accepted
      rw [hnone]
      rfl

private theorem privileged_yields {operation : IdentityTransaction} {result : IdentityRows × IdentityAnswer}
    (h : (privilegedTransaction reads sessionId rows operation).Yields effects result) :
    operation.Yields effects result := by
  simp only [privilegedTransaction, currentPrivileged, yields_bind, yields_check] at h
  obtain ⟨-, -, second, ⟨rfl, -⟩, ⟨-, -, third, ⟨-, -, -, ⟨rfl, -⟩, ⟨rfl, -⟩, rfl⟩,
    ⟨-, -, fourth, ⟨-, -, -, ⟨rfl, -⟩, ⟨rfl, -⟩, rfl⟩, h, rfl⟩, rfl⟩, rfl⟩ := h
  exact h

private theorem write_nil (draft : Draft) (rows : IdentityRows) : draft.write rows [] = { draft with rows := rows } := by
  unfold Draft.write
  rw [List.append_nil]

private theorem ops_invalidated (rows : IdentityRows) (added : List IdentityEvent) (clock now : Int) :
    IdentityOps crypto ⟨rows, added, clock⟩
      ⟨{ rows with challenges := invalidateIdentityChallenges now rows.challenges }, added, clock⟩ := by
  have hop : IdentityOp crypto ⟨rows, added, clock⟩ _ := .invalidated now
  rw [write_nil] at hop
  exact .single hop

private theorem ops_sessions (keeps : KeepsSessions change) (rows : IdentityRows) (added : List IdentityEvent)
    (clock : Int) :
    IdentityOps crypto ⟨rows, added, clock⟩ ⟨{ rows with sessions := rows.sessions.map change }, added, clock⟩ := by
  have hop : IdentityOp crypto ⟨rows, added, clock⟩ _ := .sessions change keeps
  rw [write_nil] at hop
  exact .single hop

private theorem ops_revokeOthers (sessionId : String) (now : Int) (rows : IdentityRows) (added : List IdentityEvent)
    (clock : Int) :
    IdentityOps crypto ⟨rows, added, clock⟩ ⟨revokeOtherSessions sessionId now rows, added, clock⟩ :=
  (ops_invalidated rows added clock now).trans (ops_sessions (keepsSessions_revoke _ now) _ added clock)

private theorem ops_update {id : String} (keeps : KeepsSessions change) (rows : IdentityRows)
    (added : List IdentityEvent) (clock : Int) :
    IdentityOps crypto ⟨rows, added, clock⟩
      ⟨{ rows with sessions := updateSession id change rows.sessions }, added, clock⟩ :=
  ops_sessions (keepsSessions_update id keeps) rows added clock

private theorem proved_of_accepted {rows : IdentityRows} {clock : Int}
    (h : ∃ consult ∈ effects, consult.accepted = true) : (⟨rows, effects.map .proved, clock⟩ : Draft).Proved := by
  obtain ⟨consult, hconsult, haccepted⟩ := h
  exact ⟨consult, List.mem_map_of_mem hconsult, haccepted⟩

/-! ### Transactions on the factor -/

theorem verifyMfa_changes (hlater : clock ≤ reads.checked) (hordered : reads.checked ≤ reads.decided)
    (h : (verifyMfa crypto reads code rows).Yields effects (rows', answer)) :
    Changes crypto reads rows clock effects rows' answer := by
  simp only [verifyMfa, yields_bind, yields_pure] at h
  obtain ⟨⟨rows₁, error⟩, first, second, hverify, ⟨rfl, hresult⟩, rfl⟩ := h
  rw [Prod.mk.injEq] at hresult
  obtain ⟨rfl, rfl⟩ := hresult
  obtain ⟨hreaches, -⟩ := verifyLocked_ops hlater hordered hverify
  rw [List.append_nil]
  refine changes_of_reaches ?_ hreaches
  cases error <;> rfl

theorem enroll_changes {secret : String} (h : (enroll reads sessionId secret rows).Yields effects (rows', answer)) :
    Changes crypto reads rows clock effects rows' answer := by
  replace h := privileged_yields h
  simp only [yields_bind, yields_check, yields_pure] at h
  obtain ⟨-, -, second, ⟨rfl, hdisabled⟩, ⟨-, -, third, ⟨rfl, -⟩, ⟨-, -, fourth, ⟨rfl, -⟩, ⟨rfl, hresult⟩, rfl⟩, rfl⟩,
    rfl⟩ := h
  rw [Prod.mk.injEq] at hresult
  obtain ⟨rfl, rfl⟩ := hresult
  rw [Bool.not_eq_true'] at hdisabled
  exact ⟨clock, .inl rfl, .single (.enrolled secret reads.finished hdisabled)⟩

private theorem recheck_yields {u : Unit}
    (h : (recheckPrivileged reads sessionId rows).Yields effects u) : effects = [] := by
  simp only [recheckPrivileged, currentPrivileged, yields_bind, yields_check] at h
  obtain ⟨-, -, -, ⟨rfl, -⟩, ⟨-, -, -, ⟨rfl, -⟩, ⟨rfl, -⟩, rfl⟩, rfl⟩ := h
  rfl

/-- The codes are issued by a transaction that has a proof. -/
private theorem ops_issued (factor : MfaFactor) {rows : IdentityRows} {added : List IdentityEvent} {clock : Int}
    (enabledAt : Option Int) (hashes : List String) (hfactor : rows.factor = some factor)
    (hproof : (⟨rows, added, clock⟩ : Draft).Proved) :
    IdentityOps crypto ⟨rows, added, clock⟩
      ⟨{ rows with factor := some { factor with enabledAt := enabledAt, recoveryHashes := hashes } },
        added ++ [.issued hashes], clock⟩ :=
  .single (.issued enabledAt hashes hfactor hproof)

theorem confirm_changes (hlater : clock ≤ reads.checked) (hordered : reads.checked ≤ reads.decided)
    {codes : List String} (h : (confirm crypto reads sessionId code codes rows).Yields effects (rows', answer)) :
    Changes crypto reads rows clock effects rows' answer := by
  replace h := privileged_yields h
  split at h
  · rw [yields_pure, Prod.mk.injEq] at h
    obtain ⟨rfl, rfl, rfl⟩ := h
    exact changes_kept rfl
  rename_i factor hfactor
  split at h
  · rw [yields_pure, Prod.mk.injEq] at h
    obtain ⟨rfl, rfl, rfl⟩ := h
    exact changes_kept rfl
  split at h
  · rw [yields_pure, Prod.mk.injEq] at h
    obtain ⟨rfl, rfl, rfl⟩ := h
    exact changes_kept rfl
  simp only [consultFactor, yields_bind, yields_issue] at h
  obtain ⟨-, first, second, ⟨rfl, rfl⟩, h, rfl⟩ := h
  have hconsulted : IdentityOp crypto ⟨rows, [], clock⟩ _ := .proved reads false code hfactor hlater hordered
  split at h
  · rw [yields_pure, Prod.mk.injEq] at h
    obtain ⟨rfl, rfl, rfl⟩ := h
    exact ⟨_, .inr rfl, .single hconsulted⟩
  · rename_i haccepted
    simp only [yields_bind, yields_pure] at h
    obtain ⟨_, third, fourth, hrecheck, ⟨rfl, hresult⟩, rfl⟩ := h
    obtain rfl := recheck_yields hrecheck
    rw [Prod.mk.injEq] at hresult
    obtain ⟨rfl, rfl⟩ := hresult
    refine ⟨_, .inr rfl, .head hconsulted ((ops_issued (verifyFactor crypto reads false code factor).1 (some reads.finished)
      (codes.map crypto.digest) rfl ?_).trans
      ((ops_revokeOthers sessionId reads.finished _ _ _).trans (ops_update ?_ _ _ _)))⟩
    · refine ⟨_, List.mem_singleton_self _, ?_⟩
      unfold ProofConsult.accepted
      rw [haccepted]
      rfl
    · exact fun session => ⟨rfl, fun hrevoked => hrevoked⟩

/-- What follows a proof, after which the other sessions are revoked. -/
private theorem provedTransaction_changes (hlater : clock ≤ reads.checked) (hordered : reads.checked ≤ reads.decided)
    {change : IdentityRows → IdentityRows} {success : IdentityAnswer}
    (hchange : ∀ rows added clock, rows.factor.isSome = true → (⟨rows, added, clock⟩ : Draft).Proved →
      IdentityOps crypto ⟨rows, added, clock⟩ ⟨change rows, added ++ success.events, clock⟩)
    (h : (provedTransaction crypto reads sessionId code rows change success).Yields effects (rows', answer)) :
    Changes crypto reads rows clock effects rows' answer := by
  replace h := privileged_yields h
  simp only [yields_bind] at h
  obtain ⟨⟨rows₁, error⟩, first, second, hverify, h, rfl⟩ := h
  obtain ⟨hreaches, haccepted, hfactor⟩ := verifyLocked_ops hlater hordered hverify
  dsimp only at h
  split at h
  · rw [yields_pure, Prod.mk.injEq] at h
    obtain ⟨rfl, rfl, rfl⟩ := h
    rw [List.append_nil]
    exact changes_of_reaches rfl hreaches
  · simp only [yields_bind, yields_pure] at h
    obtain ⟨_, third, fourth, hrecheck, ⟨rfl, hresult⟩, rfl⟩ := h
    obtain rfl := recheck_yields hrecheck
    rw [Prod.mk.injEq] at hresult
    obtain ⟨rfl, rfl⟩ := hresult
    obtain ⟨clock', hclock, hops⟩ := hreaches
    refine ⟨clock', hclock, ?_⟩
    simp only [List.append_nil]
    exact hops.trans ((hchange rows₁ _ clock' (hfactor rfl) (proved_of_accepted (haccepted rfl))).trans
      (ops_revokeOthers sessionId reads.finished _ _ _))

theorem disable_changes (hlater : clock ≤ reads.checked) (hordered : reads.checked ≤ reads.decided)
    (h : (disable crypto reads sessionId code rows).Yields effects (rows', answer)) :
    Changes crypto reads rows clock effects rows' answer := by
  refine provedTransaction_changes hlater hordered (fun rows added clock _ hproof => ?_) h
  exact .single (.removed hproof)

theorem rotateRecovery_changes (hlater : clock ≤ reads.checked) (hordered : reads.checked ≤ reads.decided)
    {codes : List String} (h : (rotateRecovery crypto reads sessionId code codes rows).Yields effects (rows', answer)) :
    Changes crypto reads rows clock effects rows' answer := by
  refine provedTransaction_changes hlater hordered (fun rows added clock hfactor hproof => ?_) h
  obtain ⟨factor, hfactor⟩ := Option.isSome_iff_exists.mp hfactor
  have hissued : issueCodes codes crypto rows =
      { rows with
        factor := some { factor with enabledAt := factor.enabledAt, recoveryHashes := codes.map crypto.digest } } := by
    unfold issueCodes
    rw [hfactor]
    rfl
  rw [hissued]
  exact ops_issued factor factor.enabledAt (codes.map crypto.digest) hfactor hproof

/-! ### Signing in -/

private theorem verifiedUser_yields {u : Unit} (h : (verifiedUser reads passwordHash rows).Yields effects u) :
    effects = [] ∧ rows.user.passwordHash = passwordHash := by
  simp only [verifiedUser, yields_bind, yields_check] at h
  obtain ⟨-, -, -, ⟨rfl, -⟩, ⟨-, -, -, ⟨rfl, -⟩, ⟨-, -, -, ⟨rfl, -⟩, ⟨-, -, -, ⟨rfl, hhash⟩, ⟨rfl, -⟩, rfl⟩, rfl⟩,
    rfl⟩, rfl⟩ := h
  exact ⟨rfl, of_decide_eq_true hhash⟩

private theorem createAuthentication_yields {verified : Bool} {origin : SignInOrigin}
    (h : (createAuthentication reads new verified origin rows).Yields effects (rows', answer)) :
    effects = [] ∧ ∃ session sessions, insertSession session rows.sessions = some sessions ∧
      rows' = { rows with sessions := sessions } ∧ answer = .authenticated session.id origin := by
  unfold createAuthentication at h
  dsimp only at h
  split at h
  · exact absurd h yields_rollback
  · rename_i sessions hinsert
    rw [yields_pure, Prod.mk.injEq] at h
    obtain ⟨rfl, rfl, rfl⟩ := h
    exact ⟨rfl, _, sessions, hinsert, rfl, rfl⟩

/-- A session is minted without a proof if there is no enabled factor. -/
private theorem minted_changes (hhash : rows.user.passwordHash = passwordHash) (hdisabled : rows.mfaEnabled = false)
    (h : (createAuthentication reads new false (.password passwordHash) rows).Yields effects (rows', answer)) :
    Changes crypto reads rows clock effects rows' answer := by
  obtain ⟨rfl, session, sessions, hinsert, rfl, rfl⟩ := createAuthentication_yields h
  subst hhash
  exact ⟨clock, .inl rfl, .single (.minted session hinsert hdisabled)⟩

theorem authenticate_changes (h : (authenticate reads passwordHash new rows).Yields effects (rows', answer)) :
    Changes crypto reads rows clock effects rows' answer := by
  simp only [authenticate, yields_bind, yields_check] at h
  obtain ⟨_, first, second, hverified, ⟨-, -, third, ⟨rfl, hdisabled⟩, ⟨-, -, fourth, ⟨rfl, -⟩, h, rfl⟩, rfl⟩, rfl⟩ := h
  obtain ⟨rfl, hhash⟩ := verifiedUser_yields hverified
  rw [Bool.not_eq_true'] at hdisabled
  exact minted_changes hhash hdisabled h

theorem passwordSignIn_changes {newChallenge : NewChallenge}
    (h : (passwordSignIn crypto reads passwordHash new newChallenge rows).Yields effects (rows', answer)) :
    Changes crypto reads rows clock effects rows' answer := by
  simp only [passwordSignIn, yields_bind] at h
  obtain ⟨_, first, second, hverified, h, rfl⟩ := h
  obtain ⟨rfl, hhash⟩ := verifiedUser_yields hverified
  split at h
  · split at h
    · exact absurd h yields_rollback
    · rename_i challenges hinsert
      rw [yields_pure, Prod.mk.injEq] at h
      obtain ⟨rfl, rfl, rfl⟩ := h
      subst hhash
      exact ⟨clock, .inl rfl, .single (.challenged (createChallenge crypto reads newChallenge) hinsert rfl rfl)⟩
  rename_i hdisabled
  rw [Bool.not_eq_true] at hdisabled
  split at h
  · rw [yields_pure, Prod.mk.injEq] at h
    obtain ⟨rfl, rfl, rfl⟩ := h
    exact changes_kept rfl
  · exact minted_changes hhash hdisabled h

/-- An attempt of a challenge, and the proof for it. -/
private theorem attempt_ops (hlater : clock ≤ reads.checked) (hordered : reads.checked ≤ reads.decided)
    {challenge : AuthChallenge} (hfound : challenge ∈ rows.challenges) (hcurrent : challenge.consumedAt = none)
    (hwithin : challenge.attempts < maximumAttempts)
    (h : (verifyLocked crypto reads (some challenge.id) code
      { rows with challenges := updateChallenge challenge.id (fun _ => attemptOnce challenge) rows.challenges }).Yields
        effects (rows', error)) :
    Reaches crypto reads rows clock rows' (effects.map .proved) ∧
      (error = none → ∃ consult ∈ effects, consult.accepted = true) ∧
        rows'.challenges = updateChallenge challenge.id (fun _ => attemptOnce challenge) rows.challenges := by
  unfold verifyLocked at h
  split at h
  · rw [yields_pure, Prod.mk.injEq] at h
    obtain ⟨rfl, rfl, rfl⟩ := h
    have hop : IdentityOp crypto ⟨rows, [], clock⟩ _ := .attempted hfound hcurrent hwithin
    rw [write_nil] at hop
    exact ⟨⟨clock, .inl rfl, .single hop⟩, fun hnone => absurd hnone (Option.some_ne_none _), rfl⟩
  · rename_i factor hfactor
    simp only [consultFactor, yields_bind, yields_issue, yields_pure] at h
    obtain ⟨-, first, second, ⟨rfl, rfl⟩, ⟨rfl, hrows⟩, rfl⟩ := h
    rw [Prod.mk.injEq] at hrows
    obtain ⟨rfl, rfl⟩ := hrows
    refine ⟨⟨reads.decided, .inr rfl, .single ?_⟩, fun hnone => ?_, rfl⟩
    · exact .challengeProved reads code hfound hcurrent hwithin (enabledFactor_eq_some hfactor).1 hlater hordered
    · refine ⟨_, List.mem_singleton_self _, ?_⟩
      unfold ProofConsult.accepted
      rw [hnone]
      rfl

theorem completeSignIn_changes (hlater : clock ≤ reads.checked) (hordered : reads.checked ≤ reads.decided)
    {token : String} (h : (completeSignIn crypto reads token code new rows).Yields effects (rows', answer)) :
    Changes crypto reads rows clock effects rows' answer := by
  unfold completeSignIn at h
  split at h
  · rw [yields_pure, Prod.mk.injEq] at h
    obtain ⟨rfl, rfl, rfl⟩ := h
    exact changes_kept rfl
  simp only [yields_bind, yields_check] at h
  obtain ⟨-, -, second, ⟨rfl, -⟩, h, rfl⟩ := h
  split at h
  · rw [yields_pure, Prod.mk.injEq] at h
    obtain ⟨rfl, rfl, rfl⟩ := h
    exact changes_kept rfl
  rename_i challenge hfind
  have hfound := List.mem_of_find?_eq_some hfind
  split at h
  · rw [yields_pure, Prod.mk.injEq] at h
    obtain ⟨rfl, rfl, rfl⟩ := h
    exact changes_kept rfl
  split at h
  · rw [yields_pure, Prod.mk.injEq] at h
    obtain ⟨rfl, rfl, rfl⟩ := h
    exact changes_kept rfl
  rename_i hcurrent
  rw [Option.or_eq_none_iff] at hcurrent
  have hopen : challenge.consumedAt = none ∧ challenge.attempts < maximumAttempts := by
    have hcurrent := hcurrent.1
    unfold currentChallenge at hcurrent
    split at hcurrent
    · cases hcurrent
    split at hcurrent
    · cases hcurrent
    rename_i hconsumed hattempts
    rw [Bool.or_eq_true, not_or, Option.isSome_iff_ne_none, not_not] at hconsumed
    exact ⟨hconsumed.1, Nat.lt_of_not_le hattempts⟩
  simp only [attemptChallenge, yields_bind] at h
  obtain ⟨⟨rows₁, error⟩, first, second, hverify, h, rfl⟩ := h
  obtain ⟨hreaches, haccepted, hchallenges⟩ := attempt_ops hlater hordered hfound hopen.1 hopen.2 hverify
  dsimp only at h
  split at h
  · rw [yields_pure, Prod.mk.injEq] at h
    obtain ⟨rfl, rfl, rfl⟩ := h
    rw [List.append_nil]
    exact changes_of_reaches rfl hreaches
  split at h
  · rw [yields_pure, Prod.mk.injEq] at h
    obtain ⟨rfl, rfl, rfl⟩ := h
    rw [List.append_nil]
    exact changes_of_reaches rfl hreaches
  simp only [completeChallenge, yields_bind, yields_check] at h
  obtain ⟨-, -, third, ⟨rfl, -⟩, ⟨-, -, fourth, ⟨rfl, -⟩, h, rfl⟩, rfl⟩ := h
  obtain ⟨rfl, session, sessions, hinsert, rfl, rfl⟩ := createAuthentication_yields h
  have hmem : attemptOnce challenge ∈ rows₁.challenges := by
    rw [hchallenges]
    unfold updateChallenge
    rw [List.mem_map]
    exact ⟨challenge, hfound, if_pos rfl⟩
  obtain ⟨clock', hclock, hops⟩ := hreaches
  refine ⟨clock', hclock, hops.tail ?_⟩
  simp only [List.append_nil]
  have hminted : IdentityOp crypto ⟨rows₁, first.map .proved, clock'⟩ _ :=
    .challengeMinted session reads.finished hmem hopen.1 (proved_of_accepted (haccepted rfl)) hinsert
  exact hminted

/-! ### Passwords -/

private theorem requireFactor_ops (hlater : clock ≤ reads.checked) (hordered : reads.checked ≤ reads.decided)
    (h : (requireFactor crypto reads sessionId code rows).Yields effects (rows', error)) :
    Reaches crypto reads rows clock rows' (effects.map .proved) := by
  unfold requireFactor at h
  split at h
  · rw [yields_pure, Prod.mk.injEq] at h
    obtain ⟨rfl, rfl, rfl⟩ := h
    exact ⟨clock, .inl rfl, .refl⟩
  split at h
  · exact (verifyLocked_ops hlater hordered h).1
  · rw [yields_pure, Prod.mk.injEq] at h
    obtain ⟨rfl, rfl, rfl⟩ := h
    exact ⟨clock, .inl rfl, .refl⟩

/-- What follows the password, and the proof if the factor is enabled. -/
private theorem passwordTransaction_changes (hlater : clock ≤ reads.checked) (hordered : reads.checked ≤ reads.decided)
    {password : String} {operation : IdentityRows → IdentityTransaction}
    (hoperation : ∀ rows effects rows' answer, (operation rows).Yields effects (rows', answer) → effects = [] ∧
      ∀ added clock, IdentityOps crypto ⟨rows, added, clock⟩ ⟨rows', added ++ answer.events, clock⟩)
    (h : (passwordTransaction crypto reads sessionId code password rows operation).Yields effects (rows', answer)) :
    Changes crypto reads rows clock effects rows' answer := by
  simp only [passwordTransaction, yields_bind, yields_check] at h
  obtain ⟨-, -, -, ⟨rfl, -⟩, ⟨-, -, -, ⟨rfl, -⟩, ⟨⟨rows₁, error⟩, first, second, hrequire, h, rfl⟩, rfl⟩, rfl⟩ := h
  have hreaches := requireFactor_ops hlater hordered hrequire
  dsimp only at h
  simp only [List.nil_append]
  split at h
  · rw [yields_pure, Prod.mk.injEq] at h
    obtain ⟨rfl, rfl, rfl⟩ := h
    rw [List.append_nil]
    exact changes_of_reaches rfl hreaches
  simp only [yields_bind, yields_check] at h
  obtain ⟨-, -, third, ⟨rfl, -⟩, h, rfl⟩ := h
  split at h
  · rw [yields_pure, Prod.mk.injEq] at h
    obtain ⟨rfl, rfl, rfl⟩ := h
    rw [List.append_nil]
    exact changes_of_reaches rfl hreaches
  simp only [yields_bind, yields_check] at h
  obtain ⟨-, -, fourth, ⟨rfl, -⟩, ⟨-, -, fifth, ⟨rfl, -⟩, h, rfl⟩, rfl⟩ := h
  obtain ⟨rfl, hfinal⟩ := hoperation _ _ _ _ h
  obtain ⟨clock', hclock, hops⟩ := hreaches
  refine ⟨clock', hclock, ?_⟩
  simp only [List.append_nil]
  exact hops.trans (hfinal _ clock')

theorem stepUp_changes (hlater : clock ≤ reads.checked) (hordered : reads.checked ≤ reads.decided) {password : String}
    (h : (stepUp crypto reads sessionId code password rows).Yields effects (rows', answer)) :
    Changes crypto reads rows clock effects rows' answer := by
  refine passwordTransaction_changes hlater hordered (fun rows effects rows' answer h => ?_) h
  rw [yields_pure, Prod.mk.injEq] at h
  obtain ⟨rfl, rfl, rfl⟩ := h
  refine ⟨rfl, fun added clock => ?_⟩
  rw [show IdentityAnswer.steppedUp.events = [] from rfl, List.append_nil]
  refine ops_update ?_ rows added clock
  exact fun session => ⟨rfl, fun hrevoked => hrevoked⟩

private theorem invalidated_over (now : Int) (challenges : List AuthChallenge) :
    ∀ challenge ∈ invalidateIdentityChallenges now challenges, challenge.consumedAt ≠ none := by
  intro challenge hchallenge
  unfold invalidateIdentityChallenges at hchallenge
  rw [List.mem_map] at hchallenge
  obtain ⟨before, -, rfl⟩ := hchallenge
  split
  · exact Option.some_ne_none _
  · rename_i hconsumed
    exact hconsumed

private theorem revoked_over {revokes : Session → Bool} {now : Int} {sessions : List Session} {session : Session}
    (hsession : session ∈ revokeSessions revokes now sessions) (hrevokes : revokes session = true) :
    session.revokedAt ≠ none := by
  unfold revokeSessions at hsession
  rw [List.mem_map] at hsession
  obtain ⟨before, -, rfl⟩ := hsession
  split
  · exact Option.some_ne_none _
  · rename_i hopen
    rw [if_neg hopen] at hrevokes
    rw [hrevokes, Bool.true_and, decide_eq_true_eq] at hopen
    exact hopen

theorem changePassword_changes (hlater : clock ≤ reads.checked) (hordered : reads.checked ≤ reads.decided)
    {currentPassword newPassword newHash : String}
    (h : (changePassword crypto reads sessionId code currentPassword newPassword newHash rows).Yields effects
      (rows', answer)) : Changes crypto reads rows clock effects rows' answer := by
  unfold changePassword at h
  split at h
  · rw [yields_pure, Prod.mk.injEq] at h
    obtain ⟨rfl, rfl, rfl⟩ := h
    exact changes_kept rfl
  refine passwordTransaction_changes hlater hordered (fun rows effects rows' answer h => ?_) h
  rw [yields_pure, Prod.mk.injEq] at h
  obtain ⟨rfl, rfl, rfl⟩ := h
  refine ⟨rfl, fun added clock => (ops_revokeOthers sessionId reads.finished rows added clock).tail ?_⟩
  refine .changed newHash (some sessionId) (invalidated_over _ _) fun session hsession hother => ?_
  refine revoked_over hsession ?_
  rw [decide_eq_true_eq]
  intro hid
  exact hother (congrArg some hid.symm)

theorem createRequest_changes {id : String} (h : (createRequest crypto reads id rows).Yields effects (rows', answer)) :
    Changes crypto reads rows clock effects rows' answer := by
  simp only [createRequest, yields_bind, yields_check] at h
  obtain ⟨-, -, first, ⟨rfl, -⟩, ⟨-, -, second, ⟨rfl, -⟩, h, rfl⟩, rfl⟩ := h
  split at h
  · exact absurd h yields_rollback
  rename_i recoveries hinsert
  simp only [yields_bind, yields_check, yields_pure] at h
  obtain ⟨-, -, third, ⟨rfl, -⟩, ⟨rfl, hresult⟩, rfl⟩ := h
  rw [Prod.mk.injEq] at hresult
  obtain ⟨rfl, rfl⟩ := hresult
  have hrequested : IdentityOp crypto ⟨rows, [], clock⟩ _ := .requested _ reads.started hinsert
  exact ⟨clock, .inl rfl, .single hrequested⟩

theorem resetPassword_changes {token newPassword newHash : String}
    (h : (resetPassword crypto reads token newPassword newHash rows).Yields effects (rows', answer)) :
    Changes crypto reads rows clock effects rows' answer := by
  unfold resetPassword at h
  split at h
  · rw [yields_pure, Prod.mk.injEq] at h
    obtain ⟨rfl, rfl, rfl⟩ := h
    exact changes_kept rfl
  split at h
  · rw [yields_pure, Prod.mk.injEq] at h
    obtain ⟨rfl, rfl, rfl⟩ := h
    exact changes_kept rfl
  rename_i request hfind
  rw [Option.bind_eq_some_iff] at hfind
  obtain ⟨requestId, -, hfind⟩ := hfind
  have hfound := List.mem_of_find?_eq_some hfind
  simp only [yields_bind, yields_check, yields_pure] at h
  obtain ⟨-, -, first, ⟨rfl, -⟩, ⟨-, -, second, ⟨rfl, hvalid⟩, ⟨-, -, third, ⟨rfl, -⟩, ⟨-, -, fourth, ⟨rfl, -⟩,
    ⟨rfl, hresult⟩, rfl⟩, rfl⟩, rfl⟩, rfl⟩ := h
  rw [Prod.mk.injEq] at hresult
  obtain ⟨rfl, rfl⟩ := hresult
  have houtstanding : request.outstanding = true := by
    unfold validRecoveryToken at hvalid
    rw [Bool.and_eq_true, Bool.and_eq_true, Bool.and_eq_true] at hvalid
    exact hvalid.1.1.1
  have hrecovered : IdentityOp crypto ⟨rows, [], clock⟩ _ := .recovered reads.finished hfound houtstanding
  refine ⟨clock, .inl rfl, .head hrecovered (((ops_invalidated _ _ _ reads.finished).trans
    (ops_sessions (keepsSessions_revoke (fun _ => true) reads.finished) _ _ _)).tail ?_)⟩
  exact .changed newHash none (invalidated_over _ _) fun session hsession _ => revoked_over hsession rfl

end

end KComms.Accounts
