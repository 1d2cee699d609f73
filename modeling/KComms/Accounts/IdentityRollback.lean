import KComms.Accounts.IdentitySystem

/-!
# Transactions on an identity that roll back

An error about a proof is an answer, and commits the counters of the factor.  So a transaction that rolls back has
consulted the factor only for a proof that was accepted (`RollsBackProved`).
-/

namespace KComms.Accounts

open Attempt

variable {sessionId : String} {code : Option String}

section

variable {crypto : IdentityCrypto} {reads : IdentityReads} {rows rows' : IdentityRows} {effects : List ProofConsult}

/-- What is consulted by a transaction that rolls back has been accepted. -/
def RollsBackProved (transaction : IdentityTransaction) : Prop :=
  ∀ effects, transaction.Abandons effects → ∀ consult ∈ effects, consult.accepted = true

private theorem currentPrivileged_abandons {now : Int}
    (h : (currentPrivileged reads sessionId now rows).Abandons effects) : effects = [] := by
  simp only [currentPrivileged, abandons_bind, abandons_check, yields_check] at h
  rcases h with ⟨rfl, -⟩ | ⟨-, -, second, ⟨rfl, -⟩, ⟨rfl, -⟩, rfl⟩ <;> rfl

private theorem currentPrivileged_yields {now : Int} {u : Unit}
    (h : (currentPrivileged reads sessionId now rows).Yields effects u) : effects = [] := by
  simp only [currentPrivileged, yields_bind, yields_check] at h
  obtain ⟨-, -, second, ⟨rfl, -⟩, ⟨rfl, -⟩, rfl⟩ := h
  rfl

private theorem recheck_abandons (h : (recheckPrivileged reads sessionId rows).Abandons effects) : effects = [] := by
  simp only [recheckPrivileged, abandons_bind, abandons_check, yields_check] at h
  rcases h with ⟨rfl, -⟩ | ⟨-, -, second, ⟨rfl, -⟩, h, rfl⟩
  · rfl
  · exact currentPrivileged_abandons h

private theorem privileged_rollsBack {operation : IdentityTransaction} (hoperation : RollsBackProved operation) :
    RollsBackProved (privilegedTransaction reads sessionId rows operation) := by
  intro effects h
  have hnothing : ∀ consult ∈ ([] : List ProofConsult), consult.accepted = true := List.forall_mem_nil _
  simp only [privilegedTransaction, abandons_bind, abandons_check, yields_check] at h
  rcases h with ⟨rfl, -⟩ | ⟨-, -, second, ⟨rfl, -⟩, h, rfl⟩
  · exact hnothing
  rcases h with h | ⟨_, third, fourth, hfirst, h, rfl⟩
  · rw [currentPrivileged_abandons h]
    exact hnothing
  rw [currentPrivileged_yields hfirst]
  rcases h with h | ⟨_, fifth, sixth, hsecond, h, rfl⟩
  · rw [currentPrivileged_abandons h]
    exact hnothing
  rw [currentPrivileged_yields hsecond]
  exact hoperation _ h

private theorem verifyLocked_abandons {challenge : Option String} :
    ¬ (verifyLocked crypto reads challenge code rows).Abandons effects := by
  unfold verifyLocked
  split
  · exact abandons_pure
  · simp only [consultFactor, abandons_bind, abandons_issue, yields_issue, abandons_pure, and_false, false_and,
      exists_false, or_self, not_false_eq_true]

private theorem verifyLocked_accepted {challenge : Option String}
    (h : (verifyLocked crypto reads challenge code rows).Yields effects (rows', none)) :
    ∀ consult ∈ effects, consult.accepted = true := by
  unfold verifyLocked at h
  split at h
  · rw [yields_pure, Prod.mk.injEq] at h
    cases h.2.2
  · simp only [consultFactor, yields_bind, yields_issue, yields_pure] at h
    obtain ⟨-, first, second, ⟨rfl, rfl⟩, ⟨rfl, hrows⟩, rfl⟩ := h
    rw [Prod.mk.injEq] at hrows
    intro consult hconsult
    rw [List.append_nil, List.mem_singleton] at hconsult
    subst hconsult
    unfold ProofConsult.accepted
    rw [hrows.2]
    rfl

private theorem pure_rollsBack (result : IdentityRows × IdentityAnswer) :
    RollsBackProved (pure result : IdentityTransaction) := fun _ h => absurd h abandons_pure

/-- A transaction that never consults the factor. -/
private theorem silent_rollsBack {transaction : IdentityTransaction} (h : transaction.effects = []) :
    RollsBackProved transaction := by
  rintro effects ⟨rfl, -⟩
  rw [h]
  exact List.forall_mem_nil _

theorem verifyMfa_rollsBack (crypto : IdentityCrypto) (reads : IdentityReads) (code : Option String)
    (rows : IdentityRows) : RollsBackProved (verifyMfa crypto reads code rows) := by
  intro effects h
  simp only [verifyMfa, abandons_bind, abandons_pure, and_false, false_and, exists_false, or_false] at h
  exact absurd h verifyLocked_abandons

theorem enroll_rollsBack (reads : IdentityReads) (sessionId secret : String) (rows : IdentityRows) :
    RollsBackProved (enroll reads sessionId secret rows) := by
  refine privileged_rollsBack (silent_rollsBack ?_)
  refine effects_bind_nil (effects_check _ _) fun _ => effects_bind_nil (effects_check _ _) fun _ => ?_
  exact effects_bind_nil (effects_check _ _) fun _ => rfl

theorem confirm_rollsBack (crypto : IdentityCrypto) (reads : IdentityReads) (sessionId : String)
    (code : Option String) (codes : List String) (rows : IdentityRows) :
    RollsBackProved (confirm crypto reads sessionId code codes rows) := by
  refine privileged_rollsBack ?_
  split
  · exact pure_rollsBack _
  split
  · exact pure_rollsBack _
  split
  · exact pure_rollsBack _
  intro effects h
  simp only [consultFactor, abandons_bind, abandons_issue, yields_issue, false_or] at h
  obtain ⟨-, first, second, ⟨rfl, rfl⟩, h, rfl⟩ := h
  split at h
  · exact absurd h abandons_pure
  rename_i haccepted
  simp only [abandons_bind, abandons_pure, and_false, false_and, exists_false, or_false] at h
  rw [recheck_abandons h, List.append_nil]
  intro consult hconsult
  rw [List.mem_singleton] at hconsult
  subst hconsult
  unfold ProofConsult.accepted
  rw [haccepted]
  rfl

private theorem provedTransaction_rollsBack (sessionId : String) (code : Option String)
    (change : IdentityRows → IdentityRows) (success : IdentityAnswer) :
    RollsBackProved (provedTransaction crypto reads sessionId code rows change success) := by
  refine privileged_rollsBack fun effects h => ?_
  simp only [abandons_bind] at h
  rcases h with h | ⟨⟨rows₁, error⟩, first, second, hverify, h, rfl⟩
  · exact absurd h verifyLocked_abandons
  dsimp only at h
  split at h
  · exact absurd h abandons_pure
  simp only [abandons_bind, abandons_pure, and_false, false_and, exists_false, or_false] at h
  rw [recheck_abandons h, List.append_nil]
  exact verifyLocked_accepted hverify

theorem disable_rollsBack (crypto : IdentityCrypto) (reads : IdentityReads) (sessionId : String)
    (code : Option String) (rows : IdentityRows) : RollsBackProved (disable crypto reads sessionId code rows) :=
  provedTransaction_rollsBack sessionId code _ _

theorem rotateRecovery_rollsBack (crypto : IdentityCrypto) (reads : IdentityReads) (sessionId : String)
    (code : Option String) (codes : List String) (rows : IdentityRows) :
    RollsBackProved (rotateRecovery crypto reads sessionId code codes rows) :=
  provedTransaction_rollsBack sessionId code _ _

private theorem verifiedUser_effects (passwordHash : String) : (verifiedUser reads passwordHash rows).effects = [] := by
  refine effects_bind_nil (effects_check _ _) fun _ => effects_bind_nil (effects_check _ _) fun _ => ?_
  refine effects_bind_nil (effects_check _ _) fun _ => effects_bind_nil (effects_check _ _) fun _ => ?_
  exact effects_check _ _

private theorem createAuthentication_effects {new : NewSession} {verified : Bool} {origin : SignInOrigin} :
    (createAuthentication reads new verified origin rows).effects = [] := by
  unfold createAuthentication
  dsimp only
  split <;> rfl

theorem authenticate_rollsBack (reads : IdentityReads) (passwordHash : String) (new : NewSession)
    (rows : IdentityRows) : RollsBackProved (authenticate reads passwordHash new rows) := by
  refine silent_rollsBack (effects_bind_nil (verifiedUser_effects passwordHash) fun _ => ?_)
  refine effects_bind_nil (effects_check _ _) fun _ => effects_bind_nil (effects_check _ _) fun _ => ?_
  exact createAuthentication_effects

theorem passwordSignIn_rollsBack (crypto : IdentityCrypto) (reads : IdentityReads) (passwordHash : String)
    (new : NewSession) (newChallenge : NewChallenge) (rows : IdentityRows) :
    RollsBackProved (passwordSignIn crypto reads passwordHash new newChallenge rows) := by
  refine silent_rollsBack (effects_bind_nil (verifiedUser_effects passwordHash) fun _ => ?_)
  split
  · split <;> rfl
  split
  · rfl
  · exact createAuthentication_effects

theorem completeSignIn_rollsBack (crypto : IdentityCrypto) (reads : IdentityReads) (token : String)
    (code : Option String) (new : NewSession) (rows : IdentityRows) :
    RollsBackProved (completeSignIn crypto reads token code new rows) := by
  unfold completeSignIn
  split
  · exact pure_rollsBack _
  intro effects h
  simp only [abandons_bind, abandons_check, yields_check] at h
  rcases h with ⟨rfl, -⟩ | ⟨-, -, second, ⟨rfl, -⟩, h, rfl⟩
  · exact List.forall_mem_nil _
  split at h
  · exact absurd h abandons_pure
  split at h
  · exact absurd h abandons_pure
  split at h
  · exact absurd h abandons_pure
  simp only [attemptChallenge, abandons_bind] at h
  rcases h with h | ⟨⟨rows₁, error⟩, first, second, hverify, h, rfl⟩
  · exact absurd h verifyLocked_abandons
  dsimp only at h
  split at h
  · exact absurd h abandons_pure
  split at h
  · exact absurd h abandons_pure
  have hsilent : second = [] := by
    obtain ⟨rfl, -⟩ := h
    refine effects_bind_nil (effects_check _ _) fun _ => effects_bind_nil (effects_check _ _) fun _ => ?_
    exact createAuthentication_effects
  rw [hsilent, List.append_nil]
  exact verifyLocked_accepted hverify

private theorem requireFactor_abandons :
    ¬ (requireFactor crypto reads sessionId code rows).Abandons effects := by
  unfold requireFactor
  split
  · exact abandons_pure
  split
  · exact verifyLocked_abandons
  · exact abandons_pure

private theorem requireFactor_accepted
    (h : (requireFactor crypto reads sessionId code rows).Yields effects (rows', none)) :
    ∀ consult ∈ effects, consult.accepted = true := by
  unfold requireFactor at h
  split at h
  · rw [yields_pure, Prod.mk.injEq] at h
    cases h.2.2
  split at h
  · exact verifyLocked_accepted h
  · rw [yields_pure] at h
    rw [h.1]
    exact List.forall_mem_nil _

private theorem passwordTransaction_rollsBack {password : String} {operation : IdentityRows → IdentityTransaction}
    (hoperation : ∀ rows, (operation rows).effects = []) :
    RollsBackProved (passwordTransaction crypto reads sessionId code password rows operation) := by
  intro effects h
  simp only [passwordTransaction, abandons_bind, abandons_check, yields_check] at h
  rcases h with ⟨rfl, -⟩ | ⟨-, -, second, ⟨rfl, -⟩, h, rfl⟩
  · exact List.forall_mem_nil _
  rcases h with ⟨rfl, -⟩ | ⟨-, -, third, ⟨rfl, -⟩, h, rfl⟩
  · exact List.forall_mem_nil _
  rcases h with h | ⟨⟨rows₁, error⟩, fourth, fifth, hrequire, h, rfl⟩
  · exact absurd h requireFactor_abandons
  dsimp only at h
  split at h
  · exact absurd h abandons_pure
  have hsilent : fifth = [] := by
    obtain ⟨rfl, -⟩ := h
    refine effects_bind_nil (effects_check _ _) fun _ => ?_
    split
    · rfl
    refine effects_bind_nil (effects_check _ _) fun _ => effects_bind_nil (effects_check _ _) fun _ => ?_
    exact hoperation _
  rw [hsilent, List.append_nil]
  exact requireFactor_accepted hrequire

theorem stepUp_rollsBack (crypto : IdentityCrypto) (reads : IdentityReads) (sessionId : String)
    (code : Option String) (password : String) (rows : IdentityRows) :
    RollsBackProved (stepUp crypto reads sessionId code password rows) :=
  passwordTransaction_rollsBack fun _ => rfl

theorem changePassword_rollsBack (crypto : IdentityCrypto) (reads : IdentityReads) (sessionId : String)
    (code : Option String) (currentPassword newPassword newHash : String) (rows : IdentityRows) :
    RollsBackProved (changePassword crypto reads sessionId code currentPassword newPassword newHash rows) := by
  unfold changePassword
  split
  · exact pure_rollsBack _
  · exact passwordTransaction_rollsBack fun _ => rfl

theorem createRequest_rollsBack (crypto : IdentityCrypto) (reads : IdentityReads) (id : String)
    (rows : IdentityRows) : RollsBackProved (createRequest crypto reads id rows) := by
  refine silent_rollsBack ?_
  refine effects_bind_nil (effects_check _ _) fun _ => effects_bind_nil (effects_check _ _) fun _ => ?_
  dsimp only
  split
  · rfl
  · exact effects_bind_nil (effects_check _ _) fun _ => rfl

theorem resetPassword_rollsBack (crypto : IdentityCrypto) (reads : IdentityReads) (token newPassword newHash : String)
    (rows : IdentityRows) : RollsBackProved (resetPassword crypto reads token newPassword newHash rows) := by
  unfold resetPassword
  split
  · exact pure_rollsBack _
  split
  · exact pure_rollsBack _
  refine silent_rollsBack ?_
  refine effects_bind_nil (effects_check _ _) fun _ => effects_bind_nil (effects_check _ _) fun _ => ?_
  exact effects_bind_nil (effects_check _ _) fun _ => effects_bind_nil (effects_check _ _) fun _ => rfl

end

end KComms.Accounts
