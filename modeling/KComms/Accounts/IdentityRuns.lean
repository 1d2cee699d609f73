import KComms.Accounts.IdentityRollback
import KComms.Accounts.IdentityChange
import KComms.Accounts.RefreshRuns

/-!
# Runs on an identity

Each step is a sequence of small changes that commits, or a transaction that rolls back (`StepChange`).  What the small
changes keep holds after every run (`KeptByChanges.run`).
-/

namespace KComms.Accounts

open Attempt

variable {next : IdentitySystem}

section

variable {crypto : IdentityCrypto} {hash : List UInt8 → String} {system : IdentitySystem} {ask : IdentityAsk}

/-- What a step does, which adds these events to the log. -/
inductive StepChange (crypto : IdentityCrypto) (system next : IdentitySystem) (added : List IdentityEvent) : Prop
  | committed (ops : IdentityOps crypto ⟨system.rows, [], system.clock⟩ ⟨next.rows, added, next.clock⟩)
  | rolledBack (consults : List ProofConsult) (accepted : ∀ consult ∈ consults, consult.accepted = true)
    (discarded : added = consults.map .discarded) (same : next.rows = system.rows) (later : system.clock ≤ next.clock)

/-- The step from one system to the next. -/
def Steps (crypto : IdentityCrypto) (system next : IdentitySystem) : Prop :=
  ∃ added, next.log = system.log ++ added ∧ StepChange crypto system next added

private theorem steps_single {added : List IdentityEvent} (hlog : next.log = system.log ++ added)
    (h : IdentityOp crypto ⟨system.rows, [], system.clock⟩ ⟨next.rows, added, next.clock⟩) :
    Steps crypto system next :=
  ⟨added, hlog, .committed (.single h)⟩

private theorem steps_same (hlog : next.log = system.log) (hrows : next.rows = system.rows)
    (hclock : next.clock = system.clock) : Steps crypto system next := by
  refine ⟨[], ?_, .committed ?_⟩
  · rw [hlog, List.append_nil]
  · rw [hrows, hclock]

/-- A sign-in that ends or goes on is no change of the rows. -/
private theorem steps_of_setSignIn {signIn : Nat} {state : SignIn}
    (h : Steps crypto (system.setSignIn signIn state) next) : Steps crypto system next := by
  obtain ⟨added, hlog, hchange⟩ := h
  refine ⟨added, hlog, ?_⟩
  cases hchange with
  | committed ops => exact .committed ops
  | rolledBack consults accepted discarded same later => exact .rolledBack consults accepted discarded same later

theorem reads_ordered (ask : IdentityAsk) (clock : Int) :
    clock ≤ (ask.reads clock).checked ∧ (ask.reads clock).checked ≤ (ask.reads clock).decided ∧
      (ask.reads clock).decided ≤ (ask.reads clock).finished := by
  unfold IdentityAsk.reads
  dsimp only
  omega

private theorem transact_steps (transaction : IdentityReads → IdentityRows → IdentityTransaction)
    (hchanges : ∀ effects rows' answer,
      (transaction (ask.reads system.clock) system.rows).Yields effects (rows', answer) →
      Changes crypto (ask.reads system.clock) system.rows system.clock effects rows' answer)
    (hrollsBack : RollsBackProved (transaction (ask.reads system.clock) system.rows)) :
    Steps crypto system (system.transact ask transaction) := by
  obtain ⟨hchecked, hdecided, hfinished⟩ := reads_ordered ask system.clock
  unfold IdentitySystem.transact
  rcases yields_or_abandons (transaction (ask.reads system.clock) system.rows) with ⟨⟨rows', answer⟩, h⟩ | h
  · obtain ⟨clock', hclock, hops⟩ := hchanges _ _ _ h
    simp only [h.2]
    refine ⟨_, rfl, .committed (hops.tail ?_)⟩
    refine .waited (ask.reads system.clock).finished ?_
    dsimp only
    rcases hclock with rfl | rfl <;> omega
  · have hrejected := hrollsBack _ h
    obtain ⟨-, reason, houtcome⟩ := h
    simp only [houtcome]
    refine ⟨_, rfl, .rolledBack _ hrejected rfl rfl ?_⟩
    dsimp only
    omega

/-! ### Each move -/

private theorem keepsSessions_refresh (hash : List UInt8 → String) (secret : List UInt8) (reads : RefreshReads) (deviceRevokedAt : Option Int) (tenantActive : Bool) (rows : IdentityRows) :
    KeepsSessions fun session =>
      match rotateRefreshSession hash secret reads (rows.sessionRows session deviceRevokedAt tenantActive) with
      | some rotated => rotated.session
      | none => session := by
  intro session
  dsimp only
  split
  · rename_i rotated hrotated
    have hrotation := rotateRefreshSession_eq_some hrotated
    refine ⟨hrotation.id, fun hrevoked => ?_⟩
    rw [hrotation.revoked]
    exact hrevoked
  · exact ⟨rfl, fun hrevoked => hrevoked⟩

private theorem refresh_steps (sessionId : String) (secret : List UInt8) (ask : RefreshAsk)
    (deviceRevokedAt : Option Int) (tenantActive : Bool) :
    Steps crypto system
      (system.step crypto hash (.refresh sessionId secret ask deviceRevokedAt tenantActive)) := by
  refine ⟨[], (List.append_nil _).symm, .committed ?_⟩
  have hsessions : IdentityOp crypto ⟨system.rows, [], system.clock⟩ _ :=
    .sessions _ (keepsSessions_update sessionId
      (keepsSessions_refresh hash secret (ask.reads system.clock) deviceRevokedAt tenantActive system.rows))
  refine .head hsessions (.single ?_)
  refine .waited (ask.reads system.clock).expires ?_
  show system.clock ≤ (ask.reads system.clock).expires
  unfold RefreshAsk.reads
  dsimp only
  omega

private theorem revoke_keeps (now : Int) : KeepsSessions fun session => { session with revokedAt := some now } :=
  fun _ => ⟨rfl, fun _ => Option.some_ne_none _⟩

/-- The log grows by what the step has done. -/
theorem step_steps (crypto : IdentityCrypto) (hash : List UInt8 → String) (system : IdentitySystem)
    (move : IdentityMove) : Steps crypto system (system.step crypto hash move) := by
  cases move with
  | verifyIdentity signIn password => exact steps_same rfl rfl rfl
  | upgradePasswordHash signIn upgradedHash =>
    simp only [IdentitySystem.step]
    split
    · split
      · exact steps_single rfl (.upgraded upgradedHash)
      · exact steps_same rfl rfl rfl
    · exact steps_same rfl rfl rfl
  | abandon signIn => exact steps_same rfl rfl rfl
  | authenticate signIn new ask =>
    simp only [IdentitySystem.step]
    split
    · rename_i passwordHash _
      exact steps_of_setSignIn (transact_steps
        (fun reads rows => authenticate reads passwordHash new rows) (fun _ _ _ => authenticate_changes)
        (authenticate_rollsBack _ _ _ _))
    · exact steps_same rfl rfl rfl
  | passwordSignIn signIn new newChallenge ask =>
    simp only [IdentitySystem.step]
    split
    · rename_i passwordHash _
      exact steps_of_setSignIn (transact_steps
        (fun reads rows => passwordSignIn crypto reads passwordHash new newChallenge rows) (fun _ _ _ => passwordSignIn_changes)
        (passwordSignIn_rollsBack _ _ _ _ _ _))
    · exact steps_same rfl rfl rfl
  | completeSignIn token code new ask =>
    obtain ⟨hlater, hordered, -⟩ := reads_ordered ask system.clock
    exact transact_steps _ (fun _ _ _ => completeSignIn_changes hlater hordered) (completeSignIn_rollsBack _ _ _ _ _ _)
  | enroll sessionId secret ask =>
    exact transact_steps _ (fun _ _ _ => enroll_changes) (enroll_rollsBack _ _ _ _)
  | confirm sessionId code codes ask =>
    obtain ⟨hlater, hordered, -⟩ := reads_ordered ask system.clock
    exact transact_steps _ (fun _ _ _ => confirm_changes hlater hordered) (confirm_rollsBack _ _ _ _ _ _)
  | disable sessionId code ask =>
    obtain ⟨hlater, hordered, -⟩ := reads_ordered ask system.clock
    exact transact_steps _ (fun _ _ _ => disable_changes hlater hordered) (disable_rollsBack _ _ _ _ _)
  | rotateRecovery sessionId code codes ask =>
    obtain ⟨hlater, hordered, -⟩ := reads_ordered ask system.clock
    exact transact_steps _ (fun _ _ _ => rotateRecovery_changes hlater hordered) (rotateRecovery_rollsBack _ _ _ _ _ _)
  | verify code ask =>
    obtain ⟨hlater, hordered, -⟩ := reads_ordered ask system.clock
    exact transact_steps _ (fun _ _ _ => verifyMfa_changes hlater hordered) (verifyMfa_rollsBack _ _ _ _)
  | stepUp sessionId code password ask =>
    obtain ⟨hlater, hordered, -⟩ := reads_ordered ask system.clock
    exact transact_steps _ (fun _ _ _ => stepUp_changes hlater hordered) (stepUp_rollsBack _ _ _ _ _ _)
  | changePassword sessionId code currentPassword newPassword newHash ask =>
    obtain ⟨hlater, hordered, -⟩ := reads_ordered ask system.clock
    exact transact_steps _ (fun _ _ _ => changePassword_changes hlater hordered)
      (changePassword_rollsBack _ _ _ _ _ _ _ _)
  | requestRecovery id ask =>
    exact transact_steps _ (fun _ _ _ => createRequest_changes) (createRequest_rollsBack _ _ _ _)
  | resetPassword token newPassword newHash ask =>
    exact transact_steps _ (fun _ _ _ => resetPassword_changes) (resetPassword_rollsBack _ _ _ _ _ _)
  | pruneRecoveries ask others => exact steps_single (List.append_nil _).symm (.pruned _)
  | refresh sessionId secret ask deviceRevokedAt tenantActive =>
    exact refresh_steps sessionId secret ask deviceRevokedAt tenantActive
  | revoke sessionId =>
    exact steps_single (List.append_nil _).symm (.sessions _ (keepsSessions_update sessionId (revoke_keeps system.clock)))
  | revokeDevice deviceId =>
    exact steps_single (List.append_nil _).symm
      (.sessions _ (keepsSessions_revoke (·.deviceId = deviceId) system.clock))
  | setStatus status => exact steps_single (List.append_nil _).symm (.status status)
  | wait elapsed =>
    refine steps_single (List.append_nil _).symm (.waited (system.clock + elapsed) ?_)
    dsimp only
    omega

/-! ### Runs -/

/-- A property of the log, the rows and the time that a transaction keeps, whether it commits or rolls back. -/
structure KeptByChanges (crypto : IdentityCrypto) (P : List IdentityEvent → IdentityRows → Int → Prop) : Prop where
  op : ∀ {log draft draft'}, IdentityOp crypto draft draft' → P (log ++ draft.added) draft.rows draft.clock →
    P (log ++ draft'.added) draft'.rows draft'.clock
  discard : ∀ {log rows clock} (consult : ProofConsult), consult.accepted = true → P log rows clock →
    P (log ++ [.discarded consult]) rows clock

variable {P : List IdentityEvent → IdentityRows → Int → Prop}

theorem KeptByChanges.ops (hkept : KeptByChanges crypto P) {log : List IdentityEvent} {draft draft' : Draft}
    (hops : IdentityOps crypto draft draft') (h : P (log ++ draft.added) draft.rows draft.clock) :
    P (log ++ draft'.added) draft'.rows draft'.clock := by
  induction hops with
  | refl => exact h
  | tail _ hop ih => exact hkept.op hop ih

private theorem KeptByChanges.discards (hkept : KeptByChanges crypto P) {log : List IdentityEvent} {rows : IdentityRows}
    {clock : Int} {consults : List ProofConsult} (haccepted : ∀ consult ∈ consults, consult.accepted = true)
    (h : P log rows clock) : P (log ++ consults.map .discarded) rows clock := by
  induction consults generalizing log with
  | nil =>
    rw [List.map_nil, List.append_nil]
    exact h
  | cons consult consults ih =>
    rw [List.forall_mem_cons] at haccepted
    rw [List.map_cons, ← List.singleton_append, ← List.append_assoc]
    exact ih haccepted.2 (hkept.discard consult haccepted.1 h)

theorem KeptByChanges.steps (hkept : KeptByChanges crypto P) (hsteps : Steps crypto system next)
    (h : P system.log system.rows system.clock) :
    P next.log next.rows next.clock := by
  obtain ⟨added, hlog, hchange⟩ := hsteps
  rw [hlog]
  cases hchange with
  | committed ops =>
    refine hkept.ops ops ?_
    rw [List.append_nil]
    exact h
  | rolledBack consults accepted discarded same later =>
    rw [discarded, same]
    refine hkept.discards accepted ?_
    have hop : IdentityOp crypto ⟨system.rows, [], system.clock⟩ _ := .waited next.clock later
    have hnow : P (system.log ++ (⟨system.rows, [], system.clock⟩ : Draft).added) system.rows system.clock := by
      rw [List.append_nil]
      exact h
    have hwaited := hkept.op hop hnow
    rw [List.append_nil] at hwaited
    exact hwaited

theorem KeptByChanges.run (hkept : KeptByChanges crypto P) (moves : List IdentityMove)
    (h : P system.log system.rows system.clock) :
    P (system.run crypto hash moves).log (system.run crypto hash moves).rows (system.run crypto hash moves).clock := by
  unfold IdentitySystem.run
  induction moves generalizing system with
  | nil => exact h
  | cons move moves ih => exact ih (hkept.steps (step_steps crypto hash system move) h)

end

end KComms.Accounts
