import KComms.Telephony.ControlRuns

/-!
# A finished command and its outcome (`Telephony.Controls`)

The transactions check the command that they have locked, and leave a finished one alone.  Only the revocation at the
start of a worker's transaction is decided by the command as it was before the lock: if another worker has finished the
command since, its outcome is overwritten.  Runs without such a revocation keep all outcomes.
-/

namespace KComms.Telephony

open Attempt

/-- Each command that is finished before has the same outcome after. -/
def Settled (commands commands' : List ControlCommand) : Prop :=
  ∀ command ∈ commands, command.resolved = true → ∃ command' ∈ commands', command'.id = command.id ∧
    command'.status = command.status ∧ command'.failureReason = command.failureReason ∧
      command'.completedAt = command.completedAt

instance (commands commands' : List ControlCommand) : Decidable (Settled commands commands') :=
  inferInstanceAs (Decidable (∀ command ∈ commands, command.resolved = true → ∃ command' ∈ commands',
    command'.id = command.id ∧ command'.status = command.status ∧ command'.failureReason = command.failureReason ∧
      command'.completedAt = command.completedAt))

/-- The start of the transaction of a worker that goes through with a finished command, and the time it writes. -/
def ControlWorker.revoking (reads : WorkerReads) : ControlWorker → Option (WorkerStart × Int)
  | .claiming start => some (start, reads.control.now)
  | .completing start _ => some (start, reads.complete.now)
  | _ => none

/-- The transaction found the access revoked while the command was open, and commits when the command is finished, with
another outcome. -/
def ControlSystem.Revises (system : ControlSystem) : ControlMove → Prop
  | .finish worker reads =>
    reads.commits = true ∧ ∃ start now, (system.workers worker).revoking reads = some (start, now) ∧
      start.revoked = true ∧ ∃ command ∈ system.rows.commands, command.id = start.id ∧ command.resolved = true ∧
        ¬ (command.status = .failed ∧ command.failureReason = some "access_revoked" ∧ command.completedAt = some now)
  | _ => False

variable {start : WorkerStart}

section

variable {commands commands' : List ControlCommand}

private theorem settled_refl (commands : List ControlCommand) : Settled commands commands :=
  fun command hcommand _ => ⟨command, hcommand, rfl, rfl, rfl, rfl⟩

private theorem Settled.trans {commands'' : List ControlCommand} (h : Settled commands commands')
    (h' : Settled commands' commands'') : Settled commands commands'' := by
  intro command hcommand hresolved
  obtain ⟨command', hcommand', hid, hstatus, hreason, hcompleted⟩ := h command hcommand hresolved
  have hresolved' : command'.resolved = true := by
    unfold ControlCommand.resolved at hresolved ⊢
    rw [hstatus]
    exact hresolved
  obtain ⟨command'', hcommand'', hid', hstatus', hreason', hcompleted'⟩ := h' command' hcommand' hresolved'
  exact ⟨command'', hcommand'', hid'.trans hid, hstatus'.trans hstatus, hreason'.trans hreason,
    hcompleted'.trans hcompleted⟩

private theorem CommandsUpdate.settled {revoked : String → Prop} (h : CommandsUpdate revoked commands commands')
    (hrevoked : ∀ command ∈ commands, command.resolved = true → ¬ revoked command.id) : Settled commands commands' := by
  intro command hcommand hresolved
  obtain ⟨command', hcommand', step⟩ := h.mem hcommand
  exact ⟨command', hcommand', step.same.1, step.resolved (hrevoked command hcommand hresolved) hresolved⟩

private theorem CommandsChange.settled {revoked : String → Prop} (h : CommandsChange revoked commands commands')
    (hrevoked : ∀ command ∈ commands, command.resolved = true → ¬ revoked command.id) : Settled commands commands' := by
  cases h with
  | updated update => exact update.settled hrevoked
  | inserted update fresh unblocked =>
    intro command hcommand hresolved
    obtain ⟨command', hcommand', hkept⟩ := update.settled hrevoked command hcommand hresolved
    exact ⟨command', List.mem_cons_of_mem _ hcommand', hkept⟩

/-- A revocation leaves the other commands alone. -/
private theorem revoke_settled {id : String} {now : Int}
    (h : ∀ command ∈ commands, command.id = id → command.resolved = true →
      command.status = .failed ∧ command.failureReason = some "access_revoked" ∧ command.completedAt = some now) :
    Settled commands (updateCommand id (revokeCommand now) commands) := by
  intro command hcommand hresolved
  refine ⟨_, List.mem_map_of_mem hcommand, ?_⟩
  by_cases hid : command.id = id
  · obtain ⟨hstatus, hreason, hcompleted⟩ := h command hcommand hid hresolved
    rw [if_pos hid, hstatus, hreason, hcompleted]
    exact ⟨rfl, rfl, rfl, rfl⟩
  · rw [if_neg hid]
    exact ⟨rfl, rfl, rfl, rfl⟩

end

/-! ### One step -/

section

variable {fingerprint : String → String} {system : ControlSystem} {worker : ControlWorker} {reads : WorkerReads}
  {rows : ControlRows}

/-- A transaction that finds the access revoked, and goes through, writes that and nothing else. -/
private theorem revoked_transaction {now : Int} (hrevoking : worker.revoking reads = some (start, now))
    (hrevoked : start.revoked = true) (hfound : ∃ command ∈ rows.commands, command.id = start.id) :
    (worker.transaction reads rows).Commits
      ({ rows with commands := updateCommand start.id (revokeCommand now) rows.commands }, .idle) := by
  have hfind : ∃ command, findCommand start.id (updateCommand start.id (revokeCommand now) rows.commands) =
      some command ∧ command.status = .failed := by
    obtain ⟨command, hcommand, hid⟩ := hfound
    have hsome : (findCommand start.id (updateCommand start.id (revokeCommand now) rows.commands)).isSome := by
      unfold findCommand updateCommand
      rw [List.find?_isSome]
      refine ⟨_, List.mem_map_of_mem hcommand, ?_⟩
      rw [if_pos hid]
      exact decide_eq_true hid
    obtain ⟨found, hfind⟩ := Option.isSome_iff_exists.mp hsome
    obtain ⟨hmem, hfoundId⟩ := findCommand_eq_some hfind
    obtain ⟨before, -, rfl⟩ := mem_updateCommand hmem
    refine ⟨_, hfind, ?_⟩
    by_cases hbefore : before.id = start.id
    · rw [if_pos hbefore]
      rfl
    · rw [if_neg hbefore] at hfoundId
      exact absurd hfoundId hbefore
  obtain ⟨command, hfind, hstatus⟩ := hfind
  cases worker with
  | claiming start' =>
    cases hrevoking
    simp only [ControlWorker.transaction, workerTransaction, hrevoked, hfind, if_true, claimControl, hstatus]
    rfl
  | completing start' reconcile =>
    cases hrevoking
    simp only [ControlWorker.transaction, workerTransaction, hrevoked, hfind, if_true, completeControl, hstatus]
    rfl
  | _ => cases hrevoking

/-- There is nothing to write for a command that is not there. -/
private theorem missing_transaction (hbegun : worker.begun = some start)
    (hmissing : ∀ command ∈ rows.commands, command.id ≠ start.id) (result : ControlRows × ControlWorker) :
    ¬ (worker.transaction reads rows).Commits result := by
  have hnone : ∀ now, findCommand start.id
      (if start.revoked then updateCommand start.id (revokeCommand now) rows.commands else rows.commands) = none := by
    intro now
    unfold findCommand
    rw [List.find?_eq_none]
    intro command hcommand hid
    rw [decide_eq_true_eq] at hid
    split at hcommand
    · obtain ⟨before, hbefore, rfl⟩ := mem_updateCommand hcommand
      rw [if_neg (hmissing before hbefore)] at hid
      exact hmissing before hbefore hid
    · exact hmissing command hcommand hid
  intro h
  cases worker with
  | claiming start' =>
    cases hbegun
    simp only [ControlWorker.transaction, workerTransaction, hnone, commits_bind] at h
    obtain ⟨_, hrollback, -⟩ := h
    exact commits_rollback _ _ hrollback
  | binding start' reconcile =>
    cases hbegun
    simp only [ControlWorker.transaction, workerTransaction, hnone, commits_bind] at h
    obtain ⟨_, hrollback, -⟩ := h
    exact commits_rollback _ _ hrollback
  | completing start' reconcile =>
    cases hbegun
    simp only [ControlWorker.transaction, workerTransaction, hnone, commits_bind] at h
    obtain ⟨_, hrollback, -⟩ := h
    exact commits_rollback _ _ hrollback
  | _ => cases hbegun

/-- The binding of a command whose access is revoked rolls back, and its revocation with it. -/
private theorem revoked_binding {reconcile : Bool} (hrevoked : start.revoked = true)
    (result : ControlRows × ControlWorker) :
    ¬ ((ControlWorker.binding start reconcile).transaction reads rows).Commits result := by
  intro h
  simp only [ControlWorker.transaction, commits_bind] at h
  obtain ⟨bound, hbind, -⟩ := h
  rcases workerTransaction_cases start reads.control.now (bindCommand reads.bindings) rows with hnone |
    ⟨-, command, -, hfailed, heq⟩ | ⟨hkept, -⟩
  · rw [hnone] at hbind
    exact commits_rollback _ _ hbind
  · rw [heq] at hbind
    unfold bindCommand at hbind
    dsimp only at hbind
    rw [hfailed, if_pos (by decide)] at hbind
    exact commits_rollback _ _ hbind
  · rw [hrevoked] at hkept
    cases hkept

private theorem begun_cases (h : worker.begun = some start) (reads : WorkerReads) :
    (∃ now, worker.revoking reads = some (start, now)) ∨ ∃ reconcile, worker = .binding start reconcile := by
  cases worker with
  | claiming start' =>
    cases h
    exact .inl ⟨_, rfl⟩
  | binding start' reconcile =>
    cases h
    exact .inr ⟨reconcile, rfl⟩
  | completing start' reconcile =>
    cases h
    exact .inl ⟨_, rfl⟩
  | _ => cases h

private theorem finish_settled (hrows : RowsInvariant system.rows) {worker : Nat} {reads : WorkerReads}
    (h : ¬ system.Revises (.finish worker reads)) :
    Settled system.rows.commands (system.finish worker reads).rows.commands := by
  by_cases hrevoked : ∃ start, (system.workers worker).begun = some start ∧ start.revoked = true
  · obtain ⟨start, hbegun, hrevoked⟩ := hrevoked
    unfold ControlSystem.finish
    dsimp only
    split
    · rename_i rows next hcommits
      split
      · rename_i hcommit
        by_cases hfound : ∃ command ∈ system.rows.commands, command.id = start.id
        · rcases begun_cases hbegun reads with ⟨now, hrevoking⟩ | ⟨reconcile, hbinding⟩
          · have hunique := Commits.unique hcommits (revoked_transaction hrevoking hrevoked hfound)
            rw [Prod.mk.injEq] at hunique
            rw [hunique.1]
            refine revoke_settled fun command hcommand hid hresolved => ?_
            by_contra hchanged
            exact h ⟨hcommit, start, now, hrevoking, hrevoked, command, hcommand, hid, hresolved, hchanged⟩
          · rw [hbinding] at hcommits
            exact absurd hcommits (revoked_binding hrevoked _)
        · refine absurd hcommits (missing_transaction hbegun (fun command hcommand hid => ?_) _)
          exact hfound ⟨command, hcommand, hid⟩
      · exact settled_refl _
    · exact settled_refl _
  · refine (ControlSystem.step_rows id hrows (.finish worker reads)).2.settled fun command _ _ hoverwrites => ?_
    obtain ⟨-, start, hbegun, -, hstart, -⟩ := hoverwrites
    exact hrevoked ⟨start, hbegun, hstart⟩

/-- One step keeps the outcomes exactly if it does not revise one. -/
private theorem step_settled (hrows : RowsInvariant system.rows) (move : ControlMove) :
    Settled system.rows.commands (system.step fingerprint move).rows.commands ↔ ¬ system.Revises move := by
  constructor
  · intro hsettled hrevises
    cases move with
    | finish worker reads =>
      obtain ⟨hcommit, start, now, hrevoking, hrevoked, command, hcommand, hid, hresolved, hchanged⟩ := hrevises
      have hcommits : ((system.workers worker).transaction reads system.rows).outcome = _ :=
        revoked_transaction hrevoking hrevoked ⟨command, hcommand, hid⟩
      unfold ControlSystem.step ControlSystem.finish at hsettled
      dsimp only at hsettled
      rw [hcommits] at hsettled
      dsimp only at hsettled
      rw [if_pos hcommit] at hsettled
      obtain ⟨command', hcommand', hid', hstatus, hreason, hcompleted⟩ := hsettled command hcommand hresolved
      obtain ⟨before, -, rfl⟩ := mem_updateCommand hcommand'
      by_cases hbefore : before.id = start.id
      · rw [if_pos hbefore] at hstatus hreason hcompleted
        exact hchanged ⟨hstatus.symm, hreason.symm, hcompleted.symm⟩
      · rw [if_neg hbefore] at hid'
        exact hbefore (hid'.trans hid)
    | _ => exact hrevises
  · intro hrevises
    cases move with
    | finish worker reads => exact finish_settled hrows hrevises
    | _ => exact (ControlSystem.step_rows fingerprint hrows _).2.settled fun _ _ _ hoverwrites => hoverwrites

end

/-! ### Runs -/

section

variable {fingerprint : String → String} {system : ControlSystem}

theorem ControlSystem.run_append (fingerprint : String → String) (system : ControlSystem)
    (moves later : List ControlMove) :
    system.run fingerprint (moves ++ later) = (system.run fingerprint moves).run fingerprint later :=
  List.foldl_append

private theorem run_settled (hrows : RowsInvariant system.rows) {moves : List ControlMove}
    (h : ∀ before move after, moves = before ++ move :: after → ¬ (system.run fingerprint before).Revises move) :
    Settled system.rows.commands (system.run fingerprint moves).rows.commands := by
  induction moves generalizing system with
  | nil => exact settled_refl _
  | cons move moves ih =>
    have hstep : Settled system.rows.commands (system.step fingerprint move).rows.commands :=
      (step_settled hrows move).mpr (h [] move moves rfl)
    refine hstep.trans (ih (ControlSystem.step_rows fingerprint hrows move).1 fun before next after heq => ?_)
    exact h (move :: before) next after (by rw [heq, List.cons_append])

end

/-- The outcomes of finished commands stay in a run exactly if no step revises one. -/
theorem finished_command_keeps_outcome (tenantOf fingerprint : String → String) (calls : List CallMove)
    (record : CallRecord) (hrecord : record ∈ (CallSystem.start.run tenantOf fingerprint calls).calls)
    (moves : List ControlMove) :
    let system := ControlSystem.start record
    (∀ before later after, moves = before ++ later ++ after →
        Settled (system.run fingerprint before).rows.commands
          (system.run fingerprint (before ++ later)).rows.commands) ↔
      ∀ before move after, moves = before ++ move :: after → ¬ (system.run fingerprint before).Revises move := by
  intro system
  have hreached : ∀ before, RowsInvariant (system.run fingerprint before).rows :=
    fun before => ControlSystem.run_rows (call_rows hrecord) before
  constructor
  · intro h before move after hmoves
    have hsettled := h before [move] after (by rw [hmoves, List.append_assoc, List.singleton_append])
    rw [ControlSystem.run_append] at hsettled
    exact (step_settled (hreached before) move).mp hsettled
  · intro h before later after hmoves
    rw [ControlSystem.run_append]
    refine run_settled (hreached before) fun first move last hlater => ?_
    rw [← ControlSystem.run_append]
    refine h (before ++ first) move (last ++ after) ?_
    rw [hmoves, hlater]
    simp only [List.append_assoc, List.cons_append]

/-- A user holds the call; the command is dispatched, and fails or is submitted. -/
def sampleHoldMoves : List ControlMove :=
  [.request sampleGrant (sampleAsk "k-1" .hold "") sampleControlReads,
    .claim 0 "k-1" true, .finish 0 sampleWorkerReads, .complete 0 true]

theorem finished_command_keeps_outcome_sample :
    ∃ record ∈ (CallSystem.start.run (fun _ => "t-1") id (sampleHandoffMoves.take 4)).calls,
      let system := ControlSystem.start record
      let moves := sampleHoldMoves ++ [.finish 0 sampleWorkerReads]
      (system.run id moves).rows.commands.any ControlCommand.resolved = true ∧
        ((∀ before later after, moves = before ++ later ++ after →
            Settled (system.run id before).rows.commands (system.run id (before ++ later)).rows.commands) ↔
          ∀ before move after, moves = before ++ move :: after → ¬ (system.run id before).Revises move) := by
  refine ⟨sampleTakenCall, List.head_mem _, by decide +kernel, ?_⟩
  exact finished_command_keeps_outcome (fun _ => "t-1") id (sampleHandoffMoves.take 4) _ (List.head_mem _) _

/-- Another worker has claimed the command, with the access revoked, before it was submitted, and fails it after. -/
theorem submitted_command_fails :
    let system := (ControlSystem.start sampleTakenCall).run id
      (sampleHoldMoves ++ [.claim 1 "k-1" false, .finish 0 sampleWorkerReads])
    let later := system.step id (.finish 1 sampleWorkerReads)
    sampleTakenCall ∈ (CallSystem.start.run (fun _ => "t-1") id (sampleHandoffMoves.take 4)).calls ∧
      system.rows.commands.map (fun command => (command.id, command.status)) = [("k-1", .submitted)] ∧
        later.rows.commands.map (fun command => (command.id, command.status, command.failureReason)) =
          [("k-1", .failed, some "access_revoked")] ∧
          ¬ Settled system.rows.commands later.rows.commands := by
  refine ⟨List.head_mem _, ?_⟩
  decide +kernel

end KComms.Telephony
