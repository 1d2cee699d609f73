import KComms.Telephony.ControlChange
import KComms.Telephony.FinishedRooms

/-!
# One unresolved command, and one blind transfer (`Telephony.Controls`)

A request is admitted only if no other command is unresolved; the two system paths need no such check, since they only
take calls that nobody has answered, and such calls have no commands.  A blind transfer is asked of the provider at
most once: only the worker whose claim found it pending gets its request.
-/

namespace KComms.Telephony

open Attempt

/-! ### The worker -/

/-- The transaction that a worker has begun. -/
def ControlWorker.begun : ControlWorker → Option WorkerStart
  | .claiming start => some start
  | .binding start _ => some start
  | .completing start _ => some start
  | _ => none

/-- The command whose request the worker has. -/
def ControlWorker.requestId : ControlWorker → Option String
  | .requested id _ => some id
  | .binding start _ => some start.id
  | .completing start _ => some start.id
  | _ => none

/-- The worker has found the access revoked, of a command that has been resolved since. -/
def ControlWorker.Overwrites (worker : ControlWorker) (rows : ControlRows) (id : String) : Prop :=
  ∃ start, worker.begun = some start ∧ start.id = id ∧ start.revoked = true ∧
    ∃ command ∈ rows.commands, command.id = id ∧ command.resolved = true

variable {start : WorkerStart} {command : ControlCommand} {worker next : ControlWorker} {reads : WorkerReads}
  {rows rows' : ControlRows} {revoked : String → Prop} {fingerprint : String → String} {system : ControlSystem}

private theorem unresolved_of_not_resolved (h : ¬ command.resolved = true) :
    command.status.unresolved = true := by
  unfold ControlCommand.resolved at h
  cases hstatus : command.status with
  | submitted => simp [hstatus] at h
  | failed => simp [hstatus] at h
  | _ => rfl

private theorem revoke_update (hbegun : worker.begun = some start) (hrevoked : start.revoked = true) (now : Int) :
    CommandsUpdate (worker.Overwrites rows) rows.commands
      (updateCommand start.id (revokeCommand now) rows.commands) := by
  refine .updated _ _ fun command hcommand hid => ?_
  by_cases hresolved : command.resolved = true
  · exact .overwritten now ⟨start, hbegun, rfl, hrevoked, command, hcommand, hid, hresolved⟩
  · exact .closed (unresolved_of_not_resolved hresolved) (.inr (.inl rfl))

/-- A transaction that leaves resolved commands alone. -/
private theorem worker_commits {α : Type} {now : Int} {result : α}
    {transaction : ControlCommand → ControlRows → ControlTransaction (ControlRows × α)}
    (hids : (rows.commands.map ControlCommand.id).Nodup) (hbegun : worker.begun = some start)
    (hspec : ∀ (revoked : Prop) command rows rows', (transaction command rows).Commits (rows', result) →
      rows'.commands = rows.commands ∨ command.status.unresolved = true ∧ ∃ command',
        CommandStep revoked command command' ∧ rows'.commands = (rows.put command').commands)
    (h : (workerTransaction start now transaction rows).Commits (rows', result)) :
    CommandsUpdate (worker.Overwrites rows) rows.commands rows'.commands := by
  rcases workerTransaction_cases start now transaction rows with hnone | ⟨hrevoked, command, -, hfailed, heq⟩ |
    ⟨-, command, hcommand, -, heq⟩
  · rw [hnone] at h
    exact absurd h (commits_rollback _ _)
  · rw [heq] at h
    rcases hspec False _ _ _ h with hsame | ⟨hopen, -⟩
    · rw [hsame]
      exact revoke_update hbegun hrevoked now
    · rw [hfailed] at hopen
      cases hopen
  · rw [heq] at h
    rcases hspec (worker.Overwrites rows command.id) _ _ _ h with hsame | ⟨-, command', hstep, hput⟩
    · rw [hsame]
      exact .kept
    · rw [hput]
      unfold ControlRows.put
      rw [hstep.same.1]
      exact .put hids hcommand hstep

private theorem claim_spec {reads : ControlReads} {result : ClaimResult} (revoked : Prop) (command : ControlCommand)
    (rows rows' : ControlRows) (h : (claimControl reads command rows).Commits (rows', result)) :
    rows'.commands = rows.commands ∨ command.status.unresolved = true ∧ ∃ command',
      CommandStep revoked command command' ∧ rows'.commands = (rows.put command').commands := by
  rcases claimControl_commits revoked h with ⟨rfl, -⟩ | ⟨hopen, command', hstep, rfl, -⟩
  · exact .inl rfl
  · exact .inr ⟨hopen, command', hstep, rfl⟩

private theorem complete_spec {reconcile result : Bool} {reads : CompleteReads} (revoked : Prop)
    (command : ControlCommand) (rows rows' : ControlRows)
    (h : (completeControl reconcile reads command rows).Commits (rows', result)) :
    rows'.commands = rows.commands ∨ command.status.unresolved = true ∧ ∃ command',
      CommandStep revoked command command' ∧ rows'.commands = (rows.put command').commands := by
  rcases completeControl_commits revoked h with rfl | ⟨hopen, command', hstep, hput, -⟩
  · exact .inl rfl
  · exact .inr ⟨hopen, command', hstep, hput⟩

/-- The transactions of a worker write nothing of the call but what `bindControl` writes. -/
private def SameCall (record record' : CallRecord) : Prop :=
  record' = record ∨ ∃ controlState pbxState, record' = bindControl controlState pbxState record

private theorem worker_record {α : Type} {now : Int} {result : α}
    {transaction : ControlCommand → ControlRows → ControlTransaction (ControlRows × α)}
    (hspec : ∀ command rows rows', (transaction command rows).Commits (rows', result) →
      SameCall rows.record rows'.record)
    (h : (workerTransaction start now transaction rows).Commits (rows', result)) : SameCall rows.record rows'.record := by
  rcases workerTransaction_cases start now transaction rows with hnone | ⟨-, command, -, -, heq⟩ |
    ⟨-, command, -, -, heq⟩
  · rw [hnone] at h
    exact absurd h (commits_rollback _ _)
  · rw [heq] at h
    have hrecord := hspec _ _ _ h
    exact hrecord
  · rw [heq] at h
    exact hspec _ _ _ h

/-- What the second step of a transaction commits. -/
private theorem transaction_commits (hids : (rows.commands.map ControlCommand.id).Nodup)
    (h : (worker.transaction reads rows).Commits (rows', next)) :
    CommandsUpdate (worker.Overwrites rows) rows.commands rows'.commands ∧ SameCall rows.record rows'.record := by
  cases worker with
  | idle => exact absurd h (commits_rollback _ _)
  | requested id reconcile => exact absurd h (commits_rollback _ _)
  | claiming start =>
    simp only [ControlWorker.transaction, commits_bind] at h
    obtain ⟨⟨rows₁, result⟩, hclaim, h⟩ := h
    have hrows : rows' = rows₁ := by
      cases result <;> exact (Prod.mk.inj ((commits_pure _ _).mp h)).1.symm
    subst hrows
    refine ⟨worker_commits hids rfl claim_spec hclaim, worker_record (fun command rows rows' hspec => ?_) hclaim⟩
    rcases claimControl_commits False hspec with ⟨rfl, -⟩ | ⟨-, command', -, rfl, -⟩
    · exact .inl rfl
    · exact .inl rfl
  | binding start reconcile =>
    simp only [ControlWorker.transaction, commits_bind] at h
    obtain ⟨⟨rows₁, result⟩, hbind, h⟩ := h
    have hrows : rows' = rows₁ := (Prod.mk.inj ((commits_pure _ _).mp h)).1.symm
    subst hrows
    refine ⟨worker_commits hids rfl (fun _ command rows rows' hspec => .inl (bindCommand_commits hspec).1) hbind,
      worker_record (fun command rows rows' hspec => ?_) hbind⟩
    exact .inr ⟨_, _, (bindCommand_commits hspec).2⟩
  | completing start reconcile =>
    simp only [ControlWorker.transaction, commits_bind] at h
    obtain ⟨⟨rows₁, result⟩, hcomplete, h⟩ := h
    have hrows : rows' = rows₁ := (Prod.mk.inj ((commits_pure _ _).mp h)).1.symm
    subst hrows
    refine ⟨worker_commits hids rfl complete_spec hcomplete,
      worker_record (fun command rows rows' hspec => ?_) hcomplete⟩
    rcases completeControl_commits False hspec with rfl | ⟨-, command', -, -, hrecord⟩
    · exact .inl rfl
    · rcases hrecord with hsame | ⟨controlState, pbxState, heq⟩
      · exact .inl hsame
      · exact .inr ⟨some controlState, pbxState, heq⟩

/-! ### At most one unresolved command -/

/-- A call that waits or is in a menu has no commands, and at most one command keeps others from being admitted. -/
structure RowsInvariant (rows : ControlRows) : Prop where
  core : CoreInvariant rows.record.call.core rows.record.ivr
  routed : rows.commands ≠ [] → rows.record.call.routingStatus ≠ .waiting ∧ rows.record.call.routingStatus ≠ .ivr
  ids : (rows.commands.map ControlCommand.id).Nodup
  single : rows.commands.countP ControlCommand.blocking ≤ 1

private theorem CommandsUpdate.nil (h : CommandsUpdate revoked [] rows.commands) : rows.commands = [] := by
  have hids := h.ids
  rw [List.map_nil, List.map_eq_nil_iff] at hids
  exact hids

private theorem RowsInvariant.change (inv : RowsInvariant rows)
    (hcommands : CommandsChange revoked rows.commands rows'.commands)
    (hcore : CoreInvariant rows'.record.call.core rows'.record.ivr)
    (hrouted : rows'.commands ≠ [] → rows'.record.call.routingStatus ≠ .waiting ∧
      rows'.record.call.routingStatus ≠ .ivr) : RowsInvariant rows' := by
  refine ⟨hcore, hrouted, ?_, ?_⟩
  · generalize rows'.commands = commands' at hcommands
    cases hcommands with
    | updated update =>
      rw [update.ids]
      exact inv.ids
    | inserted update fresh unblocked =>
      rw [List.map_cons, List.nodup_cons, update.ids]
      refine ⟨fun hmem => ?_, inv.ids⟩
      rw [← update.ids, List.mem_map] at hmem
      obtain ⟨other, hother, hid⟩ := hmem
      exact fresh other hother hid
  · generalize rows'.commands = commands' at hcommands
    cases hcommands with
    | updated update => exact Nat.le_trans update.countP_le inv.single
    | inserted update fresh unblocked =>
      have hnone : List.countP ControlCommand.blocking _ = 0 := List.countP_eq_zero.mpr fun other hother => by
        rw [unblocked other hother]
        exact Bool.false_ne_true
      rw [List.countP_cons, hnone]
      split <;> omega

private theorem CallChange.routed {free : String → Prop} {core core' : CallCore} {ivr ivr' : Option IvrRun}
    (h : CallChange free core ivr core' ivr')
    (hrouted : core.routingStatus ≠ .waiting ∧ core.routingStatus ≠ .ivr) :
    core'.routingStatus ≠ .waiting ∧ core'.routingStatus ≠ .ivr := by
  cases h with
  | @claimed userId sessionId routing expiresAt before unparked still own first earlier =>
    constructor
    · intro hrouting
      rw [show routing = .waiting from hrouting] at still
      cases still
    · intro hrouting
      rw [show routing = .ivr from hrouting] at still
      cases still
  | offered before waiting unused => exact absurd waiting hrouted.1
  | captured before waiting within => exact absurd waiting hrouted.1
  | _ => exact hrouted

/-- A transaction on the row of the call that leaves the commands alone. -/
private theorem RowsInvariant.record (inv : RowsInvariant rows) {command : CallCommand} {record : CallRecord}
    (h : command.apply rows.record = some record) : RowsInvariant { rows with record := record } := by
  have hchange := apply_changes h
  exact inv.change (.updated (.kept : CommandsUpdate (fun _ => False) _ _)) (CallChange.coreInvariant hchange inv.core) fun hsome =>
    CallChange.routed hchange (inv.routed hsome)

/-- Outside of a menu, its transactions leave the routing of the call alone. -/
private theorem IvrCommit.routing {input : IvrInput} {reads : IvrReads} {call call' : Call} {run run' : IvrRun}
    (h : IvrCommit input reads call run call' run') (inv : CoreInvariant call.core (some run))
    (hrouting : call.routingStatus ≠ .ivr) : call'.routingStatus = call.routingStatus := by
  cases h with
  | kept => rfl
  | cancelled completedAt live inactive => rfl
  | guarded reason timestamp live active => rfl
  | operated live active machine phase within => exact absurd (inv.menu run rfl live active) hrouting
  | closed timestamp live active machine phase active' => exact absurd (inv.menu run rfl live active) hrouting

/-! ### Every move -/

/-- The move overwrites the outcome of a resolved command. -/
def ControlSystem.Overwrites (system : ControlSystem) : ControlMove → String → Prop
  | .finish worker reads, id => reads.commits = true ∧ (system.workers worker).Overwrites system.rows id
  | _, _ => False

private def Steps (revoked : String → Prop) (rows rows' : ControlRows) : Prop :=
  RowsInvariant rows' ∧ CommandsChange revoked rows.commands rows'.commands

private theorem steps_refl (inv : RowsInvariant rows) :
    Steps revoked rows rows := ⟨inv, .updated .kept⟩

private theorem steps_update (inv : RowsInvariant rows)
    (h : rows'.record = rows.record ∧ CommandsUpdate revoked rows.commands rows'.commands) :
    Steps revoked rows rows' := by
  obtain ⟨hrecord, hupdate⟩ := h
  have hcommands : CommandsChange revoked rows.commands rows'.commands := .updated hupdate
  refine ⟨inv.change hcommands ?_ fun hsome => ?_, hcommands⟩
  · rw [hrecord]
    exact inv.core
  · rw [hrecord]
    refine inv.routed fun hnone => hsome ?_
    rw [hnone] at hupdate
    exact hupdate.nil

private theorem steps_commit (inv : RowsInvariant system.rows) {rows : Option ControlRows}
    (h : ∀ rows', rows = some rows' → Steps revoked system.rows rows') :
    Steps revoked system.rows (system.commit rows).rows := by
  cases rows with
  | none => exact steps_refl inv
  | some rows' => exact h rows' rfl

private theorem request_steps {grant : Grant} {asked : ControlAsk} {reads : ControlReads} (inv : RowsInvariant rows)
    (h : requestControl grant asked reads rows = some rows') : Steps revoked rows rows' := by
  rcases requestControl_change inv.ids h with rfl | ⟨hanswered, hrecord, hcommands⟩
  · exact steps_refl inv
  have hmonitored : (CallCommand.captureMonitor reads.recordingDeadline).apply rows.record =
      some (captureMonitor reads.recordingDeadline rows.record) := rfl
  have htaken := inv.core.taken (.inl hanswered)
  refine ⟨inv.change hcommands ?_ fun _ => ?_, hcommands⟩
  · rcases hrecord with hrecord | hrecord
    · rw [hrecord]
      exact inv.core
    · rw [hrecord]
      exact (inv.record hmonitored).core
  · rcases hrecord with hrecord | hrecord
    · rw [hrecord]
      exact htaken.2
    · rw [hrecord]
      exact CallChange.routed (apply_changes hmonitored) htaken.2

private theorem insert_first {commands commands' : List ControlCommand} (hnone : commands = [])
    (h : insertCommand command commands = some commands') :
    CommandsChange revoked commands commands' := by
  obtain ⟨heq, hfresh⟩ := insertCommand_eq_some h
  rw [heq]
  refine .inserted .kept hfresh ?_
  rw [hnone]
  exact List.forall_mem_nil _

private theorem queueVoicemail_steps {id userId hash : String} {reads : ControlReads} (inv : RowsInvariant rows)
    (h : queueVoicemailCommand id userId hash reads rows = some rows') : Steps revoked rows rows' := by
  obtain ⟨hwaiting, queued, hqueue, hcommands⟩ := queueVoicemailCommand_change h
  have hnone : rows.commands = [] := by
    by_contra hsome
    exact (inv.routed hsome).1 hwaiting
  have happly : (CallCommand.queueVoicemail userId reads.recordingDeadline reads.now queued).apply rows.record =
      some rows'.record := hqueue
  have hcore := (inv.record happly).core
  rcases hcommands with hsame | ⟨hvoicemail, command, hinsert⟩
  · have hkept : CommandsChange revoked rows.commands rows'.commands := by
      rw [hsame]
      exact .updated .kept
    refine ⟨inv.change hkept hcore fun hsome => ?_, hkept⟩
    rw [hsame] at hsome
    exact absurd hnone hsome
  · have hinserted : CommandsChange revoked rows.commands rows'.commands := insert_first hnone hinsert
    refine ⟨inv.change hinserted hcore fun _ => ?_, hinserted⟩
    rw [hvoicemail]
    exact ⟨RoutingStatus.noConfusion, RoutingStatus.noConfusion⟩

private theorem menu_steps {work : IvrWork} {reads : IvrReads} {id hash : String} {receipts : List IvrEventReceipt}
    (inv : RowsInvariant system.rows)
    (h : menuTransaction fingerprint work reads id hash system = some (rows', receipts)) :
    Steps revoked system.rows rows' := by
  unfold menuTransaction at h
  split at h
  · cases h
  rename_i run hrun
  split at h
  · cases h
  rename_i rows result hcommits
  have hinv := inv.core
  rw [hrun] at hinv
  obtain ⟨input, hcommit⟩ := IvrWork.commits hcommits
  have hcore := hcommit.coreInvariant hinv
  dsimp only at h
  split at h
  · rename_i hcaptured
    rw [Option.map_eq_some_iff] at h
    obtain ⟨commands, hinsert, hrows⟩ := h
    cases hrows
    have hnone : system.rows.commands = [] := by
      by_contra hsome
      have hsame := hcommit.routing hinv (inv.routed hsome).2
      exact hcaptured.2 (hsame.symm.trans hcaptured.1)
    have hinserted : CommandsChange revoked system.rows.commands commands :=
      insert_first hnone hinsert
    refine ⟨inv.change hinserted hcore fun _ => ?_, hinserted⟩
    dsimp only
    rw [hcaptured.1]
    exact ⟨RoutingStatus.noConfusion, RoutingStatus.noConfusion⟩
  · cases h
    have hkept : CommandsChange revoked system.rows.commands system.rows.commands := .updated .kept
    refine ⟨inv.change hkept hcore fun hsome => ?_, hkept⟩
    have hrouted := inv.routed hsome
    have hsame := hcommit.routing hinv hrouted.2
    dsimp only
    rw [hsame]
    exact hrouted

private theorem finish_steps (inv : RowsInvariant system.rows) (worker : Nat) (reads : WorkerReads) :
    Steps (system.Overwrites (.finish worker reads)) system.rows (system.finish worker reads).rows := by
  unfold ControlSystem.finish
  dsimp only
  split
  · rename_i rows next hcommits
    split
    · rename_i hcommit
      obtain ⟨hupdate, hrecord⟩ := transaction_commits inv.ids hcommits
      have hcommands : CommandsChange (system.Overwrites (.finish worker reads)) system.rows.commands rows.commands :=
        .updated (hupdate.mono fun id hover => ⟨hcommit, hover⟩)
      have hsame : rows.record.call.core = system.rows.record.call.core ∧ rows.record.ivr = system.rows.record.ivr := by
        rcases hrecord with heq | ⟨controlState, pbxState, heq⟩ <;> rw [heq] <;> exact ⟨rfl, rfl⟩
      refine ⟨inv.change hcommands ?_ fun hsome => ?_, hcommands⟩
      · rw [hsame.1, hsame.2]
        exact inv.core
      · have hrouted := inv.routed fun hnone => hsome (by rw [hnone] at hupdate; exact hupdate.nil)
        have hrouting : rows.record.call.routingStatus = system.rows.record.call.routingStatus :=
          congrArg CallCore.routingStatus hsame.1
        rw [hrouting]
        exact hrouted
    · exact steps_refl inv
  · exact steps_refl inv

theorem ControlSystem.step_rows (fingerprint : String → String) (inv : RowsInvariant system.rows)
    (move : ControlMove) :
    RowsInvariant (system.step fingerprint move).rows ∧
      CommandsChange (system.Overwrites move) system.rows.commands (system.step fingerprint move).rows.commands := by
  cases move with
  | lifecycle command =>
    refine steps_commit inv fun rows' h => ?_
    rw [Option.map_eq_some_iff] at h
    obtain ⟨record, happly, rfl⟩ := h
    exact ⟨inv.record happly, .updated .kept⟩
  | menu work reads id hash =>
    unfold ControlSystem.step
    dsimp only
    split
    · rename_i rows receipts hmenu
      exact menu_steps inv hmenu
    · exact steps_refl inv
  | request grant asked reads => exact steps_commit inv fun rows' h => request_steps inv h
  | completeBrowser grant id submitted now =>
    exact steps_commit inv fun rows' h => steps_update inv (completeBrowser_change inv.ids h)
  | reconcile grant id reads =>
    exact steps_commit inv fun rows' h => steps_update inv (reconcileControl_change inv.ids h)
  | queueVoicemail id userId hash reads => exact steps_commit inv fun rows' h => queueVoicemail_steps inv h
  | notice now => exact steps_commit inv fun rows' h => steps_update inv (noticeCompleted_change h)
  | claim worker id authorized =>
    unfold ControlSystem.step
    dsimp only
    split <;> exact steps_refl inv
  | bind worker authorized =>
    unfold ControlSystem.step
    dsimp only
    split <;> exact steps_refl inv
  | complete worker authorized =>
    unfold ControlSystem.step
    dsimp only
    split <;> exact steps_refl inv
  | finish worker reads => exact finish_steps inv worker reads
  | crash worker => exact steps_refl inv

/-! ### A blind transfer is executed once -/

/-- How often the provider was asked to execute the command. -/
def ControlSystem.executions (system : ControlSystem) (id : String) : Nat := system.executed.countP (·.id = id)

/-- The request of a blind transfer is with at most one worker, and only before it has been executed. -/
private structure OnceInvariant (system : ControlSystem) : Prop where
  held : ∀ worker id, (system.workers worker).requestId = some id → ∃ command ∈ system.rows.commands, command.id = id
  called : ∀ execution ∈ system.executed, ∃ command ∈ system.rows.commands, command.id = execution.id
  pending : ∀ command ∈ system.rows.commands, command.action = .blindTransfer → command.status = .pending →
    (∀ worker, (system.workers worker).requestId ≠ some command.id) ∧ system.executions command.id = 0
  exclusive : ∀ command ∈ system.rows.commands, command.action = .blindTransfer → ∀ worker,
    (system.workers worker).requestId = some command.id →
      system.executions command.id = 0 ∧ ∀ other, (system.workers other).requestId = some command.id → other = worker
  once : ∀ command ∈ system.rows.commands, command.action = .blindTransfer → system.executions command.id ≤ 1

/-- A claim gives a request that nobody has: that of a command that may be repeated, or that was pending until now. -/
private def Granted (commands commands' : List ControlCommand) (id : String) : Prop :=
  ∃ command ∈ commands, command.id = id ∧ (command.action ≠ .blindTransfer ∨
    command.status = .pending ∧ ∃ command' ∈ commands', command'.id = id ∧ command'.status = .dispatching)

private theorem claim_request {reads : ControlReads} {reconcile : Bool}
    (h : (workerTransaction start reads.now (claimControl reads) rows).Commits (rows', .request reconcile)) :
    Granted rows.commands rows'.commands start.id := by
  rcases workerTransaction_cases start reads.now (claimControl reads) rows with hnone |
    ⟨-, command, -, hfailed, heq⟩ | ⟨-, command, hcommand, hid, heq⟩
  · rw [hnone] at h
    exact absurd h (commits_rollback _ _)
  · rw [heq] at h
    rcases claimControl_commits False h with ⟨-, hresolved, -⟩ | ⟨hopen, -⟩
    · refine absurd rfl (hresolved ?_ reconcile)
      simp [ControlCommand.resolved, hfailed]
    · rw [hfailed] at hopen
      cases hopen
  · rw [heq] at h
    refine ⟨command, hcommand, hid, ?_⟩
    rcases claimControl_commits False h with ⟨-, -, hrepeatable⟩ | ⟨-, command', hstep, rfl, hpending⟩
    · exact .inl (hrepeatable reconcile rfl).2
    · obtain ⟨hbefore, hafter⟩ := hpending reconcile rfl
      have hsame := hstep.same.1
      refine .inr ⟨hbefore, command', ?_, hsame.trans hid, hafter⟩
      unfold ControlRows.put updateCommand
      rw [List.mem_map]
      refine ⟨command, hcommand, ?_⟩
      rw [if_pos hsame.symm]

private theorem transaction_request (h : (worker.transaction reads rows).Commits (rows', next)) {id : String}
    (hid : next.requestId = some id) :
    worker.requestId = some id ∨ Granted rows.commands rows'.commands id := by
  cases worker with
  | idle => exact absurd h (commits_rollback _ _)
  | requested id reconcile => exact absurd h (commits_rollback _ _)
  | claiming start =>
    simp only [ControlWorker.transaction, commits_bind] at h
    obtain ⟨⟨rows₁, result⟩, hclaim, h⟩ := h
    cases result with
    | request reconcile =>
      have hpair := (commits_pure _ _).mp h
      rw [Prod.mk.injEq] at hpair
      obtain ⟨rfl, rfl⟩ := hpair
      cases hid
      exact .inr (claim_request hclaim)
    | _ =>
      have hpair := (commits_pure _ _).mp h
      rw [Prod.mk.injEq] at hpair
      rw [← hpair.2] at hid
      cases hid
  | binding start reconcile =>
    simp only [ControlWorker.transaction, commits_bind] at h
    obtain ⟨result, -, h⟩ := h
    have hpair := (commits_pure _ _).mp h
    rw [Prod.mk.injEq] at hpair
    rw [← hpair.2] at hid
    exact .inl hid
  | completing start reconcile =>
    simp only [ControlWorker.transaction, commits_bind] at h
    obtain ⟨result, -, h⟩ := h
    have hpair := (commits_pure _ _).mp h
    rw [Prod.mk.injEq] at hpair
    rw [← hpair.2] at hid
    cases hid

private theorem worker_quiet {α : Type} {now : Int}
    {transaction : ControlCommand → ControlRows → ControlTransaction (ControlRows × α)}
    (h : ∀ command rows, (transaction command rows).effects = []) :
    (workerTransaction start now transaction rows).effects = [] := by
  rcases workerTransaction_cases start now transaction rows with heq | ⟨-, command, -, -, heq⟩ | ⟨-, command, -, -, heq⟩
  · rw [heq]
    rfl
  · rw [heq]
    exact h _ _
  · rw [heq]
    exact h _ _

/-- Only a completing worker asks the provider, once, and then its job is at its end. -/
private theorem transaction_effects (worker : ControlWorker) (reads : WorkerReads) (rows : ControlRows) :
    (worker.transaction reads rows).effects = [] ∨
      ∃ execution, (worker.transaction reads rows).effects = [execution] ∧ worker.requestId = some execution.id ∧
        ∀ rows' next, (worker.transaction reads rows).Commits (rows', next) → next.requestId = none := by
  cases worker with
  | idle => exact .inl rfl
  | requested id reconcile => exact .inl rfl
  | claiming start =>
    refine .inl ((effects_bind_silent fun result => ?_).trans (worker_quiet (claimControl_effects reads.control)))
    obtain ⟨rows, result⟩ := result
    cases result <;> rfl
  | binding start reconcile =>
    exact .inl ((effects_bind_silent fun result => rfl).trans (worker_quiet (bindCommand_effects reads.bindings)))
  | completing start reconcile =>
    have heffects : ((ControlWorker.completing start reconcile).transaction reads rows).effects =
        (workerTransaction start reads.complete.now (completeControl reconcile reads.complete) rows).effects :=
      effects_bind_silent fun result => rfl
    rw [heffects]
    rcases workerTransaction_cases start reads.complete.now (completeControl reconcile reads.complete) rows with heq |
      ⟨-, command, -, hfailed, heq⟩ | ⟨-, command, -, hid, heq⟩
    · rw [heq]
      exact .inl rfl
    · rw [heq]
      refine (completeControl_effects reconcile reads.complete command _).imp_right fun hdispatching => ?_
      rw [hfailed] at hdispatching
      cases hdispatching.1
    · rw [heq]
      refine (completeControl_effects reconcile reads.complete command rows).imp_right fun h => ?_
      refine ⟨_, h.2, congrArg some hid.symm, fun rows' next hcommits => ?_⟩
      simp only [ControlWorker.transaction, commits_bind] at hcommits
      obtain ⟨result, -, hcommits⟩ := hcommits
      have hpair := (commits_pure _ _).mp hcommits
      rw [Prod.mk.injEq] at hpair
      rw [← hpair.2]
      rfl

/-! ### Every move keeps it -/

section

variable {commands commands' : List ControlCommand}

/-- Each command after a change is new, or it comes from one before it. -/
private theorem CommandsChange.origin (h : CommandsChange revoked commands commands') {command' : ControlCommand}
    (hcommand' : command' ∈ commands') :
    (∀ other ∈ commands, other.id ≠ command'.id) ∨ ∃ command ∈ commands, command.id = command'.id ∧
      command.action = command'.action ∧ (command'.status = .pending → command.status = .pending) := by
  have hupdated : ∀ commands', CommandsUpdate revoked commands commands' → command' ∈ commands' →
      ∃ command ∈ commands, command.id = command'.id ∧ command.action = command'.action ∧
        (command'.status = .pending → command.status = .pending) := by
    intro commands' update hmem
    obtain ⟨command, hcommand, step⟩ := update.of_mem hmem
    exact ⟨command, hcommand, step.same.1.symm, step.same.2.symm, step.pending⟩
  cases h with
  | updated update => exact .inr (hupdated _ update hcommand')
  | inserted update fresh unblocked =>
    rcases List.mem_cons.mp hcommand' with rfl | hmem
    · refine .inl fun other hother hid => ?_
      obtain ⟨other', hother', step⟩ := update.mem hother
      exact fresh other' hother' (step.same.1.trans hid)
    · exact .inr (hupdated _ update hmem)

private theorem CommandsChange.remains (h : CommandsChange revoked commands commands') {id : String}
    (hid : ∃ command ∈ commands, command.id = id) : ∃ command' ∈ commands', command'.id = id := by
  obtain ⟨command, hcommand, rfl⟩ := hid
  cases h with
  | updated update =>
    obtain ⟨command', hcommand', step⟩ := update.mem hcommand
    exact ⟨command', hcommand', step.same.1⟩
  | inserted update fresh unblocked =>
    obtain ⟨command', hcommand', step⟩ := update.mem hcommand
    exact ⟨command', List.mem_cons_of_mem _ hcommand', step.same.1⟩

/-- A claim that gives the request of a blind transfer has found it pending. -/
private theorem Granted.claimed (hids : (commands.map ControlCommand.id).Nodup)
    (hids' : (commands'.map ControlCommand.id).Nodup) {command' : ControlCommand} (hcommand : command ∈ commands)
    (hcommand' : command' ∈ commands') (hid : command.id = command'.id) (haction : command.action = .blindTransfer)
    (h : Granted commands commands' command'.id) : command.status = .pending ∧ command'.status = .dispatching := by
  obtain ⟨found, hfound, hfoundId, hrepeatable⟩ := h
  obtain rfl := List.inj_on_of_nodup_map hids hfound hcommand (hfoundId.trans hid.symm)
  rcases hrepeatable with hrepeatable | ⟨hpending, found', hfound', hfoundId', hdispatching⟩
  · exact absurd haction hrepeatable
  · obtain rfl := List.inj_on_of_nodup_map hids' hfound' hcommand' hfoundId'
    exact ⟨hpending, hdispatching⟩

end

/-- A step of one worker on the commands: what it asks of the provider is what it had the request for. -/
private theorem OnceInvariant.advance (inv : OnceInvariant system) {receipts : List IvrEventReceipt} {worker : Nat}
    {effects : List ControlExecution} (hids : (system.rows.commands.map ControlCommand.id).Nodup)
    (hids' : (rows.commands.map ControlCommand.id).Nodup)
    (hchange : CommandsChange revoked system.rows.commands rows.commands)
    (hnext : ∀ id, next.requestId = some id →
      (system.workers worker).requestId = some id ∨ Granted system.rows.commands rows.commands id)
    (heffects : effects = [] ∨ ∃ execution, effects = [execution] ∧
      (system.workers worker).requestId = some execution.id ∧ next.requestId = none) :
    OnceInvariant
      { rows := rows
        receipts := receipts
        workers := Function.update system.workers worker next
        executed := system.executed ++ effects } := by
  have hholder : ∀ other id, (Function.update system.workers worker next other).requestId = some id →
      (system.workers other).requestId = some id ∨
        other = worker ∧ Granted system.rows.commands rows.commands id := by
    intro other id hother
    by_cases hsame : other = worker
    · subst hsame
      rw [Function.update_self] at hother
      exact (hnext id hother).imp_right fun hgranted => ⟨rfl, hgranted⟩
    · rw [Function.update_of_ne hsame] at hother
      exact .inl hother
  have hasked : ∀ execution ∈ effects, (system.workers worker).requestId = some execution.id ∧
      next.requestId = none := by
    rcases heffects with rfl | ⟨execution, rfl, hasked⟩
    · exact List.forall_mem_nil _
    · exact List.forall_mem_singleton.mpr hasked
  -- an effect for a command has a worker that had its request
  have hunasked : ∀ id, (system.workers worker).requestId ≠ some id → effects.countP (·.id = id) = 0 := by
    intro id hne
    refine List.countP_eq_zero.mpr fun execution hexecution hid => hne ?_
    rw [(hasked execution hexecution).1, of_decide_eq_true hid]
  have hexecutions : ∀ id, (system.executed ++ effects).countP (·.id = id) =
      system.executions id + effects.countP (·.id = id) := fun id => List.countP_append
  have hunknown : ∀ id, (∀ other ∈ system.rows.commands, other.id ≠ id) →
      (∀ other, (system.workers other).requestId ≠ some id) ∧ system.executions id = 0 := by
    intro id hfresh
    constructor
    · intro other hother
      obtain ⟨command, hcommand, hid⟩ := inv.held other id hother
      exact hfresh command hcommand hid
    · refine List.countP_eq_zero.mpr fun execution hexecution hid => ?_
      obtain ⟨command, hcommand, hsame⟩ := inv.called execution hexecution
      exact hfresh command hcommand (hsame.trans (of_decide_eq_true hid))
  have hungranted : ∀ id, (∀ other ∈ system.rows.commands, other.id ≠ id) →
      ¬ Granted system.rows.commands rows.commands id := by
    rintro id hfresh ⟨command, hcommand, hid, -⟩
    exact hfresh command hcommand hid
  refine ⟨?_, ?_, ?_, ?_, ?_⟩
  · intro other id hother
    rcases hholder other id hother with hold | ⟨-, command, hcommand, hid, -⟩
    · exact hchange.remains (inv.held other id hold)
    · exact hchange.remains ⟨command, hcommand, hid⟩
  · intro execution hexecution
    rcases List.mem_append.mp hexecution with hold | hnew
    · exact hchange.remains (inv.called execution hold)
    · exact hchange.remains (inv.held worker execution.id (hasked execution hnew).1)
  · intro command' hcommand' haction hpending
    have hquiet : (∀ other, (system.workers other).requestId ≠ some command'.id) ∧
        system.executions command'.id = 0 ∧ ¬ Granted system.rows.commands rows.commands command'.id := by
      rcases hchange.origin hcommand' with hfresh | ⟨command, hcommand, hid, hsame, hbefore⟩
      · exact ⟨(hunknown _ hfresh).1, (hunknown _ hfresh).2, hungranted _ hfresh⟩
      · have hquiet := inv.pending command hcommand (hsame.trans haction) (hbefore hpending)
        rw [hid] at hquiet
        refine ⟨hquiet.1, hquiet.2, fun hgranted => ?_⟩
        have hclaimed := hgranted.claimed hids hids' hcommand hcommand' hid (hsame.trans haction)
        rw [hpending] at hclaimed
        cases hclaimed.2
    obtain ⟨hfree, hzero, hungranted⟩ := hquiet
    constructor
    · intro other hother
      rcases hholder other _ hother with hold | ⟨-, hgranted⟩
      · exact hfree other hold
      · exact hungranted hgranted
    · change (system.executed ++ effects).countP (·.id = command'.id) = 0
      rw [hexecutions, hzero, hunasked _ (hfree worker)]
  · intro command' hcommand' haction holder hheld
    change _ = some command'.id at hheld
    change (system.executed ++ effects).countP (·.id = command'.id) = 0 ∧ _
    rw [hexecutions]
    rcases hchange.origin hcommand' with hfresh | ⟨command, hcommand, hid, hsame, -⟩
    · rcases hholder holder _ hheld with hold | ⟨-, hgranted⟩
      · exact absurd hold ((hunknown _ hfresh).1 holder)
      · exact absurd hgranted (hungranted _ hfresh)
    have hclaimed : Granted system.rows.commands rows.commands command'.id →
        (∀ other, (system.workers other).requestId ≠ some command'.id) ∧ system.executions command'.id = 0 := by
      intro hgranted
      have hpending := (hgranted.claimed hids hids' hcommand hcommand' hid (hsame.trans haction)).1
      have hquiet := inv.pending command hcommand (hsame.trans haction) hpending
      rw [hid] at hquiet
      exact hquiet
    rcases hholder holder _ hheld with hold | ⟨rfl, hgranted⟩
    · have hexclusive := inv.exclusive command hcommand (hsame.trans haction) holder
      rw [hid] at hexclusive
      obtain ⟨hzero, honly⟩ := hexclusive hold
      constructor
      · rw [hzero, Nat.zero_add]
        -- were it asked now, the holder would be the worker that asks, whose job is at its end
        refine List.countP_eq_zero.mpr fun execution hexecution hexecutionId => ?_
        obtain ⟨hasker, hend⟩ := hasked execution hexecution
        rw [of_decide_eq_true hexecutionId] at hasker
        obtain rfl := honly worker hasker
        change (Function.update system.workers worker next worker).requestId = _ at hheld
        rw [Function.update_self, hend] at hheld
        cases hheld
      · intro other hother
        rcases hholder other _ hother with hothers | ⟨-, hgranted⟩
        · exact honly other hothers
        · exact absurd hold ((hclaimed hgranted).1 holder)
    · obtain ⟨hfree, hzero⟩ := hclaimed hgranted
      refine ⟨by rw [hzero, hunasked _ (hfree holder)], fun other hother => ?_⟩
      rcases hholder other _ hother with hothers | ⟨hsame, -⟩
      · exact absurd hothers (hfree other)
      · exact hsame
  · intro command' hcommand' haction
    change (system.executed ++ effects).countP (·.id = command'.id) ≤ 1
    rw [hexecutions]
    rcases hchange.origin hcommand' with hfresh | ⟨command, hcommand, hid, hsame, -⟩
    · obtain ⟨hfree, hzero⟩ := hunknown _ hfresh
      rw [hzero, hunasked _ (hfree worker)]
      exact Nat.zero_le 1
    by_cases hasker : (system.workers worker).requestId = some command'.id
    · have hexclusive := inv.exclusive command hcommand (hsame.trans haction) worker
      rw [hid] at hexclusive
      rw [(hexclusive hasker).1, Nat.zero_add]
      rcases heffects with rfl | ⟨execution, rfl, -⟩
      · exact Nat.zero_le 1
      · exact List.countP_le_length
    · have honce := inv.once command hcommand (hsame.trans haction)
      rw [hid] at honce
      rw [hunasked _ hasker]
      exact honce

/-- A transaction that is no worker's. -/
private theorem OnceInvariant.others (inv : OnceInvariant system) (receipts : List IvrEventReceipt)
    (hids : (system.rows.commands.map ControlCommand.id).Nodup) (hids' : (rows.commands.map ControlCommand.id).Nodup)
    (hchange : CommandsChange revoked system.rows.commands rows.commands) :
    OnceInvariant { system with rows := rows, receipts := receipts } := by
  have hsystem : OnceInvariant
      { rows := rows
        receipts := receipts
        workers := Function.update system.workers 0 (system.workers 0)
        executed := system.executed ++ [] } :=
    inv.advance hids hids' hchange (fun id hid => .inl hid) (.inl rfl)
  rw [Function.update_eq_self, List.append_nil] at hsystem
  exact hsystem

/-- A worker whose step is none on the rows, and that gets no request by it. -/
private theorem OnceInvariant.idle (inv : OnceInvariant system)
    (hids : (system.rows.commands.map ControlCommand.id).Nodup) {worker : Nat} {effects : List ControlExecution}
    (hnext : ∀ id, next.requestId = some id → (system.workers worker).requestId = some id)
    (heffects : effects = [] ∨ ∃ execution, effects = [execution] ∧
      (system.workers worker).requestId = some execution.id ∧ next.requestId = none) :
    OnceInvariant { system.setWorker worker next with executed := system.executed ++ effects } :=
  inv.advance hids hids (.updated (.kept : CommandsUpdate (fun _ => False) _ _)) (fun id hid => .inl (hnext id hid))
    heffects

private theorem OnceInvariant.setWorker (inv : OnceInvariant system)
    (hids : (system.rows.commands.map ControlCommand.id).Nodup) {worker : Nat}
    (hnext : ∀ id, next.requestId = some id → (system.workers worker).requestId = some id) :
    OnceInvariant (system.setWorker worker next) := by
  have hsystem : OnceInvariant { system.setWorker worker next with executed := system.executed ++ [] } :=
    inv.idle hids hnext (.inl rfl)
  rw [List.append_nil] at hsystem
  exact hsystem

/-- A worker that begins a transaction keeps its request, unless the command is gone. -/
private theorem OnceInvariant.snapshot (inv : OnceInvariant system)
    (hids : (system.rows.commands.map ControlCommand.id).Nodup) {worker : Nat} {id : String} {authorized : Bool}
    {begun : WorkerStart → ControlWorker}
    (hbegun : ∀ start held, start.id = id → (begun start).requestId = some held →
      (system.workers worker).requestId = some held) :
    OnceInvariant (system.setWorker worker (system.snapshot id authorized begun)) := by
  refine inv.setWorker hids fun held hheld => ?_
  unfold ControlSystem.snapshot at hheld
  split at hheld
  · cases hheld
  · exact hbegun _ held rfl hheld

private theorem OnceInvariant.finish (inv : OnceInvariant system) (hrows : RowsInvariant system.rows) (worker : Nat)
    (reads : WorkerReads) : OnceInvariant (system.finish worker reads) := by
  have hsteps := finish_steps hrows worker reads
  have heffects := transaction_effects (system.workers worker) reads system.rows
  unfold ControlSystem.finish at hsteps ⊢
  dsimp only at hsteps ⊢
  have hidle : OnceInvariant
      { system.setWorker worker .idle with
        executed := system.executed ++ ((system.workers worker).transaction reads system.rows).effects } := by
    refine inv.idle hrows.ids (fun id hid => by cases hid) (heffects.imp_right ?_)
    rintro ⟨execution, heffect, hasker, -⟩
    exact ⟨execution, heffect, hasker, rfl⟩
  split
  · rename_i rows next hcommits
    rw [hcommits] at hsteps
    dsimp only at hsteps
    split
    · rename_i hcommit
      rw [if_pos hcommit] at hsteps
      refine inv.advance hrows.ids hsteps.1.ids hsteps.2 (fun id hid => transaction_request hcommits hid)
        (heffects.imp_right ?_)
      rintro ⟨execution, heffect, hasker, hend⟩
      exact ⟨execution, heffect, hasker, hend rows next hcommits⟩
    · exact hidle
  · exact hidle

private theorem OnceInvariant.step (inv : OnceInvariant system) (hrows : RowsInvariant system.rows)
    (move : ControlMove) : OnceInvariant (system.step fingerprint move) := by
  have hsteps := ControlSystem.step_rows fingerprint hrows move
  cases move with
  | menu work reads id hash =>
    unfold ControlSystem.step at hsteps ⊢
    dsimp only at hsteps ⊢
    split
    · rename_i rows receipts hmenu
      rw [hmenu] at hsteps
      exact inv.others _ hrows.ids hsteps.1.ids hsteps.2
    · exact inv
  | claim worker id authorized =>
    unfold ControlSystem.step
    dsimp only
    split
    · exact inv.snapshot hrows.ids fun start held _ hheld => by cases hheld
    · exact inv
  | bind worker authorized =>
    unfold ControlSystem.step
    dsimp only
    split
    · rename_i id reconcile hworker
      refine inv.snapshot hrows.ids fun start held hid hheld => ?_
      rw [hworker, ← hheld, ← hid]
      rfl
    · exact inv
  | complete worker authorized =>
    unfold ControlSystem.step
    dsimp only
    split
    · rename_i id reconcile hworker
      refine inv.snapshot hrows.ids fun start held hid hheld => ?_
      rw [hworker, ← hheld, ← hid]
      rfl
    · exact inv
  | finish worker reads => exact inv.finish hrows worker reads
  | crash worker => exact inv.setWorker hrows.ids fun id hid => by cases hid
  | _ => exact inv.others _ hrows.ids hsteps.1.ids hsteps.2

/-! ### Runs -/

section

variable {record : CallRecord}

private theorem start_rows (hcore : CoreInvariant record.call.core record.ivr) :
    RowsInvariant (ControlSystem.start record).rows where
  core := hcore
  routed := fun hsome => absurd rfl hsome
  ids := List.nodup_nil
  single := Nat.zero_le 1

private theorem start_once : OnceInvariant (ControlSystem.start record) where
  held := fun _ _ hheld => by cases hheld
  called := List.forall_mem_nil _
  pending := List.forall_mem_nil _
  exclusive := List.forall_mem_nil _
  once := List.forall_mem_nil _

theorem ControlSystem.run_rows (hrows : RowsInvariant system.rows) (moves : List ControlMove) :
    RowsInvariant (system.run fingerprint moves).rows := by
  induction moves generalizing system with
  | nil => exact hrows
  | cons move moves ih => exact ih (ControlSystem.step_rows fingerprint hrows move).1

private theorem run_once (hrows : RowsInvariant system.rows) (inv : OnceInvariant system) (moves : List ControlMove) :
    OnceInvariant (system.run fingerprint moves) := by
  induction moves generalizing system with
  | nil => exact inv
  | cons move moves ih =>
    exact ih (ControlSystem.step_rows fingerprint hrows move).1 (inv.step hrows move)

/-- The commands of a call that has been started are those of its later transactions. -/
theorem call_rows {tenantOf : String → String} {calls : List CallMove}
    (hrecord : record ∈ (CallSystem.start.run tenantOf fingerprint calls).calls) :
    RowsInvariant (ControlSystem.start record).rows :=
  start_rows ((run_calls tenantOf fingerprint (start_calls tenantOf) calls).rows record hrecord)

end

/-- In every run of users, workers and the transactions of the call, at most one command is unresolved that is not of
DTMF digits, and the provider is asked at most once to execute a blind transfer. -/
theorem one_command_and_one_blind_transfer (tenantOf fingerprint : String → String) (calls : List CallMove)
    (record : CallRecord) (hrecord : record ∈ (CallSystem.start.run tenantOf fingerprint calls).calls)
    (moves : List ControlMove) :
    let system := (ControlSystem.start record).run fingerprint moves
    (system.rows.commands.filter ControlCommand.blocking).length ≤ 1 ∧
      ∀ command ∈ system.rows.commands, command.action = .blindTransfer → system.executions command.id ≤ 1 := by
  intro system
  have hstart := call_rows hrecord
  refine ⟨?_, (run_once hstart start_once moves).once⟩
  rw [← List.countP_eq_length_filter]
  exact (ControlSystem.run_rows hstart moves).single

def sampleControlReads : ControlReads where
  now := 2
  supported := true
  destinationAllowed := true
  captureAllowed := true
  recordingDeadline := 0

def sampleWorkerReads : WorkerReads where
  control := sampleControlReads
  bindings := ["external", "app", "mixing", "holding", "consult", "recording"].map fun name => (name, some "b-1")
  complete :=
    { now := 3, later := 4, captureAllowed := true, authorized := true, inBudget := true, outcome := .submitted }
  commits := true

def sampleAsk (id : String) (action : ControlAction) (payload : String) : ControlAsk where
  id := id
  action := action
  key := id
  payload := payload
  hash := some "h-1"

/-- The call when the user has taken it. -/
def sampleTakenCall : CallRecord :=
  (CallSystem.start.run (fun _ => "t-1") id (sampleHandoffMoves.take 4)).calls.head (by decide +kernel)

/-- The commit of the transfer does not get through, and another worker claims it again. -/
def sampleTransferMoves : List ControlMove :=
  [.request sampleGrant (sampleAsk "k-1" .blindTransfer "+15550199") sampleControlReads,
    .claim 0 "k-1" true, .finish 0 sampleWorkerReads,
    .bind 0 true, .finish 0 sampleWorkerReads,
    .complete 0 true, .finish 0 { sampleWorkerReads with commits := false },
    .claim 1 "k-1" true, .finish 1 sampleWorkerReads]

theorem one_command_and_one_blind_transfer_sample :
    ∃ record ∈ (CallSystem.start.run (fun _ => "t-1") id (sampleHandoffMoves.take 4)).calls,
      let system := (ControlSystem.start record).run id sampleTransferMoves
      system.executed ≠ [] ∧ (system.rows.commands.filter ControlCommand.blocking).length ≤ 1 ∧
        ∀ command ∈ system.rows.commands, command.action = .blindTransfer → system.executions command.id ≤ 1 := by
  refine ⟨sampleTakenCall, List.head_mem _, by decide +kernel, ?_⟩
  exact one_command_and_one_blind_transfer (fun _ => "t-1") id (sampleHandoffMoves.take 4) _ (List.head_mem _)
    sampleTransferMoves

end KComms.Telephony
