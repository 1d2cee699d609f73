import KComms.Telephony.ControlSystem
import Mathlib.Data.List.Nodup

/-!
# What the transactions on a call do to its commands

A command is claimed, resolved or opened again (`CommandStep`); one that is resolved is left alone, unless a worker has
found its access revoked before it had the locks.  A transaction changes one command and may add one
(`CommandsChange`).
-/

namespace KComms.Telephony

open Attempt

/-- The command is finished. -/
def ControlCommand.resolved (command : ControlCommand) : Bool :=
  command.status = .submitted || command.status = .failed

/-- What a transaction can do to a command; `revoked` is that it has found the access of the command revoked. -/
inductive CommandStep (revoked : Prop) (command : ControlCommand) : ControlCommand → Prop
  | kept : CommandStep revoked command command
  | noted (noticeCompletedAt : Option Int) :
    CommandStep revoked command { command with noticeCompletedAt := noticeCompletedAt }
  | claimed {claimedAt} (pending : command.status = .pending) :
    CommandStep revoked command { command with status := .dispatching, claimedAt := claimedAt }
  | reopened {expiresAt} (unknown : command.status = .unknown) (control : command.action ≠ .dtmf)
    (repeatable : command.action ≠ .blindTransfer) :
    CommandStep revoked command
      { command with status := .dispatching, completedAt := none, failureReason := none, expiresAt := expiresAt }
  | closed {status completedAt failureReason} (open' : command.status.unresolved = true)
    (closed : status = .submitted ∨ status = .failed ∨ status = .unknown) :
    CommandStep revoked command
      { command with status := status, completedAt := completedAt, failureReason := failureReason }
  | overwritten (now : Int) (found : revoked) : CommandStep revoked command (revokeCommand now command)

variable {id : String} {now : Int} {reads : ControlReads} {rows rows' : ControlRows} {command : ControlCommand}

section

variable {revoked : Prop} {command' : ControlCommand}

theorem CommandStep.same (h : CommandStep revoked command command') :
    command'.id = command.id ∧ command'.action = command.action := by
  cases h <;> exact ⟨rfl, rfl⟩

theorem CommandStep.mono {revoked' : Prop} (hrevoked : revoked → revoked')
    (h : CommandStep revoked command command') : CommandStep revoked' command command' := by
  cases h with
  | kept => exact .kept
  | noted noticeCompletedAt => exact .noted noticeCompletedAt
  | claimed pending => exact .claimed pending
  | reopened unknown control repeatable => exact .reopened unknown control repeatable
  | closed open' closed => exact .closed open' closed
  | overwritten now found => exact .overwritten now (hrevoked found)

theorem CommandStep.blocking (h : CommandStep revoked command command') (hblocking : command'.blocking = true) :
    command.blocking = true := by
  unfold ControlCommand.blocking ControlStatus.unresolved at hblocking ⊢
  cases h with
  | kept => exact hblocking
  | noted noticeCompletedAt => exact hblocking
  | claimed pending => simpa [pending] using hblocking
  | reopened unknown control repeatable => simpa [unknown] using control
  | closed open' closed =>
    unfold ControlStatus.unresolved at open'
    rw [open', Bool.true_and]
    rw [Bool.and_eq_true] at hblocking
    exact hblocking.2
  | overwritten now found => simp [revokeCommand] at hblocking

theorem CommandStep.pending (h : CommandStep revoked command command') (hpending : command'.status = .pending) :
    command.status = .pending := by
  cases h with
  | kept => exact hpending
  | noted noticeCompletedAt => exact hpending
  | claimed pending => exact pending
  | reopened unknown control repeatable => cases hpending
  | closed open' closed =>
    rcases closed with rfl | rfl | rfl <;> cases hpending
  | overwritten now found => cases hpending

/-- A command that is finished keeps its outcome. -/
theorem CommandStep.resolved (h : CommandStep revoked command command') (hrevoked : ¬ revoked)
    (hresolved : command.resolved = true) :
    command'.status = command.status ∧ command'.failureReason = command.failureReason ∧
      command'.completedAt = command.completedAt := by
  unfold ControlCommand.resolved at hresolved
  cases h with
  | kept => exact ⟨rfl, rfl, rfl⟩
  | noted noticeCompletedAt => exact ⟨rfl, rfl, rfl⟩
  | claimed pending => simp [pending] at hresolved
  | reopened unknown control repeatable => simp [unknown] at hresolved
  | closed open' closed =>
    unfold ControlStatus.unresolved at open'
    rw [Bool.or_eq_true, decide_eq_true_eq, decide_eq_true_eq] at hresolved
    rcases hresolved with hstatus | hstatus <;> simp [hstatus] at open'
  | overwritten now found => exact absurd found hrevoked

end

/-! ### The table of the commands -/

/-- One command is changed. -/
inductive CommandsUpdate (revoked : String → Prop) (commands : List ControlCommand) : List ControlCommand → Prop
  | kept : CommandsUpdate revoked commands commands
  | updated (id : String) (change : ControlCommand → ControlCommand)
    (step : ∀ command ∈ commands, command.id = id → CommandStep (revoked id) command (change command)) :
    CommandsUpdate revoked commands (updateCommand id change commands)

/-- One command is changed, and one may be added, if no other blocks it then. -/
inductive CommandsChange (revoked : String → Prop) (commands : List ControlCommand) : List ControlCommand → Prop
  | updated {commands'} (update : CommandsUpdate revoked commands commands') :
    CommandsChange revoked commands commands'
  | inserted {commands' command} (update : CommandsUpdate revoked commands commands')
    (fresh : ∀ other ∈ commands', other.id ≠ command.id) (unblocked : ∀ other ∈ commands', other.blocking = false) :
    CommandsChange revoked commands (command :: commands')

section

variable {revoked : String → Prop} {commands commands' : List ControlCommand}

theorem mem_updateCommand {change : ControlCommand → ControlCommand} {command' : ControlCommand}
    (h : command' ∈ updateCommand id change commands) :
    ∃ command ∈ commands, command' = if command.id = id then change command else command := by
  unfold updateCommand at h
  rw [List.mem_map] at h
  obtain ⟨command, hcommand, rfl⟩ := h
  exact ⟨command, hcommand, rfl⟩

theorem CommandsUpdate.mono {revoked' : String → Prop} (hrevoked : ∀ id, revoked id → revoked' id)
    (h : CommandsUpdate revoked commands commands') : CommandsUpdate revoked' commands commands' := by
  cases h with
  | kept => exact .kept
  | updated id change step =>
    exact .updated id change fun command hcommand hid => (step command hcommand hid).mono (hrevoked id)

/-- Each command after the update comes from one before it. -/
theorem CommandsUpdate.of_mem (h : CommandsUpdate revoked commands commands') {command' : ControlCommand}
    (hcommand' : command' ∈ commands') :
    ∃ command ∈ commands, CommandStep (revoked command.id) command command' := by
  cases h with
  | kept => exact ⟨command', hcommand', .kept⟩
  | updated id change step =>
    obtain ⟨command, hcommand, rfl⟩ := mem_updateCommand hcommand'
    refine ⟨command, hcommand, ?_⟩
    split
    · rename_i hid
      subst hid
      exact step command hcommand rfl
    · exact .kept

/-- Each command before the update becomes one after it. -/
theorem CommandsUpdate.mem (h : CommandsUpdate revoked commands commands') (hcommand : command ∈ commands) :
    ∃ command' ∈ commands', CommandStep (revoked command.id) command command' := by
  cases h with
  | kept => exact ⟨command, hcommand, .kept⟩
  | updated id change step =>
    refine ⟨if command.id = id then change command else command, List.mem_map_of_mem hcommand, ?_⟩
    split
    · rename_i hid
      subst hid
      exact step command hcommand rfl
    · exact .kept

theorem CommandsUpdate.ids (h : CommandsUpdate revoked commands commands') :
    commands'.map ControlCommand.id = commands.map ControlCommand.id := by
  cases h with
  | kept => rfl
  | updated id change step =>
    unfold updateCommand
    rw [List.map_map]
    refine List.map_congr_left fun command hcommand => ?_
    rw [Function.comp_apply]
    split
    · rename_i hid
      exact (step command hcommand hid).same.1
    · rfl

theorem CommandsUpdate.countP_le (h : CommandsUpdate revoked commands commands') :
    commands'.countP ControlCommand.blocking ≤ commands.countP ControlCommand.blocking := by
  cases h with
  | kept => exact Nat.le_refl _
  | updated id change step =>
    unfold updateCommand
    rw [List.countP_map]
    refine List.countP_mono_left fun command hcommand hblocking => ?_
    rw [Function.comp_apply] at hblocking
    split at hblocking
    · rename_i hid
      exact (step command hcommand hid).blocking hblocking
    · exact hblocking

theorem findCommand_eq_some (h : findCommand id commands = some command) :
    command ∈ commands ∧ command.id = id := by
  unfold findCommand at h
  exact ⟨List.mem_of_find?_eq_some h, by simpa using List.find?_some h⟩

/-- With the id as a key, writing a changed command is a change of that command. -/
theorem CommandsUpdate.put (hids : (commands.map ControlCommand.id).Nodup) {command' : ControlCommand}
    (hcommand : command ∈ commands) (step : CommandStep (revoked command.id) command command') :
    CommandsUpdate revoked commands (updateCommand command.id (fun _ => command') commands) := by
  refine .updated command.id (fun _ => command') fun other hother hid => ?_
  rw [List.inj_on_of_nodup_map hids hother hcommand hid]
  exact step

theorem insertCommand_eq_some (h : insertCommand command commands = some commands') :
    commands' = command :: commands ∧ ∀ other ∈ commands, other.id ≠ command.id := by
  unfold insertCommand at h
  split at h
  · cases h
  · rename_i hconflict
    cases h
    refine ⟨rfl, fun other hother hid => hconflict ?_⟩
    rw [List.any_eq_true]
    exact ⟨other, hother, by simp [hid]⟩

end

/-! ### Requests of users -/

section

variable {revoked : String → Prop} {grant : Grant}

private theorem filter_nil_unblocked {commands : List ControlCommand}
    (h : commands.filter ControlCommand.blocking = []) : ∀ other ∈ commands, other.blocking = false := by
  rw [List.filter_eq_nil_iff] at h
  intro other hother
  rw [Bool.eq_false_iff]
  exact h other hother

private theorem admitCommand_eq_some {call : Call} {action : ControlAction} {commands commands' : List ControlCommand}
    (hids : (commands.map ControlCommand.id).Nodup) (h : admitCommand grant call action now commands = some commands') :
    CommandsUpdate revoked commands commands' ∧ ∀ other ∈ commands', other.blocking = false := by
  unfold admitCommand at h
  split at h
  · rename_i hfilter
    cases h
    exact ⟨.kept, filter_nil_unblocked hfilter⟩
  · rename_i previous hfilter
    split at h
    · rename_i hsuperseded
      cases h
      have honly : ∀ other ∈ commands, other.blocking = true → other = previous := by
        intro other hother hblocking
        have hmem : other ∈ commands.filter ControlCommand.blocking := List.mem_filter.mpr ⟨hother, hblocking⟩
        rw [hfilter, List.mem_singleton] at hmem
        exact hmem
      have hprevious : previous ∈ commands.filter ControlCommand.blocking := by
        rw [hfilter]
        exact List.mem_singleton_self _
      constructor
      · refine .updated _ _ fun other hother hid => ?_
        obtain rfl := List.inj_on_of_nodup_map hids hother (List.mem_of_mem_filter hprevious) hid
        refine .closed ?_ (.inr (.inl rfl))
        rw [hsuperseded.2.2.1]
        rfl
      · intro other hother
        obtain ⟨command, hcommand, rfl⟩ := mem_updateCommand hother
        split
        · simp [ControlCommand.blocking, ControlStatus.unresolved]
        · rename_i hid
          rw [Bool.eq_false_iff]
          intro hblocking
          exact hid (congrArg ControlCommand.id (honly command hcommand hblocking))
    · cases h
  · cases h

/-- A request is for the user who has answered the call. -/
theorem requestControl_change {asked : ControlAsk} (hids : (rows.commands.map ControlCommand.id).Nodup)
    (h : requestControl grant asked reads rows = some rows') :
    rows' = rows ∨ rows.record.call.answerSessionId ≠ none ∧
      (rows'.record = rows.record ∨ rows'.record = captureMonitor reads.recordingDeadline rows.record) ∧
        CommandsChange revoked rows.commands rows'.commands := by
  unfold requestControl at h
  dsimp only at h
  split at h
  · cases h
  split at h
  · cases h
  split at h
  · cases h
  rename_i howns
  split at h
  · cases h
  · split at h
    · cases h
    · cases h
      exact .inl rfl
  split at h
  · cases h
  split at h
  · cases h
  split at h
  · cases h
  split at h
  · cases h
  split at h
  · cases h
  rw [Option.bind_eq_some_iff] at h
  obtain ⟨commands, hadmit, h⟩ := h
  rw [Option.map_eq_some_iff] at h
  obtain ⟨commands', hinsert, rfl⟩ := h
  obtain ⟨rfl, hfresh⟩ := insertCommand_eq_some hinsert
  obtain ⟨hupdate, hunblocked⟩ := admitCommand_eq_some hids hadmit
  refine .inr ⟨?_, ?_, .inserted hupdate hfresh hunblocked⟩
  · simp only [ownsControl, Bool.not_eq_true', Bool.not_eq_false, Bool.and_eq_true, decide_eq_true_eq] at howns
    rw [howns.1.2]
    exact Option.some_ne_none _
  · dsimp only
    split
    · exact .inr rfl
    · exact .inl rfl

theorem completeBrowser_change {submitted : Bool} (hids : (rows.commands.map ControlCommand.id).Nodup)
    (h : completeBrowser grant id submitted now rows = some rows') :
    rows'.record = rows.record ∧ CommandsUpdate revoked rows.commands rows'.commands := by
  unfold completeBrowser at h
  split at h
  · cases h
  split at h
  · cases h
  rename_i command hfind
  obtain ⟨hcommand, rfl⟩ := findCommand_eq_some hfind
  split at h
  · cases h
  split at h
  · cases h
  split at h
  · cases h
    exact ⟨rfl, .kept⟩
  rename_i hdispatching
  rw [not_not] at hdispatching
  have hopen : command.status.unresolved = true := by
    rw [hdispatching]
    rfl
  cases h
  refine ⟨rfl, .put hids hcommand ?_⟩
  split
  · exact .closed hopen (.inr (.inr rfl))
  split
  · exact .closed hopen (.inl rfl)
  · exact .closed hopen (.inr (.inr rfl))

theorem reconcileControl_change (hids : (rows.commands.map ControlCommand.id).Nodup)
    (h : reconcileControl grant id reads rows = some rows') :
    rows'.record = rows.record ∧ CommandsUpdate revoked rows.commands rows'.commands := by
  unfold reconcileControl at h
  split at h
  · cases h
  split at h
  · cases h
  rename_i command hfind
  obtain ⟨hcommand, rfl⟩ := findCommand_eq_some hfind
  split at h
  · cases h
  split at h
  · cases h
  split at h
  · cases h
  rename_i hopened
  simp only [ne_eq, decide_not, Bool.or_eq_true, decide_eq_true_eq, Bool.not_eq_true', decide_eq_false_iff_not,
    not_or, not_not] at hopened
  cases h
  exact ⟨rfl, .put hids hcommand (.reopened hopened.1.2 hopened.1.1.1 hopened.1.1.2)⟩

end

/-! ### Voicemails of the system -/

section

variable {revoked : String → Prop}

private theorem queueVoicemail_waiting {userId : String} {recordingDeadline : Int} {queued : Bool}
    {record record' : CallRecord} (h : queueVoicemail userId recordingDeadline now queued record = some record') :
    record.call.routingStatus = .waiting ∧ (queued = false → record'.call.routingStatus = .voicemail) := by
  have hrouting : (captureMonitor recordingDeadline record).call.routingStatus = record.call.routingStatus := by
    unfold captureMonitor
    split <;> rfl
  unfold queueVoicemail at h
  dsimp only at h
  rw [hrouting] at h
  split at h
  · cases h
  rename_i hcall
  simp only [ne_eq, decide_not, Bool.or_eq_true, Bool.not_eq_true', decide_eq_false_iff_not, not_or,
    not_not] at hcall
  refine ⟨hcall.2, ?_⟩
  rintro rfl
  split at h
  · cases h
  rw [if_neg Bool.false_ne_true] at h
  cases h
  rfl

/-- The queue asks for a voicemail while the call waits in it. -/
theorem queueVoicemailCommand_change {userId hash : String}
    (h : queueVoicemailCommand id userId hash reads rows = some rows') :
    rows.record.call.routingStatus = .waiting ∧ ∃ queued,
      queueVoicemail userId reads.recordingDeadline reads.now queued rows.record = some rows'.record ∧
        (rows'.commands = rows.commands ∨ rows'.record.call.routingStatus = .voicemail ∧
          ∃ command, insertCommand command rows.commands = some rows'.commands) := by
  unfold queueVoicemailCommand at h
  dsimp only at h
  split at h
  · cases h
  rw [Option.bind_eq_some_iff] at h
  obtain ⟨record, hqueue, h⟩ := h
  obtain ⟨hwaiting, hvoicemail⟩ := queueVoicemail_waiting hqueue
  refine ⟨hwaiting, ?_⟩
  split at h
  · cases h
    exact ⟨_, hqueue, .inl rfl⟩
  · rename_i hqueued
    rw [Option.map_eq_some_iff] at h
    obtain ⟨commands, hinsert, rfl⟩ := h
    exact ⟨_, hqueue, .inr ⟨hvoicemail (Bool.eq_false_iff.mpr hqueued), _, hinsert⟩⟩

theorem noticeCompleted_change (h : noticeCompleted now rows = some rows') :
    rows'.record = rows.record ∧ CommandsUpdate revoked rows.commands rows'.commands := by
  unfold noticeCompleted at h
  split at h
  · cases h
  · cases h
    exact ⟨rfl, .updated _ _ fun command _ _ => .noted _⟩

end

/-! ### The worker -/

section

theorem claimControl_effects (reads : ControlReads) (command : ControlCommand) (rows : ControlRows) :
    (claimControl reads command rows).effects = [] := by
  unfold claimControl
  dsimp only
  split
  · rfl
  split
  · rfl
  split
  · split <;> rfl
  split
  · rfl
  split
  · rfl
  split
  · rfl
  split <;> rfl

/-- A claim gives its request only for a command that was pending, or that may be repeated. -/
theorem claimControl_commits (revoked : Prop) {result : ClaimResult}
    (h : (claimControl reads command rows).Commits (rows', result)) :
    (rows' = rows ∧ (command.resolved = true → ∀ reconcile, result ≠ .request reconcile) ∧
      ∀ reconcile, result = .request reconcile → command.status = .dispatching ∧ command.action ≠ .blindTransfer) ∨
    command.status.unresolved = true ∧ ∃ command', CommandStep revoked command command' ∧ rows' = rows.put command' ∧
      ∀ reconcile, result = .request reconcile → command.status = .pending ∧ command'.status = .dispatching := by
  unfold claimControl at h
  dsimp only at h
  split at h
  · rename_i hrepeated
    simp only [Bool.and_eq_true, decide_eq_true_eq] at hrepeated
    rw [commits_pure, Prod.mk.injEq] at h
    obtain ⟨rfl, rfl⟩ := h
    have hopen : command.status.unresolved = true := by
      rw [hrepeated.1]
      rfl
    refine .inr ⟨hopen, _, .closed hopen (.inr (.inr rfl)), rfl, fun reconcile hresult => ?_⟩
    cases hresult
  rename_i hrepeated
  split at h
  · rename_i hexpired
    simp only [Bool.and_eq_true, decide_eq_true_eq] at hexpired
    rw [commits_pure, Prod.mk.injEq] at h
    obtain ⟨rfl, rfl⟩ := h
    have hopen : command.status.unresolved = true := by
      rw [hexpired.1]
      rfl
    refine .inr ⟨hopen, _, .closed hopen (.inr (.inr rfl)), rfl, fun reconcile hresult => ?_⟩
    cases hresult
  split at h
  · rename_i hdispatching
    split at h
    · exact absurd h (commits_rollback _ _)
    · rw [commits_pure, Prod.mk.injEq] at h
      obtain ⟨rfl, rfl⟩ := h
      refine .inl ⟨rfl, fun hresolved => ?_, fun reconcile _ => ⟨hdispatching, fun haction => hrepeated ?_⟩⟩
      · rw [ControlCommand.resolved, hdispatching] at hresolved
        cases hresolved
      · simp [hdispatching, haction]
  split at h
  · rw [commits_pure, Prod.mk.injEq] at h
    obtain ⟨rfl, rfl⟩ := h
    refine .inl ⟨rfl, fun _ reconcile hresult => ?_, fun reconcile hresult => ?_⟩ <;> cases hresult
  rename_i hpending
  rw [not_not] at hpending
  have hopen : command.status.unresolved = true := by
    rw [hpending]
    rfl
  split at h
  · rw [commits_pure, Prod.mk.injEq] at h
    obtain ⟨rfl, rfl⟩ := h
    refine .inr ⟨hopen, _, .closed hopen (.inr (.inl rfl)), rfl, fun reconcile hresult => ?_⟩
    cases hresult
  split at h
  · rw [commits_pure, Prod.mk.injEq] at h
    obtain ⟨rfl, rfl⟩ := h
    refine .inr ⟨hopen, _, .closed hopen (.inr (.inl rfl)), rfl, fun reconcile hresult => ?_⟩
    cases hresult
  split at h
  · exact absurd h (commits_rollback _ _)
  · rw [commits_pure, Prod.mk.injEq] at h
    obtain ⟨rfl, rfl⟩ := h
    exact .inr ⟨hopen, _, .claimed hpending, rfl, fun reconcile _ => ⟨hpending, rfl⟩⟩

theorem bindCommand_effects (bindings : Bindings) (command : ControlCommand) (rows : ControlRows) :
    (bindCommand bindings command rows).effects = [] := by
  unfold bindCommand
  dsimp only
  split
  · rfl
  split
  · rfl
  split <;> rfl

theorem bindCommand_commits {bindings : Bindings} {result : Unit}
    (h : (bindCommand bindings command rows).Commits (rows', result)) :
    rows'.commands = rows.commands ∧ rows'.record = bindControl none bindings rows.record := by
  unfold bindCommand at h
  dsimp only at h
  split at h
  · exact absurd h (commits_rollback _ _)
  split at h
  · exact absurd h (commits_rollback _ _)
  split at h
  · exact absurd h (commits_rollback _ _)
  · rw [commits_pure, Prod.mk.injEq] at h
    obtain ⟨rfl, -⟩ := h
    exact ⟨rfl, rfl⟩

theorem completeControl_effects (reconcile : Bool) (reads : CompleteReads) (command : ControlCommand)
    (rows : ControlRows) :
    (completeControl reconcile reads command rows).effects = [] ∨ command.status = .dispatching ∧
      (completeControl reconcile reads command rows).effects = [⟨command.id, command.action, reconcile⟩] := by
  unfold completeControl
  dsimp only
  split
  · exact .inl rfl
  rename_i hdispatching
  rw [not_not] at hdispatching
  split
  · exact .inl rfl
  split
  · exact .inl rfl
  refine (effects_check_bind (effects_check_bind (effects_check_bind (.inr ?_)))).imp_right fun h => ⟨hdispatching, h⟩
  rw [effects_bind_silent]
  · exact effects_issue _ _
  · intro outcome
    split <;> rfl

private theorem finishControl_change {revoked : Prop} (now : Int) (outcome : ControlOutcome)
    (hdispatching : command.status = .dispatching) :
    ∃ command', CommandStep revoked command command' ∧
      (finishControl now outcome command rows).commands = (rows.put command').commands ∧
        ((finishControl now outcome command rows).record = rows.record ∨ ∃ controlState pbxState,
          (finishControl now outcome command rows).record = bindControl (some controlState) pbxState rows.record) := by
  have hopen : command.status.unresolved = true := by
    rw [hdispatching]
    rfl
  cases outcome with
  | controlled controlState pbxState => exact ⟨_, .closed hopen (.inl rfl), rfl, .inr ⟨_, _, rfl⟩⟩
  | submitted => exact ⟨_, .closed hopen (.inl rfl), rfl, .inl rfl⟩
  | refused reason => exact ⟨_, .closed hopen (.inr (.inl rfl)), rfl, .inl rfl⟩
  | _ => exact ⟨_, .closed hopen (.inr (.inr rfl)), rfl, .inl rfl⟩

theorem completeControl_commits (revoked : Prop) {reconcile : Bool} {reads : CompleteReads} {result : Bool}
    (h : (completeControl reconcile reads command rows).Commits (rows', result)) :
    rows' = rows ∨ command.status.unresolved = true ∧ ∃ command', CommandStep revoked command command' ∧
      rows'.commands = (rows.put command').commands ∧
        (rows'.record = rows.record ∨ ∃ controlState pbxState,
          rows'.record = bindControl (some controlState) pbxState rows.record) := by
  unfold completeControl at h
  dsimp only at h
  split at h
  · rw [commits_pure, Prod.mk.injEq] at h
    exact .inl h.1.symm
  rename_i hdispatching
  rw [not_not] at hdispatching
  have hopen : command.status.unresolved = true := by
    rw [hdispatching]
    rfl
  split at h
  · rw [commits_pure, Prod.mk.injEq] at h
    obtain ⟨rfl, -⟩ := h
    exact .inr ⟨hopen, _, .closed hopen (.inr (.inl rfl)), rfl, .inl rfl⟩
  split at h
  · rw [commits_pure, Prod.mk.injEq] at h
    obtain ⟨rfl, -⟩ := h
    exact .inr ⟨hopen, _, .closed hopen (.inr (.inr rfl)), rfl, .inl rfl⟩
  simp only [commits_bind, commits_check, commits_issue] at h
  obtain ⟨-, -, -, -, -, -, outcome, -, h⟩ := h
  split at h
  · rw [commits_pure, Prod.mk.injEq] at h
    exact .inl h.1.symm
  · rw [commits_pure, Prod.mk.injEq] at h
    obtain ⟨rfl, -⟩ := h
    exact .inr ⟨hopen, finishControl_change _ _ hdispatching⟩

/-- A transaction of the worker is for the command as it is, unless it has been revoked before. -/
theorem workerTransaction_cases {α : Type} (start : WorkerStart) (now : Int)
    (transaction : ControlCommand → ControlRows → ControlTransaction (ControlRows × α)) (rows : ControlRows) :
    workerTransaction start now transaction rows = rollback () ∨
    (start.revoked = true ∧ ∃ command, command.id = start.id ∧ command.status = .failed ∧
      workerTransaction start now transaction rows = transaction command
        { rows with commands := updateCommand start.id (revokeCommand now) rows.commands }) ∨
    (start.revoked = false ∧ ∃ command ∈ rows.commands, command.id = start.id ∧
      workerTransaction start now transaction rows = transaction command rows) := by
  unfold workerTransaction
  dsimp only
  split
  · exact .inl rfl
  rename_i command hfind
  obtain ⟨hcommand, hid⟩ := findCommand_eq_some hfind
  right
  cases hrevoked : start.revoked with
  | true =>
    rw [hrevoked, if_pos rfl] at hcommand
    refine .inl ⟨rfl, command, hid, ?_, by rw [if_pos rfl]⟩
    obtain ⟨before, hbefore, rfl⟩ := mem_updateCommand hcommand
    by_cases hsame : before.id = start.id
    · rw [if_pos hsame]
      rfl
    · rw [if_neg hsame] at hid
      exact absurd hid hsame
  | false =>
    rw [hrevoked, if_neg Bool.false_ne_true] at hcommand
    exact .inr ⟨rfl, command, hcommand, hid, by rw [if_neg Bool.false_ne_true]⟩

end

end KComms.Telephony
