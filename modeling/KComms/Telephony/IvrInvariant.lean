import KComms.Telephony.IvrSystem

/-!
# The invariant of IVR runs

`RunInvariant` holds of a run and its call after every move (`run_invariant`); a run that is over is not written any
more (`run_terminal`).  A run can fail by its own deadline while its call goes on for the moment, and it is the check
after the operation that ends the call: the deadline of a call never lies after that of its run.
-/

namespace KComms.Telephony

open Attempt

structure RunInvariant (call : Call) (run : IvrRun) : Prop where
  step : run.step = run.retries + 1
  retries : run.retries ≤ run.snapshot.maxRetries
  window : run.phase = .awaitingDigit → ∃ completedAt deadline,
    run.promptCompletedAt = some completedAt ∧ run.digitDeadline = some deadline ∧ deadline ≤ run.expiresAt
  within : call.expiresAt ≤ run.expiresAt
  inactive : run.phase = .failed ∨ run.phase = .cancelled → call.active = false

/-! ### What the steps keep -/

/-- The part of the invariant that says nothing about the call. -/
structure Counted (run : IvrRun) : Prop where
  step : run.step = run.retries + 1
  retries : run.retries ≤ run.snapshot.maxRetries
  window : run.phase = .awaitingDigit → ∃ completedAt deadline,
    run.promptCompletedAt = some completedAt ∧ run.digitDeadline = some deadline ∧ deadline ≤ run.expiresAt

variable {run run' : IvrRun} {call call' : Call} {reads : IvrReads} {input : IvrInput}

theorem RunInvariant.counted (h : RunInvariant call run) : Counted run :=
  ⟨h.step, h.retries, h.window⟩

/-- A change that leaves the counters alone, and does not open a window. -/
private theorem Counted.of_eq (h : Counted run) (hstep : run'.step = run.step) (hretries : run'.retries = run.retries)
    (hsnapshot : run'.snapshot = run.snapshot) (hphase : run'.phase ≠ .awaitingDigit) : Counted run' := by
  refine ⟨?_, ?_, fun hawaiting => absurd hawaiting hphase⟩
  · rw [hstep, hretries]
    exact h.step
  · rw [hretries, hsnapshot]
    exact h.retries

private theorem MachineStep.counted {now : Int} {run₁ : IvrRun} (hstep : MachineStep input now run run₁)
    (h : Counted run) : Counted run₁ ∧ run₁.expiresAt = run.expiresAt := by
  cases hstep with
  | idle => exact ⟨h, rfl⟩
  | expired passed =>
    refine ⟨h.of_eq rfl rfl rfl ?_, rfl⟩
    simp [IvrRun.deadlineFailure]
  | prompted event handles ends =>
    refine ⟨⟨h.step, h.retries, fun _ => ?_⟩, rfl⟩
    exact ⟨_, _, rfl, rfl, earliest_le_right _ _⟩
  | missed because =>
    rcases retryOrFallback_cases run with ⟨hless, hnext⟩ | ⟨-, hnext⟩
    · rw [hnext]
      refine ⟨⟨?_, ?_, fun hphase => ?_⟩, rfl⟩
      · have := h.step
        simp only [IvrRun.retry]
        omega
      · simp only [IvrRun.retry]
        omega
      · simp [IvrRun.retry] at hphase
    · rw [hnext]
      refine ⟨h.of_eq rfl rfl rfl ?_, rfl⟩
      simp [IvrRun.select]
  | chosen target event completedAt deadline because =>
    refine ⟨h.of_eq rfl rfl rfl ?_, rfl⟩
    simp [IvrRun.select]

theorem failed_phase (run : IvrRun) (reason : FailureReason) (timestamp : Int) :
    (run.failed reason timestamp).phase = .failed ∨ (run.failed reason timestamp).phase = .completed := by
  unfold IvrRun.failed
  dsimp only
  split
  · exact .inr rfl
  · exact .inl rfl

private theorem failed_active (call : Call) (reason : FailureReason) (timestamp : Int) :
    (call.failed reason timestamp).active = false := by
  unfold Call.failed Call.active
  dsimp only
  split <;> rfl

private theorem Counted.failed (h : Counted run) (reason : FailureReason) (timestamp : Int) :
    Counted (run.failed reason timestamp) := by
  refine h.of_eq rfl rfl rfl ?_
  rcases failed_phase run reason timestamp with hphase | hphase <;> simp [hphase]

private theorem claimPhase_ne (action : EffectAction) :
    claimPhase action ≠ .awaitingDigit ∧ (claimPhase action).terminal = false := by
  cases action <;> simp [claimPhase, Phase.terminal]

private theorem PhaseStep.counted (hstep : PhaseStep reads call run call' run') (h : Counted run) :
    Counted run' ∧ run'.expiresAt = run.expiresAt ∧ call'.expiresAt ≤ call.expiresAt := by
  cases hstep with
  | idle => exact ⟨h, rfl, Int.le_refl _⟩
  | prepared claimedAt source => exact ⟨h.of_eq rfl rfl rfl (by simp), rfl, Int.le_refl _⟩
  | bound bindings source => exact ⟨h.of_eq rfl rfl rfl (by simp), rfl, Int.le_refl _⟩
  | claimed action mark source => exact ⟨h.of_eq rfl rfl rfl (claimPhase_ne action).1, rfl, Int.le_refl _⟩
  | consumed action startedAt phase reason unstarted =>
    refine ⟨h.of_eq rfl rfl rfl ?_, rfl, Int.le_refl _⟩
    rw [phase]
    exact (claimPhase_ne action).1
  | reported reason unclaimed source =>
    refine ⟨h.of_eq rfl rfl rfl ?_, rfl, Int.le_refl _⟩
    rcases source with hphase | hphase | hphase <;> simp [hphase]
  | connected answeredAt source =>
    exact ⟨h.of_eq rfl rfl rfl (by simp [IvrRun.completed]), rfl, Int.le_refl _⟩
  | routed routeId completedAt source target eligible route =>
    exact ⟨h.of_eq rfl rfl rfl (by simp [IvrRun.completed]), rfl, Int.le_refl _⟩
  | captured userId recordingDeadline completedAt source =>
    exact ⟨h.of_eq rfl rfl rfl (by simp [IvrRun.completed]), rfl, earliest_le_right _ _⟩
  | ended reason timestamp => exact ⟨h.failed reason timestamp, rfl, Int.le_refl _⟩

/-- The state machine fails a run only by its deadline. -/
private theorem MachineStep.failed {now : Int} {run₁ : IvrRun} (hstep : MachineStep input now run run₁)
    (hlive : run.phase.terminal = false) :
    run₁.phase.terminal = false ∨ run₁.phase = .failed ∧ run.expiresAt ≤ now := by
  cases hstep with
  | idle => exact .inl hlive
  | expired passed => exact .inr ⟨rfl, passed⟩
  | prompted event handles ends => exact .inl rfl
  | missed because =>
    left
    rcases retryOrFallback_cases run with ⟨-, hnext⟩ | ⟨-, hnext⟩ <;> rw [hnext] <;> rfl
  | chosen target event completedAt deadline because => exact .inl rfl

/-- A phase of the worker leaves a run that has not failed, or it ends the call. -/
private theorem PhaseStep.failed (hstep : PhaseStep reads call run call' run')
    (hfailed : run'.phase = .failed ∨ run'.phase = .cancelled) :
    call'.active = false ∨ run.phase = run'.phase := by
  cases hstep with
  | idle => exact .inr rfl
  | prepared claimedAt source => simp at hfailed
  | bound bindings source => simp at hfailed
  | claimed action mark source => cases action <;> simp [IvrRun.claimed, claimPhase] at hfailed
  | consumed action startedAt phase reason unstarted => exact .inr rfl
  | reported reason unclaimed source => exact .inr rfl
  | connected answeredAt source => simp [IvrRun.completed] at hfailed
  | routed routeId completedAt source target eligible route => simp [IvrRun.completed] at hfailed
  | captured userId recordingDeadline completedAt source => simp [IvrRun.completed] at hfailed
  | ended reason timestamp => exact .inl (failed_active _ _ _)

/-! ### The transactions -/

private theorem IvrCommit.invariant (hcommit : IvrCommit input reads call run call' run')
    (h : RunInvariant call run) : RunInvariant call' run' := by
  cases hcommit with
  | kept => exact h
  | cancelled completedAt live inactive =>
    exact ⟨h.step, h.retries, fun hphase => by simp at hphase, h.within, fun _ => inactive⟩
  | guarded reason timestamp live active =>
    have hcounted := h.counted.failed reason timestamp
    exact ⟨hcounted.step, hcounted.retries, hcounted.window, h.within, fun _ => failed_active _ _ _⟩
  | @operated run₁ call₂ run₂ live active machine phase within =>
    obtain ⟨hcounted, hexpiry⟩ := machine.counted h.counted
    obtain ⟨hcounted, hexpiry', hearlier⟩ := phase.counted hcounted
    refine ⟨hcounted.step, hcounted.retries, hcounted.window, ?_, fun hfailed => ?_⟩
    · have := h.within
      omega
    · rcases phase.failed hfailed with hover | hsame
      · exact hover
      rcases machine.failed live with hlive | ⟨-, hpassed⟩
      · rw [hsame] at hlive
        rcases hfailed with hfailed | hfailed <;> rw [hfailed] at hlive <;> cases hlive
      -- The run failed by its own deadline: the check after the operation would have ended an active call.
      · by_contra hactive
        rw [Bool.not_eq_false] at hactive
        have hopen := within hactive
        have hclock := reads.clock.handled_le_closed
        have hwithin := h.within
        omega
  | @closed run₁ call₂ run₂ timestamp live active machine phase active' =>
    obtain ⟨hcounted, hexpiry⟩ := machine.counted h.counted
    obtain ⟨hcounted, hexpiry', hearlier⟩ := phase.counted hcounted
    have hfailed := hcounted.failed .ivrDeadline timestamp
    refine ⟨hfailed.step, hfailed.retries, hfailed.window, ?_, fun _ => failed_active _ _ _⟩
    have hwithin := h.within
    simp only [Call.failed, IvrRun.failed]
    omega

private theorem IvrCommit.terminal (hcommit : IvrCommit input reads call run call' run')
    (hover : run.phase.terminal = true) : run' = run := by
  cases hcommit with
  | kept => rfl
  | _ =>
    rename_i live _ _
    simp_all

private theorem cancel_terminal (hover : run.phase.terminal = true) (now : Int) :
    run.cancel now = run := by
  unfold IvrRun.cancel
  rw [if_pos hover]

/-- The other transactions on the call. -/
private theorem CallChange.invariant {free : String → Prop} {ivr : Option IvrRun}
    (hchange : CallChange free call.core (some run) call'.core ivr) (hrun : run' = ivr.getD run)
    (h : RunInvariant call run) : RunInvariant call' run' := by
  have hwithin : call'.core.expiresAt ≤ run.expiresAt := by
    refine hchange.within (fun other hother => ?_) run rfl
    rw [Option.mem_def, Option.some_inj] at hother
    subst hother
    exact h.within
  rcases hchange.run with hsame | ⟨hover, now, hcancelled⟩
  · rw [hsame, Option.getD_some] at hrun
    subst hrun
    refine ⟨h.step, h.retries, h.window, hwithin, fun hfailed => ?_⟩
    have hstatus := (hchange.inactive (h.inactive hfailed)).1
    have hover := h.inactive hfailed
    simp only [Call.core] at hstatus
    unfold Call.active at hover ⊢
    rw [hstatus]
    exact hover
  · rw [hcancelled, Option.map_some, Option.getD_some] at hrun
    subst hrun
    unfold IvrRun.cancel
    split
    · exact ⟨h.step, h.retries, h.window, hwithin, fun _ => hover⟩
    · exact ⟨h.step, h.retries, fun hphase => by simp at hphase, hwithin, fun _ => hover⟩

/-! ### Moves and runs -/

section

variable {fingerprint : String → String} {system : IvrSystem}

theorem step_invariant (h : RunInvariant system.rows.call system.rows.run) (move : IvrMove) :
    RunInvariant (system.step fingerprint move).rows.call (system.step fingerprint move).rows.run := by
  cases system.step_rows fingerprint move with
  | kept call run =>
    rw [call, run]
    exact h
  | handled commit => exact commit.invariant h
  | worked commit => exact commit.invariant h
  | changed change run => exact change.invariant run h

theorem step_terminal (hover : system.rows.run.phase.terminal = true) (move : IvrMove) :
    (system.step fingerprint move).rows.run = system.rows.run := by
  cases system.step_rows fingerprint move with
  | kept call run => exact run
  | handled commit => exact commit.terminal hover
  | worked commit => exact commit.terminal hover
  | changed change run =>
    rcases change.run with hsame | ⟨-, now, hcancelled⟩
    · rw [run, hsame, Option.getD_some]
    · rw [run, hcancelled, Option.map_some, Option.getD_some, cancel_terminal hover]

theorem run_invariant (h : RunInvariant system.rows.call system.rows.run) (moves : List IvrMove) :
    RunInvariant (system.run fingerprint moves).rows.call (system.run fingerprint moves).rows.run := by
  induction moves generalizing system with
  | nil => exact h
  | cons move moves ih => exact ih (step_invariant h move)

theorem run_terminal (hover : system.rows.run.phase.terminal = true) (moves : List IvrMove) :
    (system.run fingerprint moves).rows.run = system.rows.run := by
  induction moves generalizing system with
  | nil => rfl
  | cons move moves ih =>
    have hstep : (system.step fingerprint move).rows.run = system.rows.run := step_terminal hover move
    rw [← hstep] at hover
    exact (ih hover).trans hstep

end

theorem start_invariant (call : Call) (id : String) (snapshot : Snapshot) (insertedAt : Int)
    (receipts : List IvrEventReceipt) :
    RunInvariant (IvrSystem.start call id snapshot insertedAt receipts).rows.call
      (IvrSystem.start call id snapshot insertedAt receipts).rows.run where
  step := rfl
  retries := Nat.zero_le _
  window := fun hphase => by simp [IvrSystem.start, reserve] at hphase
  within := Int.le_refl _
  inactive := fun hphase => by simp [IvrSystem.start, reserve] at hphase

/-! ### Transactions that do nothing -/

/-- An event that is ignored, or that was handled before, leaves the run and the call as they are. -/
theorem eventTransaction_ignored {event : IvrEvent} {rows rows' : IvrRows} {result : IvrResult}
    (h : (eventTransaction event reads rows).Commits (rows', result))
    (hresult : result = .ignored ∨ result = .duplicate) : rows'.call = rows.call ∧ rows'.run = rows.run := by
  have hfail : ∀ {rows₁ : IvrRows} {reason timestamp},
      ¬ (failCall rows₁ reason timestamp).Commits (rows', result) := by
    intro rows₁ reason timestamp h
    rcases hresult with rfl | rfl <;> cases (commits_failCall h).2.2.2
  unfold eventTransaction runTransaction at h
  simp only [commits_bind] at h
  obtain ⟨-, -, -, -, h⟩ := h
  split at h
  · rw [commits_pure] at h
    cases h
    exact ⟨rfl, rfl⟩
  split at h
  · simp only [commits_bind, commits_pure] at h
    obtain ⟨run, -, h⟩ := h
    cases h
    rcases hresult with hresult | hresult <;> cases hresult
  split at h
  · exact absurd h hfail
  split at h
  · exact absurd h hfail
  split at h
  · exact absurd h hfail
  simp only [commits_bind] at h
  obtain ⟨⟨after, result'⟩, hafter, -, -, h⟩ := h
  split at h
  · exact absurd h hfail
  rw [commits_pure] at h
  cases h
  obtain ⟨-, -, hafter⟩ := hafter
  split at hafter
  · simp only [commits_bind, commits_pure] at hafter
    obtain ⟨-, -, hafter⟩ := hafter
    cases hafter
    exact ⟨rfl, rfl⟩
  unfold handleEvent at hafter
  split at hafter
  · rw [commits_pure] at hafter
    cases hafter
    exact ⟨rfl, rfl⟩
  simp only [commits_bind] at hafter
  obtain ⟨-, -, hafter⟩ := hafter
  split at hafter
  · exact absurd hafter hfail
  split at hafter
  · exact absurd hafter (commits_rollback _ _)
  · simp only [commits_bind, commits_pure] at hafter
    obtain ⟨run, -, hafter⟩ := hafter
    cases hafter
    rcases hresult with hresult | hresult <;> cases hresult
  · rw [commits_pure] at hafter
    cases hafter
    exact ⟨rfl, rfl⟩

theorem step_rollsBack {fingerprint : String → String} {system : IvrSystem} {move : IvrMove}
    (h : system.RollsBack fingerprint move) : (system.step fingerprint move).rows = system.rows := by
  cases move with
  | webhook event reads => exact system.settle_rollsBack h
  | work worker reads => exact system.settle_rollsBack h
  | crash worker => exact h.elim
  | lifecycle command =>
    unfold IvrSystem.RollsBack at h
    simp only [IvrSystem.step, h]
  | foreignReceipt receipt => exact h.elim

/-- In every state that a run and its call can reach: the counters and the window of the run, its last phases, and the
transactions that do nothing. -/
theorem ivr_run_invariant (fingerprint : String → String) (call : Call) (id : String) (snapshot : Snapshot)
    (insertedAt : Int) (receipts : List IvrEventReceipt) (moves : List IvrMove) :
    let system := (IvrSystem.start call id snapshot insertedAt receipts).run fingerprint moves
    let run := system.rows.run
    (run.step = run.retries + 1 ∧ run.retries ≤ run.snapshot.maxRetries ∧ 1 ≤ run.step ∧ run.step ≤ 3 ∧
        (playbackId run.id run.step).isSome) ∧
      (run.phase = .awaitingDigit → ∃ completedAt deadline, run.promptCompletedAt = some completedAt ∧
        run.digitDeadline = some deadline ∧ deadline ≤ run.expiresAt) ∧
      (run.phase = .completed ∨ run.phase = .failed ∨ run.phase = .cancelled →
        ∀ later, (system.run fingerprint later).rows.run = run) ∧
      (run.phase = .failed ∨ run.phase = .cancelled →
        system.rows.call.status ≠ .ringing ∧ system.rows.call.status ≠ .answered) ∧
      (∀ event reads rows result, (eventTransaction event reads system.rows).Commits (rows, result) →
        result = .ignored ∨ result = .duplicate → rows.call = system.rows.call ∧ rows.run = run) ∧
      ∀ move, system.RollsBack fingerprint move → (system.step fingerprint move).rows = system.rows := by
  intro system run
  have h : RunInvariant system.rows.call run := run_invariant (start_invariant _ _ _ _ _) moves
  have hstep : 1 ≤ run.step ∧ run.step ≤ 3 := by
    have h₁ := h.step
    have h₂ := h.retries
    have h₃ := run.snapshot.retries_admitted
    omega
  refine ⟨⟨h.step, h.retries, hstep.1, hstep.2, playbackId_isSome.2 hstep⟩, h.window, ?_, ?_, ?_, ?_⟩
  · intro hphase later
    refine run_terminal ?_ later
    rcases hphase with hphase | hphase | hphase <;> rw [hphase] <;> rfl
  · intro hphase
    have hover := h.inactive hphase
    simp only [Call.active, CallStatus.active, Bool.or_eq_false_iff, decide_eq_false_iff_not] at hover
    exact hover
  · intro event reads rows result hcommits hresult
    exact eventTransaction_ignored hcommits hresult
  · intro move hmove
    exact step_rollsBack hmove

end KComms.Telephony
