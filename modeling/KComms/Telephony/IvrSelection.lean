import KComms.Telephony.IvrInvariant
import Mathlib.Data.List.Induction

/-!
# Where the selected target of a run comes from

The code sees the current row and one event.  Over a whole run, the target is selected at most once, and either a digit
of the then current step chose it within its window, or it is the fallback and every step ended in a digit that is
missing or invalid (`ivr_selection`).
-/

namespace KComms.Telephony

/-- The row of the run after some moves. -/
def IvrSystem.runAt (fingerprint : String → String) (start : IvrSystem) (moves : List IvrMove) : IvrRun :=
  (start.run fingerprint moves).rows.run

/-- What the transaction of a move handles, and when. -/
def IvrMove.input : IvrMove → Option (IvrInput × Int)
  | .webhook event reads => some (.event event, reads.clock.handled)
  | .work _ reads => some (.job, reads.clock.handled)
  | _ => none

/-- The phases before a target is selected. -/
def Phase.early (phase : Phase) : Bool :=
  phase = .pending || phase = .preparing || phase = .playing || phase = .awaitingDigit || phase = .unknown

section

variable (fingerprint : String → String) (start : IvrSystem)

/-- The prompt of this step has ended at this time, by an event for its own playback. -/
def PromptEnded (moves : List IvrMove) (step : Nat) (completedAt : Int) : Prop :=
  ∃ before event reads after, moves = before ++ .webhook event reads :: after ∧
    EndsPrompt (start.runAt fingerprint before) event ∧ (start.runAt fingerprint before).step = step ∧
      event.occurredAt = completedAt

/-- The step has ended in a digit that is missing or invalid. -/
def StepMissed (moves : List IvrMove) (step : Nat) : Prop :=
  ∃ before move after input now, moves = before ++ move :: after ∧ IvrMove.input move = some (input, now) ∧
    (start.runAt fingerprint before).step = step ∧ Missed input now (start.runAt fingerprint before)

/-- A digit has chosen the target: the event is for the step that was current when it was handled, and it occurred
within the window of that step, after the prompt. -/
def ChosenByDigit (moves : List IvrMove) (target : Target) : Prop :=
  ∃ before event reads after completedAt deadline, moves = before ++ .webhook event reads :: after ∧
    Chosen (.event event) reads.clock.handled (start.runAt fingerprint before) target event completedAt deadline ∧
    deadline ≤ (start.runAt fingerprint before).expiresAt ∧
    PromptEnded fingerprint start before (start.runAt fingerprint before).step completedAt ∧
    (start.runAt fingerprint before).selectedTarget = none

/-- Every step has ended in a digit that is missing or invalid. -/
def AllMissed (moves : List IvrMove) (snapshot : Snapshot) : Prop :=
  ∀ step, 1 ≤ step → step ≤ snapshot.maxRetries + 1 → StepMissed fingerprint start moves step

/-- What the history of a run says about its row. -/
structure Selection (moves : List IvrMove) (run : IvrRun) : Prop where
  early : run.phase.early = true → run.selectedTarget = none
  prompt : run.phase = .awaitingDigit → ∃ completedAt, run.promptCompletedAt = some completedAt ∧
    PromptEnded fingerprint start moves run.step completedAt
  missed : ∀ step, 1 ≤ step → step < run.step → StepMissed fingerprint start moves step
  selected : ∀ target, run.selectedTarget = some target →
    ChosenByDigit fingerprint start moves target ∨
      target = run.snapshot.fallback ∧ AllMissed fingerprint start moves run.snapshot

end

variable {run run' : IvrRun} {input : IvrInput} {reads : IvrReads} {call call' : Call}

section

variable {fingerprint : String → String} {start : IvrSystem} {moves : List IvrMove} {move : IvrMove}

theorem IvrSystem.runAt_snoc (fingerprint : String → String) (start : IvrSystem) (moves : List IvrMove)
    (move : IvrMove) : start.runAt fingerprint (moves ++ [move]) =
      ((start.run fingerprint moves).step fingerprint move).rows.run := by
  unfold runAt IvrSystem.run
  rw [List.foldl_append]
  rfl

/-! ### A longer history -/

private theorem PromptEnded.snoc {step : Nat} {completedAt : Int}
    (h : PromptEnded fingerprint start moves step completedAt) (move : IvrMove) :
    PromptEnded fingerprint start (moves ++ [move]) step completedAt := by
  obtain ⟨before, event, reads, after, rfl, h⟩ := h
  exact ⟨before, event, reads, after ++ [move], by simp, h⟩

private theorem StepMissed.snoc {step : Nat} (h : StepMissed fingerprint start moves step) (move : IvrMove) :
    StepMissed fingerprint start (moves ++ [move]) step := by
  obtain ⟨before, move', after, input, now, rfl, h⟩ := h
  exact ⟨before, move', after ++ [move], input, now, by simp, h⟩

private theorem ChosenByDigit.snoc {target : Target} (h : ChosenByDigit fingerprint start moves target)
    (move : IvrMove) : ChosenByDigit fingerprint start (moves ++ [move]) target := by
  obtain ⟨before, event, reads, after, completedAt, deadline, rfl, h⟩ := h
  exact ⟨before, event, reads, after ++ [move], completedAt, deadline, by simp, h⟩

private theorem Selection.snoc (h : Selection fingerprint start moves run) (move : IvrMove) :
    Selection fingerprint start (moves ++ [move]) run where
  early := h.early
  prompt := by
    intro hphase
    obtain ⟨completedAt, hprompt, hended⟩ := h.prompt hphase
    exact ⟨completedAt, hprompt, hended.snoc move⟩
  missed := fun step hone hless => (h.missed step hone hless).snoc move
  selected := by
    intro target htarget
    rcases h.selected target htarget with hchosen | ⟨hfallback, hall⟩
    · exact .inl (hchosen.snoc move)
    · exact .inr ⟨hfallback, fun step hone hless => (hall step hone hless).snoc move⟩

/-- A change that selects nothing and does not open a window. -/
private theorem Selection.of_eq (h : Selection fingerprint start moves run) (hstep : run'.step = run.step)
    (hsnapshot : run'.snapshot = run.snapshot) (htarget : run'.selectedTarget = run.selectedTarget)
    (hphase : run'.phase ≠ .awaitingDigit)
    (hearly : run'.phase.early = true → run.phase.early = true) : Selection fingerprint start moves run' where
  early := fun hphase' => htarget.trans (h.early (hearly hphase'))
  prompt := fun hphase' => absurd hphase' hphase
  missed := by
    rw [hstep]
    exact h.missed
  selected := by
    rw [htarget, hsnapshot]
    exact h.selected

/-- A change after the selection. -/
private theorem Selection.of_late (h : Selection fingerprint start moves run) (hstep : run'.step = run.step)
    (hsnapshot : run'.snapshot = run.snapshot) (htarget : run'.selectedTarget = run.selectedTarget)
    (hphase : run'.phase.early = false) :
    Selection fingerprint start moves run' := by
  refine h.of_eq hstep hsnapshot htarget ?_ ?_
  · intro hawaiting
    rw [hawaiting] at hphase
    cases hphase
  · intro hearly
    rw [hphase] at hearly
    cases hearly

/-- A change between the phases before the selection. -/
private theorem Selection.of_early (h : Selection fingerprint start moves run) (hstep : run'.step = run.step)
    (hsnapshot : run'.snapshot = run.snapshot) (htarget : run'.selectedTarget = run.selectedTarget)
    (hphase : run'.phase ≠ .awaitingDigit) (hearly : run.phase.early = true) : Selection fingerprint start moves run' :=
  h.of_eq hstep hsnapshot htarget hphase fun _ => hearly

private theorem Selection.failed (h : Selection fingerprint start moves run) (reason : FailureReason)
    (timestamp : Int) : Selection fingerprint start moves (run.failed reason timestamp) := by
  refine h.of_late rfl rfl rfl ?_
  rcases failed_phase run reason timestamp with hphase | hphase <;> rw [hphase] <;> rfl

/-! ### The steps -/

/-- The state machine handles the move, and the history gets longer by it. -/
private theorem MachineStep.selection {now : Int} {run₁ : IvrRun}
    (hstep : MachineStep input now (start.runAt fingerprint moves) run₁) (hinput : move.input = some (input, now))
    (hreads : ∀ event, input = .event event → ∃ reads, move = .webhook event reads)
    (hcounted : Counted (start.runAt fingerprint moves))
    (h : Selection fingerprint start moves (start.runAt fingerprint moves)) :
    Selection fingerprint start (moves ++ [move]) run₁ := by
  have hlater := h.snoc move
  cases hstep with
  | idle => exact hlater
  | expired passed => exact hlater.of_late rfl rfl rfl rfl
  | prompted event handles ends =>
    obtain ⟨reads, rfl⟩ := hreads event handles
    refine ⟨fun _ => hlater.early ?_, fun _ => ?_, hlater.missed, hlater.selected⟩
    · rcases ends.phase with hphase | hphase <;> simp [hphase, Phase.early]
    · exact ⟨event.occurredAt, rfl, moves, event, reads, [], rfl, ends, rfl, rfl⟩
  | missed because =>
    have hawaiting : (start.runAt fingerprint moves).phase = .awaitingDigit := because.phase
    have hmissed : StepMissed fingerprint start (moves ++ [move]) (start.runAt fingerprint moves).step :=
      ⟨moves, move, [], input, now, rfl, hinput, rfl, because⟩
    have hunselected := hlater.early (by simp [hawaiting, Phase.early])
    -- All steps up to the current one have ended so.
    have hall : ∀ step, 1 ≤ step → step ≤ (start.runAt fingerprint moves).step →
        StepMissed fingerprint start (moves ++ [move]) step := by
      intro step hone hle
      rcases Nat.lt_or_eq_of_le hle with hless | rfl
      · exact hlater.missed step hone hless
      · exact hmissed
    rcases retryOrFallback_cases (start.runAt fingerprint moves) with ⟨-, hnext⟩ | ⟨hlast, hnext⟩
    · rw [hnext]
      refine ⟨fun _ => hunselected, fun hphase => by simp [IvrRun.retry] at hphase, ?_, hlater.selected⟩
      intro step hone hless
      exact hall step hone (Nat.le_of_lt_succ hless)
    · rw [hnext]
      refine ⟨fun hphase => by simp [IvrRun.select, Phase.early] at hphase,
        fun hphase => by simp [IvrRun.select] at hphase, hlater.missed, ?_⟩
      intro target htarget
      right
      refine ⟨(Option.some_inj.1 htarget).symm, fun step hone hle => hall step hone ?_⟩
      have hstep := hcounted.step
      have hretries := hcounted.retries
      change step ≤ (start.runAt fingerprint moves).snapshot.maxRetries + 1 at hle
      omega
  | chosen target event completedAt deadline because =>
    obtain ⟨reads, rfl⟩ := hreads event because.handles
    have hawaiting := because.answers.phase
    have hunselected := h.early (by simp [hawaiting, Phase.early])
    refine ⟨fun hphase => by simp [IvrRun.select, Phase.early] at hphase,
      fun hphase => by simp [IvrRun.select] at hphase, hlater.missed, ?_⟩
    intro target' htarget
    obtain rfl : target = target' := Option.some_inj.1 htarget
    left
    obtain ⟨-, deadline', -, hwindow, hexpiry⟩ := hcounted.window hawaiting
    obtain ⟨completedAt', hprompt, hended⟩ := h.prompt hawaiting
    rw [because.answers.window, Option.some_inj] at hwindow
    rw [because.answers.prompt, Option.some_inj] at hprompt
    subst hwindow hprompt
    cases hinput
    exact ⟨moves, event, reads, [], completedAt, deadline, rfl, because, hexpiry, hended, hunselected⟩

private theorem PhaseStep.selection (hstep : PhaseStep reads call run call' run')
    (h : Selection fingerprint start moves run) :
    Selection fingerprint start moves run' := by
  cases hstep with
  | idle => exact h
  | prepared claimedAt source => exact h.of_early rfl rfl rfl (by simp) (by rw [source]; rfl)
  | bound bindings source => exact h.of_early rfl rfl rfl (by simp) (by rw [source]; rfl)
  | claimed action mark source =>
    cases action with
    | play =>
      have hphase : run.phase = .playing := source
      exact h.of_early rfl rfl rfl (by simp [IvrRun.claimed, claimPhase]) (by rw [hphase]; rfl)
    | destination => exact h.of_late rfl rfl rfl rfl
    | connectDestination => exact h.of_late rfl rfl rfl rfl
  | consumed action startedAt phase reason unstarted =>
    refine h.of_eq rfl rfl rfl ?_ id
    cases action <;> simp [phase, claimPhase]
  | reported reason unclaimed source =>
    refine h.of_eq rfl rfl rfl ?_ id
    rcases source with hphase | hphase | hphase <;> simp [hphase]
  | connected answeredAt source => exact h.of_late rfl rfl rfl rfl
  | routed routeId completedAt source target eligible route => exact h.of_late rfl rfl rfl rfl
  | captured userId recordingDeadline completedAt source => exact h.of_late rfl rfl rfl rfl
  | ended reason timestamp => exact h.failed reason timestamp

/-! ### Moves and runs -/

/-- The rows that a transaction commits. -/
private theorem IvrCommit.selection (hcommit : IvrCommit input reads call (start.runAt fingerprint moves) call' run')
    (hinput : move.input = some (input, reads.clock.handled))
    (hreads : ∀ event, input = .event event → ∃ reads, move = .webhook event reads)
    (hcounted : Counted (start.runAt fingerprint moves))
    (h : Selection fingerprint start moves (start.runAt fingerprint moves)) :
    Selection fingerprint start (moves ++ [move]) run' := by
  cases hcommit with
  | kept => exact h.snoc move
  | cancelled completedAt live inactive => exact (h.snoc move).of_late rfl rfl rfl rfl
  | guarded reason timestamp live active => exact (h.snoc move).failed reason timestamp
  | operated live active machine phase within =>
    exact phase.selection (machine.selection hinput hreads hcounted h)
  | closed timestamp live active machine phase active' =>
    exact (phase.selection (machine.selection hinput hreads hcounted h)).failed .ivrDeadline timestamp

private theorem selection_snoc (hcounted : Counted (start.runAt fingerprint moves))
    (h : Selection fingerprint start moves (start.runAt fingerprint moves)) (move : IvrMove) :
    Selection fingerprint start (moves ++ [move]) (start.runAt fingerprint (moves ++ [move])) := by
  rw [IvrSystem.runAt_snoc]
  cases (start.run fingerprint moves).step_rows fingerprint move with
  | kept call run =>
    rw [run]
    exact h.snoc move
  | @handled event reads commit =>
    refine commit.selection rfl (fun event' hevent => ?_) hcounted h
    cases hevent
    exact ⟨reads, rfl⟩
  | worked commit => exact commit.selection rfl (fun event' hevent => by cases hevent) hcounted h
  | changed change run =>
    rcases change.run with hsame | ⟨-, now, hcancelled⟩
    · rw [run, hsame]
      exact h.snoc _
    · rw [run, hcancelled, Option.map_some, Option.getD_some]
      unfold IvrRun.cancel
      split
      · exact h.snoc _
      · exact (h.snoc _).of_late rfl rfl rfl rfl

theorem start_selection (call : Call) (id : String) (snapshot : Snapshot) (insertedAt : Int)
    (receipts : List IvrEventReceipt) :
    Selection fingerprint (.start call id snapshot insertedAt receipts) []
      ((IvrSystem.start call id snapshot insertedAt receipts).runAt fingerprint []) where
  early := fun _ => rfl
  prompt := fun hphase => by cases hphase
  missed := by
    intro step hone hless
    change step < 1 at hless
    omega
  selected := fun target htarget => by cases htarget

theorem run_selection (call : Call) (id : String) (snapshot : Snapshot) (insertedAt : Int)
    (receipts : List IvrEventReceipt) (moves : List IvrMove) :
    Selection fingerprint (.start call id snapshot insertedAt receipts) moves
      ((IvrSystem.start call id snapshot insertedAt receipts).runAt fingerprint moves) := by
  induction moves using List.reverseRecOn with
  | nil => exact start_selection call id snapshot insertedAt receipts
  | append_singleton moves move ih =>
    exact selection_snoc (run_invariant (start_invariant call id snapshot insertedAt receipts) moves).counted ih move

/-! ### What is selected stays -/

private theorem MachineStep.kept {now : Int} {run₁ : IvrRun} (hstep : MachineStep input now run run₁) :
    run₁.snapshot = run.snapshot ∧ (run.phase.early = false → run₁.selectedTarget = run.selectedTarget) := by
  have hawaiting : ∀ {run : IvrRun}, run.phase = .awaitingDigit → ¬ run.phase.early = false := by
    intro run hphase
    rw [hphase]
    decide
  cases hstep with
  | idle => exact ⟨rfl, fun _ => rfl⟩
  | expired passed => exact ⟨rfl, fun _ => rfl⟩
  | prompted event handles ends => exact ⟨rfl, fun _ => rfl⟩
  | missed because =>
    have hphase : run.phase = .awaitingDigit := because.phase
    refine ⟨?_, fun hlate => absurd hlate (hawaiting hphase)⟩
    rcases retryOrFallback_cases run with ⟨-, hnext⟩ | ⟨-, hnext⟩ <;> rw [hnext] <;> rfl
  | chosen target event completedAt deadline because =>
    exact ⟨rfl, fun hlate => absurd hlate (hawaiting because.answers.phase)⟩

private theorem PhaseStep.kept (hstep : PhaseStep reads call run call' run') :
    run'.snapshot = run.snapshot ∧ run'.selectedTarget = run.selectedTarget := by
  cases hstep <;> exact ⟨rfl, rfl⟩

private theorem IvrCommit.keptTarget (hcommit : IvrCommit input reads call run call' run') :
    run'.snapshot = run.snapshot ∧ (run.phase.early = false → run'.selectedTarget = run.selectedTarget) := by
  cases hcommit with
  | kept => exact ⟨rfl, fun _ => rfl⟩
  | cancelled completedAt live inactive => exact ⟨rfl, fun _ => rfl⟩
  | guarded reason timestamp live active => exact ⟨rfl, fun _ => rfl⟩
  | operated live active machine phase within =>
    refine ⟨phase.kept.1.trans machine.kept.1, fun hlate => ?_⟩
    exact phase.kept.2.trans (machine.kept.2 hlate)
  | closed timestamp live active machine phase active' =>
    refine ⟨phase.kept.1.trans machine.kept.1, fun hlate => ?_⟩
    exact phase.kept.2.trans (machine.kept.2 hlate)

private theorem step_kept (system : IvrSystem) (move : IvrMove) :
    (system.step fingerprint move).rows.run.snapshot = system.rows.run.snapshot ∧
      (system.rows.run.phase.early = false →
        (system.step fingerprint move).rows.run.selectedTarget = system.rows.run.selectedTarget) := by
  cases system.step_rows fingerprint move with
  | kept call run =>
    rw [run]
    exact ⟨rfl, fun _ => rfl⟩
  | handled commit => exact commit.keptTarget
  | worked commit => exact commit.keptTarget
  | changed change run =>
    rcases change.run with hsame | ⟨-, now, hcancelled⟩
    · rw [run, hsame]
      exact ⟨rfl, fun _ => rfl⟩
    · rw [run, hcancelled, Option.map_some, Option.getD_some]
      unfold IvrRun.cancel
      split <;> exact ⟨rfl, fun _ => rfl⟩

theorem runAt_snapshot (call : Call) (id : String) (snapshot : Snapshot) (insertedAt : Int)
    (receipts : List IvrEventReceipt) (moves : List IvrMove) :
    ((IvrSystem.start call id snapshot insertedAt receipts).runAt fingerprint moves).snapshot = snapshot := by
  induction moves using List.reverseRecOn with
  | nil => rfl
  | append_singleton moves move ih =>
    rw [IvrSystem.runAt_snoc]
    exact (step_kept _ move).1.trans ih

theorem runAt_selected (call : Call) (id : String) (snapshot : Snapshot) (insertedAt : Int)
    (receipts : List IvrEventReceipt) (moves later : List IvrMove) (target : Target)
    (h : ((IvrSystem.start call id snapshot insertedAt receipts).runAt fingerprint moves).selectedTarget = some target) :
    ((IvrSystem.start call id snapshot insertedAt receipts).runAt fingerprint (moves ++ later)).selectedTarget =
      some target := by
  induction later using List.reverseRecOn with
  | nil =>
    rw [List.append_nil]
    exact h
  | append_singleton later move ih =>
    rw [← List.append_assoc, IvrSystem.runAt_snoc]
    have hselection : Selection fingerprint (.start call id snapshot insertedAt receipts) (moves ++ later)
        ((IvrSystem.start call id snapshot insertedAt receipts).runAt fingerprint (moves ++ later)) :=
      run_selection call id snapshot insertedAt receipts (moves ++ later)
    refine ((step_kept _ move).2 ?_).trans ih
    by_contra hearly
    rw [Bool.not_eq_false] at hearly
    have hnone := hselection.early hearly
    rw [ih] at hnone
    cases hnone

end

/-- The target of a run is selected at most once, and a digit chose it in time, or it is the fallback and the digit of
every step was missing or invalid. -/
theorem ivr_selection (fingerprint : String → String) (call : Call) (id : String) (snapshot : Snapshot)
    (insertedAt : Int) (receipts : List IvrEventReceipt) (moves : List IvrMove) (target : Target) :
    let start := IvrSystem.start call id snapshot insertedAt receipts
    (start.runAt fingerprint moves).selectedTarget = some target →
      (∀ later, (start.runAt fingerprint (moves ++ later)).selectedTarget = some target) ∧
        (ChosenByDigit fingerprint start moves target ∨
          target = snapshot.fallback ∧ AllMissed fingerprint start moves snapshot) := by
  intro start h
  refine ⟨fun later => runAt_selected call id snapshot insertedAt receipts moves later target h, ?_⟩
  have hselected := (run_selection call id snapshot insertedAt receipts moves).selected target h
  rw [runAt_snapshot] at hselected
  exact hselected

/-! ### A caller who presses 1 -/

def sampleCall : Call where
  id := "c-1"
  tenantId := "tenant"
  numberId := "number"
  userId := "owner"
  direction := .inbound
  status := .ringing
  toNumber := "+15550100"
  inboundTrunkId := "in"
  outboundTrunkId := "out"
  providerRoom := "room"
  providerIdentity := "caller"
  providerCallId := none
  idempotencyKey := none
  answerSessionId := none
  answerDeviceId := none
  appIdentity := none
  appConnectedAt := none
  appReconnectDeadline := none
  appProviderSid := none
  appLeftSid := none
  appEventAt := none
  appPendingSid := none
  appPendingAt := none
  dispatchStatus := .pending
  dispatchClaimedAt := none
  cleanupClaimedAt := none
  cleanupCompletedAt := none
  startedAt := 0
  answeredAt := none
  endedAt := none
  expiresAt := seconds 45
  endReason := none
  routeId := none
  routingStatus := .ivr
  offeredUserIds := []
  routeExpiresAt := none
  controlState := .connected
  pbxState := []

def sampleSnapshot : Snapshot where
  promptMedia := "sound:menu"
  choices := [("1", .route "support"), ("2", .destination "+15550123")]
  fallback := .hangup
  digitTimeoutSeconds := 10
  maxRetries := 1
  timeout_admitted := by decide
  retries_admitted := by decide

def sampleBindings : Bindings :=
  [("external", some "channel"), ("app", none), ("mixing", some "kc_hold_c1"), ("holding", some "kc_hold_c1"),
    ("consult", some "kc_consult_c1"), ("recording", some "kc_vm_c1"), ("destination_bridge", some "kc_ivr_mix_c1")]

/-- The clock of a transaction that takes no time. -/
def Clock.still (now : Int) : Clock := ⟨now, now, now, now, now, Int.le_refl _, Int.le_refl _, Int.le_refl _, Int.le_refl _⟩

def sampleReads (now : Int) (snapshotTarget : Option Target) : IvrReads where
  clock := .still (seconds now)
  locksInBudget := true
  effectInBudget := true
  commitInBudget := true
  snapshotTarget := snapshotTarget
  targetAvailable := true
  allowAudioCalls := true
  provider :=
    { prepare := fun _ => some sampleBindings
      play := fun _ => true
      destination := fun asked => if asked.stage = .originate then .ready else .connected }
  targetRequired := .ok ()
  routing := ⟨"agent", some "support", .offered, ["agent"], none, true⟩
  mailboxUserId := none
  recordingDeadline := .error .telephonyIvrTargetUnavailable
  destinationAuthorized := true
  nonce := "0123456789abcdef0123456789abcdef0123456789abcdef0123456789abcdef"

def samplePlayback : IvrEvent where
  eventId := "e1"
  bodyFingerprint := "b1"
  type := .playbackFinished
  tenantId := none
  callId := none
  runId := "r-1"
  step := 1
  channelId := "channel"
  providerRoom := none
  providerIdentity := none
  occurredAt := seconds 6
  digit := none
  playbackId := some "kc_ivr_r1_1"
  mediaUri := some "sound:menu"

def sampleDigit (digit : String) : IvrEvent where
  eventId := "e2"
  bodyFingerprint := "b2"
  type := .digit
  tenantId := some "tenant"
  callId := some "c-1"
  runId := "r-1"
  step := 1
  channelId := "channel"
  providerRoom := some "room"
  providerIdentity := some "caller"
  occurredAt := seconds 8
  digit := some digit
  playbackId := none
  mediaUri := none

/-- One worker prepares and plays the prompt, the prompt ends, and the caller presses a digit. -/
def sampleMoves (digit : String) : List IvrMove :=
  [.work 0 (sampleReads 1 none), .work 0 (sampleReads 2 none), .work 0 (sampleReads 3 none),
    .work 0 (sampleReads 3 none), .work 0 (sampleReads 3 none), .webhook samplePlayback (sampleReads 7 none),
    .webhook (sampleDigit digit) (sampleReads 9 none)]

theorem ivr_selection_sample :
    ((IvrSystem.start sampleCall "r-1" sampleSnapshot 0 []).runAt id (sampleMoves "1")).selectedTarget =
        some (.route "support") ∧
      ((∀ later, ((IvrSystem.start sampleCall "r-1" sampleSnapshot 0 []).runAt id
          (sampleMoves "1" ++ later)).selectedTarget = some (.route "support")) ∧
        (ChosenByDigit id (.start sampleCall "r-1" sampleSnapshot 0 []) (sampleMoves "1") (.route "support") ∨
          Target.route "support" = sampleSnapshot.fallback ∧
            AllMissed id (.start sampleCall "r-1" sampleSnapshot 0 []) (sampleMoves "1") sampleSnapshot)) := by
  have h : ((IvrSystem.start sampleCall "r-1" sampleSnapshot 0 []).runAt id (sampleMoves "1")).selectedTarget =
      some (.route "support") := by
    decide
  exact ⟨h, ivr_selection id sampleCall "r-1" sampleSnapshot 0 [] (sampleMoves "1") (.route "support") h⟩

end KComms.Telephony
