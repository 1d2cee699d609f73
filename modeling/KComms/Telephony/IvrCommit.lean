import KComms.Telephony.Ivr

/-!
# What the IVR transactions commit

A transaction that gets past its guards lets the state machine act on the run (`MachineStep`), then a phase of the
worker (`PhaseStep`), and at last closes the call if its deadline has passed meanwhile.  `IvrCommit` says so once, for
all four transactions; the invariants of runs are derived from it.
-/

namespace KComms.Telephony

open Attempt

/-- What a transaction handles: an event, or a job of the worker. -/
inductive IvrInput
  | event (event : IvrEvent)
  | job
  deriving DecidableEq, Repr

/-- The current step ends in a digit that is missing or invalid: no digit was handled before the deadline, or the digit
was pressed too late, or it is no choice. -/
inductive Missed (input : IvrInput) (now : Int) (run : IvrRun) : Prop
  | missing (deadline : Int) (phase : run.phase = .awaitingDigit) (window : run.digitDeadline = some deadline)
    (passed : deadline ≤ now)
  | late (event : IvrEvent) (completedAt deadline : Int) (handles : input = .event event)
    (answers : Answers run event completedAt deadline) (pressed : deadline ≤ event.occurredAt)
  | invalid (event : IvrEvent) (completedAt deadline : Int) (handles : input = .event event)
    (answers : Answers run event completedAt deadline) (choice : run.snapshot.choice event.digit = none)

/-- The digit of the event is a choice, pressed and handled within the window of the current step. -/
structure Chosen (input : IvrInput) (now : Int) (run : IvrRun) (target : Target) (event : IvrEvent)
    (completedAt deadline : Int) : Prop where
  handles : input = .event event
  answers : Answers run event completedAt deadline
  in_time : event.occurredAt < deadline
  handled_in_time : now < deadline
  choice : run.snapshot.choice event.digit = some target

/-- The state machine acts, or does nothing. -/
inductive MachineStep (input : IvrInput) (now : Int) (run : IvrRun) : IvrRun → Prop
  | idle : MachineStep input now run run
  | expired (passed : run.expiresAt ≤ now) : MachineStep input now run run.deadlineFailure
  | prompted (event : IvrEvent) (handles : input = .event event) (ends : EndsPrompt run event) :
    MachineStep input now run (run.prompted event.occurredAt)
  | missed (because : Missed input now run) : MachineStep input now run (retryOrFallback run)
  | chosen (target : Target) (event : IvrEvent) (completedAt deadline : Int)
    (because : Chosen input now run target event completedAt deadline) : MachineStep input now run (run.select target)

/-- Where a claim for an action is issued; a second connection takes an adapter that is ready to connect. -/
def ClaimSource (reads : IvrReads) (run : IvrRun) : EffectAction → Prop
  | .play => run.phase = .playing
  | .destination => run.phase = .selected
  | .connectDestination =>
    run.phase = .destinationPending ∨
      run.phase = .destinationConnecting ∧
        ∃ asked, asked.stage = .connect ∧ reads.provider.destination asked = .ready

inductive PhaseStep (reads : IvrReads) (call : Call) (run : IvrRun) : Call → IvrRun → Prop
  | idle : PhaseStep reads call run call run
  | prepared (claimedAt : Option Int) (source : run.phase = .pending) :
    PhaseStep reads call run call { run with phase := .preparing, claimedAt := claimedAt }
  | bound (bindings : Bindings) (source : run.phase = .preparing) :
    PhaseStep reads call run { call with pbxState := bindings } { run with bindings := bindings, phase := .playing }
  | claimed (action : EffectAction) (mark : String) (source : ClaimSource reads run action) :
    PhaseStep reads call run call (run.claimed action mark)
  | consumed (action : EffectAction) (startedAt : Int) (phase : run.phase = claimPhase action)
    (reason : run.failureReason = some (.claimed action)) (unstarted : run.effectStartedAt = none) :
    PhaseStep reads call run call { run with effectStartedAt := some startedAt }
  | reported (reason : FailureReason) (unclaimed : reason.isClaimed = false)
    (source : run.phase = .unknown ∨ run.phase = .destinationPending ∨ run.phase = .destinationConnecting) :
    PhaseStep reads call run call { run with failureReason := some reason }
  | connected (answeredAt : Int) (source : run.phase = .destinationPending ∨ run.phase = .destinationConnecting) :
    PhaseStep reads call run (call.connected run.bindings answeredAt)
      { run.completed answeredAt with failureReason := none }
  | routed (routeId : String) (completedAt : Int) (source : run.phase = .selected)
    (target : run.selectedTarget = some (.route routeId)) (eligible : reads.routing.eligible = true)
    (route : reads.routing.routeId = some routeId) :
    PhaseStep reads call run (call.routed reads.routing) (run.completed completedAt)
  | captured (userId : String) (recordingDeadline completedAt : Int) (source : run.phase = .selected) :
    PhaseStep reads call run (call.captured userId recordingDeadline) (run.completed completedAt)
  | ended (reason : FailureReason) (timestamp : Int) :
    PhaseStep reads call run (call.failed reason timestamp) (run.failed reason timestamp)

inductive IvrCommit (input : IvrInput) (reads : IvrReads) (call : Call) (run : IvrRun) : Call → IvrRun → Prop
  | kept : IvrCommit input reads call run call run
  | cancelled (completedAt : Int) (live : run.phase.terminal = false) (inactive : call.active = false) :
    IvrCommit input reads call run call { run with phase := .cancelled, completedAt := some completedAt }
  | guarded (reason : FailureReason) (timestamp : Int) (live : run.phase.terminal = false)
    (active : call.active = true) :
    IvrCommit input reads call run (call.failed reason timestamp) (run.failed reason timestamp)
  | operated {run₁ call₂ run₂} (live : run.phase.terminal = false) (active : call.active = true)
    (machine : MachineStep input reads.clock.handled run run₁) (phase : PhaseStep reads call run₁ call₂ run₂)
    (within : call₂.active = true → reads.clock.closed < call.expiresAt) :
    IvrCommit input reads call run call₂ run₂
  | closed {run₁ call₂ run₂} (timestamp : Int) (live : run.phase.terminal = false) (active : call.active = true)
    (machine : MachineStep input reads.clock.handled run run₁) (phase : PhaseStep reads call run₁ call₂ run₂)
    (active' : call₂.active = true) :
    IvrCommit input reads call run (call₂.failed .ivrDeadline timestamp) (run₂.failed .ivrDeadline timestamp)

variable {run : IvrRun} {answer : DestinationAnswer}

theorem Missed.phase {input : IvrInput} {now : Int} (h : Missed input now run) :
    run.phase = .awaitingDigit := by
  cases h with
  | missing deadline phase window passed => exact phase
  | late event completedAt deadline handles answers pressed => exact answers.phase
  | invalid event completedAt deadline handles answers choice => exact answers.phase

/-! ### The steps of a transaction -/

theorem commits_updateRun {run' : IvrRun} (h : (updateRun run).Commits run') : run' = run := by
  unfold updateRun at h
  split at h
  · rw [commits_pure] at h
    exact h.symm
  · exact absurd h (commits_rollback _ _)

theorem commits_failCall {rows rows' : IvrRows} {reason : FailureReason} {timestamp : Int} {result : IvrResult}
    (h : (failCall rows reason timestamp).Commits (rows', result)) :
    rows'.call = rows.call.failed reason timestamp ∧ rows'.run = rows.run.failed reason timestamp ∧
      rows'.receipts = rows.receipts ∧ result = .complete := by
  unfold failCall at h
  simp only [commits_bind, commits_pure] at h
  obtain ⟨run, hrun, h⟩ := h
  have := commits_updateRun hrun
  subst this
  cases h
  exact ⟨rfl, rfl, rfl, rfl⟩

theorem commits_request {call : Call} {reconcile : Bool} {asked : IvrProviderRequest}
    (h : (request call run reconcile).Commits asked) :
    asked.runId = run.id ∧ asked.step = run.step ∧ asked.reconcile = reconcile ∧ asked.stage = .originate := by
  unfold request at h
  split at h
  · exact absurd h (commits_rollback _ _)
  · rw [commits_pure] at h
    subst h
    exact ⟨rfl, rfl, rfl, rfl⟩

section

variable {fingerprint : String → String} {reads : IvrReads} {rows rows' : IvrRows} {result : IvrResult}

theorem commits_claim {nonce : String} {action : EffectAction}
    (h : (claim fingerprint nonce rows action).Commits (rows', result)) :
    rows' = { rows with run := rows.run.claimed action (fingerprint nonce) } ∧
      result = .effect { runId := rows.run.id, step := rows.run.step, action := action, nonce := nonce } := by
  unfold claim at h
  simp only [commits_bind, commits_pure] at h
  obtain ⟨run, hrun, h⟩ := h
  have := commits_updateRun hrun
  subst this
  cases h
  exact ⟨rfl, rfl⟩

private theorem claim_phase {nonce : String} {action : EffectAction} (hsource : ClaimSource reads rows.run action)
    (h : (claim fingerprint nonce rows action).Commits (rows', result)) :
    PhaseStep reads rows.call rows.run rows'.call rows'.run := by
  rw [(commits_claim h).1]
  exact .claimed action _ hsource

private theorem finishPlay_phase {pending : Bool} (hphase : rows.run.phase = .unknown)
    (h : (finishPlay rows pending).Commits (rows', result)) :
    PhaseStep reads rows.call rows.run rows'.call rows'.run := by
  unfold finishPlay at h
  simp only [commits_bind, commits_pure] at h
  obtain ⟨run, hrun, h⟩ := h
  have := commits_updateRun hrun
  subst this
  cases h
  rw [← hphase]
  refine .reported _ ?_ (.inl hphase)
  split <;> rfl

private theorem finishDestination_phase
    (hphase : rows.run.phase = .destinationPending ∨ rows.run.phase = .destinationConnecting)
    (hready : answer = .ready → ClaimSource reads rows.run .connectDestination)
    (h : (finishDestination fingerprint reads rows answer).Commits (rows', result)) :
    PhaseStep reads rows.call rows.run rows'.call rows'.run := by
  have hreport : ∀ answer', (answer' = .pending ∨ answer' = .error) →
      (finishDestination fingerprint reads rows answer').Commits (rows', result) →
      PhaseStep reads rows.call rows.run rows'.call rows'.run := by
    intro answer' hanswer h
    rcases hanswer with rfl | rfl
    all_goals
      unfold finishDestination at h
      simp only [commits_bind, commits_pure] at h
      obtain ⟨run, hrun, h⟩ := h
      have := commits_updateRun hrun
      subst this
      cases h
      exact .reported _ rfl (.inr hphase)
  cases answer with
  | ready => exact claim_phase (hready rfl) h
  | connected =>
    unfold finishDestination at h
    simp only [commits_bind, commits_pure] at h
    obtain ⟨-, -, run, hrun, h⟩ := h
    have := commits_updateRun hrun
    subst this
    cases h
    exact .connected _ hphase
  | pending => exact hreport .pending (.inl rfl) h
  | error => exact hreport .error (.inr rfl) h

private theorem finishPlayObservation_phase {pending : Bool} (hphase : rows.run.phase = .unknown)
    (h : (finishPlayObservation rows pending).Commits (rows', result)) :
    PhaseStep reads rows.call rows.run rows'.call rows'.run := by
  unfold finishPlayObservation at h
  split at h
  · rw [commits_pure] at h
    cases h
    exact .idle
  · exact finishPlay_phase hphase h

private theorem finishDestinationObservation_phase
    (hphase : rows.run.phase = .destinationPending ∨ rows.run.phase = .destinationConnecting)
    (hready : answer = .ready → ClaimSource reads rows.run .connectDestination)
    (h : (finishDestinationObservation fingerprint reads rows answer).Commits (rows', result)) :
    PhaseStep reads rows.call rows.run rows'.call rows'.run := by
  unfold finishDestinationObservation at h
  split at h
  · exact finishDestination_phase hphase hready h
  split at h
  · rw [commits_pure] at h
    cases h
    exact .idle
  · exact finishDestination_phase hphase hready h

private theorem failCall_phase {reason : FailureReason} {timestamp : Int}
    (h : (failCall rows reason timestamp).Commits (rows', result)) :
    PhaseStep reads rows.call rows.run rows'.call rows'.run := by
  obtain ⟨hcall, hrun, -, -⟩ := commits_failCall h
  rw [hcall, hrun]
  exact .ended reason timestamp

private theorem selectTarget_phase (hphase : rows.run.phase = .selected)
    (h : (selectTarget fingerprint reads rows).Commits (rows', result)) :
    PhaseStep reads rows.call rows.run rows'.call rows'.run := by
  unfold selectTarget at h
  split at h
  · exact absurd h (commits_rollback _ _)
  · exact absurd h (commits_rollback _ _)
  · exact failCall_phase h
  · rename_i routeId htarget _
    simp only [commits_bind, commits_pure, commits_check, Bool.and_eq_true, decide_eq_true_eq] at h
    obtain ⟨-, ⟨heligible, hroute⟩, run, hrun, h⟩ := h
    have := commits_updateRun hrun
    subst this
    cases h
    exact .routed routeId _ hphase htarget heligible hroute
  · unfold capture at h
    split at h
    · exact absurd h (commits_rollback _ _)
    · exact absurd h (commits_rollback _ _)
    · simp only [commits_bind, commits_pure] at h
      obtain ⟨run, hrun, h⟩ := h
      have := commits_updateRun hrun
      subst this
      cases h
      exact .captured _ _ _ hphase
  · have hsource : ClaimSource reads rows.run .destination := hphase
    exact claim_phase hsource h

private theorem askDestination_phase {stage : Stage} {asked : IvrProviderRequest}
    (hanswer : (askDestination reads rows.run stage asked).Commits answer)
    (hphase : rows.run.phase = .destinationPending ∧ stage = .originate ∨
      rows.run.phase = .destinationConnecting ∧ stage = .connect) :
    answer = .ready → ClaimSource reads rows.run .connectDestination := by
  intro hready
  unfold askDestination at hanswer
  rw [commits_issue] at hanswer
  rcases hphase with ⟨hphase, -⟩ | ⟨hphase, hstage⟩
  · exact .inl hphase
  · exact .inr ⟨hphase, _, hstage, hanswer.trans hready⟩

theorem advancePhase_phase (h : (advancePhase fingerprint reads rows).Commits (rows', result)) :
    PhaseStep reads rows.call rows.run rows'.call rows'.run := by
  unfold advancePhase at h
  split at h
  · rw [commits_pure] at h
    cases h
    exact .idle
  · exact selectTarget_phase ‹_› h
  · simp only [commits_bind, commits_pure] at h
    obtain ⟨run, hrun, h⟩ := h
    have := commits_updateRun hrun
    subst this
    cases h
    exact .prepared _ ‹_›
  · simp only [commits_bind] at h
    obtain ⟨-, -, asked, -, bindings, -, h⟩ := h
    split at h
    · simp only [commits_bind, commits_pure] at h
      obtain ⟨-, -, run, hrun, h⟩ := h
      have := commits_updateRun hrun
      subst this
      cases h
      exact .bound _ ‹_›
    · rw [commits_pure] at h
      cases h
      exact .idle
  · have hsource : ClaimSource reads rows.run .play := ‹_›
    exact claim_phase hsource h
  · simp only [commits_bind] at h
    obtain ⟨-, -, asked, -, pending, -, h⟩ := h
    exact finishPlayObservation_phase ‹_› h
  · rename_i hphase
    simp only [commits_bind] at h
    obtain ⟨-, -, asked, -, answer, hanswer, h⟩ := h
    exact finishDestinationObservation_phase (.inl hphase)
      (askDestination_phase hanswer (.inl ⟨hphase, rfl⟩)) h
  · rename_i hphase
    simp only [commits_bind] at h
    obtain ⟨-, -, asked, -, answer, hanswer, h⟩ := h
    exact finishDestinationObservation_phase (.inr hphase)
      (askDestination_phase hanswer (.inr ⟨hphase, rfl⟩)) h
  all_goals
    rw [commits_pure] at h
    cases h
    exact .idle

/-! ### The operations -/

/-- The state machine and then a phase of the worker, from one pair of rows to the other. -/
def Operates (input : IvrInput) (reads : IvrReads) (rows rows' : IvrRows) : Prop :=
  ∃ run₁, MachineStep input reads.clock.handled rows.run run₁ ∧ PhaseStep reads rows.call run₁ rows'.call rows'.run

private theorem advanceLocked_operates (h : (advanceLocked fingerprint reads rows).Commits (rows', result)) :
    Operates .job reads rows rows' := by
  unfold advanceLocked at h
  split at h
  · exact absurd h (commits_rollback _ _)
  · rename_i changed htimeout
    simp only [commits_bind] at h
    obtain ⟨run, hrun, h⟩ := h
    have := commits_updateRun hrun
    subst this
    have hmachine : MachineStep .job reads.clock.handled rows.run run := by
      rcases (timeout_applied htimeout).2 with ⟨hexpired, rfl⟩ | ⟨-, hphase, deadline, hwindow, hpassed, rfl⟩
      · exact .expired hexpired
      · exact .missed (.missing deadline hphase hwindow hpassed)
    refine ⟨run, hmachine, ?_⟩
    split at h
    · exact failCall_phase h
    · exact advancePhase_phase h
  · exact ⟨rows.run, .idle, advancePhase_phase h⟩

private theorem handleEvent_operates {event : IvrEvent} (h : (handleEvent event reads rows).Commits (rows', result)) :
    Operates (.event event) reads rows rows' := by
  unfold handleEvent at h
  split at h
  · rw [commits_pure] at h
    cases h
    exact ⟨_, .idle, .idle⟩
  simp only [commits_bind] at h
  obtain ⟨-, -, h⟩ := h
  split at h
  · obtain ⟨hcall, hrun, -, -⟩ := commits_failCall h
    refine ⟨_, .idle, ?_⟩
    rw [hcall, hrun]
    exact .ended _ _
  split at h
  · exact absurd h (commits_rollback _ _)
  · rename_i changed htransition
    simp only [commits_bind, commits_pure] at h
    obtain ⟨run, hrun, h⟩ := h
    have := commits_updateRun hrun
    subst this
    cases h
    refine ⟨run, ?_, .idle⟩
    rcases (transition_applied htransition).2 with ⟨hexpired, rfl⟩ | ⟨-, hends, rfl⟩ |
      ⟨-, completedAt, deadline, hanswers, ⟨hmissed, rfl⟩ | ⟨hnow, hoccurred, target, hchoice, rfl⟩⟩
    · exact .expired hexpired
    · exact .prompted event rfl hends
    · refine .missed ?_
      rcases hmissed with hpassed | hlate | hinvalid
      · exact .missing deadline hanswers.phase hanswers.window hpassed
      · exact .late event completedAt deadline rfl hanswers hlate
      · exact .invalid event completedAt deadline rfl hanswers hinvalid
    · exact .chosen target event completedAt deadline ⟨rfl, hanswers, hoccurred, hnow, hchoice⟩
  · rw [commits_pure] at h
    cases h
    exact ⟨_, .idle, .idle⟩

/-! ### The transactions -/

/-- A transaction whose operation is a state machine and then a phase. -/
theorem runTransaction_commits {input : IvrInput} {operation : IvrRows → IvrTransaction}
    (hoperation : ∀ {after result}, (operation rows).Commits (after, result) → Operates input reads rows after)
    (h : (runTransaction reads rows operation).Commits (rows', result)) :
    IvrCommit input reads rows.call rows.run rows'.call rows'.run := by
  unfold runTransaction at h
  simp only [commits_bind] at h
  obtain ⟨-, -, -, -, h⟩ := h
  have hfail : ∀ {reason timestamp}, (failCall rows reason timestamp).Commits (rows', result) →
      rows.run.phase.terminal = false → rows.call.active = true →
      IvrCommit input reads rows.call rows.run rows'.call rows'.run := by
    intro reason timestamp h hlive hactive
    obtain ⟨hcall, hrun, -, -⟩ := commits_failCall h
    rw [hcall, hrun]
    exact .guarded reason timestamp hlive hactive
  split at h
  · rw [commits_pure] at h
    cases h
    exact .kept
  rename_i hlive
  rw [Bool.not_eq_true] at hlive
  split at h
  · rename_i hactive
    simp only [commits_bind, commits_pure] at h
    obtain ⟨run, hrun, h⟩ := h
    have := commits_updateRun hrun
    subst this
    cases h
    exact .cancelled _ hlive (by simpa using hactive)
  rename_i hactive
  rw [not_not] at hactive
  split at h
  · exact hfail h hlive hactive
  split at h
  · exact hfail h hlive hactive
  split at h
  · exact hfail h hlive hactive
  simp only [commits_bind] at h
  obtain ⟨⟨after, result'⟩, hafter, -, -, h⟩ := h
  obtain ⟨run₁, hmachine, hphase⟩ := hoperation hafter
  split at h
  · rename_i hclosed
    obtain ⟨hcall, hrun, -, -⟩ := commits_failCall h
    rw [hcall, hrun]
    exact .closed _ hlive hactive hmachine hphase hclosed.2
  · rename_i hopen
    rw [commits_pure] at h
    cases h
    refine .operated hlive hactive hmachine hphase ?_
    intro hactive'
    by_contra hclosed
    exact hopen ⟨by omega, hactive'⟩

theorem eventTransaction_commits {event : IvrEvent}
    (h : (eventTransaction event reads rows).Commits (rows', result)) :
    IvrCommit (.event event) reads rows.call rows.run rows'.call rows'.run := by
  refine runTransaction_commits (fun {after result} hafter => ?_) h
  simp only [commits_bind] at hafter
  obtain ⟨-, -, hafter⟩ := hafter
  split at hafter
  · simp only [commits_bind, commits_pure] at hafter
    obtain ⟨-, -, hafter⟩ := hafter
    cases hafter
    exact ⟨_, .idle, .idle⟩
  · exact handleEvent_operates hafter

theorem advance_commits (h : (advance fingerprint reads rows).Commits (rows', result)) :
    IvrCommit .job reads rows.call rows.run rows'.call rows'.run :=
  runTransaction_commits advanceLocked_operates h

theorem matchingClaim_iff {claim : IvrEffectClaim} :
    matchingClaim fingerprint run claim = true ↔
      run.phase = claimPhase claim.action ∧ run.step = claim.step ∧
        run.failureReason = some (.claimed claim.action) ∧ claim.nonce.utf8ByteSize = 64 ∧
          run.effectClaimFingerprint = some (fingerprint claim.nonce) := by
  simp [matchingClaim, and_assoc]

theorem consumeClaim_commits {claim : IvrEffectClaim}
    (h : (consumeClaim fingerprint claim reads rows).Commits (rows', result)) :
    IvrCommit .job reads rows.call rows.run rows'.call rows'.run := by
  refine runTransaction_commits (fun {after result} hafter => ?_) h
  simp only [commits_bind, commits_pure, commits_check, Bool.and_eq_true, decide_eq_true_eq] at hafter
  obtain ⟨-, ⟨hmatching, hunstarted⟩, run, hrun, hafter⟩ := hafter
  have := commits_updateRun hrun
  subst this
  cases hafter
  obtain ⟨hphase, -, hreason, -, -⟩ := matchingClaim_iff.1 hmatching
  exact ⟨_, .idle, .consumed claim.action _ hphase hreason hunstarted⟩

theorem forwardClaim_commits {claim : IvrEffectClaim}
    (h : (forwardClaim fingerprint claim reads rows).Commits (rows', result)) :
    IvrCommit .job reads rows.call rows.run rows'.call rows'.run := by
  refine runTransaction_commits (fun {after result} hafter => ?_) h
  simp only [commits_bind, commits_check, Bool.and_eq_true] at hafter
  obtain ⟨-, ⟨hmatching, -⟩, -, -, asked, -, hafter⟩ := hafter
  have hphase := (matchingClaim_iff.1 hmatching).1
  refine ⟨_, .idle, ?_⟩
  split at hafter
  · rename_i haction
    rw [haction] at hphase
    simp only [commits_bind] at hafter
    obtain ⟨pending, -, hafter⟩ := hafter
    exact finishPlay_phase hphase hafter
  · rename_i haction
    rw [haction] at hphase
    simp only [commits_bind] at hafter
    obtain ⟨answer, hanswer, hafter⟩ := hafter
    exact finishDestination_phase (.inl hphase) (askDestination_phase hanswer (.inl ⟨hphase, rfl⟩)) hafter
  · rename_i haction
    rw [haction] at hphase
    simp only [commits_bind] at hafter
    obtain ⟨answer, hanswer, hafter⟩ := hafter
    exact finishDestination_phase (.inr hphase) (askDestination_phase hanswer (.inr ⟨hphase, rfl⟩)) hafter

end

end KComms.Telephony
