import KComms.Telephony.IvrSelection

/-!
# Forward effects happen at most once

A claim is issued, consumed and executed by three transactions.  A run `Owes` a forward effect as long as its row still
allows a worker to consume a claim for it: it is issued only when no claim was consumed before, and after that the row
never owes it again.  So each effect is issued at most once (`ivr_effects_once`), whatever the workers do.
-/

namespace KComms.Telephony

open Attempt

inductive Forward
  | play (step : Nat) | originate | connect
  deriving DecidableEq, Repr

/-- The forward effect that a call of the provider is, if it is not read-only. -/
def ProviderCall.forward : ProviderCall → Option Forward
  | .prepare _ => none
  | .play asked => if asked.reconcile then none else some (.play asked.step)
  | .destination asked =>
    if asked.reconcile then none
    else
      match asked.stage with
      | .originate => some .originate
      | .connect => some .connect

/-- An observation, or the preparation of a run. -/
def ProviderCall.readOnly : ProviderCall → Bool
  | .prepare _ => true
  | .play asked => asked.reconcile
  | .destination asked => asked.reconcile

def IvrEffectClaim.forward (claim : IvrEffectClaim) : Forward :=
  match claim.action with
  | .play => .play claim.step
  | .destination => .originate
  | .connectDestination => .connect

def issued (calls : List ProviderCall) (effect : Forward) : Nat :=
  (calls.filter fun call => call.forward = some effect).length

/-- The claim of the row for this action is not consumed. -/
def IvrRun.unconsumed (run : IvrRun) (action : EffectAction) : Bool :=
  run.failureReason = some (.claimed action) && run.effectStartedAt = none

/-- How far the current step has come: 0 until its playback is consumed, 1 until a target is selected, 2 until the
origination is consumed, 3 until the connection is consumed. -/
def IvrRun.progress (run : IvrRun) : Nat :=
  match run.phase with
  | .pending | .preparing | .playing => 0
  | .unknown => if run.unconsumed .play then 0 else 1
  | .awaitingDigit => 1
  | .selected => 2
  | .destinationPending => if run.unconsumed .destination then 2 else 3
  | .destinationConnecting => if run.unconsumed .connectDestination then 3 else 4
  | .routing | .completed | .failed | .cancelled => 5

/-- The row still allows to consume a claim for the effect, now or later. -/
def Owes (run : IvrRun) : Forward → Prop
  | .play step => run.step < step ∨ run.step = step ∧ run.progress = 0
  | .originate => run.progress ≤ 2
  | .connect => run.progress ≤ 3

/-- The adapter is ready only when it is asked to originate. -/
def ReadyToOriginate (provider : IvrProvider) : Prop :=
  ∀ asked, provider.destination asked = .ready → asked.stage = .originate

/-! ### The row -/

/-- A step goes on, or after its window the next one begins. -/
def Advances (run run' : IvrRun) : Prop :=
  run'.step = run.step ∧ run.progress ≤ run'.progress ∨ run'.step = run.step + 1 ∧ run.progress = 1

variable {run run' : IvrRun} {worker : Nat} {system system' : IvrSystem} {effect : Forward}

/-- What the row owes, it has owed before. -/
theorem Advances.owes (h : Advances run run') (howes : Owes run' effect) :
    Owes run effect := by
  unfold Advances at h
  cases effect with
  | play step =>
    simp only [Owes] at howes ⊢
    omega
  | originate =>
    simp only [Owes] at howes ⊢
    omega
  | connect =>
    simp only [Owes] at howes ⊢
    omega

private theorem progress_le (run : IvrRun) : run.progress ≤ 5 := by
  unfold IvrRun.progress
  split <;> (try split) <;> omega

private theorem progress_over (hover : run.phase.terminal = true) : run.progress = 5 := by
  unfold IvrRun.progress
  generalize run.phase = phase at hover
  cases phase <;> first | rfl | cases hover

private theorem advances_over (run run' : IvrRun) (hstep : run'.step = run.step)
    (hover : run'.phase.terminal = true) : Advances run run' := by
  left
  rw [progress_over hover]
  exact ⟨hstep, progress_le run⟩

private theorem failed_terminal (run : IvrRun) (reason : FailureReason) (timestamp : Int) :
    (run.failed reason timestamp).phase.terminal = true := by
  rcases failed_phase run reason timestamp with hphase | hphase <;> rw [hphase] <;> rfl

/-- The progress while the action is claimed. -/
private def EffectAction.rank : EffectAction → Nat
  | .play => 0
  | .destination => 2
  | .connectDestination => 3

private theorem progress_claimPhase (run : IvrRun) (action : EffectAction) (hphase : run.phase = claimPhase action) :
    run.progress = action.rank + if run.unconsumed action then 0 else 1 := by
  unfold IvrRun.progress
  rw [hphase]
  cases action <;> simp only [claimPhase, EffectAction.rank] <;> split <;> rfl

private theorem MachineStep.advances {input : IvrInput} {now : Int} {run₁ : IvrRun}
    (hstep : MachineStep input now run run₁) : Advances run run₁ := by
  have hwindow : run.phase = .awaitingDigit → run.progress = 1 := by
    intro hphase
    simp [IvrRun.progress, hphase]
  have hselect : ∀ target, (run.select target).progress = 2 := fun target => rfl
  cases hstep with
  | idle => exact .inl ⟨rfl, Nat.le_refl _⟩
  | expired passed => exact advances_over _ _ rfl rfl
  | prompted event handles ends =>
    refine .inl ⟨rfl, ?_⟩
    show run.progress ≤ 1
    rcases ends.phase with hphase | hphase
    · simp [IvrRun.progress, hphase]
    · rw [progress_claimPhase run .play hphase]
      simp only [EffectAction.rank]
      split <;> omega
  | missed because =>
    have hphase := hwindow because.phase
    rcases retryOrFallback_cases run with ⟨-, hnext⟩ | ⟨-, hnext⟩
    · rw [hnext]
      exact .inr ⟨rfl, hphase⟩
    · rw [hnext]
      refine .inl ⟨rfl, ?_⟩
      rw [hselect]
      omega
  | chosen target event completedAt deadline because =>
    have hphase := hwindow because.answers.phase
    refine .inl ⟨rfl, ?_⟩
    rw [hselect]
    omega

private theorem PhaseStep.advances {reads : IvrReads} {call call' : Call} (hready : ReadyToOriginate reads.provider)
    (hstep : PhaseStep reads call run call' run') :
    Advances run run' := by
  cases hstep with
  | idle => exact .inl ⟨rfl, Nat.le_refl _⟩
  | prepared claimedAt source => exact .inl ⟨rfl, by simp [IvrRun.progress, source]⟩
  | bound bindings source => exact .inl ⟨rfl, by simp [IvrRun.progress, source]⟩
  | claimed action mark source =>
    have hafter := progress_claimPhase (run.claimed action mark) action rfl
    have hunconsumed : (run.claimed action mark).unconsumed action = true := by
      simp [IvrRun.unconsumed, IvrRun.claimed]
    rw [if_pos hunconsumed] at hafter
    refine .inl ⟨rfl, ?_⟩
    cases action with
    | play =>
      have hphase : run.phase = .playing := source
      simp [IvrRun.progress, hphase]
    | destination =>
      have hphase : run.phase = .selected := source
      rw [hafter]
      simp [IvrRun.progress, hphase, EffectAction.rank]
    | connectDestination =>
      rcases source with hphase | ⟨-, asked, hstage, hanswer⟩
      · rw [hafter, progress_claimPhase run .destination hphase]
        simp only [EffectAction.rank]
        split <;> omega
      · -- The adapter would be ready to connect.
        have hstage' := hready asked hanswer
        rw [hstage] at hstage'
        cases hstage'
  | consumed action startedAt phase reason unstarted =>
    refine .inl ⟨rfl, ?_⟩
    have hafter := progress_claimPhase { run with effectStartedAt := some startedAt } action phase
    have hconsumed : ({ run with effectStartedAt := some startedAt } : IvrRun).unconsumed action = false := by
      simp [IvrRun.unconsumed]
    rw [progress_claimPhase run action phase, hafter, hconsumed]
    split <;> simp
  | reported reason unclaimed source =>
    refine .inl ⟨rfl, ?_⟩
    have hconsumed : ∀ action, ({ run with failureReason := some reason } : IvrRun).unconsumed action = false := by
      intro action
      cases reason with
      | claimed action' => cases unclaimed
      | _ => simp [IvrRun.unconsumed]
    have hle : ∀ action, run.phase = claimPhase action →
        run.progress ≤ ({ run with failureReason := some reason } : IvrRun).progress := by
      intro action hphase
      have hafter := progress_claimPhase { run with failureReason := some reason } action hphase
      rw [progress_claimPhase run action hphase, hafter, hconsumed]
      split <;> simp
    rcases source with hphase | hphase | hphase
    · exact hle .play hphase
    · exact hle .destination hphase
    · exact hle .connectDestination hphase
  | connected answeredAt source => exact advances_over _ _ rfl rfl
  | routed routeId completedAt source target eligible route => exact advances_over _ _ rfl rfl
  | captured userId recordingDeadline completedAt source => exact advances_over _ _ rfl rfl
  | ended reason timestamp => exact advances_over _ _ rfl (failed_terminal run reason timestamp)

private theorem IvrCommit.owes {input : IvrInput} {reads : IvrReads} {call call' : Call}
    (hready : ReadyToOriginate reads.provider) (hcommit : IvrCommit input reads call run call' run')
    (howes : Owes run' effect) : Owes run effect := by
  cases hcommit with
  | kept => exact howes
  | cancelled completedAt live inactive =>
    exact (advances_over run { run with phase := .cancelled, completedAt := some completedAt } rfl rfl).owes howes
  | guarded reason timestamp live active =>
    exact (advances_over run (run.failed reason timestamp) rfl (failed_terminal run _ _)).owes howes
  | operated live active machine phase within => exact machine.advances.owes ((phase.advances hready).owes howes)
  | @closed run₁ call₂ run₂ timestamp live active machine phase active' =>
    have hclosed : Owes run₂ effect :=
      (advances_over run₂ (run₂.failed .ivrDeadline timestamp) rfl (failed_terminal run₂ _ _)).owes howes
    exact machine.advances.owes ((phase.advances hready).owes hclosed)

/-- The adapter that a move may ask is ready only to originate. -/
def IvrMove.ReadyToOriginate : IvrMove → Prop
  | .webhook _ reads => Telephony.ReadyToOriginate reads.provider
  | .work _ reads => Telephony.ReadyToOriginate reads.provider
  | _ => True

private theorem step_owes {fingerprint : String → String} {move : IvrMove} (hready : move.ReadyToOriginate)
    (howes : Owes (system.step fingerprint move).rows.run effect) : Owes system.rows.run effect := by
  cases system.step_rows fingerprint move with
  | kept call run =>
    rw [run] at howes
    exact howes
  | handled commit => exact commit.owes hready howes
  | worked commit => exact commit.owes hready howes
  | changed change run =>
    rcases change.run with hsame | ⟨-, now, hcancelled⟩
    · rw [run, hsame] at howes
      exact howes
    · rw [run, hcancelled, Option.map_some, Option.getD_some] at howes
      unfold IvrRun.cancel at howes
      split at howes
      · exact howes
      · exact (advances_over system.rows.run
          { system.rows.run with phase := .cancelled, completedAt := some now } rfl rfl).owes howes

/-! ### What the transactions ask the provider -/

section

variable {fingerprint : String → String} {reads : IvrReads} {rows : IvrRows}

@[simp] private theorem updateRun_effects (run : IvrRun) : (updateRun run).effects = [] := by
  unfold updateRun
  split <;> rfl

@[simp] private theorem request_effects (call : Call) (run : IvrRun) (reconcile : Bool) :
    (request call run reconcile).effects = [] := by
  unfold request
  split <;> rfl

@[simp] private theorem failCall_effects (rows : IvrRows) (reason : FailureReason) (timestamp : Int) :
    (failCall rows reason timestamp).effects = [] :=
  effects_bind_nil (updateRun_effects _) fun _ => rfl

@[simp] private theorem claim_effects (nonce : String) (rows : IvrRows) (action : EffectAction) :
    (claim fingerprint nonce rows action).effects = [] :=
  effects_bind_nil (updateRun_effects _) fun _ => rfl

@[simp] private theorem finishPlay_effects (rows : IvrRows) (pending : Bool) : (finishPlay rows pending).effects = [] :=
  effects_bind_nil (updateRun_effects _) fun _ => rfl

@[simp] private theorem finishDestination_effects (rows : IvrRows) (answer : DestinationAnswer) :
    (finishDestination fingerprint reads rows answer).effects = [] := by
  cases answer with
  | ready => exact claim_effects _ _ _
  | connected =>
    exact effects_bind_nil (effects_check _ _) fun _ => effects_bind_nil (updateRun_effects _) fun _ => rfl
  | pending => exact effects_bind_nil (updateRun_effects _) fun _ => rfl
  | error => exact effects_bind_nil (updateRun_effects _) fun _ => rfl

@[simp] private theorem finishPlayObservation_effects (rows : IvrRows) (pending : Bool) :
    (finishPlayObservation rows pending).effects = [] := by
  unfold finishPlayObservation
  split
  · rfl
  · exact finishPlay_effects rows pending

@[simp] private theorem finishDestinationObservation_effects (rows : IvrRows) (answer : DestinationAnswer) :
    (finishDestinationObservation fingerprint reads rows answer).effects = [] := by
  unfold finishDestinationObservation
  split
  · exact finishDestination_effects rows answer
  split
  · rfl
  · exact finishDestination_effects rows answer

@[simp] private theorem selectTarget_effects (rows : IvrRows) : (selectTarget fingerprint reads rows).effects = [] := by
  unfold selectTarget
  split
  · rfl
  · rfl
  · exact failCall_effects _ _ _
  · exact effects_bind_nil (effects_check _ _) fun _ => effects_bind_nil (updateRun_effects _) fun _ => rfl
  · unfold capture
    split
    · rfl
    · rfl
    · exact effects_bind_nil (updateRun_effects _) fun _ => rfl
  · exact claim_effects _ _ _

/-- A transaction asks what its operation asks, or nothing. -/
private theorem runTransaction_effects (operation : IvrRows → IvrTransaction) :
    (runTransaction reads rows operation).effects = [] ∨
      (runTransaction reads rows operation).effects = (operation rows).effects := by
  unfold runTransaction
  refine effects_check_bind (effects_check_bind ?_)
  split
  · exact .inl rfl
  split
  · exact .inl (effects_bind_nil (updateRun_effects _) fun _ => rfl)
  split
  · exact .inl (failCall_effects _ _ _)
  split
  · exact .inl (failCall_effects _ _ _)
  split
  · exact .inl (failCall_effects _ _ _)
  right
  refine effects_bind_silent fun ⟨after, result⟩ => effects_bind_nil (effects_check _ _) fun _ => ?_
  split
  · exact failCall_effects _ _ _
  · rfl

/-- An operation that asks nothing. -/
private theorem effects_runTransaction {operation : IvrRows → IvrTransaction} (h : (operation rows).effects = []) :
    (runTransaction reads rows operation).effects = [] := by
  rcases runTransaction_effects operation with hnone | hsame
  · exact hnone
  · rw [hsame]
    exact h

/-- An event is handled without the provider. -/
private theorem eventTransaction_effects (event : IvrEvent) : (eventTransaction event reads rows).effects = [] := by
  have hhandle : (handleEvent event reads rows).effects = [] := by
    unfold handleEvent
    split
    · rfl
    refine effects_bind_nil (effects_check _ _) fun _ => ?_
    dsimp only
    split
    · exact failCall_effects _ _ _
    split
    · rfl
    · exact effects_bind_nil (updateRun_effects _) fun _ => rfl
    · rfl
  unfold eventTransaction
  refine effects_runTransaction ?_
  refine effects_bind_nil (effects_check _ _) fun _ => ?_
  split
  · exact effects_bind_nil (effects_check _ _) fun _ => rfl
  · exact hhandle

/-- A phase of the worker only prepares and observes. -/
private theorem advancePhase_effects :
    Issues (fun call => call.readOnly = true) (advancePhase fingerprint reads rows) := by
  have hrequest : ∀ reconcile asked, (request rows.call rows.run reconcile).Commits asked →
      asked.reconcile = reconcile := by
    intro reconcile asked h
    exact (commits_request h).2.2.1
  unfold advancePhase
  split
  · exact .silent rfl
  · exact .silent (selectTarget_effects rows)
  · exact .silent (effects_bind_nil (updateRun_effects _) fun _ => rfl)
  · refine .bind (effects_check _ _) fun _ _ => .bind (request_effects _ _ _) fun asked hasked => ?_
    refine .issue ?_ _ ?_
    · rfl
    split
    · exact effects_bind_nil (effects_check _ _) fun _ => effects_bind_nil (updateRun_effects _) fun _ => rfl
    · rfl
  · exact .silent (claim_effects _ _ _)
  · refine .bind (effects_check _ _) fun _ _ => .bind (request_effects _ _ _) fun asked hasked => ?_
    refine .issue ?_ _ ?_
    · exact hrequest true asked hasked
    · exact finishPlayObservation_effects rows _
  · refine .bind (effects_check _ _) fun _ _ => .bind (request_effects _ _ _) fun asked hasked => ?_
    refine .issue ?_ _ ?_
    · exact hrequest true asked hasked
    · exact finishDestinationObservation_effects rows _
  · refine .bind (effects_check _ _) fun _ _ => .bind (request_effects _ _ _) fun asked hasked => ?_
    refine .issue ?_ _ ?_
    · exact hrequest true asked hasked
    · exact finishDestinationObservation_effects rows _
  all_goals exact .silent rfl

private theorem advance_effects : Issues (fun call => call.readOnly = true) (advance fingerprint reads rows) := by
  have hlocked : Issues (fun call => call.readOnly = true) (advanceLocked fingerprint reads rows) := by
    unfold advanceLocked
    split
    · exact .silent rfl
    · refine .bind (updateRun_effects _) fun run _ => ?_
      split
      · exact .silent (failCall_effects _ _ _)
      · exact advancePhase_effects
    · exact advancePhase_effects
  exact hlocked.of_effects (runTransaction_effects _)

private theorem consumeClaim_effects (claim : IvrEffectClaim) :
    (consumeClaim fingerprint claim reads rows).effects = [] := by
  unfold consumeClaim
  refine effects_runTransaction ?_
  exact effects_bind_nil (effects_check _ _) fun _ => effects_bind_nil (updateRun_effects _) fun _ => rfl

/-- A consumed claim issues its own effect, or nothing. -/
private theorem forwardClaim_effects (claim : IvrEffectClaim) :
    Issues (fun call => call.forward = some claim.forward) (forwardClaim fingerprint claim reads rows) := by
  refine Issues.of_effects ?_ (runTransaction_effects _)
  refine .bind (effects_check _ _) fun _ hmatching => .bind (effects_check _ _) fun _ _ =>
    .bind (request_effects _ _ _) fun asked hasked => ?_
  rw [commits_check, Bool.and_eq_true] at hmatching
  have hstep : asked.step = claim.step := (commits_request hasked).2.1.trans (matchingClaim_iff.1 hmatching.1).2.1
  have hreconcile : asked.reconcile = false := (commits_request hasked).2.2.1
  split
  · rename_i haction
    refine .issue ?_ _ (finishPlay_effects rows _)
    simp [ProviderCall.forward, IvrEffectClaim.forward, haction, hreconcile, hstep]
  · rename_i haction
    refine .issue ?_ _ (finishDestination_effects rows _)
    simp [ProviderCall.forward, IvrEffectClaim.forward, haction, hreconcile]
  · rename_i haction
    refine .issue ?_ _ (finishDestination_effects rows _)
    simp [ProviderCall.forward, IvrEffectClaim.forward, haction, hreconcile]

end

/-! ### A consumed claim -/

private theorem consumeClaim_consumed {fingerprint : String → String} {reads : IvrReads} {rows rows' : IvrRows}
    {claim : IvrEffectClaim} (h : (consumeClaim fingerprint claim reads rows).Commits (rows', .consumed)) :
    matchingClaim fingerprint rows.run claim = true ∧ rows.run.effectStartedAt = none ∧
      ∃ startedAt, rows'.run = { rows.run with effectStartedAt := some startedAt } := by
  have hfail : ∀ {rows reason timestamp}, ¬ (failCall rows reason timestamp).Commits (rows', .consumed) := by
    intro rows reason timestamp h
    cases (commits_failCall h).2.2.2
  unfold consumeClaim runTransaction at h
  simp only [commits_bind] at h
  obtain ⟨-, -, -, -, h⟩ := h
  split at h
  · rw [commits_pure] at h
    cases h
  split at h
  · simp only [commits_bind, commits_pure] at h
    obtain ⟨run, -, h⟩ := h
    cases h
  split at h
  · exact absurd h hfail
  split at h
  · exact absurd h hfail
  split at h
  · exact absurd h hfail
  simp only [commits_bind, commits_pure, commits_check, Bool.and_eq_true, decide_eq_true_eq] at h
  obtain ⟨after, ⟨-, ⟨hmatching, hunstarted⟩, run, hrun, hafter⟩, -, -, h⟩ := h
  have hrows := commits_updateRun hrun
  subst hrows hafter
  split at h
  · exact absurd h hfail
  · rw [commits_pure] at h
    cases h
    exact ⟨hmatching, hunstarted, _, rfl⟩

/-- Its effect was owed. -/
private theorem owes_of_unconsumed {claim : IvrEffectClaim} (hphase : run.phase = claimPhase claim.action)
    (hstep : run.step = claim.step) (hreason : run.failureReason = some (.claimed claim.action))
    (hunstarted : run.effectStartedAt = none) : Owes run claim.forward := by
  have hprogress := progress_claimPhase run claim.action hphase
  rw [if_pos (by simp [IvrRun.unconsumed, hreason, hunstarted])] at hprogress
  unfold IvrEffectClaim.forward
  generalize claim.action = action at hprogress
  cases action <;> simp [Owes, hstep, hprogress, EffectAction.rank]

/-- It is not owed any more. -/
private theorem not_owes_of_consumed {claim : IvrEffectClaim} (hphase : run.phase = claimPhase claim.action)
    (hstep : run.step = claim.step) (hstarted : run.effectStartedAt ≠ none) : ¬ Owes run claim.forward := by
  have hprogress := progress_claimPhase run claim.action hphase
  rw [if_neg (by simp [IvrRun.unconsumed, hstarted])] at hprogress
  unfold IvrEffectClaim.forward
  generalize claim.action = action at hprogress
  cases action <;> simp [Owes, hstep, hprogress, EffectAction.rank]

/-! ### Runs -/

private theorem issued_append (calls calls' : List ProviderCall) (effect : Forward) :
    issued (calls ++ calls') effect = issued calls effect + issued calls' effect := by
  simp [issued]

private theorem issued_single (call : ProviderCall) (effect : Forward) :
    issued [call] effect = if call.forward = some effect then 1 else 0 := by
  unfold issued
  by_cases h : call.forward = some effect <;> simp [h]

private theorem forward_of_readOnly {call : ProviderCall} (h : call.readOnly = true) : call.forward = none := by
  cases call with
  | prepare asked => rfl
  | play asked => exact if_pos h
  | destination asked => exact if_pos h

/-- An effect that is owed is not issued yet, and a worker with a consumed claim is alone and has not executed it. -/
structure ForwardInvariant (system : IvrSystem) : Prop where
  once : ∀ effect, issued system.calls effect ≤ 1
  pending : ∀ effect, Owes system.rows.run effect → issued system.calls effect = 0
  held : ∀ worker claim remaining, system.workers worker = .consumed claim remaining →
    issued system.calls claim.forward = 0 ∧ ¬ Owes system.rows.run claim.forward
  single : ∀ worker claim remaining worker' claim' remaining', system.workers worker = .consumed claim remaining →
    system.workers worker' = .consumed claim' remaining' → claim.forward = claim'.forward → worker = worker'

/-- A step that issues no forward effect, and in which no claim is consumed. -/
private theorem ForwardInvariant.quiet (inv : ForwardInvariant system)
    (hcalls : ∀ effect, issued system'.calls effect = issued system.calls effect)
    (howes : ∀ effect, Owes system'.rows.run effect → Owes system.rows.run effect)
    (hworkers : ∀ worker claim remaining, system'.workers worker = .consumed claim remaining →
      system.workers worker = .consumed claim remaining) : ForwardInvariant system' where
  once effect := by
    rw [hcalls]
    exact inv.once effect
  pending effect h := by
    rw [hcalls]
    exact inv.pending effect (howes effect h)
  held worker claim remaining h := by
    rw [hcalls]
    have hheld := inv.held worker claim remaining (hworkers worker claim remaining h)
    exact ⟨hheld.1, fun h' => hheld.2 (howes _ h')⟩
  single worker claim remaining worker' claim' remaining' h h' hsame :=
    inv.single worker claim remaining worker' claim' remaining' (hworkers _ _ _ h) (hworkers _ _ _ h') hsame

/-- The claim of a worker is consumed. -/
private theorem ForwardInvariant.consume (inv : ForwardInvariant system) {claim : IvrEffectClaim} {remaining : Nat}
    (hcalls : system'.calls = system.calls)
    (howes : ∀ effect, Owes system'.rows.run effect → Owes system.rows.run effect)
    (hworkers : system'.workers = Function.update system.workers worker (.consumed claim remaining))
    (hbefore : Owes system.rows.run claim.forward) (hafter : ¬ Owes system'.rows.run claim.forward) :
    ForwardInvariant system' := by
  -- Another worker with the effect would have taken what the row owes.
  have hother : ∀ worker' claim' remaining', system.workers worker' = .consumed claim' remaining' →
      claim'.forward ≠ claim.forward := by
    intro worker' claim' remaining' h hsame
    have hheld := (inv.held worker' claim' remaining' h).2
    rw [hsame] at hheld
    exact hheld hbefore
  refine ⟨?_, ?_, ?_, ?_⟩
  · rw [hcalls]
    exact inv.once
  · intro effect h
    rw [hcalls]
    exact inv.pending effect (howes effect h)
  · intro worker' claim' remaining' h
    rw [hcalls]
    rw [hworkers] at h
    by_cases hworker : worker' = worker
    · rw [hworker, Function.update_self] at h
      cases h
      exact ⟨inv.pending _ hbefore, hafter⟩
    · rw [Function.update_of_ne hworker] at h
      have hheld := inv.held worker' claim' remaining' h
      exact ⟨hheld.1, fun h' => hheld.2 (howes _ h')⟩
  · intro worker₁ claim₁ remaining₁ worker₂ claim₂ remaining₂ h₁ h₂ hsame
    rw [hworkers] at h₁ h₂
    by_cases hworker₁ : worker₁ = worker
    · rw [hworker₁, Function.update_self] at h₁
      cases h₁
      by_cases hworker₂ : worker₂ = worker
      · rw [hworker₁, hworker₂]
      · rw [Function.update_of_ne hworker₂] at h₂
        exact absurd hsame.symm (hother worker₂ claim₂ remaining₂ h₂)
    · rw [Function.update_of_ne hworker₁] at h₁
      by_cases hworker₂ : worker₂ = worker
      · rw [hworker₂, Function.update_self] at h₂
        cases h₂
        exact absurd hsame (hother worker₁ claim₁ remaining₁ h₁)
      · rw [Function.update_of_ne hworker₂] at h₂
        exact inv.single worker₁ claim₁ remaining₁ worker₂ claim₂ remaining₂ h₁ h₂ hsame

/-- The consumed claim of a worker is executed. -/
private theorem ForwardInvariant.execute (inv : ForwardInvariant system) {claim : IvrEffectClaim} {remaining : Nat}
    {state : Worker} {call : ProviderCall} (hheld : system.workers worker = .consumed claim remaining)
    (hcall : call.forward = some claim.forward) (hcalls : system'.calls = system.calls ++ [call])
    (howes : ∀ effect, Owes system'.rows.run effect → Owes system.rows.run effect)
    (hworkers : system'.workers = Function.update system.workers worker state)
    (hstate : ∀ claim remaining, state ≠ .consumed claim remaining) : ForwardInvariant system' := by
  obtain ⟨hnone, hnot⟩ := inv.held worker claim remaining hheld
  have hissued : ∀ effect, issued system'.calls effect =
      issued system.calls effect + if claim.forward = effect then 1 else 0 := by
    intro effect
    rw [hcalls, issued_append, issued_single, hcall]
    simp
  have hother : ∀ worker' claim' remaining', system'.workers worker' = .consumed claim' remaining' →
      worker' ≠ worker ∧ system.workers worker' = .consumed claim' remaining' := by
    intro worker' claim' remaining' h
    rw [hworkers] at h
    by_cases hworker : worker' = worker
    · rw [hworker, Function.update_self] at h
      exact absurd h (hstate claim' remaining')
    · rw [Function.update_of_ne hworker] at h
      exact ⟨hworker, h⟩
  refine ⟨?_, ?_, ?_, ?_⟩
  · intro effect
    rw [hissued]
    by_cases heffect : claim.forward = effect
    · subst heffect
      simp [hnone]
    · simp [heffect, inv.once effect]
  · intro effect h
    have hbefore := howes effect h
    have heffect : claim.forward ≠ effect := by
      rintro rfl
      exact hnot hbefore
    rw [hissued, if_neg heffect, inv.pending effect hbefore]
  · intro worker' claim' remaining' h
    obtain ⟨hworker, h'⟩ := hother worker' claim' remaining' h
    obtain ⟨hnone', hnot'⟩ := inv.held worker' claim' remaining' h'
    have heffect : claim.forward ≠ claim'.forward := by
      intro hsame
      exact hworker (inv.single worker' claim' remaining' worker claim remaining h' hheld hsame.symm)
    rw [hissued, if_neg heffect]
    exact ⟨hnone', fun h => hnot' (howes _ h)⟩
  · intro worker₁ claim₁ remaining₁ worker₂ claim₂ remaining₂ h₁ h₂ hsame
    exact inv.single worker₁ claim₁ remaining₁ worker₂ claim₂ remaining₂ (hother _ _ _ h₁).2 (hother _ _ _ h₂).2 hsame

/-- Calls that are no forward effects leave every count alone. -/
private theorem issued_readOnly {attempt : IvrTransaction} (h : Issues (fun call => call.readOnly = true) attempt)
    (calls : List ProviderCall) (effect : Forward) :
    issued (calls ++ attempt.effects) effect = issued calls effect := by
  rcases h with h | ⟨call, hcall, h⟩
  · rw [h, List.append_nil]
  · rw [h, issued_append, issued_single, forward_of_readOnly hcall]
    rfl

private theorem finishJob_not_consumed (outcome : Except IvrError (IvrRows × IvrResult)) (remaining : Nat)
    (claim : IvrEffectClaim) (remaining' : Nat) : finishJob outcome remaining ≠ .consumed claim remaining' := by
  unfold finishJob
  split
  · split <;> exact Worker.noConfusion
  · exact Worker.noConfusion

/-- The workers after one of them has reached a state without a consumed claim. -/
private theorem workers_of_update {workers : Nat → Worker} {state : Worker}
    (hstate : ∀ claim remaining, state ≠ .consumed claim remaining) (worker' : Nat) (claim : IvrEffectClaim)
    (remaining : Nat) (h : Function.update workers worker state worker' = .consumed claim remaining) :
    workers worker' = .consumed claim remaining := by
  by_cases hworker : worker' = worker
  · rw [hworker, Function.update_self] at h
    exact absurd h (hstate claim remaining)
  · rwa [Function.update_of_ne hworker] at h

private theorem step_forwards {fingerprint : String → String} {move : IvrMove} (inv : ForwardInvariant system)
    (hready : move.ReadyToOriginate) :
    ForwardInvariant (system.step fingerprint move) := by
  have howes : ∀ effect, Owes (system.step fingerprint move).rows.run effect → Owes system.rows.run effect :=
    fun effect h => step_owes hready h
  cases move with
  | webhook event reads =>
    refine inv.quiet ?_ howes fun _ _ _ h => h
    intro effect
    show issued (system.calls ++ (eventTransaction event reads system.rows).effects) effect = _
    rw [eventTransaction_effects, List.append_nil]
  | work worker reads =>
    generalize hstate : system.workers worker = state
    cases state with
    | idle =>
      refine inv.quiet ?_ howes ?_
      · intro effect
        simp only [IvrSystem.step, IvrSystem.settle, hstate, Worker.transaction]
        exact issued_readOnly advance_effects _ effect
      · simp only [IvrSystem.step, hstate, Worker.next]
        exact workers_of_update (finishJob_not_consumed _ _)
    | holding claim remaining =>
      have hcalls : (system.step fingerprint (.work worker reads)).calls = system.calls := by
        simp only [IvrSystem.step, IvrSystem.settle, hstate, Worker.transaction, consumeClaim_effects, List.append_nil]
      have hworkers : (system.step fingerprint (.work worker reads)).workers = Function.update system.workers worker
          ((Worker.holding claim remaining).next (consumeClaim fingerprint claim reads system.rows).outcome) := by
        simp only [IvrSystem.step, hstate, Worker.transaction]
      by_cases hconsumed : ∃ rows', (consumeClaim fingerprint claim reads system.rows).Commits (rows', .consumed)
      · obtain ⟨rows', h⟩ := hconsumed
        have hrows : (system.step fingerprint (.work worker reads)).rows = rows' := by
          simp only [IvrSystem.step, hstate, Worker.transaction, IvrSystem.settle_commits h]
        obtain ⟨hmatching, hunstarted, startedAt, hrun⟩ := consumeClaim_consumed h
        obtain ⟨hphase, hstep, hreason, -, -⟩ := matchingClaim_iff.1 hmatching
        have houtcome : (consumeClaim fingerprint claim reads system.rows).outcome = .ok (rows', .consumed) := h
        rw [houtcome] at hworkers
        refine inv.consume hcalls howes hworkers (owes_of_unconsumed hphase hstep hreason hunstarted) ?_
        rw [hrows, hrun]
        exact not_owes_of_consumed hphase hstep (Option.some_ne_none _)
      · refine inv.quiet ?_ howes ?_
        · intro effect
          rw [hcalls]
        · rw [hworkers]
          refine workers_of_update fun claim' remaining' hnext => ?_
          simp only [Worker.next] at hnext
          split at hnext
          · rename_i houtcome
            exact hconsumed ⟨_, houtcome⟩
          · cases hnext
    | consumed claim remaining =>
      have hworkers : (system.step fingerprint (.work worker reads)).workers = Function.update system.workers worker
          (finishJob (forwardClaim fingerprint claim reads system.rows).outcome (remaining - 1)) := by
        simp only [IvrSystem.step, hstate, Worker.next, Worker.transaction]
      have hcalls : (system.step fingerprint (.work worker reads)).calls =
          system.calls ++ (forwardClaim fingerprint claim reads system.rows).effects := by
        simp only [IvrSystem.step, IvrSystem.settle, hstate, Worker.transaction]
      have heffects : Issues (fun call => call.forward = some claim.forward)
          (forwardClaim fingerprint claim reads system.rows) := forwardClaim_effects claim
      rcases heffects with h | ⟨call, hcall, h⟩
      · rw [h, List.append_nil] at hcalls
        refine inv.quiet ?_ howes ?_
        · intro effect
          rw [hcalls]
        · rw [hworkers]
          exact workers_of_update (finishJob_not_consumed _ _)
      · rw [h] at hcalls
        exact inv.execute hstate hcall hcalls howes hworkers (finishJob_not_consumed _ _)
  | crash worker =>
    refine inv.quiet (fun _ => rfl) howes ?_
    exact workers_of_update fun _ _ => Worker.noConfusion
  | lifecycle command =>
    refine inv.quiet ?_ howes ?_
    · intro effect
      simp only [IvrSystem.step]
      split <;> rfl
    · simp only [IvrSystem.step]
      split <;> exact fun _ _ _ h => h
  | foreignReceipt receipt =>
    refine inv.quiet ?_ howes ?_
    · intro effect
      simp only [IvrSystem.step]
      split <;> rfl
    · simp only [IvrSystem.step]
      split <;> exact fun _ _ _ h => h

private theorem run_forwards (fingerprint : String → String) (moves : List IvrMove) (inv : ForwardInvariant system)
    (hready : ∀ move ∈ moves, move.ReadyToOriginate) :
    ForwardInvariant (system.run fingerprint moves) := by
  induction moves generalizing system with
  | nil => exact inv
  | cons move moves ih =>
    refine ih (step_forwards inv (hready move List.mem_cons_self)) fun move' hmove' => ?_
    exact hready move' (List.mem_cons_of_mem move hmove')

private theorem forward_or_readOnly (call : ProviderCall) :
    call.readOnly = true ∨ ∃ effect, call.forward = some effect := by
  cases call with
  | prepare asked => exact .inl rfl
  | play asked =>
    by_cases hreconcile : asked.reconcile = true
    · exact .inl hreconcile
    · exact .inr ⟨.play asked.step, if_neg hreconcile⟩
  | destination asked =>
    by_cases hreconcile : asked.reconcile = true
    · exact .inl hreconcile
    · right
      simp only [ProviderCall.forward, if_neg hreconcile]
      cases asked.stage with
      | originate => exact ⟨.originate, rfl⟩
      | connect => exact ⟨.connect, rfl⟩

/-- However the workers, the events and the other transactions interleave, and wherever workers stop, each forward
effect of a run is issued at most once, and all else that is asked is read-only. -/
theorem ivr_effects_once (fingerprint : String → String) (call : Call) (id : String) (snapshot : Snapshot)
    (insertedAt : Int) (receipts : List IvrEventReceipt) (moves : List IvrMove)
    (hready : ∀ move ∈ moves, move.ReadyToOriginate) :
    let calls := ((IvrSystem.start call id snapshot insertedAt receipts).run fingerprint moves).calls
    (∀ step, issued calls (.play step) ≤ 1) ∧ issued calls .originate ≤ 1 ∧ issued calls .connect ≤ 1 ∧
      ∀ asked ∈ calls, asked.readOnly = true ∨ ∃ effect, asked.forward = some effect ∧ issued calls effect = 1 := by
  have hstart : ForwardInvariant (IvrSystem.start call id snapshot insertedAt receipts) := by
    refine ⟨fun _ => Nat.zero_le _, fun _ _ => rfl, ?_, ?_⟩
    · intro worker claim remaining h
      cases h
    · intro worker claim remaining worker' claim' remaining' h
      cases h
  have inv := run_forwards fingerprint moves hstart hready
  refine ⟨fun step => inv.once (.play step), inv.once .originate, inv.once .connect, fun asked hasked => ?_⟩
  rcases forward_or_readOnly asked with hreadOnly | ⟨effect, heffect⟩
  · exact .inl hreadOnly
  · right
    refine ⟨effect, heffect, Nat.le_antisymm (inv.once effect) ?_⟩
    exact List.length_pos_of_mem (List.mem_filter.2 ⟨hasked, by simpa using heffect⟩)

/-- The caller presses the digit of a destination, which the worker originates and connects. -/
def sampleDestinationMoves : List IvrMove :=
  sampleMoves "2" ++ List.replicate 5 (.work 0 (sampleReads 10 (some (.destination "+15550123"))))

theorem ivr_effects_once_sample :
    let calls := ((IvrSystem.start sampleCall "r-1" sampleSnapshot 0 []).run id sampleDestinationMoves).calls
    (issued calls (.play 1) = 1 ∧ issued calls .originate = 1 ∧ issued calls .connect = 1) ∧
      (∀ step, issued calls (.play step) ≤ 1) ∧ issued calls .originate ≤ 1 ∧ issued calls .connect ≤ 1 ∧
        ∀ asked ∈ calls, asked.readOnly = true ∨
          ∃ effect, asked.forward = some effect ∧ issued calls effect = 1 := by
  have hready : ∀ now target, ReadyToOriginate (sampleReads now target).provider := by
    intro now target asked h
    by_contra hstage
    have hconnected : (sampleReads now target).provider.destination asked = .connected := if_neg hstage
    rw [hconnected] at h
    cases h
  refine ⟨?_, ivr_effects_once id sampleCall "r-1" sampleSnapshot 0 [] sampleDestinationMoves ?_⟩
  · decide
  · simp [sampleDestinationMoves, sampleMoves, IvrMove.ReadyToOriginate, hready]

end KComms.Telephony
