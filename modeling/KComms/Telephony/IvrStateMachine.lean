import KComms.Telephony.Call
import Mathlib.Tactic.Common

/-!
# The selection of an IVR caller (`IvrStateMachine`)

A run plays the prompt of its menu, opens a window for one digit, and then selects the target of the digit.  A digit
that is invalid or missing starts the next step while there are retries, and selects the fallback after that.  The
functions give the next row of the run, or `none` where the source raises.  What they can do to a run is said once,
by `transition_applied` and `timeout_applied`.
-/

namespace KComms.Telephony

inductive Phase
  | pending | preparing | playing | awaitingDigit | selected | routing | destinationPending | destinationConnecting
  | unknown | completed | failed | cancelled
  deriving DecidableEq, Repr

/-- `terminal?`; the phases that are not terminal are the `@active_phases`. -/
def Phase.terminal : Phase → Bool
  | .completed | .failed | .cancelled => true
  | _ => false

inductive Target
  | hangup
  | route (routeId : String)
  | voicemail (mailboxId : String)
  | destination (destination : String)
  deriving DecidableEq, Repr

/-- The menu as it was when the call came in, with the bounds that `IvrMenu.changeset` admits. -/
structure Snapshot where
  promptMedia : String
  choices : List (String × Target)
  fallback : Target
  digitTimeoutSeconds : Nat
  maxRetries : Nat
  timeout_admitted : 5 ≤ digitTimeoutSeconds ∧ digitTimeoutSeconds ≤ 30
  retries_admitted : maxRetries ≤ 2
  deriving DecidableEq, Repr

/-- `Map.fetch(snapshot["choices"], digit)` -/
def Snapshot.choice (snapshot : Snapshot) : Option String → Option Target
  | none => none
  | some digit => List.lookup digit snapshot.choices

inductive EffectAction
  | play | destination | connectDestination
  deriving DecidableEq, Repr

inductive FailureReason
  | claimed (action : EffectAction)
  | playbackSubmitted | playbackOutcomeUnknown | destinationOutcomeUnknown
  | ivrDeadline | ivrHangup | ivrCallerDisconnected | ivrTargetUnavailable | audioCallsDisabled
  deriving DecidableEq, Repr

def EffectAction.text : EffectAction → String
  | .play => "play"
  | .destination => "destination"
  | .connectDestination => "connect_destination"

def FailureReason.text : FailureReason → String
  | .claimed action => action.text ++ "_claimed"
  | .playbackSubmitted => "playback_submitted"
  | .playbackOutcomeUnknown => "playback_outcome_unknown"
  | .destinationOutcomeUnknown => "destination_outcome_unknown"
  | .ivrDeadline => "ivr_deadline"
  | .ivrHangup => "ivr_hangup"
  | .ivrCallerDisconnected => "ivr_caller_disconnected"
  | .ivrTargetUnavailable => "ivr_target_unavailable"
  | .audioCallsDisabled => "audio_calls_disabled"

/-- `String.ends_with?(reason, "_claimed")` -/
def FailureReason.isClaimed : FailureReason → Bool
  | .claimed _ => true
  | _ => false

structure IvrRun where
  id : String
  tenantId : String
  callId : String
  snapshot : Snapshot
  phase : Phase
  step : Nat
  retries : Nat
  selectedTarget : Option Target
  bindings : Bindings
  claimedAt : Option Int
  effectClaimFingerprint : Option String
  effectStartedAt : Option Int
  promptCompletedAt : Option Int
  digitDeadline : Option Int
  expiresAt : Int
  completedAt : Option Int
  failureReason : Option FailureReason
  insertedAt : Int
  deriving DecidableEq, Repr

inductive IvrEventType
  | digit | playbackFinished | disconnected
  deriving DecidableEq, Repr

structure IvrEvent where
  eventId : String
  bodyFingerprint : String
  type : IvrEventType
  tenantId : Option String
  callId : Option String
  runId : String
  step : Nat
  channelId : String
  providerRoom : Option String
  providerIdentity : Option String
  occurredAt : Int
  digit : Option String
  playbackId : Option String
  mediaUri : Option String
  deriving DecidableEq, Repr

/-- What `transition` and `timeout` answer, with the row after the changes. -/
inductive Verdict
  | applied (run : IvrRun) | ignored | wait
  deriving DecidableEq, Repr

/-! ### The functions of the source -/

/-- Only the steps 1, 2 and 3 have an id: there is no clause for another one. -/
def playbackId (runId : String) (step : Nat) : Option String :=
  if 1 ≤ step ∧ step ≤ 3 then some ("kc_ivr_" ++ compact runId ++ "_" ++ toString step) else none

def earliest (left right : Int) : Int := if right < left then right else left

def seconds (amount : Int) : Int := amount * 1000000

def IvrRun.retry (run : IvrRun) : IvrRun :=
  { run with
    phase := .pending, retries := run.retries + 1, step := run.step + 1, claimedAt := none, promptCompletedAt := none
    digitDeadline := none, effectClaimFingerprint := none, effectStartedAt := none, failureReason := none }

def IvrRun.select (run : IvrRun) (target : Target) : IvrRun :=
  { run with phase := .selected, selectedTarget := some target }

/-- `deadline_failure` -/
def IvrRun.deadlineFailure (run : IvrRun) : IvrRun :=
  { run with phase := .failed, failureReason := some .ivrDeadline }

def IvrRun.prompted (run : IvrRun) (completedAt : Int) : IvrRun :=
  { run with
    phase := .awaitingDigit, promptCompletedAt := some completedAt
    digitDeadline := some (earliest (completedAt + seconds run.snapshot.digitTimeoutSeconds) run.expiresAt)
    failureReason := none }

def retryOrFallback (run : IvrRun) : IvrRun :=
  if run.retries < run.snapshot.maxRetries then run.retry else run.select run.snapshot.fallback

def playback (run : IvrRun) (event : IvrEvent) : Option Verdict :=
  if run.phase = .playing ∨ run.phase = .unknown then
    match playbackId run.id run.step with
    | none => none
    | some expected =>
      if event.playbackId = some expected ∧ event.mediaUri = some run.snapshot.promptMedia then
        some (.applied (run.prompted event.occurredAt))
      else some .ignored
  else some .ignored

def digit (run : IvrRun) (event : IvrEvent) (now : Int) : Option Verdict :=
  if run.phase = .awaitingDigit then
    match run.promptCompletedAt with
    | none => some .ignored
    | some completedAt =>
      if event.occurredAt < completedAt then some .ignored
      else
        match run.digitDeadline with
        | none => none
        | some deadline =>
          if deadline ≤ now then some (.applied (retryOrFallback run))
          else if deadline ≤ event.occurredAt then some (.applied (retryOrFallback run))
          else
            match run.snapshot.choice event.digit with
            | some target => some (.applied (run.select target))
            | none => some (.applied (retryOrFallback run))
  else some .ignored

def transition (run : IvrRun) (event : IvrEvent) (now : Int) : Option Verdict :=
  if run.phase.terminal then some .ignored
  else if run.expiresAt ≤ now then some (.applied run.deadlineFailure)
  else if event.step ≠ run.step then some .ignored
  else
    match event.type with
    | .playbackFinished => playback run event
    | .digit => digit run event now
    | .disconnected => some .ignored

def timeout (run : IvrRun) (now : Int) : Option Verdict :=
  if run.phase.terminal then some .ignored
  else if run.expiresAt ≤ now then some (.applied run.deadlineFailure)
  else if run.phase = .awaitingDigit then
    match run.digitDeadline with
    | none => none
    | some deadline => if deadline ≤ now then some (.applied (retryOrFallback run)) else some .wait
  else some .wait

/-! ### What they do -/

theorem earliest_le_right (left right : Int) : earliest left right ≤ right := by
  unfold earliest
  split <;> omega

theorem playbackId_isSome {runId : String} {step : Nat} : (playbackId runId step).isSome ↔ 1 ≤ step ∧ step ≤ 3 := by
  unfold playbackId
  split <;> simp_all

/-- A step ends without a choice: there is another step, or the fallback is selected. -/
theorem retryOrFallback_cases (run : IvrRun) :
    run.retries < run.snapshot.maxRetries ∧ retryOrFallback run = run.retry ∨
      run.snapshot.maxRetries ≤ run.retries ∧ retryOrFallback run = run.select run.snapshot.fallback := by
  unfold retryOrFallback
  split
  · left
    exact ⟨‹_›, rfl⟩
  · right
    exact ⟨by omega, rfl⟩

/-- The event ends the prompt of the current step. -/
structure EndsPrompt (run : IvrRun) (event : IvrEvent) : Prop where
  isPlayback : event.type = .playbackFinished
  phase : run.phase = .playing ∨ run.phase = .unknown
  ofStep : event.step = run.step
  ofPlayback : event.playbackId = playbackId run.id run.step

/-- The event is a digit for the current step, not before the end of the prompt. -/
structure Answers (run : IvrRun) (event : IvrEvent) (completedAt deadline : Int) : Prop where
  isDigit : event.type = .digit
  phase : run.phase = .awaitingDigit
  ofStep : event.step = run.step
  prompt : run.promptCompletedAt = some completedAt
  after_prompt : completedAt ≤ event.occurredAt
  window : run.digitDeadline = some deadline

/-- Everything that an event can do to a run. -/
theorem transition_applied {run run' : IvrRun} {event : IvrEvent} {now : Int}
    (h : transition run event now = some (.applied run')) :
    run.phase.terminal = false ∧
      (run.expiresAt ≤ now ∧ run' = run.deadlineFailure ∨
        now < run.expiresAt ∧ EndsPrompt run event ∧ run' = run.prompted event.occurredAt ∨
        now < run.expiresAt ∧ ∃ completedAt deadline, Answers run event completedAt deadline ∧
          ((deadline ≤ now ∨ deadline ≤ event.occurredAt ∨ run.snapshot.choice event.digit = none) ∧
              run' = retryOrFallback run ∨
            now < deadline ∧ event.occurredAt < deadline ∧
              ∃ target, run.snapshot.choice event.digit = some target ∧ run' = run.select target)) := by
  unfold transition at h
  split at h
  · cases h
  rename_i hterminal
  refine ⟨by simpa using hterminal, ?_⟩
  split at h
  · rename_i hexpired
    left
    cases h
    exact ⟨hexpired, rfl⟩
  rename_i hexpired
  rw [Int.not_le] at hexpired
  split at h
  · cases h
  rename_i hstep
  rw [not_not] at hstep
  right
  split at h
  · -- a playback
    rename_i htype
    left
    unfold playback at h
    split at h
    · rename_i hphase
      split at h
      · cases h
      · rename_i expected hexpected
        split at h
        · rename_i hmatch
          cases h
          exact ⟨hexpired, ⟨htype, hphase, hstep, hmatch.1.trans hexpected.symm⟩, rfl⟩
        · cases h
    · cases h
  · -- a digit
    rename_i htype
    right
    refine ⟨hexpired, ?_⟩
    unfold digit at h
    split at h
    · rename_i hphase
      split at h
      · cases h
      rename_i completedAt hprompt
      split at h
      · cases h
      rename_i hafter
      rw [Int.not_lt] at hafter
      split at h
      · cases h
      rename_i deadline hwindow
      refine ⟨completedAt, deadline, ⟨htype, hphase, hstep, hprompt, hafter, hwindow⟩, ?_⟩
      split at h
      · cases h
        exact .inl ⟨.inl ‹_›, rfl⟩
      rename_i hnow
      split at h
      · cases h
        exact .inl ⟨.inr (.inl ‹_›), rfl⟩
      rename_i hoccurred
      split at h
      · rename_i target hchoice
        cases h
        exact .inr ⟨by omega, by omega, target, hchoice, rfl⟩
      · rename_i hchoice
        cases h
        exact .inl ⟨.inr (.inr hchoice), rfl⟩
    · cases h
  · cases h

/-- Everything that a timeout can do to a run. -/
theorem timeout_applied {run run' : IvrRun} {now : Int} (h : timeout run now = some (.applied run')) :
    run.phase.terminal = false ∧
      (run.expiresAt ≤ now ∧ run' = run.deadlineFailure ∨
        now < run.expiresAt ∧ run.phase = .awaitingDigit ∧
          ∃ deadline, run.digitDeadline = some deadline ∧ deadline ≤ now ∧ run' = retryOrFallback run) := by
  unfold timeout at h
  split at h
  · cases h
  rename_i hterminal
  refine ⟨by simpa using hterminal, ?_⟩
  split at h
  · rename_i hexpired
    left
    cases h
    exact ⟨hexpired, rfl⟩
  rename_i hexpired
  rw [Int.not_le] at hexpired
  split at h
  · rename_i hphase
    split at h
    · cases h
    rename_i deadline hwindow
    split at h
    · rename_i hnow
      right
      cases h
      exact ⟨hexpired, hphase, deadline, hwindow, hnow, rfl⟩
    · cases h
  · cases h

end KComms.Telephony
