import KComms.Lib.EffectTransaction
import KComms.Telephony.IvrStateMachine

/-!
# The transactions of an IVR run (`Telephony.Ivr`)

A run and its call are locked by every transaction.  `eventTransaction` handles a verified event, `advance` is one job
of the worker, and `executeClaim` is split, as in the source, into the transaction that consumes a claim and the one
that executes it.  What a transaction reads besides the two rows (clocks, budgets, the configuration and the answers of
the provider) is its `IvrReads`.
-/

namespace KComms.Telephony

inductive Stage
  | originate | connect
  deriving DecidableEq, Repr

structure IvrProviderRequest where
  runId : String
  callId : String
  tenantId : String
  providerRoom : String
  providerIdentity : String
  step : Nat
  playbackId : String
  promptMedia : String
  bindings : Bindings
  expiresAt : Int
  reconcile : Bool
  destination : Option String
  stage : Stage
  deriving DecidableEq, Repr

/-- A call of the provider port. -/
inductive ProviderCall
  | prepare (request : IvrProviderRequest)
  | play (request : IvrProviderRequest)
  | destination (request : IvrProviderRequest)
  deriving DecidableEq, Repr

inductive DestinationAnswer
  | pending | ready | connected | error
  deriving DecidableEq, Repr

structure IvrEffectClaim where
  runId : String
  step : Nat
  action : EffectAction
  nonce : String
  deriving DecidableEq, Repr

structure IvrEventReceipt where
  runId : String
  eventId : String
  bodyFingerprint : String
  step : Nat
  eventType : IvrEventType
  deriving DecidableEq, Repr

/-- `Routing.admission` -/
structure RoutingAdmission where
  userId : String
  routeId : Option String
  routingStatus : RoutingStatus
  offeredUserIds : List String
  routeExpiresAt : Option Int
  eligible : Bool
  deriving DecidableEq, Repr

inductive IvrError
  | notFound | forbidden | telephonyIvrRetry | telephonyIvrClaimConsumed | telephonyIvrUnavailable
  | telephonyIvrTargetUnavailable | telephonyIvrEventCapacity | telephonyPbxBindingInvalid
  | telephonyTransferDestinationForbidden | invalidProviderEvent | eventConflict
  | raised
  deriving DecidableEq, Repr

inductive IvrResult
  | complete | wait (seconds : Nat) | effect (claim : IvrEffectClaim) | consumed | applied | ignored | duplicate
  deriving DecidableEq, Repr

/-- The clock readings of one transaction, in their order: for the guards before the operation, for the check of an
event, for the state machine, for the timestamps that are written, and for the check after the operation. -/
structure Clock where
  opened : Int
  checked : Int
  handled : Int
  stamped : Int
  closed : Int
  opened_le : opened ≤ checked
  checked_le : checked ≤ handled
  handled_le : handled ≤ stamped
  stamped_le : stamped ≤ closed
  deriving DecidableEq, Repr

theorem Clock.handled_le_closed (clock : Clock) : clock.handled ≤ clock.closed := by
  have h := clock.handled_le
  have h' := clock.stamped_le
  omega

/-- What the adapter would answer to a call of the port; `play` is whether it answers `{:ok, :pending}`. -/
structure IvrProvider where
  prepare : IvrProviderRequest → Option Bindings
  play : IvrProviderRequest → Bool
  destination : IvrProviderRequest → DestinationAnswer

/-- What a transaction reads besides the two rows.  `commitInBudget` is false as well when the process dies before the
commit. -/
structure IvrReads where
  clock : Clock
  locksInBudget : Bool
  effectInBudget : Bool
  commitInBudget : Bool
  snapshotTarget : Option Target
  targetAvailable : Bool
  allowAudioCalls : Bool
  provider : IvrProvider
  targetRequired : Except IvrError Unit
  routing : RoutingAdmission
  mailboxUserId : Option String
  recordingDeadline : Except IvrError Int
  destinationAuthorized : Bool
  nonce : String

/-- The rows that a transaction may write.  The receipts are those of all runs: an event id is unique. -/
structure IvrRows where
  call : Call
  run : IvrRun
  receipts : List IvrEventReceipt

abbrev IvrTransaction := Attempt ProviderCall IvrError (IvrRows × IvrResult)

/-! ### Rows -/

/-- `IvrRun.changeset` with `Repo.update!` -/
def updateRun (run : IvrRun) : Attempt ProviderCall IvrError IvrRun :=
  if 0 < run.step ∧ run.step ≤ 3 ∧ run.retries ≤ 2 then pure run else .rollback .raised

/-- `reserve!`, which the call owner uses for a ringing call. -/
def reserve (call : Call) (id : String) (snapshot : Snapshot) (insertedAt : Int) : IvrRun where
  id := id
  tenantId := call.tenantId
  callId := call.id
  snapshot := snapshot
  phase := .pending
  step := 1
  retries := 0
  selectedTarget := none
  bindings := []
  claimedAt := none
  effectClaimFingerprint := none
  effectStartedAt := none
  promptCompletedAt := none
  digitDeadline := none
  expiresAt := call.expiresAt
  completedAt := none
  failureReason := none
  insertedAt := insertedAt

/-- `cancel_calls!`, for the run of one of the calls. -/
def IvrRun.cancel (run : IvrRun) (now : Int) : IvrRun :=
  if run.phase.terminal then run else { run with phase := .cancelled, completedAt := some now }

def request (call : Call) (run : IvrRun) (reconcile : Bool) : Attempt ProviderCall IvrError IvrProviderRequest :=
  match playbackId run.id run.step with
  | none => .rollback .raised
  | some playback =>
    pure
      { runId := run.id, callId := call.id, tenantId := call.tenantId, providerRoom := call.providerRoom
        providerIdentity := call.providerIdentity, step := run.step, playbackId := playback
        promptMedia := run.snapshot.promptMedia, bindings := run.bindings, expiresAt := call.expiresAt
        reconcile := reconcile, destination := none, stage := .originate }

/-- `run.selected_target["destination"]` -/
def IvrRun.destination (run : IvrRun) : Option String :=
  match run.selectedTarget with
  | some (.destination destination) => some destination
  | _ => none

/-- `IvrProviderPort.destination`, for the selected destination. -/
def askDestination (reads : IvrReads) (run : IvrRun) (stage : Stage) (asked : IvrProviderRequest) :
    Attempt ProviderCall IvrError DestinationAnswer :=
  let asked := { asked with destination := run.destination, stage := stage }
  .issue (.destination asked) (reads.provider.destination asked)

/-- A handle of the PBX, which `^[A-Za-z0-9_.:-]{1,200}$` matches; the `$` also matches before a last line feed. -/
def validHandle (handle : String) : Bool :=
  let body := if handle.toList.getLast? = some '\n' then handle.toList.dropLast else handle.toList
  1 ≤ body.length && body.length ≤ 200 &&
    body.all fun c => c.isAlphanum || c = '_' || c = '.' || c = ':' || c = '-'

def validBindings (bindings : Bindings) (call : Call) : Bool :=
  let hold := "kc_hold_" ++ compact call.id
  (bindings.get "external").any validHandle &&
    bindings.get "holding" = some hold &&
    (bindings.get "mixing").any (fun mixing => mixing = hold || validHandle mixing) &&
    bindings.get "consult" = some ("kc_consult_" ++ compact call.id) &&
    (bindings.get "app").all validHandle &&
    bindings.length = 7 &&
    bindings.get "destination_bridge" = some ("kc_ivr_mix_" ++ compact call.id) &&
    bindings.get "recording" = some ("kc_vm_" ++ compact call.id)

/-! ### Endings -/

def Call.failed (call : Call) (reason : FailureReason) (timestamp : Int) : Call :=
  { call with
    status := if call.answeredAt = none then .noAnswer else .ended
    endedAt := some timestamp
    endReason := some reason.text }

def IvrRun.failed (run : IvrRun) (reason : FailureReason) (timestamp : Int) : IvrRun :=
  { run with
    phase := if reason = .ivrHangup then .completed else .failed
    completedAt := some timestamp
    failureReason := some reason }

def failCall (rows : IvrRows) (reason : FailureReason) (timestamp : Int) : IvrTransaction := do
  let run ← updateRun (rows.run.failed reason timestamp)
  return ({ rows with call := rows.call.failed reason timestamp, run := run }, .complete)

/-! ### Claims -/

section

variable (fingerprint : String → String)

def claimPhase : EffectAction → Phase
  | .play => .unknown
  | .destination => .destinationPending
  | .connectDestination => .destinationConnecting

def IvrRun.claimed (run : IvrRun) (action : EffectAction) (mark : String) : IvrRun :=
  { run with
    phase := claimPhase action
    effectClaimFingerprint := some mark
    effectStartedAt := none
    failureReason := some (.claimed action) }

def claim (nonce : String) (rows : IvrRows) (action : EffectAction) : IvrTransaction := do
  let run ← updateRun (rows.run.claimed action (fingerprint nonce))
  return ({ rows with run := run }, .effect { runId := run.id, step := run.step, action := action, nonce := nonce })

def matchingClaim (run : IvrRun) (claim : IvrEffectClaim) : Bool :=
  run.phase = claimPhase claim.action && run.step = claim.step &&
    run.failureReason = some (.claimed claim.action) && claim.nonce.utf8ByteSize = 64 &&
    run.effectClaimFingerprint = some (fingerprint claim.nonce)

/-! ### The outcome of an effect -/

def finishPlay (rows : IvrRows) (pending : Bool) : IvrTransaction := do
  let run ← updateRun
    { rows.run with
      phase := .unknown
      failureReason := some (if pending then .playbackSubmitted else .playbackOutcomeUnknown) }
  return ({ rows with run := run }, .wait 1)

/-- The call that the provider has connected to its destination. -/
def Call.connected (call : Call) (bindings : Bindings) (answeredAt : Int) : Call :=
  { call with
    controlState := .transferred
    status := .answered
    answeredAt := some answeredAt
    routingStatus := .ivrDestination
    offeredUserIds := []
    pbxState :=
      bindings.filter (fun binding => binding.1 ≠ "mixing") ++ [("mixing", bindings.get "destination_bridge")] }

def IvrRun.completed (run : IvrRun) (completedAt : Int) : IvrRun :=
  { run with phase := .completed, completedAt := some completedAt }

def finishDestination (reads : IvrReads) (rows : IvrRows) : DestinationAnswer → IvrTransaction
  | .ready => claim fingerprint reads.nonce rows .connectDestination
  | .connected => do
    Attempt.check reads.destinationAuthorized .telephonyTransferDestinationForbidden
    let run ← updateRun { rows.run.completed reads.clock.stamped with failureReason := none }
    return ({ rows with call := rows.call.connected rows.run.bindings reads.clock.stamped, run := run }, .complete)
  | _ => do
    let run ← updateRun { rows.run with failureReason := some .destinationOutcomeUnknown }
    return ({ rows with run := run }, .wait 1)

/-- Whether a worker that holds the claim has still to report: an inconclusive reading leaves the claim alone. -/
def reportAwaited (run : IvrRun) : Bool := run.failureReason.any FailureReason.isClaimed

def finishPlayObservation (rows : IvrRows) (pending : Bool) : IvrTransaction :=
  if reportAwaited rows.run then return (rows, .wait 1) else finishPlay rows pending

def finishDestinationObservation (reads : IvrReads) (rows : IvrRows) (answer : DestinationAnswer) : IvrTransaction :=
  if answer = .ready ∨ answer = .connected then finishDestination fingerprint reads rows answer
  else if reportAwaited rows.run then return (rows, .wait 1)
  else finishDestination fingerprint reads rows answer

/-! ### The selected target -/

def Call.captured (call : Call) (userId : String) (recordingDeadline : Int) : Call :=
  { call with
    routingStatus := .voicemail
    controlState := .voicemail
    userId := userId
    offeredUserIds := []
    expiresAt := earliest recordingDeadline call.expiresAt }

def Call.routed (call : Call) (routing : RoutingAdmission) : Call :=
  { call with
    userId := routing.userId
    routeId := routing.routeId
    routingStatus := routing.routingStatus
    offeredUserIds := routing.offeredUserIds
    routeExpiresAt := routing.routeExpiresAt.map (earliest · call.expiresAt) }

def capture (reads : IvrReads) (rows : IvrRows) : IvrTransaction := do
  match reads.mailboxUserId, reads.recordingDeadline with
  | none, _ => .rollback .telephonyIvrTargetUnavailable
  | some _, .error reason => .rollback reason
  | some userId, .ok recordingDeadline =>
    let run ← updateRun (rows.run.completed reads.clock.stamped)
    return ({ rows with call := rows.call.captured userId recordingDeadline, run := run }, .complete)

def selectTarget (reads : IvrReads) (rows : IvrRows) : IvrTransaction :=
  match rows.run.selectedTarget, reads.targetRequired with
  | none, _ => .rollback .raised
  | some _, .error reason => .rollback reason
  | some .hangup, .ok () => failCall rows .ivrHangup reads.clock.stamped
  | some (.route routeId), .ok () => do
    Attempt.check (reads.routing.eligible && reads.routing.routeId = some routeId) .telephonyIvrTargetUnavailable
    let run ← updateRun (rows.run.completed reads.clock.stamped)
    return ({ rows with call := rows.call.routed reads.routing, run := run }, .complete)
  | some (.voicemail _), .ok () => capture reads rows
  | some (.destination _), .ok () => claim fingerprint reads.nonce rows .destination

/-! ### The worker -/

def advancePhase (reads : IvrReads) (rows : IvrRows) : IvrTransaction :=
  match rows.run.phase with
  | .awaitingDigit => return (rows, .wait 1)
  | .selected => selectTarget fingerprint reads rows
  | .pending => do
    let run ← updateRun { rows.run with phase := .preparing, claimedAt := some reads.clock.stamped }
    return ({ rows with run := run }, .wait 1)
  | .preparing => do
    Attempt.check reads.effectInBudget .telephonyIvrUnavailable
    let asked ← request rows.call rows.run false
    match ← Attempt.issue (.prepare asked) (reads.provider.prepare asked) with
    | some bindings =>
      Attempt.check (validBindings bindings rows.call) .telephonyPbxBindingInvalid
      let run ← updateRun { rows.run with bindings := bindings, phase := .playing }
      return ({ rows with call := { rows.call with pbxState := bindings }, run := run }, .wait 1)
    | none => return (rows, .wait 2)
  | .playing => claim fingerprint reads.nonce rows .play
  | .unknown => do
    Attempt.check reads.effectInBudget .telephonyIvrUnavailable
    let asked ← request rows.call rows.run true
    let pending ← Attempt.issue (.play asked) (reads.provider.play asked)
    finishPlayObservation rows pending
  | .destinationPending => do
    Attempt.check reads.effectInBudget .telephonyIvrUnavailable
    let asked ← request rows.call rows.run true
    let answer ← askDestination reads rows.run .originate asked
    finishDestinationObservation fingerprint reads rows answer
  | .destinationConnecting => do
    Attempt.check reads.effectInBudget .telephonyIvrUnavailable
    let asked ← request rows.call rows.run true
    let answer ← askDestination reads rows.run .connect asked
    finishDestinationObservation fingerprint reads rows answer
  | .routing => return (rows, .wait 1)
  | .completed | .failed | .cancelled => return (rows, .complete)

def advanceLocked (reads : IvrReads) (rows : IvrRows) : IvrTransaction :=
  match timeout rows.run reads.clock.handled with
  | none => .rollback .raised
  | some (.applied changed) => do
    let run ← updateRun changed
    if run.phase = .failed then failCall { rows with run := run } .ivrDeadline reads.clock.stamped
    else advancePhase fingerprint reads { rows with run := run }
  | some _ => advancePhase fingerprint reads rows

/-! ### Transactions -/

/-- `run_transaction`: the guards before the operation, and the check of the deadline after it. -/
def runTransaction (reads : IvrReads) (rows : IvrRows) (operation : IvrRows → IvrTransaction) : IvrTransaction := do
  Attempt.check reads.locksInBudget .forbidden
  Attempt.check (reads.snapshotTarget = rows.run.selectedTarget) .telephonyIvrRetry
  if rows.run.phase.terminal then return (rows, .complete)
  else if ¬ rows.call.active then
    let run ← updateRun { rows.run with phase := .cancelled, completedAt := some reads.clock.stamped }
    return ({ rows with run := run }, .complete)
  else if ¬ reads.targetAvailable then failCall rows .ivrTargetUnavailable reads.clock.stamped
  else if ¬ reads.allowAudioCalls then failCall rows .audioCallsDisabled reads.clock.stamped
  else if rows.call.expiresAt ≤ reads.clock.opened then failCall rows .ivrDeadline reads.clock.stamped
  else
    let (after, result) ← operation rows
    Attempt.check reads.commitInBudget .forbidden
    -- The caller's authority ends at the deadline that was read before the operation.
    if rows.call.expiresAt ≤ reads.clock.closed ∧ after.call.active then
      failCall after .ivrDeadline reads.clock.closed
    else return (after, result)

def exactEvent (event : IvrEvent) (call : Call) (run : IvrRun) (now : Int) : Bool :=
  event.runId = run.id && some event.channelId = run.bindings.get "external" &&
    run.insertedAt ≤ event.occurredAt && event.occurredAt ≤ now + seconds 5 &&
    (event.type = .playbackFinished ||
      (event.tenantId = some call.tenantId && event.callId = some call.id &&
        event.providerRoom = some call.providerRoom && event.providerIdentity = some call.providerIdentity))

def receiptOf (event : IvrEvent) (run : IvrRun) : IvrEventReceipt where
  runId := run.id
  eventId := event.eventId
  bodyFingerprint := event.bodyFingerprint
  step := event.step
  eventType := event.type

/-- An event that has no receipt. -/
def handleEvent (event : IvrEvent) (reads : IvrReads) (rows : IvrRows) : IvrTransaction :=
  if event.step ≠ rows.run.step ∨ rows.run.phase.terminal then return (rows, .ignored)
  else do
    Attempt.check
      ((rows.receipts.filter fun receipt => receipt.runId = rows.run.id).length < 32 || event.type = .disconnected)
      .telephonyIvrEventCapacity
    let rows := { rows with receipts := receiptOf event rows.run :: rows.receipts }
    if event.type = .disconnected then failCall rows .ivrCallerDisconnected reads.clock.stamped
    else
      match transition rows.run event reads.clock.handled with
      | none => .rollback .raised
      | some (.applied changed) => do
        let run ← updateRun changed
        return ({ rows with run := run }, .applied)
      | some _ => return (rows, .ignored)

def eventTransaction (event : IvrEvent) (reads : IvrReads) (rows : IvrRows) : IvrTransaction :=
  runTransaction reads rows fun rows => do
    Attempt.check (exactEvent event rows.call rows.run reads.clock.checked) .invalidProviderEvent
    match rows.receipts.find? fun receipt => receipt.eventId = event.eventId with
    | some existing =>
      Attempt.check (existing.runId = rows.run.id && existing.bodyFingerprint = event.bodyFingerprint) .eventConflict
      return (rows, .duplicate)
    | none => handleEvent event reads rows

def advance (reads : IvrReads) (rows : IvrRows) : IvrTransaction :=
  runTransaction reads rows (advanceLocked fingerprint reads)

/-- The first transaction of `execute_claim`. -/
def consumeClaim (claim : IvrEffectClaim) (reads : IvrReads) (rows : IvrRows) : IvrTransaction :=
  runTransaction reads rows fun rows => do
    Attempt.check (matchingClaim fingerprint rows.run claim && rows.run.effectStartedAt = none)
      .telephonyIvrClaimConsumed
    let run ← updateRun { rows.run with effectStartedAt := some reads.clock.stamped }
    return ({ rows with run := run }, .consumed)

/-- The second transaction of `execute_claim`, which issues the forward effect. -/
def forwardClaim (claim : IvrEffectClaim) (reads : IvrReads) (rows : IvrRows) : IvrTransaction :=
  runTransaction reads rows fun rows => do
    Attempt.check (matchingClaim fingerprint rows.run claim && rows.run.effectStartedAt.isSome)
      .telephonyIvrClaimConsumed
    Attempt.check reads.effectInBudget .telephonyIvrUnavailable
    let asked ← request rows.call rows.run false
    match claim.action with
    | .play =>
      let pending ← Attempt.issue (.play asked) (reads.provider.play asked)
      finishPlay rows pending
    | .destination =>
      let answer ← askDestination reads rows.run .originate asked
      finishDestination fingerprint reads rows answer
    | .connectDestination =>
      let answer ← askDestination reads rows.run .connect asked
      finishDestination fingerprint reads rows answer

end

end KComms.Telephony
