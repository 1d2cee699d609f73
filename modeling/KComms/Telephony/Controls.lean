import KComms.Lib.EffectTransaction
import KComms.Lib.ElixirString
import KComms.Telephony.Lifecycle

/-!
# The control commands of a call (`Telephony.Controls`)

A user asks for a command, and workers carry it out: a worker claims it, binds the handles of the PBX, and completes
it, which calls the provider.  Each of these is a transaction of its own, and reads the command twice: first without a
lock, and, when it has found out whether the access still holds, again with the lock of the call and its own.
-/

namespace KComms.Telephony

open Attempt

inductive ControlAction
  | dtmf | blindTransfer | hold | resume | consultTransfer | completeTransfer | cancelTransfer | voicemail
  deriving DecidableEq, Repr

inductive ControlStatus
  | pending | dispatching | submitted | failed | unknown
  deriving DecidableEq, Repr

/-- A command of the call. -/
structure ControlCommand where
  id : String
  userId : String
  sessionId : Option String
  deviceId : Option String
  action : ControlAction
  status : ControlStatus
  idempotencyKey : String
  payloadHash : String
  destination : Option String
  claimedAt : Option Int
  completedAt : Option Int
  expiresAt : Int
  failureReason : Option String
  noticeCompletedAt : Option Int
  deriving DecidableEq, Repr

/-- A call and its commands. -/
structure ControlRows where
  record : CallRecord
  commands : List ControlCommand
  deriving DecidableEq, Repr

def ControlStatus.unresolved (status : ControlStatus) : Bool :=
  status = .pending || status = .dispatching || status = .unknown

/-- The commands that keep a new one from being admitted. -/
def ControlCommand.blocking (command : ControlCommand) : Bool :=
  command.status.unresolved && command.action ≠ .dtmf

def ControlAction.transfers (action : ControlAction) : Bool :=
  action = .blindTransfer || action = .consultTransfer

def updateCommand (id : String) (change : ControlCommand → ControlCommand) (commands : List ControlCommand) :
    List ControlCommand :=
  commands.map fun command => if command.id = id then change command else command

/-- The id is the primary key, and the idempotency key is unique for the call. -/
def insertCommand (command : ControlCommand) (commands : List ControlCommand) : Option (List ControlCommand) :=
  if commands.any fun other => other.id = command.id || other.idempotencyKey = command.idempotencyKey then none
  else some (command :: commands)

def findCommand (id : String) (commands : List ControlCommand) : Option ControlCommand :=
  commands.find? (·.id = id)

/-! ### Requests of users -/

/-- What a transaction reads besides its rows: the clock, whether the provider supports the action, whether it takes the
destination, whether the policy of the mailboxes takes a capture, and the deadline of its recording. -/
structure ControlReads where
  now : Int
  supported : Bool
  destinationAllowed : Bool
  captureAllowed : Bool
  recordingDeadline : Int

/-- A request with the HMAC of its action and payload, if the key of the fingerprints is configured. -/
structure ControlAsk where
  id : String
  action : ControlAction
  key : String
  payload : String
  hash : Option String

/-- The regular expressions of `payload`; a final newline is not seen by them. -/
def validPayload (action : ControlAction) (payload : String) : Bool :=
  let text := if payload.toList.getLast? = some '\n' then payload.toList.dropLast else payload.toList
  match action with
  | .dtmf => text.length = 1 && text.all "0123456789*#ABCD".toList.contains
  | .blindTransfer | .consultTransfer =>
    match text with
    | '+' :: first :: digits =>
      first.isDigit && first ≠ '0' && 7 ≤ digits.length && digits.length ≤ 14 && digits.all Char.isDigit
    | _ => false
  | _ => payload = ""

/-- `key` -/
def validKey (key : String) : Bool :=
  0 < key.utf8ByteSize && key.utf8ByteSize ≤ 128 && ElixirString.trim key ≠ ""

/-- `own_call!` and `require_owner!` -/
def ownsControl (call : Call) (grant : Grant) : Bool :=
  call.tenantId = grant.tenantId && call.userId = grant.userId && call.answerSessionId = some grant.sessionId &&
    call.answerDeviceId = some grant.deviceId

/-- `require_state!` -/
def validState (call : Call) (commands : List ControlCommand) : ControlAction → Bool
  | .hold => call.controlState = .connected
  | .resume => call.controlState = .held
  | .consultTransfer => call.controlState = .connected || call.controlState = .held
  | .completeTransfer => call.controlState = .consulting
  | .cancelTransfer =>
    call.controlState = .consulting || (call.pbxState ≠ [] && commands.any fun command =>
      command.action = .consultTransfer && command.status = .unknown && command.claimedAt ≠ none)
  | .voicemail => call.direction = .inbound && (call.controlState = .connected || call.controlState = .held)
  | .dtmf => call.controlState = .connected || call.controlState = .consulting
  | .blindTransfer => call.controlState = .connected

/-- The commands after the check of the unresolved ones: only a consultation whose outcome is unknown is superseded, by
its cancellation. -/
def admitCommand (grant : Grant) (call : Call) (action : ControlAction) (now : Int) (commands : List ControlCommand) :
    Option (List ControlCommand) :=
  match commands.filter ControlCommand.blocking with
  | [] => some commands
  | [previous] =>
    if action = .cancelTransfer ∧ previous.action = .consultTransfer ∧ previous.status = .unknown ∧
        previous.claimedAt ≠ none ∧ previous.sessionId = some grant.sessionId ∧
          previous.deviceId = some grant.deviceId ∧ previous.userId = grant.userId ∧ call.pbxState ≠ [] then
      some (updateCommand previous.id (fun command =>
        { command with
          status := .failed, completedAt := some now, failureReason := some "superseded_by_cancel" }) commands)
    else none
  | _ => none

def requestedCommand (grant : Grant) (asked : ControlAsk) (hash : String) (now : Int) : ControlCommand where
  id := asked.id
  userId := grant.userId
  sessionId := some grant.sessionId
  deviceId := some grant.deviceId
  action := asked.action
  status := if asked.action = .dtmf then .dispatching else .pending
  idempotencyKey := asked.key
  payloadHash := hash
  destination := if asked.action.transfers then some asked.payload else none
  claimedAt := if asked.action = .dtmf then some now else none
  completedAt := none
  expiresAt := now + seconds 60
  failureReason := none
  noticeCompletedAt := none

/-- `request`, for a grant that is locked. -/
def requestControl (grant : Grant) (asked : ControlAsk) (reads : ControlReads) (rows : ControlRows) :
    Option ControlRows :=
  let call := rows.record.call
  if !validKey asked.key || !validPayload asked.action asked.payload then none
  else if asked.action = .voicemail && !reads.captureAllowed then none
  else if !ownsControl call grant then none
  else
    match asked.hash, rows.commands.find? (·.idempotencyKey = asked.key) with
    | none, _ => none
    | some hash, some previous =>
      if previous.payloadHash ≠ hash || previous.action ≠ asked.action then none else some rows
    | some hash, none =>
      if call.status ≠ .answered || call.expiresAt ≤ reads.now then none
      else if !reads.supported then none
      else if !validState call rows.commands asked.action then none
      else if asked.action.transfers && !reads.destinationAllowed then none
      else if 500 ≤ rows.commands.length then none
      else
        (admitCommand grant call asked.action reads.now rows.commands).bind fun commands =>
          (insertCommand (requestedCommand grant asked hash reads.now) commands).map fun commands =>
            { record :=
                if asked.action = .voicemail then captureMonitor reads.recordingDeadline rows.record else rows.record
              commands := commands }

/-- `complete_browser`; `submitted` is whether the browser reports so, or an unknown outcome. -/
def completeBrowser (grant : Grant) (id : String) (submitted : Bool) (now : Int) (rows : ControlRows) :
    Option ControlRows :=
  if !ownsControl rows.record.call grant then none
  else
    match findCommand id rows.commands with
    | none => none
    | some command =>
      if command.action ≠ .dtmf || command.sessionId ≠ some grant.sessionId ||
          command.deviceId ≠ some grant.deviceId then none
      else if command.status = .pending then none
      else if command.status ≠ .dispatching then some rows
      else
        let completed :=
          if command.expiresAt ≤ now then
            { command with
              status := .unknown, completedAt := some now, failureReason := some "submission_deadline" }
          else if submitted then
            { command with status := .submitted, completedAt := some now, failureReason := none }
          else
            { command with
              status := .unknown, completedAt := some now, failureReason := some "sdk_outcome_unknown" }
        some { rows with commands := updateCommand id (fun _ => completed) rows.commands }

def reconcileControl (grant : Grant) (id : String) (reads : ControlReads) (rows : ControlRows) : Option ControlRows :=
  if !ownsControl rows.record.call grant then none
  else
    match findCommand id rows.commands with
    | none => none
    | some command =>
      if command.action = .voicemail && !reads.captureAllowed then none
      else if command.sessionId ≠ some grant.sessionId || command.deviceId ≠ some grant.deviceId then none
      else if command.action = .dtmf || command.action = .blindTransfer || command.status ≠ .unknown ||
          rows.record.call.status ≠ .answered then none
      else
        let reopened :=
          { command with
            status := .dispatching
            completedAt := none
            failureReason := none
            expiresAt := reads.now + seconds 60 }
        some { rows with commands := updateCommand id (fun _ => reopened) rows.commands }

/-! ### Voicemails of the system -/

/-- A voicemail command without a user's session. -/
def systemVoicemailCommand (id userId key hash : String) (expiresAt : Int) : ControlCommand where
  id := id
  userId := userId
  sessionId := none
  deviceId := none
  action := .voicemail
  status := .pending
  idempotencyKey := key
  payloadHash := hash
  destination := none
  claimedAt := none
  completedAt := none
  expiresAt := expiresAt
  failureReason := none
  noticeCompletedAt := none

/-- `queue_voicemail`, with its command; the row of the voicemail has the user and the deadline. -/
def queueVoicemailCommand (id userId hash : String) (reads : ControlReads) (rows : ControlRows) : Option ControlRows :=
  let key := "queue-voicemail:" ++ rows.record.call.id
  let queued := rows.commands.any (·.idempotencyKey = key)
  if rows.record.call.routeId = none || !reads.captureAllowed then none
  else
    (queueVoicemail userId reads.recordingDeadline reads.now queued rows.record).bind fun record =>
      if queued then some { rows with record := record }
      else
        let expiresAt := record.originalDeadline.elim (reads.now + seconds 60) fun _ =>
          min (reads.now + seconds 60) record.call.expiresAt
        (insertCommand (systemVoicemailCommand id userId key hash expiresAt) rows.commands).map fun commands =>
          { record := record, commands := commands }

/-- `provider_event`, for a verified event of the notice. -/
def noticeCompleted (now : Int) (rows : ControlRows) : Option ControlRows :=
  match rows.commands.find? fun command => command.action = .voicemail && command.status = .dispatching with
  | none => none
  | some command =>
    some
      { rows with
        commands := updateCommand command.id (fun command =>
          { command with noticeCompletedAt := some (command.noticeCompletedAt.getD now) }) rows.commands }

/-! ### The transactions of the worker -/

/-- What a transaction of the worker has found before it locks the call: the status of the command then, and whether
the access of the command still holds. -/
structure WorkerStart where
  id : String
  snapshot : ControlStatus
  authorized : Bool
  deriving DecidableEq, Repr

/-- A call of the provider port. -/
structure ControlExecution where
  id : String
  action : ControlAction
  reconcile : Bool
  deriving DecidableEq, Repr

abbrev ControlTransaction := Attempt ControlExecution Unit

/-- A transaction that finds the access revoked, for a command that was not resolved. -/
def WorkerStart.revoked (start : WorkerStart) : Bool :=
  !start.authorized && (start.snapshot = .pending || start.snapshot = .dispatching)

def revokeCommand (now : Int) (command : ControlCommand) : ControlCommand :=
  { command with status := .failed, completedAt := some now, failureReason := some "access_revoked" }

/-- `worker`, from the lock of the call on. -/
def workerTransaction {α : Type} (start : WorkerStart) (now : Int)
    (transaction : ControlCommand → ControlRows → ControlTransaction (ControlRows × α)) (rows : ControlRows) :
    ControlTransaction (ControlRows × α) :=
  let commands := if start.revoked then updateCommand start.id (revokeCommand now) rows.commands else rows.commands
  match findCommand start.id commands with
  | none => rollback ()
  | some command => transaction command { rows with commands := commands }

def systemVoicemail (command : ControlCommand) (call : Call) : Bool :=
  command.action = .voicemail && command.sessionId = none && command.deviceId = none &&
    call.routingStatus = .voicemail && call.direction = .inbound

def ControlRows.put (rows : ControlRows) (command : ControlCommand) : ControlRows :=
  { rows with commands := updateCommand command.id (fun _ => command) rows.commands }

inductive ClaimResult
  | request (reconcile : Bool) | alreadyClaimed | alreadyComplete
  deriving DecidableEq, Repr

def claimControl (reads : ControlReads) (command : ControlCommand) (rows : ControlRows) :
    ControlTransaction (ControlRows × ClaimResult) :=
  let call := rows.record.call
  let unavailable := call.status ≠ .answered && !systemVoicemail command call
  let resolved (status : ControlStatus) (reason : String) : ControlRows :=
    rows.put { command with status := status, completedAt := some reads.now, failureReason := some reason }
  if command.status = .dispatching && command.action = .blindTransfer then
    pure (resolved .unknown "worker_restarted_after_claim", .alreadyClaimed)
  else if command.status = .dispatching && command.expiresAt ≤ reads.now then
    pure (resolved .unknown "control_authorization_expired", .alreadyComplete)
  else if command.status = .dispatching then
    if unavailable then rollback () else pure (rows, .request true)
  else if command.status ≠ .pending then pure (rows, .alreadyComplete)
  else if unavailable || call.expiresAt ≤ reads.now || command.expiresAt ≤ reads.now then
    pure (resolved .failed "call_unavailable", .alreadyComplete)
  else if !reads.supported then pure (resolved .failed "capability_revoked", .alreadyComplete)
  else if command.action.transfers && !reads.destinationAllowed then rollback ()
  else pure (rows.put { command with status := .dispatching, claimedAt := some reads.now }, .request false)

def bindingNames (command : ControlCommand) (call : Call) : List String :=
  if systemVoicemail command call then ["external", "mixing", "holding", "consult", "recording"]
  else ["external", "app", "mixing", "holding", "consult", "recording"]

def safeBinding (binding : String) : Bool :=
  let text := if binding.toList.getLast? = some '\n' then binding.toList.dropLast else binding.toList
  0 < text.length && text.length ≤ 200 && text.all fun c => c.isAlphanum || c = '_' || c = '.' || c = ':' || c = '-'

def bindCommand (bindings : Bindings) (command : ControlCommand) (rows : ControlRows) : ControlTransaction (ControlRows × Unit) :=
  let call := rows.record.call
  if command.status ≠ .dispatching then rollback ()
  else if !(bindingNames command call).all fun name => (bindings.get name).any safeBinding then rollback ()
  else if call.pbxState ≠ [] && call.pbxState ≠ bindings then rollback ()
  else pure ({ rows with record := bindControl none bindings rows.record }, ())

inductive ControlRefusal
  | unsupported | destinationForbidden | invalidCommand
  deriving DecidableEq, Repr

def ControlRefusal.text : ControlRefusal → String
  | .unsupported => "telephony_control_unsupported"
  | .destinationForbidden => "telephony_destination_forbidden"
  | .invalidCommand => "invalid_telephony_command"

/-- The answer of the provider. -/
inductive ControlOutcome
  | controlled (controlState : ControlState) (pbxState : Bindings)
  | submitted
  | consultationPending | noticePending
  | refused (reason : ControlRefusal)
  | other
  deriving DecidableEq, Repr

/-- `finish_control!` -/
def finishControl (now : Int) (outcome : ControlOutcome) (command : ControlCommand) (rows : ControlRows) : ControlRows :=
  match outcome with
  | .controlled controlState pbxState =>
    { rows.put { command with status := .submitted, completedAt := some now } with
      record := bindControl (some controlState) pbxState rows.record }
  | .submitted => rows.put { command with status := .submitted, completedAt := some now }
  | .refused reason =>
    rows.put { command with status := .failed, completedAt := some now, failureReason := some reason.text }
  | _ =>
    rows.put
      { command with status := .unknown, completedAt := some now, failureReason := some "provider_outcome_unknown" }

/-- What the completing transaction reads: the clock, and at the boundary of the effect the clock again, whether the
capture is allowed, whether the access still holds, and whether the time left suffices. -/
structure CompleteReads where
  now : Int
  later : Int
  captureAllowed : Bool
  authorized : Bool
  inBudget : Bool
  outcome : ControlOutcome

/-- `complete`, for `{:execute, reconcile}`; the result is whether the job is to come back. -/
def completeControl (reconcile : Bool) (reads : CompleteReads) (command : ControlCommand) (rows : ControlRows) :
    ControlTransaction (ControlRows × Bool) :=
  let call := rows.record.call
  if command.status ≠ .dispatching then pure (rows, false)
  else if (call.status ≠ .answered && !systemVoicemail command call) || call.expiresAt ≤ reads.now then
    pure
      (rows.put
        { command with status := .failed, completedAt := some reads.now, failureReason := some "call_unavailable" },
        false)
  else if command.expiresAt ≤ reads.now then
    pure
      (rows.put
        { command with
          status := .unknown, completedAt := some reads.now, failureReason := some "control_authorization_expired" },
        false)
  else do
    check (command.action ≠ .voicemail || reads.captureAllowed) ()
    check (reads.later < command.expiresAt && reads.later < call.expiresAt && reads.authorized) ()
    check reads.inBudget ()
    let outcome ← issue ⟨command.id, command.action, reconcile⟩ reads.outcome
    if outcome = .consultationPending || outcome = .noticePending then pure (rows, true)
    else pure (finishControl reads.later outcome command rows, false)

end KComms.Telephony
