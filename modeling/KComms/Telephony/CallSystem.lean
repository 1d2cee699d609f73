import KComms.Telephony.CallChange
import KComms.Telephony.IvrCommit
import KComms.Telephony.Routing

/-!
# The table of calls (`Telephony`)

All transactions that start or change calls, on one table: outbound starts, the events of the provider, which start the
inbound calls, the transactions on one call, and those of the menus.  What a transaction checks about other calls is
read from the table.  The table has a unique index on the calls of a user; it is left out here, since it could only
roll transactions back, and the checks alone keep what it says.
-/

namespace KComms.Telephony

/-- What a new call is given. -/
structure NewCall where
  id : String
  runId : String
  now : Int
  ringSeconds : Int
  deriving DecidableEq, Repr

structure CallSystem where
  calls : List CallRecord
  receipts : List IvrEventReceipt
  /-- The ids of the events that are recorded. -/
  events : List String
  /-- The hashes of the rooms that have ended before their call was there, with their expiry. -/
  tombstones : List (String × Int)

inductive IvrWork
  | event (event : IvrEvent)
  | advance
  | consume (claim : IvrEffectClaim)
  | forward (claim : IvrEffectClaim)

inductive CallMove
  | startOutbound (grant : Grant) (destination key : String) (new : NewCall) (reads : RoutingReads)
  | callback (event : ProviderEvent) (eventReads : EventReads) (new : NewCall) (reads : RoutingReads)
  | command (id : String) (command : CallCommand) (reads : RoutingReads)
  | ivr (runId : String) (work : IvrWork) (ivrReads : IvrReads) (reads : RoutingReads)

/-! ### New calls -/

def appIdentity (id deviceId : String) : String := "kc_tel_app_" ++ compact id ++ "_" ++ compact deviceId

/-- The row that `insert_call!` inserts, with the defaults of the schema. -/
def insertedCall (number : Number) (id userId : String) (direction : Direction) (toNumber providerRoom providerIdentity :
    String) (startedAt expiresAt : Int) : Call where
  id := id
  tenantId := number.tenantId
  numberId := number.id
  userId := userId
  direction := direction
  status := .ringing
  toNumber := toNumber
  inboundTrunkId := number.inboundTrunkId
  outboundTrunkId := number.outboundTrunkId
  providerRoom := providerRoom
  providerIdentity := providerIdentity
  providerCallId := none
  idempotencyKey := none
  answerSessionId := none
  answerDeviceId := none
  appIdentity := none
  appConnectedAt := none
  appReconnectDeadline := none
  appProviderSid := none
  appLeftSid := none
  appEventAt := none
  appPendingSid := none
  appPendingAt := none
  dispatchStatus := .pending
  dispatchClaimedAt := none
  cleanupClaimedAt := none
  cleanupCompletedAt := none
  startedAt := startedAt
  answeredAt := none
  endedAt := none
  expiresAt := expiresAt
  endReason := none
  routeId := none
  routingStatus := .individual
  offeredUserIds := []
  routeExpiresAt := none
  controlState := .connected
  pbxState := []

def outboundCall (number : Number) (grant : Grant) (destination key : String) (new : NewCall) : Call :=
  let expiresAt := earliestExpiry (new.now + seconds new.ringSeconds) grant.effectiveExpiresAt
  { insertedCall number new.id grant.userId .outbound destination ("kc_tel_" ++ compact new.id)
      ("kc_tel_sip_" ++ compact new.id) new.now expiresAt with
    idempotencyKey := some key
    answerSessionId := some grant.sessionId
    answerDeviceId := some grant.deviceId
    appIdentity := some (appIdentity new.id grant.deviceId) }

/-- `Ivr.admission`: no menu takes the call, or one does, and has room for it or not. -/
def ivrAdmission (tenantOf : String → String) (reads : RoutingReads) (calls : List CallRecord) (number : Number) :
    Option (Option Snapshot) :=
  (reads.menus.find? fun menu => menu.numberId = number.id && menu.enabled).map fun menu =>
    let running := calls.filter fun record =>
      record.ivr.any fun run => run.tenantId = number.tenantId && !run.phase.terminal
    if 100 ≤ running.length ∨ !reads.active tenantOf number.tenantId number.userId ∨ !reads.ivrReady ∨
        !reads.approvedPrompt menu.snapshot.promptMedia then none
    else some menu.snapshot

def ivrRouting (number : Number) (menu : Option Snapshot) : RoutingAdmission where
  userId := number.userId
  routeId := none
  routingStatus := .ivr
  offeredUserIds := []
  routeExpiresAt := none
  eligible := menu.isSome

def initialStatus (event : ProviderEvent) (eligible roomEnded busy : Bool) : CallStatus :=
  if !eligible then .failed
  else if roomEnded then .noAnswer
  else if event.eventType = .participantLeft then .noAnswer
  else if event.eventType = .participantConnectionAborted then .failed
  else if busy then .busy
  else .ringing

def inboundCall (number : Number) (event : ProviderEvent) (identity : String) (routing : RoutingAdmission)
    (status : CallStatus) (new : NewCall) : Call :=
  let expiresAt :=
    if routing.routingStatus = .waiting then routing.routeExpiresAt.getD new.now
    else new.now + seconds new.ringSeconds
  { insertedCall number new.id routing.userId .inbound number.phoneNumber event.room identity new.now expiresAt with
    routeId := routing.routeId
    routingStatus := routing.routingStatus
    offeredUserIds := routing.offeredUserIds
    routeExpiresAt := routing.routeExpiresAt
    providerCallId := event.providerCallId
    status := status
    endedAt := if status.active then none else some new.now
    endReason := if status.active then none else some ("initial_" ++ status.text) }

section

variable (tenantOf : String → String)

/-- The tenant and the user of a row are those of one user. -/
def ownedRow (record : CallRecord) : Option CallRecord :=
  if tenantOf record.call.userId = record.call.tenantId then some record else none

/-- Two rows that the primary key or a unique index keeps apart. -/
def conflicts (call call' : Call) : Bool :=
  call.id = call'.id || call.providerRoom = call'.providerRoom ||
    (call.idempotencyKey.isSome && call.idempotencyKey = call'.idempotencyKey && call.tenantId = call'.tenantId &&
      call.userId = call'.userId)

def insertCall (record : CallRecord) (calls : List CallRecord) : Option (List CallRecord) :=
  if calls.any fun other => conflicts record.call other.call then none
  else (ownedRow tenantOf record).map (· :: calls)

/-! ### Transactions -/

def effectiveNumber (reads : RoutingReads) (grant : Grant) : Option Number :=
  (reads.numbers.find? fun number => number.tenantId = grant.tenantId).filter fun number =>
    number.userId = grant.userId ||
      (reads.routes.find? fun route => route.numberId = number.id && route.enabled).any fun route =>
        route.memberIds.contains grant.userId

def startOutbound (reads : RoutingReads) (grant : Grant) (destination key : String) (new : NewCall)
    (calls : List CallRecord) : Option (List CallRecord) :=
  if !reads.allowAudioCalls || !reads.active tenantOf grant.tenantId grant.userId then none
  else
    match effectiveNumber reads grant with
    | none => none
    | some number =>
      let replay := calls.find? fun record =>
        record.call.tenantId = grant.tenantId && record.call.userId = grant.userId &&
          record.call.idempotencyKey = some key
      match replay with
      | some record => if record.call.toNumber = destination then some calls else none
      | none =>
        if activeUserCall calls grant.tenantId grant.userId then none
        else insertCall tenantOf { call := outboundCall number grant destination key new, ivr := none } calls

/-- `inbound!`, up to the insertion. -/
def inbound (reads : RoutingReads) (roomEnded : Bool) (event : ProviderEvent) (new : NewCall)
    (calls : List CallRecord) : Option CallRecord :=
  if (event.eventType ≠ .participantJoined ∧ event.eventType ≠ .participantLeft ∧
      event.eventType ≠ .participantConnectionAborted) ∨ !event.sipParticipant ∨
      !event.room.startsWith "kc_tel_inbound_" then none
  else
    let number := reads.numbers.find? fun number =>
      event.toNumber = some number.phoneNumber && event.trunkId = some number.inboundTrunkId
    match number, event.participantIdentity with
    | some number, some identity =>
      let menu := ivrAdmission tenantOf reads calls number
      let routing := menu.elim (admission tenantOf reads calls number) (ivrRouting number)
      let callers := calls.filter fun record =>
        record.call.tenantId = number.tenantId && record.call.direction = .inbound && record.call.active
      let eligible := reads.allowAudioCalls && routing.eligible && callers.length < 100 && event.admissionEnabled
      let busy := routing.routingStatus ≠ .waiting && routing.routingStatus ≠ .ivr &&
        activeUserCall calls number.tenantId routing.userId
      let call := inboundCall number event identity routing (initialStatus event eligible roomEnded busy) new
      some
        { call := call
          ivr := if call.status = .ringing then menu.join.map fun menu => reserve call new.runId menu new.now else none }
    | _, _ => none

/-- What a transaction reads about its user, its route and the other calls. -/
def CallCommand.reading (reads : RoutingReads) (calls : List CallRecord) (call : Call) : CallCommand → CallCommand
  | .credential operation grant _ callReads _ _ issued =>
    .credential operation grant (appIdentity call.id grant.deviceId) callReads
      (eligibleRecipient tenantOf reads call grant) (activeUserCall calls grant.tenantId grant.userId) issued
  | .offer _ ready now =>
    match call.routeId.bind fun routeId => reads.routes.find? (·.id = routeId) with
    | none => .offer none false now
    | some route =>
      .offer (selectCandidate tenantOf reads calls route call)
        (ready && reads.allowAudioCalls && route.enabled && reads.queues) now
  | command => command

/-- A transaction on the row of one call. -/
def changeCall (reads : RoutingReads) (calls : List CallRecord) (command : CallCommand) (record : CallRecord) :
    Option (CallRecord × Unit) :=
  ((command.reading tenantOf reads calls record.call).apply record).bind fun record' =>
    (ownedRow tenantOf record').map (·, ())

def IvrWork.transaction (fingerprint : String → String) (reads : IvrReads) (rows : IvrRows) : IvrWork → IvrTransaction
  | .event received => eventTransaction received reads rows
  | .advance => Telephony.advance fingerprint reads rows
  | .consume claim => consumeClaim fingerprint claim reads rows
  | .forward claim => forwardClaim fingerprint claim reads rows

/-- A transaction on the row of a call and its run. -/
def changeRun (fingerprint : String → String) (reads : RoutingReads) (ivrReads : IvrReads) (work : IvrWork)
    (calls : List CallRecord) (receipts : List IvrEventReceipt) (record : CallRecord) :
    Option (CallRecord × List IvrEventReceipt) :=
  let number := reads.numbers.find? fun number =>
    number.id = record.call.numberId && number.tenantId = record.call.tenantId
  match record.ivr, number with
  | some run, some number =>
    let ivrReads := { ivrReads with routing := admission tenantOf reads calls number }
    match (work.transaction fingerprint ivrReads ⟨record.call, run, receipts⟩).outcome with
    | .ok (rows, _) => (ownedRow tenantOf { call := rows.call, ivr := some rows.run }).map (·, rows.receipts)
    | .error _ => none
  | _, _ => none

/-- `tombstone_room!` -/
def tombstoneRoom (hash : String) (now : Int) (tombstones : List (String × Int)) : Option (List (String × Int)) :=
  let kept := tombstones.filter fun tombstone => now < tombstone.2
  if kept.any (·.1 = hash) then some kept
  else if 10000 ≤ kept.length then none
  else some ((hash, now + seconds 86400) :: kept)

/-- `room_ended?` -/
def roomEnded (hash : String) (now : Int) (tombstones : List (String × Int)) : Bool :=
  tombstones.any fun tombstone => tombstone.1 = hash && now < tombstone.2

/-- `callback`; the row of a new call is inserted before its first event is handled, in the same transaction. -/
def CallSystem.callback (fingerprint : String → String) (system : CallSystem) (event : ProviderEvent)
    (eventReads : EventReads) (new : NewCall) (reads : RoutingReads) : Option CallSystem :=
  if system.events.contains event.eventId then none
  else if system.calls.any (·.call.providerRoom = event.room) then
    (updateRow (·.call.providerRoom) event.room
      (changeCall tenantOf reads system.calls (.callback { eventReads with seen := false } event)) system.calls).map
        fun changed => { system with calls := changed.1, events := event.eventId :: system.events }
  else if event.eventType = .roomFinished && event.room.startsWith "kc_tel_inbound_" then
    (tombstoneRoom (fingerprint event.room) new.now system.tombstones).map
      fun tombstones => { system with tombstones := tombstones }
  else do
    let ended := roomEnded (fingerprint event.room) new.now system.tombstones
    let record ← inbound tenantOf reads ended event new system.calls
    let record ← Telephony.callback { eventReads with seen := false, authorized := true } event record
    let calls ← insertCall tenantOf record system.calls
    return { system with calls := calls, events := event.eventId :: system.events }

def CallMove.apply (fingerprint : String → String) (system : CallSystem) : CallMove → Option CallSystem
  | .startOutbound grant destination key new reads =>
    (Telephony.startOutbound tenantOf reads grant destination key new system.calls).map fun calls =>
      { system with calls := calls }
  | .callback event eventReads new reads => system.callback tenantOf fingerprint event eventReads new reads
  | .command id asked reads =>
    (updateRow (·.call.id) id (changeCall tenantOf reads system.calls asked) system.calls).map fun changed =>
      { system with calls := changed.1 }
  | .ivr runId work ivrReads reads =>
    (updateRow (·.ivr.map IvrRun.id) (some runId)
      (changeRun tenantOf fingerprint reads ivrReads work system.calls system.receipts) system.calls).map
        fun changed => { system with calls := changed.1, receipts := changed.2 }

/-- A transaction that rolls back changes nothing. -/
def CallSystem.step (fingerprint : String → String) (system : CallSystem) (move : CallMove) : CallSystem :=
  (move.apply tenantOf fingerprint system).getD system

def CallSystem.run (fingerprint : String → String) (system : CallSystem) (moves : List CallMove) : CallSystem :=
  moves.foldl (CallSystem.step tenantOf fingerprint) system

end

def CallSystem.start : CallSystem where
  calls := []
  receipts := []
  events := []
  tombstones := []

end KComms.Telephony
