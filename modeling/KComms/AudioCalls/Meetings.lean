import KComms.AudioCalls.MeetingSchedule
import KComms.Lib.EffectTransaction
import KComms.Lib.KeyedTable
import KComms.Rooms.EphemeralRoom

/-!
# Meetings (`AudioCalls.Meetings`)

A meeting has occurrences, which are written for one version of the meeting: an update cancels those of the current
version and writes new ones, and a cancellation takes the current ones with it to its own version.
-/

namespace KComms.AudioCalls

open Attempt
open KComms.Rooms (MembershipRole)

inductive MeetingStatus
  | scheduled | cancelled
  deriving DecidableEq, Repr

structure Meeting where
  id : String
  conversationId : String
  hostUserId : String
  schedule : Schedule
  status : MeetingStatus
  version : Nat
  authorUserIds : List String
  deriving DecidableEq, Repr

structure MeetingOccurrence where
  id : String
  callId : Option String
  sequence : Nat
  meetingVersion : Nat
  startsAt : Int
  endsAt : Int
  reminderAt : Int
  reminderSentAt : Option Int
  status : MeetingStatus
  deriving DecidableEq, Repr

structure ReminderJob where
  occurrenceId : String
  version : Nat
  scheduledAt : Int
  deriving DecidableEq, Repr

inductive MeetingEvent
  | scheduled (version : Nat)
  | updated (version : Nat)
  | cancelled (version : Nat)
  | reminder (version : Nat) (occurrenceId : String) (startsAt : Int)
  deriving DecidableEq, Repr

/-- One meeting with its occurrences of all versions, the jobs and the events. -/
structure MeetingScope where
  meeting : Meeting
  occurrences : KeyedTable MeetingOccurrence.id
  jobs : List ReminderJob
  events : List MeetingEvent

abbrev MeetingTransaction (α : Type) := Attempt Empty MeetingError α

/-- The access of the subject to the conversation, as it is locked. -/
structure CallAccess where
  userId : String
  membershipRole : MembershipRole
  allowAudioCalls : Bool
  allowVideoCalls : Bool
  deriving DecidableEq, Repr

/-- Facts from outside of the rows: that the subject is a user of the workspace who may see the meeting, that no erasure
forbids the write, and that the rows are valid and recorded; and the clock. -/
structure MeetingFacts where
  human : Bool
  accessible : Bool
  guarded : Bool
  access : Option CallAccess
  valid : Bool
  observedAt : Int
  now : Int
  deriving DecidableEq, Repr

/-- `access!` -/
def lockAccess (facts : MeetingFacts) : MeetingTransaction CallAccess :=
  match facts.access with
  | none => rollback .forbidden
  | some access => do
    check (access.allowAudioCalls || access.allowVideoCalls) .audioCallsDisabled
    pure access

/-- `occurrence_query` -/
def occurrenceQuery (scope : MeetingScope) : List MeetingOccurrence :=
  scope.occurrences.rows.filter fun occurrence => occurrence.meetingVersion = scope.meeting.version

/-! ### Creation -/

def newOccurrence (version : Nat) (newId : Nat → String) (index : Nat) (time : ScheduledTime) : MeetingOccurrence where
  id := newId (index + 1)
  callId := none
  sequence := index + 1
  meetingVersion := version
  startsAt := time.startsAt
  endsAt := time.endsAt
  reminderAt := time.reminderAt
  reminderSentAt := none
  status := .scheduled

def reminderJob (version : Nat) (newId : Nat → String) (now : Int) (index : Nat) (time : ScheduledTime) :
    ReminderJob where
  occurrenceId := newId (index + 1)
  version := version
  scheduledAt := if time.reminderAt < now then now else time.reminderAt

/-- `materialize!` -/
def materialize (facts : MeetingFacts) (newId : Nat → String) (times : List ScheduledTime) (scope : MeetingScope) :
    MeetingTransaction MeetingScope :=
  match scope.occurrences.insertAll (times.mapIdx (newOccurrence scope.meeting.version newId)) with
  | none => rollback .invalidMeeting
  | some occurrences =>
    pure { scope with
      occurrences := occurrences
      jobs := scope.jobs ++ times.mapIdx (reminderJob scope.meeting.version newId facts.now) }

/-- `record!` -/
def record (facts : MeetingFacts) (event : MeetingEvent) (scope : MeetingScope) : MeetingTransaction MeetingScope := do
  check facts.valid .invalidMeeting
  pure { scope with events := scope.events ++ [event] }

def newMeeting (meetingId conversationId userId : String) (schedule : Schedule) : Meeting where
  id := meetingId
  conversationId := conversationId
  hostUserId := userId
  schedule := schedule
  status := .scheduled
  version := 1
  authorUserIds := [userId]

/-- `create` -/
def create (runtime : Runtime) (facts : MeetingFacts) (meetingId conversationId : String) (attrs : MeetingAttrs)
    (newId : Nat → String) : MeetingTransaction MeetingScope := do
  check facts.human .forbidden
  let (schedule, times) ← ofExcept (validate runtime attrs facts.observedAt)
  check facts.guarded .notFound
  let access ← lockAccess facts
  let scope ← materialize facts newId times
    { meeting := newMeeting meetingId conversationId access.userId schedule, occurrences := .empty, jobs := [],
      events := [] }
  record facts (.scheduled scope.meeting.version) scope

/-! ### Changes -/

/-- `manage!` -/
def manages (meeting : Meeting) (access : CallAccess) : Bool :=
  meeting.hostUserId = access.userId || access.membershipRole = .owner || access.membershipRole = .moderator

/-- What `update` and `cancel` check first; an expected version that is absent or no version is none. -/
def requested (facts : MeetingFacts) (expectedVersion : Option Nat) : MeetingTransaction Unit := do
  check facts.human .forbidden
  check facts.accessible .notFound
  check expectedVersion.isSome .versionRequired

/-- What `update` and `cancel` check under the locks. -/
def managed (facts : MeetingFacts) (expectedVersion : Option Nat) (scope : MeetingScope) :
    MeetingTransaction CallAccess := do
  check facts.guarded .notFound
  let access ← lockAccess facts
  check (manages scope.meeting access) .forbidden
  check (expectedVersion = some scope.meeting.version) .staleVersion
  pure access

def MeetingOccurrence.cancel (occurrence : MeetingOccurrence) : MeetingOccurrence :=
  { occurrence with status := .cancelled }

@[simp] theorem MeetingOccurrence.cancel_id (occurrence : MeetingOccurrence) : occurrence.cancel.id = occurrence.id :=
  rfl

def Meeting.reschedule (meeting : Meeting) (schedule : Schedule) (userId : String) : Meeting :=
  { meeting with
    schedule := schedule
    version := meeting.version + 1
    authorUserIds := (userId :: meeting.authorUserIds).eraseDups }

/-- The rows of an updated meeting before its new occurrences. -/
def rescheduled (schedule : Schedule) (userId : String) (scope : MeetingScope) : MeetingScope :=
  { scope with
    meeting := scope.meeting.reschedule schedule userId
    occurrences := scope.occurrences.modify
      (fun occurrence => occurrence.meetingVersion = scope.meeting.version) MeetingOccurrence.cancel
      MeetingOccurrence.cancel_id }

/-- `update` -/
def update (runtime : Runtime) (facts : MeetingFacts) (expectedVersion : Option Nat) (attrs : MeetingAttrs)
    (newId : Nat → String) (scope : MeetingScope) : MeetingTransaction MeetingScope := do
  requested facts expectedVersion
  let (schedule, times) ← ofExcept (validate runtime attrs facts.observedAt)
  let access ← managed facts expectedVersion scope
  check (scope.meeting.status = .scheduled) .meetingCancelled
  check ((occurrenceQuery scope).all (·.callId.isNone)) .meetingAlreadyStarted
  let scope ← materialize facts newId times (rescheduled schedule access.userId scope)
  record facts (.updated scope.meeting.version) scope

/-- A current occurrence at the version of the cancellation. -/
def MeetingOccurrence.restamp (version : Nat) (occurrence : MeetingOccurrence) : MeetingOccurrence :=
  { occurrence with status := .cancelled, meetingVersion := version }

@[simp] theorem MeetingOccurrence.restamp_id (version : Nat) (occurrence : MeetingOccurrence) :
    (occurrence.restamp version).id = occurrence.id := rfl

/-- The rows of a cancelled meeting. -/
def cancelled (scope : MeetingScope) : MeetingScope :=
  { scope with
    meeting := { scope.meeting with status := .cancelled, version := scope.meeting.version + 1 }
    occurrences := scope.occurrences.modify
      (fun occurrence => occurrence.meetingVersion = scope.meeting.version)
      (MeetingOccurrence.restamp (scope.meeting.version + 1))
      (MeetingOccurrence.restamp_id (scope.meeting.version + 1)) }

/-- `cancel`; that the calls of the occurrences were revoked is a fact from outside. -/
def cancel (facts : MeetingFacts) (revoked : Bool) (expectedVersion : Option Nat) (scope : MeetingScope) :
    MeetingTransaction MeetingScope := do
  requested facts expectedVersion
  let _ ← managed facts expectedVersion scope
  if scope.meeting.status = .scheduled then do
    check (revoked || (occurrenceQuery scope).all (·.callId.isNone)) .callRefused
    record facts (.cancelled (cancelled scope).meeting.version) (cancelled scope)
  else pure scope

/-! ### Calls and reminders -/

/-- The call of the conversation that is open, and the call that was started or found. -/
structure StartFacts where
  activeCall : Option String
  started : Option (String × Bool)
  deriving DecidableEq, Repr

def MeetingOccurrence.join (callId : String) (occurrence : MeetingOccurrence) : MeetingOccurrence :=
  { occurrence with callId := some callId }

@[simp] theorem MeetingOccurrence.join_id (callId : String) (occurrence : MeetingOccurrence) :
    (occurrence.join callId).id = occurrence.id := rfl

/-- The call that an occurrence starts or joins. -/
def startCall (start : StartFacts) (occurrence : MeetingOccurrence) : MeetingTransaction String :=
  match start.started with
  | none => rollback .callRefused
  | some (callId, existing) => do
    check (!existing || occurrence.callId = some callId) .activeCallConflict
    check (occurrence.callId.isNone || occurrence.callId = some callId) .meetingAlreadyStarted
    pure callId

/-- `start` -/
def start (facts : MeetingFacts) (call : StartFacts) (occurrenceId : String) (scope : MeetingScope) :
    MeetingTransaction MeetingScope := do
  check facts.human .forbidden
  check facts.accessible .notFound
  check facts.guarded .notFound
  let access ← lockAccess facts
  match (occurrenceQuery scope).find? (·.id = occurrenceId) with
  | none => rollback .notFound
  | some occurrence => do
    check (scope.meeting.status = .scheduled && occurrence.status = .scheduled) .meetingCancelled
    check (diffSeconds occurrence.startsAt facts.now ≤ 900 && facts.now < occurrence.endsAt) .meetingNotJoinable
    check (occurrence.callId.isSome || access.userId = scope.meeting.hostUserId ||
      scope.meeting.schedule.hostPolicy.joinBeforeHost) .meetingHostRequired
    check (occurrence.callId.isNone || call.activeCall = occurrence.callId) .meetingAlreadyStarted
    check (call.activeCall.isNone || call.activeCall = occurrence.callId) .activeCallConflict
    let callId ← startCall call occurrence
    check facts.valid .invalidMeeting
    pure { scope with
      occurrences := scope.occurrences.update occurrenceId (MeetingOccurrence.join callId)
        (MeetingOccurrence.join_id callId) }

/-- That the caller is the worker of reminders, and that the meeting is not erased and may be read; and the readings of
the clock. -/
structure ReminderFacts where
  authorized : Bool
  erased : Bool
  readable : Bool
  first : Int
  second : Int
  third : Int
  deriving DecidableEq, Repr

inductive ReminderResult
  | ignored | alreadyDelivered | delivered
  deriving DecidableEq, Repr

def MeetingOccurrence.remind (timestamp : Int) (occurrence : MeetingOccurrence) : MeetingOccurrence :=
  { occurrence with reminderSentAt := some timestamp }

@[simp] theorem MeetingOccurrence.remind_id (timestamp : Int) (occurrence : MeetingOccurrence) :
    (occurrence.remind timestamp).id = occurrence.id := rfl

/-- The job is for this version of the meeting and of the occurrence, and both are scheduled. -/
def current (scope : MeetingScope) (occurrence : MeetingOccurrence) (version : Nat) : Bool :=
  scope.meeting.status = .scheduled && occurrence.status = .scheduled && scope.meeting.version = version &&
    occurrence.meetingVersion = version

/-- The reminder of an occurrence that is due. -/
def sendReminder (facts : ReminderFacts) (occurrence : MeetingOccurrence) (scope : MeetingScope) : MeetingScope :=
  { scope with
    occurrences := scope.occurrences.update occurrence.id (MeetingOccurrence.remind facts.third)
      (MeetingOccurrence.remind_id facts.third)
    events := scope.events ++ [.reminder scope.meeting.version occurrence.id occurrence.startsAt] }

/-- The decision of `deliver_reminder` on the locked rows. -/
def remindOccurrence (facts : ReminderFacts) (version : Nat) (occurrence : MeetingOccurrence) (scope : MeetingScope) :
    MeetingTransaction (ReminderResult × MeetingScope) :=
  if !facts.readable || !current scope occurrence version then pure (.ignored, scope)
  else if occurrence.reminderSentAt.isSome then pure (.alreadyDelivered, scope)
  else if occurrence.endsAt ≤ facts.first then pure (.ignored, scope)
  else if facts.second < occurrence.reminderAt then rollback .meetingReminderNotDue
  else pure (.delivered, sendReminder facts occurrence scope)

/-- `deliver_reminder` -/
def deliverReminder (facts : ReminderFacts) (occurrenceId : String) (version : Nat) (scope : MeetingScope) :
    MeetingTransaction (ReminderResult × MeetingScope) := do
  check facts.authorized .forbidden
  match scope.occurrences.find occurrenceId with
  | none => pure (.ignored, scope)
  | some occurrence =>
    if facts.erased then pure (.ignored, scope) else remindOccurrence facts version occurrence scope

end KComms.AudioCalls
