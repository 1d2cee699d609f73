import KComms.Lib.ElixirString

/-!
# The schedules of meetings (`AudioCalls.MeetingSchedule`)

A schedule is given in the wall clock of a named zone, and validated into the finitely many occurrences of the meeting.
Times are microseconds; local times are seconds of the wall clock.
-/

namespace KComms.AudioCalls

open ElixirString (trim)

inductive MeetingError
  | invalidMeeting | invalidMeetingRecurrence | invalidMeetingHostPolicy | ambiguousMeetingTime
  | nonexistentMeetingTime | invalidMeetingTimezone | forbidden | notFound | audioCallsDisabled | versionRequired
  | staleVersion | meetingCancelled | meetingAlreadyStarted | meetingReminderNotDue | meetingNotJoinable
  | meetingHostRequired | activeCallConflict | callRefused
  deriving DecidableEq, Repr

inductive Frequency
  | none_ | daily | weekly
  deriving DecidableEq, Repr

structure Recurrence where
  frequency : Frequency
  interval : Nat
  count : Nat
  deriving DecidableEq, Repr

structure HostPolicy where
  allowGuests : Bool
  joinBeforeHost : Bool
  deriving DecidableEq, Repr

structure RecurrenceAttrs where
  frequency : Option String
  interval : Option Int
  count : Option Int
  deriving DecidableEq, Repr

/-- The attributes of a call; what does not have the type of its field is absent. -/
structure MeetingAttrs where
  title : Option String
  timezone : Option String
  localStart : Option Int
  durationMinutes : Option Int
  reminderMinutes : Option Int
  recurrence : Option RecurrenceAttrs
  hostPolicy : Option (Option HostPolicy)
  deriving DecidableEq, Repr

/-- The fields of a meeting that its schedule gives. -/
structure Schedule where
  title : String
  timezone : String
  localStart : Int
  durationMinutes : Int
  reminderMinutes : Int
  recurrence : Recurrence
  hostPolicy : HostPolicy
  deriving DecidableEq, Repr

structure ScheduledTime where
  startsAt : Int
  endsAt : Int
  reminderAt : Int
  deriving DecidableEq, Repr

/-- What a zone says of a local time. -/
inductive ZoneAnswer
  | instant (seconds : Int)
  | ambiguous
  | gap
  | unknown
  deriving DecidableEq, Repr

/-- What the runtime gives: lengths of strings, and the database of zones. -/
structure Runtime where
  graphemes : String → Nat
  fromNaive : Int → String → ZoneAnswer

def maximumOccurrences : Int := 52

def maximumHorizonSeconds : Int := 366 * 86400

/-- `recurrence` -/
def recurrence : Option RecurrenceAttrs → Except MeetingError Recurrence
  | none => .ok ⟨.none_, 1, 1⟩
  | some attrs =>
    let interval := attrs.interval.getD 1
    let count := attrs.count.getD 1
    if 1 ≤ interval ∧ interval ≤ 4 ∧ 1 ≤ count ∧ count ≤ maximumOccurrences then
      match attrs.frequency with
      | some "none" =>
        if count = 1 then .ok ⟨.none_, interval.toNat, count.toNat⟩ else .error .invalidMeetingRecurrence
      | some "daily" => .ok ⟨.daily, interval.toNat, count.toNat⟩
      | some "weekly" => .ok ⟨.weekly, interval.toNat, count.toNat⟩
      | _ => .error .invalidMeetingRecurrence
    else .error .invalidMeetingRecurrence

/-- `policy` -/
def policy : Option (Option HostPolicy) → Except MeetingError HostPolicy
  | none => .ok ⟨false, false⟩
  | some (some hostPolicy) => .ok hostPolicy
  | some none => .error .invalidMeetingHostPolicy

/-- The days between two occurrences. -/
def Recurrence.days (recurrence : Recurrence) : Nat :=
  match recurrence.frequency with
  | .none_ => 0
  | .daily => recurrence.interval
  | .weekly => 7 * recurrence.interval

/-- The instant of one occurrence, in microseconds. -/
def occurrenceInstant (runtime : Runtime) (localStart : Int) (zone : String) (recurrence : Recurrence) (index : Nat) :
    Except MeetingError Int :=
  match runtime.fromNaive (localStart + index * recurrence.days * 86400) zone with
  | .instant seconds => .ok (1000000 * seconds)
  | .ambiguous => .error .ambiguousMeetingTime
  | .gap => .error .nonexistentMeetingTime
  | .unknown => .error .invalidMeetingTimezone

/-- `occurrences`: the first local time that has no instant stops the schedule. -/
def occurrences (runtime : Runtime) (localStart : Int) (zone : String) (recurrence : Recurrence) :
    Except MeetingError (List Int) :=
  (List.range recurrence.count).mapM (occurrenceInstant runtime localStart zone recurrence)

/-- `DateTime.diff` -/
def diffSeconds (first second : Int) : Int := first / 1000000 - second / 1000000

def required {α : Type} (value : Option α) : Except MeetingError α :=
  match value with
  | some value => .ok value
  | none => .error .invalidMeeting

def ensure (condition : Bool) : Except MeetingError Unit := if condition then .ok () else .error .invalidMeeting

def Schedule.times (schedule : Schedule) (starts : List Int) : List ScheduledTime :=
  starts.map fun startsAt =>
    { startsAt := startsAt
      endsAt := startsAt + 1000000 * (schedule.durationMinutes * 60)
      reminderAt := startsAt - 1000000 * (schedule.reminderMinutes * 60) }

/-- `validate` -/
def validate (runtime : Runtime) (attrs : MeetingAttrs) (observedAt : Int) :
    Except MeetingError (Schedule × List ScheduledTime) := do
  let title ← (required attrs.title).map trim
  ensure (1 ≤ runtime.graphemes title && runtime.graphemes title ≤ 200 && title.utf8ByteSize ≤ 800)
  let zone ← required attrs.timezone
  ensure (1 ≤ zone.utf8ByteSize && zone.utf8ByteSize ≤ 100)
  let localStart ← required attrs.localStart
  let duration ← required attrs.durationMinutes
  ensure (5 ≤ duration && duration ≤ 480)
  let reminder ← required attrs.reminderMinutes
  ensure (0 ≤ reminder && reminder ≤ 10080)
  let recurrence ← recurrence attrs.recurrence
  let hostPolicy ← policy attrs.hostPolicy
  let starts ← occurrences runtime localStart zone recurrence
  ensure (starts.head?.any fun first => 60 ≤ diffSeconds first observedAt)
  ensure (starts.getLast?.any fun last => diffSeconds last observedAt ≤ maximumHorizonSeconds)
  let schedule : Schedule :=
    { title := title, timezone := zone, localStart := localStart, durationMinutes := duration,
      reminderMinutes := reminder, recurrence := recurrence, hostPolicy := hostPolicy }
  .ok (schedule, schedule.times starts)

end KComms.AudioCalls
