import KComms.AudioCalls.Meetings
import KComms.Lib.DistinctOn
import Mathlib.Data.List.Sort

/-!
# The calendar of a meeting (`Meetings.calendar`, `AudioCalls.MeetingCalendar`)

The export has one event for each current occurrence, and one for the newest row of each sequence that the current
version does not have any more.
-/

namespace KComms.AudioCalls

open Attempt
open KComms.Rooms (MembershipRole)

structure OccurrenceView where
  id : String
  sequence : Nat
  startsAt : Int
  endsAt : Int
  status : MeetingStatus
  callId : Option String
  deriving DecidableEq, Repr

structure MeetingView where
  id : String
  conversationId : String
  hostUserId : String
  schedule : Schedule
  status : MeetingStatus
  version : Nat
  canManage : Bool
  occurrences : List OccurrenceView
  deriving DecidableEq, Repr

def MeetingOccurrence.view (occurrence : MeetingOccurrence) : OccurrenceView where
  id := occurrence.id
  sequence := occurrence.sequence
  startsAt := occurrence.startsAt
  endsAt := occurrence.endsAt
  status := occurrence.status
  callId := occurrence.callId

/-- `view` -/
def view (userId : String) (role : MembershipRole) (scope : MeetingScope) : MeetingView where
  id := scope.meeting.id
  conversationId := scope.meeting.conversationId
  hostUserId := scope.meeting.hostUserId
  schedule := scope.meeting.schedule
  status := scope.meeting.status
  version := scope.meeting.version
  canManage := scope.meeting.hostUserId = userId || role = .owner || role = .moderator
  occurrences := ((occurrenceQuery scope).insertionSort fun first second => first.sequence ≤ second.sequence).map
    MeetingOccurrence.view

/-- The order of the tombstones: by sequence, the newest version first. -/
abbrev TombstoneOrder (first second : MeetingOccurrence) : Prop :=
  first.sequence < second.sequence ∨
    (first.sequence = second.sequence ∧ second.meetingVersion ≤ first.meetingVersion)

/-- The newest cancelled row of each sequence that is not current. -/
def removed (currentSequences : List Nat) (scope : MeetingScope) : List OccurrenceView :=
  (distinctOn MeetingOccurrence.sequence ((scope.occurrences.rows.filter fun occurrence =>
    !currentSequences.contains occurrence.sequence && occurrence.status = .cancelled).insertionSort TombstoneOrder)).map
    MeetingOccurrence.view

inductive EventStatus
  | confirmed | cancelled
  deriving DecidableEq, Repr

/-- One event of a calendar; the identifier is made of the meeting and the sequence of the occurrence. -/
structure VEvent where
  uid : String × Nat
  dtstamp : Int
  sequence : Nat
  dtstart : Int
  dtend : Int
  summary : String
  status : EventStatus
  timezone : String
  deriving DecidableEq, Repr

inductive CalendarMethod
  | publish | cancel
  deriving DecidableEq, Repr

structure VCalendar where
  method : CalendarMethod
  events : List VEvent
  deriving DecidableEq, Repr

def vevent (dtstamp : Int) (meeting : MeetingView) (occurrence : OccurrenceView) : VEvent where
  uid := (meeting.id, occurrence.sequence)
  dtstamp := dtstamp
  sequence := meeting.version
  dtstart := occurrence.startsAt
  dtend := occurrence.endsAt
  summary := meeting.schedule.title
  status := if meeting.status = .cancelled ∨ occurrence.status = .cancelled then .cancelled else .confirmed
  timezone := meeting.schedule.timezone

/-- `render` -/
def render (dtstamp : Int) (meeting : MeetingView) : VCalendar where
  method := if meeting.status = .cancelled then .cancel else .publish
  events := meeting.occurrences.map (vevent dtstamp meeting)

/-- The view with the occurrences that were removed. -/
def exported (userId : String) (role : MembershipRole) (scope : MeetingScope) : MeetingView :=
  let meeting := view userId role scope
  { meeting with
    occurrences := meeting.occurrences ++ removed (meeting.occurrences.map OccurrenceView.sequence) scope }

/-- `calendar`; that the meeting may be read is a fact from outside. -/
def calendar (human accessible readable : Bool) (userId : String) (role : Option MembershipRole) (dtstamp : Int)
    (scope : MeetingScope) : MeetingTransaction VCalendar := do
  check accessible .notFound
  check human .forbidden
  match role with
  | none => rollback .forbidden
  | some role => do
    check readable .notFound
    pure (render dtstamp (exported userId role scope))

end KComms.AudioCalls
