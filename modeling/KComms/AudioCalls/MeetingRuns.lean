import KComms.AudioCalls.MeetingCalendar
import KComms.Lib.CommandRuns

/-!
# A meeting under its commands

The commands on a meeting in any order, each one transaction under the lock of the meeting.  A meeting is observed
together with its last schedule, and with the length of the longest one.
-/

namespace KComms.AudioCalls

open Attempt

inductive MeetingCommand
  | update (expectedVersion : Option Nat) (attrs : MeetingAttrs) (newId : Nat → String)
  | cancel (revoked : Bool) (expectedVersion : Option Nat)
  | start (call : StartFacts) (occurrenceId : String)
  | remind (facts : ReminderFacts) (occurrenceId : String) (version : Nat)

structure MeetingStep where
  facts : MeetingFacts
  command : MeetingCommand

variable (runtime : Runtime)

def MeetingStep.transaction (step : MeetingStep) (scope : MeetingScope) : MeetingTransaction MeetingScope :=
  match step.command with
  | .update expectedVersion attrs newId => update runtime step.facts expectedVersion attrs newId scope
  | .cancel revoked expectedVersion => cancel step.facts revoked expectedVersion scope
  | .start call occurrenceId => start step.facts call occurrenceId scope
  | .remind facts occurrenceId version => do
    let (_, scope) ← deliverReminder facts occurrenceId version scope
    pure scope

/-- The times of attributes that are valid. -/
def validTimes (attrs : MeetingAttrs) (observedAt : Int) : List ScheduledTime :=
  match validate runtime attrs observedAt with
  | .ok (_, times) => times
  | .error _ => []

/-- The times that an update gives. -/
def MeetingStep.times (step : MeetingStep) : Option (List ScheduledTime) :=
  match step.command with
  | .update _ attrs _ => some (validTimes runtime attrs step.facts.observedAt)
  | _ => none

structure ObservedMeeting where
  scope : MeetingScope
  schedule : List ScheduledTime
  longest : Nat

/-- The meeting after it was created. -/
def ObservedMeeting.first (attrs : MeetingAttrs) (observedAt : Int) (scope : MeetingScope) : ObservedMeeting where
  scope := scope
  schedule := validTimes runtime attrs observedAt
  longest := (validTimes runtime attrs observedAt).length

/-- The meeting after a command; a command that is refused leaves it as it is. -/
def ObservedMeeting.next (observed : ObservedMeeting) (step : MeetingStep) : ObservedMeeting :=
  match (step.transaction runtime observed.scope).outcome with
  | .ok scope =>
    let schedule := (step.times runtime).getD observed.schedule
    { scope := scope, schedule := schedule, longest := max observed.longest schedule.length }
  | .error _ => observed

/-! ### What the commands write -/

variable {runtime} {scope scope' : MeetingScope} {facts : MeetingFacts} {newId : Nat → String}

theorem materialize_commits {times : List ScheduledTime} (h : (materialize facts newId times scope).Commits scope') :
    scope'.meeting = scope.meeting ∧ scope'.events = scope.events ∧
      scope'.occurrences.rows = scope.occurrences.rows ++ times.mapIdx (newOccurrence scope.meeting.version newId) := by
  unfold materialize at h
  split at h
  · exact absurd h (commits_rollback _ _)
  · rename_i occurrences hinsert
    rw [commits_pure] at h
    subst h
    exact ⟨rfl, rfl, KeyedTable.insertAll_eq_some.mp hinsert⟩

theorem record_commits {event : MeetingEvent} (h : (record facts event scope).Commits scope') :
    scope' = { scope with events := scope.events ++ [event] } := by
  simp only [record, commits_bind, commits_check, commits_pure] at h
  obtain ⟨-, -, rfl⟩ := h
  rfl

theorem create_commits {meetingId conversationId : String} {attrs : MeetingAttrs}
    (h : (create runtime facts meetingId conversationId attrs newId).Commits scope) :
    scope.meeting.status = .scheduled ∧ scope.meeting.version = 1 ∧ scope.events = [.scheduled 1] ∧
      scope.occurrences.rows = (validTimes runtime attrs facts.observedAt).mapIdx (newOccurrence 1 newId) := by
  simp only [create, commits_bind, commits_check, commits_ofExcept] at h
  obtain ⟨-, -, ⟨schedule, times⟩, hvalid, -, -, access, -, written, hwritten, hrecord⟩ := h
  obtain ⟨hmeeting, hevents, hrows⟩ := materialize_commits hwritten
  have htimes : validTimes runtime attrs facts.observedAt = times := by
    unfold validTimes
    rw [hvalid]
  rw [record_commits hrecord, htimes]
  refine ⟨?_, ?_, ?_, hrows⟩
  · exact congrArg Meeting.status hmeeting
  · exact congrArg Meeting.version hmeeting
  · show written.events ++ [MeetingEvent.scheduled written.meeting.version] = [.scheduled 1]
    rw [hevents, hmeeting]
    rfl

/-- What an update writes: new occurrences for the next version, and the old ones cancelled. -/
structure Rescheduled (scope scope' : MeetingScope) (times : List ScheduledTime) (newId : Nat → String) : Prop where
  scheduled : scope.meeting.status = .scheduled
  status : scope'.meeting.status = .scheduled
  version : scope'.meeting.version = scope.meeting.version + 1
  occurrences : scope'.occurrences.rows =
    (scope.occurrences.modify (fun occurrence => occurrence.meetingVersion = scope.meeting.version)
      MeetingOccurrence.cancel MeetingOccurrence.cancel_id).rows ++
        times.mapIdx (newOccurrence (scope.meeting.version + 1) newId)
  events : scope'.events = scope.events ++ [.updated (scope.meeting.version + 1)]

theorem update_commits {expectedVersion : Option Nat} {attrs : MeetingAttrs}
    (h : (update runtime facts expectedVersion attrs newId scope).Commits scope') :
    Rescheduled scope scope' (validTimes runtime attrs facts.observedAt) newId := by
  simp only [update, commits_bind, commits_check, commits_ofExcept, decide_eq_true_eq] at h
  obtain ⟨-, -, ⟨schedule, times⟩, hvalid, access, -, -, hscheduled, -, -, written, hwritten, hrecord⟩ := h
  obtain ⟨hmeeting, hevents, hrows⟩ := materialize_commits hwritten
  have htimes : validTimes runtime attrs facts.observedAt = times := by
    unfold validTimes
    rw [hvalid]
  rw [record_commits hrecord, htimes]
  refine ⟨hscheduled, ?_, ?_, hrows, ?_⟩
  · exact (congrArg Meeting.status hmeeting).trans hscheduled
  · exact congrArg Meeting.version hmeeting
  · show written.events ++ [MeetingEvent.updated written.meeting.version] = _
    rw [hevents, hmeeting]
    rfl

theorem cancel_commits {revoked : Bool} {expectedVersion : Option Nat}
    (h : (cancel facts revoked expectedVersion scope).Commits scope') :
    scope' = scope ∨ (scope.meeting.status = .scheduled ∧
      scope' = { cancelled scope with events := scope.events ++ [.cancelled (scope.meeting.version + 1)] }) := by
  simp only [cancel, commits_bind] at h
  obtain ⟨-, -, access, -, h⟩ := h
  split at h
  · rename_i hscheduled
    simp only [commits_bind, commits_check] at h
    obtain ⟨-, -, hrecord⟩ := h
    exact .inr ⟨hscheduled, record_commits hrecord⟩
  · rw [commits_pure] at h
    exact .inl h.symm

theorem start_commits {call : StartFacts} {occurrenceId : String}
    (h : (start facts call occurrenceId scope).Commits scope') :
    ∃ callId, scope' = { scope with
      occurrences := scope.occurrences.update occurrenceId (MeetingOccurrence.join callId)
        (MeetingOccurrence.join_id callId) } := by
  simp only [start, commits_bind, commits_check] at h
  obtain ⟨-, -, -, -, -, -, access, -, h⟩ := h
  split at h
  · exact absurd h (commits_rollback _ _)
  · simp only [commits_bind, commits_check, commits_pure] at h
    obtain ⟨-, -, -, -, -, -, -, -, -, -, callId, -, -, -, rfl⟩ := h
    exact ⟨callId, rfl⟩

/-- A reminder is sent for a current occurrence that has had none, or nothing is written. -/
theorem deliverReminder_commits {facts : ReminderFacts} {occurrenceId : String} {version : Nat}
    {result : ReminderResult} (h : (deliverReminder facts occurrenceId version scope).Commits (result, scope')) :
    scope' = scope ∨ ∃ occurrence, scope.occurrences.find occurrenceId = some occurrence ∧
      current scope occurrence version = true ∧ occurrence.reminderSentAt = none ∧
      scope' = sendReminder facts occurrence scope := by
  simp only [deliverReminder, commits_bind, commits_check] at h
  obtain ⟨-, -, h⟩ := h
  split at h
  · rw [commits_pure, Prod.mk.injEq] at h
    exact .inl h.2.symm
  · rename_i occurrence hfind
    split at h
    · rw [commits_pure, Prod.mk.injEq] at h
      exact .inl h.2.symm
    · unfold remindOccurrence at h
      split at h
      · rw [commits_pure, Prod.mk.injEq] at h
        exact .inl h.2.symm
      · rename_i hcurrent
        rw [Bool.or_eq_true, not_or, Bool.not_eq_true, Bool.not_eq_true, Bool.not_eq_false', Bool.not_eq_false']
          at hcurrent
        split at h
        · rw [commits_pure, Prod.mk.injEq] at h
          exact .inl h.2.symm
        · rename_i hunsent
          rw [Bool.not_eq_true, Option.isSome_eq_false_iff, Option.isNone_iff_eq_none] at hunsent
          split at h
          · rw [commits_pure, Prod.mk.injEq] at h
            exact .inl h.2.symm
          · split at h
            · exact absurd h (commits_rollback _ _)
            · rw [commits_pure, Prod.mk.injEq] at h
              exact .inr ⟨occurrence, hfind, hcurrent.2, hunsent, h.2.symm⟩

end KComms.AudioCalls
