import KComms.AudioCalls.CalendarExport

/-!
# Reminders, and the calendar as a whole

A reminder is sent for an occurrence that is current and has had none; the occurrence keeps the time of its reminder, so
there is at most one (`RemindersKept`).
-/

namespace KComms.AudioCalls

open Attempt
open KComms.Accounts (seconds)
open KComms.Rooms (MembershipRole)

def MeetingEvent.reminds (occurrenceId : String) : MeetingEvent → Bool
  | .reminder _ id _ => id = occurrenceId
  | _ => false

/-- The reminders that were sent for an occurrence. -/
def reminders (scope : MeetingScope) (occurrenceId : String) : Nat := scope.events.countP (·.reminds occurrenceId)

/-- An occurrence with a reminder has had one, and knows it. -/
def RemindersKept (scope : MeetingScope) : Prop :=
  ∀ occurrenceId, reminders scope occurrenceId = 0 ∨ (reminders scope occurrenceId = 1 ∧
    ∃ row ∈ scope.occurrences.rows, row.id = occurrenceId ∧ row.reminderSentAt.isSome = true)

def ObservedMeeting.Reminded (observed : ObservedMeeting) : Prop := RemindersKept observed.scope

/-- The one event of a step, if it is a reminder, is for a current occurrence that has had none. -/
def ReminderLaw (scope : MeetingScope) (event : MeetingEvent) : Prop :=
  ∀ version occurrenceId startsAt, event = .reminder version occurrenceId startsAt →
    ∃ row ∈ scope.occurrences.rows, row.id = occurrenceId ∧ row.reminderSentAt = none ∧ row.status = .scheduled ∧
      row.meetingVersion = version ∧ scope.meeting.status = .scheduled ∧ scope.meeting.version = version

/-- What a step does: it sends what it may, and changes the meeting only with a higher version. -/
structure MeetingLaw (observed observed' : ObservedMeeting) : Prop where
  events : observed'.scope.events = observed.scope.events ∨ ∃ event,
    observed'.scope.events = observed.scope.events ++ [event] ∧ ReminderLaw observed.scope event
  versions : (observed'.scope.meeting = observed.scope.meeting ∧ observed'.schedule = observed.schedule) ∨
    observed.scope.meeting.version < observed'.scope.meeting.version

variable {runtime : Runtime} {observed : ObservedMeeting} {scope scope' : MeetingScope} {facts : MeetingFacts}

/-! ### One step -/

/-- The rows go on, with their reminders. -/
private def RowsGoOn (scope scope' : MeetingScope) : Prop :=
  ∀ row ∈ scope.occurrences.rows, ∃ row' ∈ scope'.occurrences.rows,
    row'.id = row.id ∧ row'.reminderSentAt = row.reminderSentAt

private theorem remindersKept_of_rows (h : RemindersKept scope) (hrows : RowsGoOn scope scope')
    (hevents : ∀ occurrenceId, reminders scope' occurrenceId = reminders scope occurrenceId) :
    RemindersKept scope' := by
  intro occurrenceId
  rw [hevents]
  rcases h occurrenceId with hnone | ⟨hone, row, hrow, hid, hsent⟩
  · exact .inl hnone
  · obtain ⟨row', hrow', hid', hsent'⟩ := hrows row hrow
    refine .inr ⟨hone, row', hrow', hid'.trans hid, ?_⟩
    rw [hsent']
    exact hsent

private theorem reminders_append {event : MeetingEvent} (h : ∀ occurrenceId, event.reminds occurrenceId = false)
    (hevents : scope'.events = scope.events ++ [event]) (occurrenceId : String) :
    reminders scope' occurrenceId = reminders scope occurrenceId := by
  unfold reminders
  rw [hevents, List.countP_append, List.countP_singleton, h occurrenceId]
  rfl

private theorem remindersKept_update {times : List ScheduledTime} {newId : Nat → String} (h : RemindersKept scope)
    (hwrite : Rescheduled scope scope' times newId) : RemindersKept scope' := by
  refine remindersKept_of_rows h (fun row hrow => ?_) (reminders_append (fun _ => rfl) hwrite.events)
  rw [hwrite.occurrences]
  cases hcurrent : decide (row.meetingVersion = scope.meeting.version) with
  | true =>
    exact ⟨row.cancel, List.mem_append_left _ (KeyedTable.mem_modify.mpr (.inr ⟨row, hrow, hcurrent, rfl⟩)), rfl, rfl⟩
  | false => exact ⟨row, List.mem_append_left _ (KeyedTable.mem_modify.mpr (.inl ⟨hrow, hcurrent⟩)), rfl, rfl⟩

private theorem remindersKept_cancel (h : RemindersKept scope) :
    RemindersKept { cancelled scope with events := scope.events ++ [.cancelled (scope.meeting.version + 1)] } := by
  refine remindersKept_of_rows h (fun row hrow => ?_) (reminders_append (fun _ => rfl) rfl)
  show ∃ row' ∈ (scope.occurrences.modify (fun occurrence => occurrence.meetingVersion = scope.meeting.version)
    (MeetingOccurrence.restamp (scope.meeting.version + 1))
    (MeetingOccurrence.restamp_id (scope.meeting.version + 1))).rows, _
  cases hcurrent : decide (row.meetingVersion = scope.meeting.version) with
  | true => exact ⟨_, KeyedTable.mem_modify.mpr (.inr ⟨row, hrow, hcurrent, rfl⟩), rfl, rfl⟩
  | false => exact ⟨row, KeyedTable.mem_modify.mpr (.inl ⟨hrow, hcurrent⟩), rfl, rfl⟩

private theorem remindersKept_start {callId occurrenceId : String} (h : RemindersKept scope) :
    RemindersKept { scope with
      occurrences := scope.occurrences.update occurrenceId (MeetingOccurrence.join callId)
        (MeetingOccurrence.join_id callId) } := by
  refine remindersKept_of_rows h (fun row hrow => ?_) fun _ => rfl
  obtain ⟨row', hrow', rfl | rfl⟩ := KeyedTable.exists_mem_update occurrenceId (MeetingOccurrence.join callId)
    (MeetingOccurrence.join_id callId) hrow
  · exact ⟨_, hrow', rfl, rfl⟩
  · exact ⟨_, hrow', rfl, rfl⟩

private theorem remindersKept_remind {facts : ReminderFacts} {occurrence : MeetingOccurrence} (h : RemindersKept scope)
    (hoccurrence : occurrence ∈ scope.occurrences.rows) (hunsent : occurrence.reminderSentAt = none) :
    RemindersKept (sendReminder facts occurrence scope) := by
  intro occurrenceId
  have hcount : reminders (sendReminder facts occurrence scope) occurrenceId =
      reminders scope occurrenceId + if occurrence.id = occurrenceId then 1 else 0 := by
    unfold reminders sendReminder
    dsimp only
    rw [List.countP_append, List.countP_singleton]
    congr 1
    by_cases hsame : occurrence.id = occurrenceId
    · have hreminds : MeetingEvent.reminds occurrenceId
          (.reminder scope.meeting.version occurrence.id occurrence.startsAt) = true := decide_eq_true hsame
      rw [if_pos hsame, if_pos hreminds]
    · rw [if_neg hsame]
      exact if_neg fun hreminds => hsame (of_decide_eq_true hreminds)
  rw [hcount]
  by_cases hsame : occurrence.id = occurrenceId
  · rw [if_pos hsame]
    rcases h occurrenceId with hnone | ⟨-, row, hrow, hid, hsent⟩
    · have hmem : occurrence.remind facts.third ∈ (scope.occurrences.update occurrence.id
          (MeetingOccurrence.remind facts.third) (MeetingOccurrence.remind_id facts.third)).rows :=
        KeyedTable.mem_update.mpr (.inr ⟨occurrence, hoccurrence, rfl, rfl⟩)
      exact .inr ⟨by rw [hnone], occurrence.remind facts.third, hmem, hsame, rfl⟩
    · obtain rfl := KeyedTable.eq_of_key hrow hoccurrence (hid.trans hsame.symm)
      rw [hunsent] at hsent
      cases hsent
  · rw [if_neg hsame, Nat.add_zero]
    rcases h occurrenceId with hnone | ⟨hone, row, hrow, hid, hsent⟩
    · exact .inl hnone
    · have hmem : row ∈ (scope.occurrences.update occurrence.id (MeetingOccurrence.remind facts.third)
          (MeetingOccurrence.remind_id facts.third)).rows :=
        KeyedTable.mem_update_of_ne hrow fun hid' => hsame (hid'.symm.trans hid)
      exact .inr ⟨hone, row, hmem, hid, hsent⟩

/-- What a step writes, for reminders and versions. -/
theorem next_law (h : observed.Reminded) (step : MeetingStep) :
    (observed.next runtime step).Reminded ∧ MeetingLaw observed (observed.next runtime step) := by
  unfold ObservedMeeting.next
  split
  · rename_i written houtcome
    have hcommits : (step.transaction runtime observed.scope).Commits written := houtcome
    obtain ⟨facts, command⟩ := step
    cases command with
    | update expectedVersion attrs newId =>
      have hwrite := update_commits hcommits
      refine ⟨remindersKept_update h hwrite, .inr ⟨_, hwrite.events, fun _ _ _ hevent => by cases hevent⟩, .inr ?_⟩
      show observed.scope.meeting.version < written.meeting.version
      rw [hwrite.version]
      exact Nat.lt_succ_self _
    | cancel revoked expectedVersion =>
      rcases cancel_commits hcommits with rfl | ⟨-, rfl⟩
      · exact ⟨h, .inl rfl, .inl ⟨rfl, rfl⟩⟩
      · refine ⟨remindersKept_cancel h, .inr ⟨_, rfl, fun _ _ _ hevent => by cases hevent⟩, .inr ?_⟩
        exact Nat.lt_succ_self _
    | start call occurrenceId =>
      obtain ⟨callId, rfl⟩ := start_commits hcommits
      exact ⟨remindersKept_start h, .inl rfl, .inl ⟨rfl, rfl⟩⟩
    | remind reminder occurrenceId version =>
      have hcommits : (deliverReminder reminder occurrenceId version observed.scope >>= fun result =>
        (pure result.2 : MeetingTransaction MeetingScope)).Commits written := hcommits
      rw [commits_bind] at hcommits
      obtain ⟨⟨result, scope⟩, hwritten, hpure⟩ := hcommits
      rw [commits_pure] at hpure
      subst hpure
      rcases deliverReminder_commits hwritten with rfl | ⟨occurrence, hfind, hcurrent, hunsent, rfl⟩
      · exact ⟨h, .inl rfl, .inl ⟨rfl, rfl⟩⟩
      · obtain ⟨hrow, -⟩ := KeyedTable.find_eq_some.mp hfind
        refine ⟨remindersKept_remind h hrow hunsent, .inr ⟨_, rfl, fun _ _ _ hevent => ?_⟩, .inl ⟨rfl, rfl⟩⟩
        cases hevent
        unfold current at hcurrent
        simp only [Bool.and_eq_true, decide_eq_true_eq] at hcurrent
        obtain ⟨⟨⟨hmeeting, hstatus⟩, hversion⟩, hoccurrence⟩ := hcurrent
        exact ⟨occurrence, hrow, rfl, hunsent, hstatus, hoccurrence.trans hversion.symm, hmeeting, rfl⟩
  · exact ⟨h, .inl rfl, .inl ⟨rfl, rfl⟩⟩

/-! ### All steps -/

/-- The export of a meeting has one event for each sequence that there ever was, at the version of the meeting, and
confirms the last schedule. -/
structure ExportLaw (observed : ObservedMeeting) (export_ : VCalendar) : Prop where
  sequences : (export_.events.map fun event => event.uid.2).Perm (List.range' 1 observed.longest)
  versions : ∀ event ∈ export_.events,
    event.uid.1 = observed.scope.meeting.id ∧ event.sequence = observed.scope.meeting.version
  confirmed : ((export_.events.filter fun event => event.status = .confirmed).map fun event =>
    (event.uid.2, event.dtstart, event.dtend)) =
      if observed.scope.meeting.status = .scheduled then confirmedTimes observed.schedule else []

private theorem calendar_law {human accessible readable : Bool} {userId : String} {role : Option MembershipRole}
    {dtstamp : Int} {export_ : VCalendar} (h : CalendarKept observed)
    (hexport : (calendar human accessible readable userId role dtstamp observed.scope).Commits export_) :
    ExportLaw observed export_ := by
  simp only [calendar, commits_bind, commits_check] at hexport
  obtain ⟨-, -, -, -, hexport⟩ := hexport
  split at hexport
  · exact absurd hexport (commits_rollback _ _)
  · rename_i role
    simp only [commits_bind, commits_check, commits_pure] at hexport
    obtain ⟨-, -, rfl⟩ := hexport
    exact ⟨export_sequences h userId role dtstamp, export_versions userId role dtstamp,
      export_confirmed h userId role dtstamp⟩

/-- After any commands on a meeting that was created: every export obeys its law, and those who may read the meeting get
one; no occurrence has had two reminders; and every next step obeys the law of steps. -/
theorem calendar_repaired (runtime : Runtime) (facts : MeetingFacts) (meetingId conversationId : String)
    (attrs : MeetingAttrs) (newId : Nat → String) (scope : MeetingScope)
    (hcreated : (create runtime facts meetingId conversationId attrs newId).Commits scope) (steps : List MeetingStep) :
    let observed := runCommands (ObservedMeeting.next runtime) (.first runtime attrs facts.observedAt scope) steps
    (∀ human accessible readable userId role dtstamp export_,
      (calendar human accessible readable userId role dtstamp observed.scope).Commits export_ →
        ExportLaw observed export_) ∧
    (∀ userId role dtstamp, ∃ export_,
      (calendar true true true userId (some role) dtstamp observed.scope).Commits export_) ∧
    (∀ occurrenceId, reminders observed.scope occurrenceId ≤ 1) ∧
    ∀ step, MeetingLaw observed (observed.next runtime step) := by
  intro observed
  have hcalendar : CalendarKept observed :=
    runCommands_kept (fun observed step h => kept_next h step) (kept_create hcreated)
  have hfirst : RemindersKept scope := by
    obtain ⟨-, -, hevents, -⟩ := create_commits hcreated
    intro occurrenceId
    left
    unfold reminders
    rw [hevents]
    rfl
  have hreminders : observed.Reminded := runCommands_kept (fun observed step h => (next_law h step).1) hfirst
  refine ⟨?_, fun userId role dtstamp => ⟨_, rfl⟩, fun occurrenceId => ?_, fun step => (next_law hreminders step).2⟩
  · intro human accessible readable userId role dtstamp export_ hexport
    exact calendar_law hcalendar hexport
  · rcases hreminders occurrenceId with hnone | ⟨hone, -⟩
    · omega
    · omega

/-! ### A meeting that gets shorter -/

def sampleRuntime : Runtime where
  graphemes := String.length
  fromNaive := fun seconds _ => .instant seconds

def hostFacts : MeetingFacts where
  human := true
  accessible := true
  guarded := true
  access := some { userId := "host", membershipRole := .owner, allowAudioCalls := true, allowVideoCalls := false }
  valid := true
  observedAt := 0
  now := 0

def dailyAttrs (count : Int) : MeetingAttrs where
  title := some "Planning"
  timezone := some "Etc/UTC"
  localStart := some 3600
  durationMinutes := some 30
  reminderMinutes := some 10
  recurrence := some ⟨some "daily", some 1, some count⟩
  hostPolicy := none

def sampleIds (version sequence : Nat) : String := toString version ++ "-" ++ toString sequence

def sampleMeeting : MeetingScope :=
  ((create sampleRuntime hostFacts "m" "c" (dailyAttrs 3) (sampleIds 1)).outcome.toOption).get (by decide)

/-- Three days, then one day; the first reminder is sent twice, by jobs of both versions. -/
def shorten : List MeetingStep :=
  [⟨hostFacts, .remind ⟨true, false, true, seconds 3000, seconds 3000, seconds 3000⟩ "1-1" 1⟩,
   ⟨hostFacts, .update (some 1) (dailyAttrs 1) (sampleIds 2)⟩,
   ⟨hostFacts, .remind ⟨true, false, true, seconds 3000, seconds 3000, seconds 3000⟩ "1-1" 1⟩,
   ⟨hostFacts, .remind ⟨true, false, true, seconds 3000, seconds 3000, seconds 3000⟩ "1-2" 1⟩]

theorem calendar_repaired_sample :
    reminders (runCommands (ObservedMeeting.next sampleRuntime)
      (.first sampleRuntime (dailyAttrs 3) 0 sampleMeeting) shorten).scope "1-1" ≤ 1 :=
  (calendar_repaired sampleRuntime hostFacts "m" "c" (dailyAttrs 3) (sampleIds 1) sampleMeeting
    (toOption_eq_some.mp (Option.some_get _).symm) shorten).2.2.1 "1-1"

example : (render 0 (exported "host" .owner (runCommands (ObservedMeeting.next sampleRuntime)
    (.first sampleRuntime (dailyAttrs 3) 0 sampleMeeting) shorten).scope)).events.map
      (fun event => (event.uid.2, event.sequence, event.status)) =
    [(1, 2, .confirmed), (2, 2, .cancelled), (3, 2, .cancelled)] := by decide

end KComms.AudioCalls
