import KComms.AudioCalls.MeetingRuns

/-!
# The export of the calendar after any changes

The rows of a meeting are its last schedule, at the version of the meeting, and cancelled rows of older versions
(`CalendarKept`).  So the export has every sequence that there ever was, and the last schedule is what it confirms.
-/

namespace KComms.AudioCalls

open Attempt
open KComms.Rooms (MembershipRole)

/-- What the calendar reads of an occurrence. -/
structure CalendarRow where
  sequence : Nat
  meetingVersion : Nat
  startsAt : Int
  endsAt : Int
  status : MeetingStatus
  deriving DecidableEq, Repr

def MeetingOccurrence.calendarRow (occurrence : MeetingOccurrence) : CalendarRow where
  sequence := occurrence.sequence
  meetingVersion := occurrence.meetingVersion
  startsAt := occurrence.startsAt
  endsAt := occurrence.endsAt
  status := occurrence.status

/-- The rows of a schedule, for this version. -/
def scheduledRows (version : Nat) (status : MeetingStatus) (times : List ScheduledTime) : List CalendarRow :=
  times.mapIdx fun index time =>
    { sequence := index + 1, meetingVersion := version, startsAt := time.startsAt, endsAt := time.endsAt,
      status := status }

def MeetingScope.calendarRows (scope : MeetingScope) : List CalendarRow :=
  scope.occurrences.rows.map MeetingOccurrence.calendarRow

/-- The rows are the last schedule, and older rows that are cancelled; all sequences up to the longest schedule are
there. -/
structure CalendarKept (observed : ObservedMeeting) : Prop where
  bounded : ∀ row ∈ observed.scope.calendarRows, row.meetingVersion ≤ observed.scope.meeting.version ∧
    1 ≤ row.sequence ∧ row.sequence ≤ observed.longest
  current : (observed.scope.calendarRows.filter fun row => row.meetingVersion = observed.scope.meeting.version) =
    scheduledRows observed.scope.meeting.version observed.scope.meeting.status observed.schedule
  older : ∀ row ∈ observed.scope.calendarRows, row.meetingVersion < observed.scope.meeting.version →
    row.status = .cancelled
  covered : ∀ sequence, 1 ≤ sequence → sequence ≤ observed.longest →
    ∃ row ∈ observed.scope.calendarRows, row.sequence = sequence

variable {runtime : Runtime} {observed : ObservedMeeting} {scope scope' : MeetingScope} {facts : MeetingFacts}

/-! ### Schedules -/

variable {times : List ScheduledTime}

theorem sequences_scheduledRows (version : Nat) (status : MeetingStatus) (times : List ScheduledTime) :
    (scheduledRows version status times).map CalendarRow.sequence = List.range' 1 times.length := by
  refine List.ext_getElem ?_ fun index hleft hright => ?_
  · simp [scheduledRows]
  · simp [scheduledRows, Nat.add_comm]

private theorem mem_scheduledRows {version : Nat} {status : MeetingStatus} {row : CalendarRow}
    (h : row ∈ scheduledRows version status times) :
    row.meetingVersion = version ∧ row.status = status ∧ 1 ≤ row.sequence ∧ row.sequence ≤ times.length := by
  unfold scheduledRows at h
  rw [List.mem_mapIdx] at h
  obtain ⟨index, hindex, rfl⟩ := h
  exact ⟨rfl, rfl, Nat.succ_le_succ (Nat.zero_le index), hindex⟩

private theorem exists_scheduledRow {sequence : Nat} (version : Nat) (status : MeetingStatus) (hpositive : 1 ≤ sequence)
    (hle : sequence ≤ times.length) :
    ∃ row ∈ scheduledRows version status times, row.sequence = sequence := by
  have hmem : sequence ∈ (scheduledRows version status times).map CalendarRow.sequence := by
    rw [sequences_scheduledRows, List.mem_range'_1]
    omega
  obtain ⟨row, hrow, hsequence⟩ := List.mem_map.mp hmem
  exact ⟨row, hrow, hsequence⟩

private theorem calendarRows_new (version : Nat) (newId : Nat → String) (times : List ScheduledTime) :
    (times.mapIdx (newOccurrence version newId)).map MeetingOccurrence.calendarRow =
      scheduledRows version .scheduled times := by
  refine List.ext_getElem ?_ fun index hleft hright => ?_
  · simp [scheduledRows]
  · simp [scheduledRows, newOccurrence, MeetingOccurrence.calendarRow]

/-! ### The commands -/

/-- New occurrences after rows of older versions. -/
private theorem kept_of_scheduled {version : Nat} {older : List CalendarRow} {longest : Nat}
    (hversion : scope.meeting.version = version) (hstatus : scope.meeting.status = .scheduled)
    (hrows : scope.calendarRows = older ++ scheduledRows version .scheduled times)
    (holder : ∀ row ∈ older, row.meetingVersion < version ∧ row.status = .cancelled ∧ 1 ≤ row.sequence ∧
      row.sequence ≤ longest)
    (hcovered : ∀ sequence, 1 ≤ sequence → sequence ≤ longest → times.length < sequence →
      ∃ row ∈ older, row.sequence = sequence) :
    CalendarKept { scope := scope, schedule := times, longest := max longest times.length } where
  bounded := by
    intro row hrow
    have hmem : row ∈ older ++ scheduledRows version .scheduled times := hrows ▸ hrow
    show row.meetingVersion ≤ scope.meeting.version ∧ 1 ≤ row.sequence ∧ row.sequence ≤ max longest times.length
    rw [hversion]
    rcases List.mem_append.mp hmem with hmem | hmem
    · obtain ⟨hless, -, hpositive, hle⟩ := holder row hmem
      omega
    · obtain ⟨hsame, -, hpositive, hle⟩ := mem_scheduledRows hmem
      omega
  current := by
    show (scope.calendarRows.filter fun row => row.meetingVersion = scope.meeting.version) =
      scheduledRows scope.meeting.version scope.meeting.status times
    rw [hrows, hversion, hstatus, List.filter_append]
    have hnone : older.filter (fun row => row.meetingVersion = version) = [] := by
      refine List.filter_eq_nil_iff.mpr fun row hrow => ?_
      rw [decide_eq_true_eq]
      exact Nat.ne_of_lt (holder row hrow).1
    have hall : (scheduledRows version .scheduled times).filter (fun row => row.meetingVersion = version) =
        scheduledRows version .scheduled times := by
      refine List.filter_eq_self.mpr fun row hrow => ?_
      rw [decide_eq_true_eq]
      exact (mem_scheduledRows hrow).1
    rw [hnone, hall, List.nil_append]
  older := by
    intro row hrow hless
    have hmem : row ∈ older ++ scheduledRows version .scheduled times := hrows ▸ hrow
    rcases List.mem_append.mp hmem with hmem | hmem
    · exact (holder row hmem).2.1
    · have hsame := (mem_scheduledRows hmem).1
      rw [hversion] at hless
      omega
  covered := by
    intro sequence hpositive hle
    show ∃ row ∈ scope.calendarRows, row.sequence = sequence
    rw [hrows]
    by_cases hnew : sequence ≤ times.length
    · obtain ⟨row, hrow, hsame⟩ := exists_scheduledRow version .scheduled hpositive hnew
      exact ⟨row, List.mem_append_right _ hrow, hsame⟩
    · have hle : sequence ≤ max longest times.length := hle
      obtain ⟨row, hrow, hsame⟩ := hcovered sequence hpositive (by omega) (by omega)
      exact ⟨row, List.mem_append_left _ hrow, hsame⟩

theorem kept_create {meetingId conversationId : String} {attrs : MeetingAttrs} {newId : Nat → String}
    (h : (create runtime facts meetingId conversationId attrs newId).Commits scope) :
    CalendarKept (.first runtime attrs facts.observedAt scope) := by
  obtain ⟨hstatus, hversion, -, hrows⟩ := create_commits h
  have hrows : scope.calendarRows = [] ++ scheduledRows 1 .scheduled (validTimes runtime attrs facts.observedAt) := by
    unfold MeetingScope.calendarRows
    rw [hrows, calendarRows_new, List.nil_append]
  have hkept : CalendarKept
      { scope := scope, schedule := validTimes runtime attrs facts.observedAt,
        longest := max 0 (validTimes runtime attrs facts.observedAt).length } :=
    kept_of_scheduled hversion hstatus hrows (fun row hrow => by cases hrow) fun sequence hpositive hle => by omega
  rw [Nat.zero_max] at hkept
  exact hkept

/-- Rows of the current version, cancelled. -/
private def CalendarRow.cancel (version : Nat) (row : CalendarRow) : CalendarRow :=
  if row.meetingVersion = version then { row with status := .cancelled } else row

private theorem calendarRows_cancel (version : Nat) :
    (scope.occurrences.modify (fun occurrence => occurrence.meetingVersion = version) MeetingOccurrence.cancel
      MeetingOccurrence.cancel_id).rows.map MeetingOccurrence.calendarRow =
      scope.calendarRows.map (CalendarRow.cancel version) := by
  unfold KeyedTable.modify MeetingScope.calendarRows
  rw [List.map_map, List.map_map]
  refine List.map_congr_left fun occurrence _ => ?_
  rw [Function.comp_apply, Function.comp_apply]
  unfold CalendarRow.cancel
  by_cases hversion : occurrence.meetingVersion = version
  · have hrow : occurrence.calendarRow.meetingVersion = version := hversion
    rw [if_pos (decide_eq_true hversion), if_pos hrow]
    rfl
  · have hrow : ¬ occurrence.calendarRow.meetingVersion = version := hversion
    rw [if_neg (by rw [decide_eq_true_eq]; exact hversion), if_neg hrow]

private theorem kept_update {newId : Nat → String} (h : CalendarKept observed)
    (hwrite : Rescheduled observed.scope scope times newId) :
    CalendarKept { scope := scope, schedule := times, longest := max observed.longest times.length } := by
  have hrows : scope.calendarRows =
      observed.scope.calendarRows.map (CalendarRow.cancel observed.scope.meeting.version) ++
        scheduledRows (observed.scope.meeting.version + 1) .scheduled times := by
    unfold MeetingScope.calendarRows
    rw [hwrite.occurrences, List.map_append, calendarRows_new, calendarRows_cancel]
    rfl
  refine kept_of_scheduled hwrite.version hwrite.status hrows (fun row hrow => ?_) fun sequence hpositive hle _ => ?_
  · obtain ⟨old, hold, rfl⟩ := List.mem_map.mp hrow
    obtain ⟨hversion, hpositive, hle⟩ := h.bounded old hold
    unfold CalendarRow.cancel
    split
    · exact ⟨Nat.lt_succ_of_le hversion, rfl, hpositive, hle⟩
    · rename_i hother
      have hless := Nat.lt_of_le_of_ne hversion hother
      exact ⟨Nat.lt_succ_of_lt hless, h.older old hold hless, hpositive, hle⟩
  · obtain ⟨row, hrow, hsame⟩ := h.covered sequence hpositive hle
    refine ⟨_, List.mem_map_of_mem hrow, ?_⟩
    unfold CalendarRow.cancel
    split
    · exact hsame
    · exact hsame

/-- Rows of the current version, cancelled at the next one. -/
private def CalendarRow.restamp (version : Nat) (row : CalendarRow) : CalendarRow :=
  if row.meetingVersion = version then { row with status := .cancelled, meetingVersion := version + 1 } else row

private theorem calendarRows_restamp :
    (cancelled scope).calendarRows = scope.calendarRows.map (CalendarRow.restamp scope.meeting.version) := by
  unfold MeetingScope.calendarRows cancelled KeyedTable.modify
  rw [List.map_map, List.map_map]
  refine List.map_congr_left fun occurrence _ => ?_
  rw [Function.comp_apply, Function.comp_apply]
  unfold CalendarRow.restamp
  by_cases hversion : occurrence.meetingVersion = scope.meeting.version
  · have hrow : occurrence.calendarRow.meetingVersion = scope.meeting.version := hversion
    rw [if_pos (decide_eq_true hversion), if_pos hrow]
    rfl
  · have hrow : ¬ occurrence.calendarRow.meetingVersion = scope.meeting.version := hversion
    rw [if_neg (by rw [decide_eq_true_eq]; exact hversion), if_neg hrow]

/-- Restamped rows of a schedule are those of the cancelled schedule. -/
private theorem restamp_scheduledRows (version : Nat) (status : MeetingStatus) (times : List ScheduledTime) :
    (scheduledRows version status times).map (CalendarRow.restamp version) =
      scheduledRows (version + 1) .cancelled times := by
  refine List.ext_getElem ?_ fun index hleft hright => ?_
  · simp [scheduledRows]
  · simp [scheduledRows, CalendarRow.restamp]

private theorem kept_cancel (h : CalendarKept observed)
    (hrows : scope.calendarRows = (cancelled observed.scope).calendarRows)
    (hmeeting : scope.meeting = (cancelled observed.scope).meeting) :
    CalendarKept { observed with scope := scope } where
  bounded := by
    intro row hrow
    have hmem : row ∈ observed.scope.calendarRows.map (CalendarRow.restamp observed.scope.meeting.version) := by
      rw [← calendarRows_restamp, ← hrows]
      exact hrow
    obtain ⟨old, hold, rfl⟩ := List.mem_map.mp hmem
    obtain ⟨hversion, hbounds⟩ := h.bounded old hold
    show _ ≤ scope.meeting.version ∧ _
    rw [hmeeting]
    unfold CalendarRow.restamp
    split
    · exact ⟨Nat.le_refl _, hbounds⟩
    · exact ⟨Nat.le_succ_of_le hversion, hbounds⟩
  current := by
    show (scope.calendarRows.filter fun row => row.meetingVersion = scope.meeting.version) =
      scheduledRows scope.meeting.version scope.meeting.status observed.schedule
    rw [hrows, hmeeting, calendarRows_restamp]
    show _ = scheduledRows (observed.scope.meeting.version + 1) .cancelled observed.schedule
    rw [← restamp_scheduledRows _ observed.scope.meeting.status, ← h.current, List.filter_map]
    refine congrArg (List.map _) (List.filter_congr fun row hrow => ?_)
    rw [Function.comp_apply, decide_eq_decide]
    have hversion := (h.bounded row hrow).1
    show (CalendarRow.restamp _ row).meetingVersion = observed.scope.meeting.version + 1 ↔ _
    unfold CalendarRow.restamp
    split
    · rename_i hsame
      exact ⟨fun _ => hsame, fun _ => rfl⟩
    · rename_i hother
      exact ⟨fun hnext => by omega, fun hsame => absurd hsame hother⟩
  older := by
    intro row hrow hless
    have hmem : row ∈ observed.scope.calendarRows.map (CalendarRow.restamp observed.scope.meeting.version) := by
      rw [← calendarRows_restamp, ← hrows]
      exact hrow
    obtain ⟨old, hold, rfl⟩ := List.mem_map.mp hmem
    unfold CalendarRow.restamp
    split
    · rfl
    · rename_i hother
      exact h.older old hold (Nat.lt_of_le_of_ne (h.bounded old hold).1 hother)
  covered := by
    intro sequence hpositive hle
    obtain ⟨row, hrow, hsame⟩ := h.covered sequence hpositive hle
    show ∃ row ∈ scope.calendarRows, row.sequence = sequence
    rw [hrows, calendarRows_restamp]
    refine ⟨_, List.mem_map_of_mem hrow, ?_⟩
    unfold CalendarRow.restamp
    split
    · exact hsame
    · exact hsame

private theorem kept_same (h : CalendarKept observed) (hmeeting : scope.meeting = observed.scope.meeting)
    (hrows : scope.calendarRows = observed.scope.calendarRows) : CalendarKept { observed with scope := scope } where
  bounded := by
    show ∀ row ∈ scope.calendarRows, row.meetingVersion ≤ scope.meeting.version ∧ _
    rw [hrows, hmeeting]
    exact h.bounded
  current := by
    show (scope.calendarRows.filter fun row => row.meetingVersion = scope.meeting.version) =
      scheduledRows scope.meeting.version scope.meeting.status observed.schedule
    rw [hrows, hmeeting]
    exact h.current
  older := by
    show ∀ row ∈ scope.calendarRows, row.meetingVersion < scope.meeting.version → _
    rw [hrows, hmeeting]
    exact h.older
  covered := by
    show ∀ sequence, 1 ≤ sequence → sequence ≤ observed.longest → ∃ row ∈ scope.calendarRows, row.sequence = sequence
    rw [hrows]
    exact h.covered

private theorem calendarRows_update {id : String} (change : MeetingOccurrence → MeetingOccurrence)
    (keeps : ∀ occurrence, (change occurrence).id = occurrence.id)
    (hchange : ∀ occurrence, (change occurrence).calendarRow = occurrence.calendarRow) :
    (scope.occurrences.update id change keeps).rows.map MeetingOccurrence.calendarRow = scope.calendarRows :=
  KeyedTable.map_modify change keeps hchange

theorem schedule_le_longest (h : CalendarKept observed) : observed.schedule.length ≤ observed.longest := by
  by_cases hempty : 1 ≤ observed.schedule.length
  · obtain ⟨row, hrow, hsequence⟩ := exists_scheduledRow observed.scope.meeting.version
      observed.scope.meeting.status hempty (Nat.le_refl _)
    rw [← h.current] at hrow
    rw [← hsequence]
    exact (h.bounded row (List.mem_of_mem_filter hrow)).2.2
  · omega

/-- Every command keeps the rows of the calendar. -/
theorem kept_next (h : CalendarKept observed) (step : MeetingStep) : CalendarKept (observed.next runtime step) := by
  unfold ObservedMeeting.next
  split
  · rename_i scope houtcome
    have hcommits : (step.transaction runtime observed.scope).Commits scope := houtcome
    obtain ⟨facts, command⟩ := step
    cases command with
    | update expectedVersion attrs newId => exact kept_update h (update_commits hcommits)
    | cancel revoked expectedVersion =>
      show CalendarKept { observed with scope := scope, longest := max observed.longest observed.schedule.length }
      rw [Nat.max_eq_left (schedule_le_longest h)]
      rcases cancel_commits hcommits with rfl | ⟨-, rfl⟩
      · exact h
      · exact kept_cancel h rfl rfl
    | start call occurrenceId =>
      show CalendarKept { observed with scope := scope, longest := max observed.longest observed.schedule.length }
      rw [Nat.max_eq_left (schedule_le_longest h)]
      obtain ⟨callId, rfl⟩ := start_commits hcommits
      exact kept_same h rfl (calendarRows_update (MeetingOccurrence.join callId) (MeetingOccurrence.join_id callId)
        fun _ => rfl)
    | remind reminder occurrenceId version =>
      show CalendarKept { observed with scope := scope, longest := max observed.longest observed.schedule.length }
      rw [Nat.max_eq_left (schedule_le_longest h)]
      have hcommits : (deliverReminder reminder occurrenceId version observed.scope >>= fun result =>
        (pure result.2 : MeetingTransaction MeetingScope)).Commits scope := hcommits
      rw [commits_bind] at hcommits
      obtain ⟨⟨result, written⟩, hwritten, hpure⟩ := hcommits
      rw [commits_pure] at hpure
      subst hpure
      rcases deliverReminder_commits hwritten with rfl | ⟨occurrence, -, -, -, rfl⟩
      · exact h
      · exact kept_same h rfl (calendarRows_update (MeetingOccurrence.remind reminder.third)
          (MeetingOccurrence.remind_id reminder.third) fun _ => rfl)
  · exact h

/-! ### The export -/

/-- The row of the calendar that an event is of. -/
private def OccurrenceView.slot (occurrence : OccurrenceView) : Nat × Int × Int × MeetingStatus :=
  (occurrence.sequence, occurrence.startsAt, occurrence.endsAt, occurrence.status)

private def CalendarRow.slot (row : CalendarRow) : Nat × Int × Int × MeetingStatus :=
  (row.sequence, row.startsAt, row.endsAt, row.status)

private theorem occurrenceQuery_rows (h : CalendarKept observed) :
    (occurrenceQuery observed.scope).map MeetingOccurrence.calendarRow =
      scheduledRows observed.scope.meeting.version observed.scope.meeting.status observed.schedule := by
  rw [← h.current]
  unfold occurrenceQuery MeetingScope.calendarRows
  rw [List.filter_map]
  rfl

/-- The current occurrences come in the order of their sequences. -/
private theorem occurrenceQuery_sorted (h : CalendarKept observed) :
    (occurrenceQuery observed.scope).insertionSort (fun first second => first.sequence ≤ second.sequence) =
      occurrenceQuery observed.scope := by
  refine List.Pairwise.insertionSort_eq ?_
  have hsequences : (occurrenceQuery observed.scope).map MeetingOccurrence.sequence =
      List.range' 1 observed.schedule.length := by
    rw [← sequences_scheduledRows observed.scope.meeting.version observed.scope.meeting.status, ←
      occurrenceQuery_rows h, List.map_map]
    rfl
  have hpairwise : ((occurrenceQuery observed.scope).map MeetingOccurrence.sequence).Pairwise (· ≤ ·) := by
    rw [hsequences]
    exact List.pairwise_le_range'
  rw [List.pairwise_map] at hpairwise
  exact hpairwise

private theorem view_occurrences (h : CalendarKept observed) (userId : String) (role : MembershipRole) :
    (view userId role observed.scope).occurrences.map OccurrenceView.slot =
      (scheduledRows observed.scope.meeting.version observed.scope.meeting.status observed.schedule).map
        CalendarRow.slot := by
  unfold view
  dsimp only
  rw [occurrenceQuery_sorted h, ← occurrenceQuery_rows h, List.map_map, List.map_map]
  rfl

private theorem view_sequences (h : CalendarKept observed) (userId : String) (role : MembershipRole) :
    (view userId role observed.scope).occurrences.map OccurrenceView.sequence =
      List.range' 1 observed.schedule.length := by
  have hslots := congrArg (List.map Prod.fst) (view_occurrences h userId role)
  rw [List.map_map, List.map_map] at hslots
  rw [← sequences_scheduledRows observed.scope.meeting.version observed.scope.meeting.status]
  exact hslots

private theorem exists_kept {rows : List MeetingOccurrence} {occurrence : MeetingOccurrence} (h : occurrence ∈ rows) :
    ∃ kept ∈ distinctOn MeetingOccurrence.sequence rows, kept.sequence = occurrence.sequence :=
  exists_mem_distinctOn h

/-- The removed sequences are those after the current schedule, each of them once. -/
private theorem removed_sequences (h : CalendarKept observed) :
    ((removed (List.range' 1 observed.schedule.length) observed.scope).map OccurrenceView.sequence).Perm
      (List.range' (1 + observed.schedule.length) (observed.longest - observed.schedule.length)) := by
  have hmap : (removed (List.range' 1 observed.schedule.length) observed.scope).map OccurrenceView.sequence =
      (distinctOn MeetingOccurrence.sequence ((observed.scope.occurrences.rows.filter fun occurrence =>
        !(List.range' 1 observed.schedule.length).contains occurrence.sequence &&
          occurrence.status = .cancelled).insertionSort TombstoneOrder)).map MeetingOccurrence.sequence := by
    unfold removed
    rw [List.map_map]
    rfl
  rw [hmap]
  refine (List.perm_ext_iff_of_nodup nodup_distinctOn List.nodup_range').mpr fun sequence => ?_
  rw [List.mem_range'_1]
  constructor
  · intro hmem
    obtain ⟨occurrence, hoccurrence, rfl⟩ := List.mem_map.mp hmem
    have hrow := mem_of_mem_distinctOn hoccurrence
    rw [List.mem_insertionSort, List.mem_filter, Bool.and_eq_true, Bool.not_eq_true', ← Bool.not_eq_true,
      List.contains_iff_mem, List.mem_range'_1] at hrow
    obtain ⟨hrow, hgone, -⟩ := hrow
    have hbounded := (h.bounded _ (List.mem_map_of_mem hrow)).2
    have hpositive : 1 ≤ occurrence.sequence := hbounded.1
    have hle : occurrence.sequence ≤ observed.longest := hbounded.2
    omega
  · rintro ⟨hafter, hbefore⟩
    obtain ⟨row, hrow, rfl⟩ := h.covered sequence (by omega) (by omega)
    obtain ⟨occurrence, hoccurrence, rfl⟩ := List.mem_map.mp hrow
    have hold : occurrence.meetingVersion ≠ observed.scope.meeting.version := by
      intro hsame
      have hcurrent : occurrence.calendarRow ∈
          scheduledRows observed.scope.meeting.version observed.scope.meeting.status observed.schedule := by
        rw [← h.current, List.mem_filter]
        exact ⟨hrow, decide_eq_true hsame⟩
      have hle := (mem_scheduledRows hcurrent).2.2.2
      omega
    have hcancelled : occurrence.status = .cancelled :=
      h.older _ hrow (Nat.lt_of_le_of_ne (h.bounded _ hrow).1 hold)
    have hmem : occurrence ∈ (observed.scope.occurrences.rows.filter fun occurrence =>
        !(List.range' 1 observed.schedule.length).contains occurrence.sequence &&
          occurrence.status = .cancelled).insertionSort TombstoneOrder := by
      rw [List.mem_insertionSort, List.mem_filter, Bool.and_eq_true, Bool.not_eq_true', ← Bool.not_eq_true,
        List.contains_iff_mem, List.mem_range'_1]
      refine ⟨hoccurrence, ?_, decide_eq_true hcancelled⟩
      have hsequence : occurrence.calendarRow.sequence = occurrence.sequence := rfl
      omega
    obtain ⟨kept, hkept, hsame⟩ := exists_kept hmem
    exact List.mem_map.mpr ⟨kept, hkept, hsame⟩

/-- A time of a schedule as the calendar shows it. -/
def confirmedTimes (times : List ScheduledTime) : List (Nat × Int × Int) :=
  times.mapIdx fun index time => (index + 1, time.startsAt, time.endsAt)

private theorem exported_sequences (h : CalendarKept observed) (userId : String) (role : MembershipRole) :
    ((exported userId role observed.scope).occurrences.map OccurrenceView.sequence).Perm
      (List.range' 1 observed.longest) := by
  unfold exported
  dsimp only
  rw [List.map_append, view_sequences h]
  have hsplit : List.range' 1 observed.longest = List.range' 1 observed.schedule.length ++
      List.range' (1 + observed.schedule.length) (observed.longest - observed.schedule.length) := by
    rw [List.range'_append_1]
    have hle := schedule_le_longest h
    congr 1
    omega
  rw [hsplit]
  exact (removed_sequences h).append_left _

/-- The export has one event for each sequence up to the longest schedule. -/
theorem export_sequences (h : CalendarKept observed) (userId : String) (role : MembershipRole) (dtstamp : Int) :
    ((render dtstamp (exported userId role observed.scope)).events.map fun event => event.uid.2).Perm
      (List.range' 1 observed.longest) := by
  have hmap : ((render dtstamp (exported userId role observed.scope)).events.map fun event => event.uid.2) =
      (exported userId role observed.scope).occurrences.map OccurrenceView.sequence := by
    unfold render
    rw [List.map_map]
    rfl
  rw [hmap]
  exact exported_sequences h userId role

/-- All events are of the meeting, at its version. -/
theorem export_versions (userId : String) (role : MembershipRole) (dtstamp : Int) :
    ∀ event ∈ (render dtstamp (exported userId role scope)).events,
      event.uid.1 = scope.meeting.id ∧ event.sequence = scope.meeting.version := by
  intro event hevent
  obtain ⟨occurrence, -, rfl⟩ := List.mem_map.mp hevent
  exact ⟨rfl, rfl⟩

private theorem removed_cancelled {sequences : List Nat} {occurrence : OccurrenceView}
    (h : occurrence ∈ removed sequences scope) : occurrence.status = .cancelled := by
  obtain ⟨row, hrow, rfl⟩ := List.mem_map.mp h
  have hmem := mem_of_mem_distinctOn hrow
  rw [List.mem_insertionSort, List.mem_filter, Bool.and_eq_true, decide_eq_true_eq] at hmem
  exact hmem.2.2

private theorem vevent_confirmed {dtstamp : Int} {meeting : MeetingView} {occurrence : OccurrenceView} :
    (vevent dtstamp meeting occurrence).status = .confirmed ↔
      meeting.status = .scheduled ∧ occurrence.status = .scheduled := by
  unfold vevent
  dsimp only
  cases meeting.status <;> cases occurrence.status <;> simp

/-- The export confirms the last schedule, and nothing for a meeting that is cancelled. -/
theorem export_confirmed (h : CalendarKept observed) (userId : String) (role : MembershipRole) (dtstamp : Int) :
    (((render dtstamp (exported userId role observed.scope)).events.filter fun event => event.status = .confirmed).map
      fun event => (event.uid.2, event.dtstart, event.dtend)) =
      if observed.scope.meeting.status = .scheduled then confirmedTimes observed.schedule else [] := by
  have hslots : ((view userId role observed.scope).occurrences.map fun occurrence =>
      (occurrence.sequence, occurrence.startsAt, occurrence.endsAt)) = confirmedTimes observed.schedule := by
    have hslots := congrArg (List.map fun slot : Nat × Int × Int × MeetingStatus => (slot.1, slot.2.1, slot.2.2.1))
      (view_occurrences h userId role)
    rw [List.map_map, List.map_map] at hslots
    refine hslots.trans (List.ext_getElem ?_ fun index hleft hright => ?_)
    · simp [scheduledRows, confirmedTimes]
    · simp [scheduledRows, confirmedTimes, CalendarRow.slot]
  have hstatuses : ∀ occurrence ∈ (view userId role observed.scope).occurrences,
      occurrence.status = observed.scope.meeting.status := by
    intro occurrence hoccurrence
    have hmem : occurrence.slot ∈ (view userId role observed.scope).occurrences.map OccurrenceView.slot :=
      List.mem_map_of_mem hoccurrence
    rw [view_occurrences h] at hmem
    obtain ⟨row, hrow, hsame⟩ := List.mem_map.mp hmem
    have hstatus : row.status = occurrence.status := congrArg (fun slot => slot.2.2.2) hsame
    rw [← hstatus]
    exact (mem_scheduledRows hrow).2.1
  have hstatus : (exported userId role observed.scope).status = observed.scope.meeting.status := rfl
  unfold render
  dsimp only
  rw [List.filter_map, List.map_map]
  by_cases hscheduled : observed.scope.meeting.status = .scheduled
  · rw [if_pos hscheduled, ← hslots]
    unfold exported
    dsimp only
    rw [List.filter_append]
    have hall : ((view userId role observed.scope).occurrences.filter fun occurrence =>
        decide ((vevent dtstamp (exported userId role observed.scope) occurrence).status = .confirmed)) =
        (view userId role observed.scope).occurrences := by
      refine List.filter_eq_self.mpr fun occurrence hoccurrence => ?_
      rw [decide_eq_true_eq, vevent_confirmed, hstatus, hstatuses occurrence hoccurrence]
      exact ⟨hscheduled, hscheduled⟩
    have hnone : ((removed ((view userId role observed.scope).occurrences.map OccurrenceView.sequence)
        observed.scope).filter fun occurrence =>
          decide ((vevent dtstamp (exported userId role observed.scope) occurrence).status = .confirmed)) = [] := by
      refine List.filter_eq_nil_iff.mpr fun occurrence hoccurrence => ?_
      rw [decide_eq_true_eq, vevent_confirmed, removed_cancelled hoccurrence]
      rintro ⟨-, hcancelled⟩
      cases hcancelled
    show List.map _ (List.filter (fun occurrence => decide ((vevent dtstamp (exported userId role observed.scope)
      occurrence).status = .confirmed)) _ ++ List.filter (fun occurrence => decide ((vevent dtstamp
      (exported userId role observed.scope) occurrence).status = .confirmed)) _) = _
    rw [hall, hnone, List.append_nil]
    rfl
  · rw [if_neg hscheduled]
    refine List.map_eq_nil_iff.mpr (List.filter_eq_nil_iff.mpr fun occurrence _ => ?_)
    rw [Function.comp_apply, decide_eq_true_eq, vevent_confirmed, hstatus]
    rintro ⟨hstill, -⟩
    exact hscheduled hstill

end KComms.AudioCalls
