import KComms.AudioCalls.CallProgress
import KComms.Lib.CommandRuns

/-!
# Admission follows the life of a call

Each command keeps the rows in order and moves them forward, so every run does.  A credential is asked for only after
the call was found active and unexpired, for a participant that is admitted in the same transaction.
-/

namespace KComms.AudioCalls.Lifecycle

open Attempt
open KComms.Conversations (ActiveMember Membership MembershipStep SharedConversation)

variable {facts : CallFacts} {subject : CallSubject} {scope scope' : CallScope} {call : AudioCall}
  {participant : AudioCallParticipant} {target : RevocationScope}

/-! ### What a command keeps -/

/-- A command that completes no eviction. -/
structure Keeps (scope scope' : CallScope) : Prop where
  safe : Safe scope → Safe scope'
  progress : Progress scope scope'

variable {callId userId : String} {timestamp : Int} {mediaKind : MediaKind} {participantId identity : String}
  {expectedKind : Option MediaKind} {shared : SharedConversation} {step : MembershipStep}

theorem Keeps.refl (scope : CallScope) : Keeps scope scope := ⟨id, .refl scope⟩

theorem Keeps.trans {a b c : CallScope} (h : Keeps a b) (h' : Keeps b c) : Keeps a c :=
  ⟨fun hsafe => h'.safe (h.safe hsafe), h.progress.trans h'.progress⟩

theorem Revoked.keeps (h : Revoked target scope scope') : Keeps scope scope' := ⟨h.safe, h.progress⟩

theorem Started.keeps (h : Started call scope scope') : Keeps scope scope' := ⟨h.safe, h.progress⟩

theorem Ended.keeps (h : Ended call.id scope scope') (hcall : call ∈ scope.calls.rows) : Keeps scope scope' :=
  ⟨h.safe hcall, h.progress⟩

theorem Admits.keeps (h : Admits call participant scope scope') (hcall : call ∈ scope.calls.rows)
    (hopen : call.isOpen = true) : Keeps scope scope' :=
  ⟨h.safe hcall hopen, h.progress⟩

/-! ### Starts and joins -/

theorem start_commits {status : StartStatus}
    (h : (start facts subject callId mediaKind scope).Commits (call, status, scope')) :
    Started call scope scope' ∧ ActiveMember scope.shared subject.userId := by
  simp only [start, commits_bind] at h
  obtain ⟨-, -, access, haccess, -, -, hlocked⟩ := h
  exact ⟨startLocked_started hlocked, lockCallAccess_commits haccess⟩

theorem ensureActive_commits {now : Int} {u : Unit} (h : (ensureActive now call).Commits u) :
    call.status = .active ∧ now < call.expiresAt := by
  unfold ensureActive at h
  split at h
  · exact absurd h (commits_rollback _ _)
  · exact absurd h (commits_rollback _ _)
  · rename_i hactive
    rw [commits_check, expired, Bool.not_eq_true', decide_eq_false_iff_not, Int.not_le] at h
    exact ⟨hactive, h⟩

theorem isOpen_of_active (h : call.status = .active) : call.isOpen = true := by
  simp [AudioCall.isOpen, h]

theorem lockCall_commits (h : (lockCall callId scope).Commits call) : call ∈ scope.calls.rows := by
  unfold lockCall at h
  split at h
  · exact absurd h (commits_rollback _ _)
  · rename_i found hfind
    rw [commits_pure] at h
    rw [← h]
    exact (KeyedTable.find_eq_some.mp hfind).1

/-- What a committed credential stands for. -/
structure Granted (facts : CallFacts) (call : AudioCall) (participant : AudioCallParticipant)
    (scope scope' : CallScope) : Prop where
  active : call.status = .active
  unexpired : facts.ensuredAt < call.expiresAt
  callRow : call ∈ scope'.calls.rows
  participantRow : ∃ row ∈ scope'.participants.rows, row.id = participant.id ∧ row.status = .admitted ∧
    row.audioCallId = call.id
  keeps : Keeps scope scope'

theorem startWithJoinAuthorized_granted
    (h : (startWithJoinAuthorized facts subject callId participantId identity mediaKind scope).Commits
      (call, participant, scope')) : Granted facts call participant scope scope' := by
  simp only [startWithJoinAuthorized, commits_bind, commits_pure, Prod.mk.injEq] at h
  obtain ⟨⟨started, status, middle⟩, hstart, u, hensure, ⟨admitted, after⟩, hadmit, rfl, rfl, rfl⟩ := h
  obtain ⟨hstarted, hmember⟩ := start_commits hstart
  obtain ⟨hactive, hunexpired⟩ := ensureActive_commits hensure
  rw [← hstarted.shared] at hmember
  have hadmits := admitAndIssue_admits hadmit hmember
  refine ⟨hactive, hunexpired, ?_, hadmits.participant, ?_⟩
  · rw [hadmits.calls]
    exact hstarted.call
  · exact hstarted.keeps.trans (hadmits.keeps hstarted.call (isOpen_of_active hactive))

theorem withJoinAuthorized_granted
    (h : (withJoinAuthorized facts subject callId participantId identity expectedKind scope).Commits
      (call, participant, scope')) : Granted facts call participant scope scope' := by
  simp only [withJoinAuthorized, commits_bind, commits_pure, Prod.mk.injEq] at h
  obtain ⟨access, haccess, found, hlock, -, -, -, -, u, hensure, ⟨admitted, after⟩, hadmit, rfl, rfl, rfl⟩ := h
  obtain ⟨hactive, hunexpired⟩ := ensureActive_commits hensure
  have hcall := lockCall_commits hlock
  have hadmits := admitAndIssue_admits hadmit (lockCallAccess_commits haccess)
  refine ⟨hactive, hunexpired, ?_, hadmits.participant, hadmits.keeps hcall (isOpen_of_active hactive)⟩
  rw [hadmits.calls]
  exact hcall

/-! ### Ends -/

theorem endCall_keeps {reason : Option String} {ended : AudioCall}
    (h : (endCall facts subject callId reason expectedKind scope).Commits (ended, scope')) : Keeps scope scope' := by
  simp only [endCall, commits_bind] at h
  obtain ⟨text, -, access, -, found, hlock, -, -, -, -, h⟩ := h
  split at h
  · rw [commits_pure, Prod.mk.injEq] at h
    rw [h.2]
    exact .refl _
  · exact absurd h (commits_rollback _ _)
  · exact (endActive_ended h).keeps (lockCall_commits hlock)

theorem expireCall_keeps {result : ExpiryResult}
    (h : (expireCall facts callId scope).Commits (result, scope')) : Keeps scope scope' := by
  simp only [expireCall, commits_bind] at h
  obtain ⟨-, -, found, hlock, h⟩ := h
  split at h
  · rw [commits_pure, Prod.mk.injEq] at h
    rw [h.2]
    exact .refl _
  · exact absurd h (commits_rollback _ _)
  · split at h
    · rw [commits_pure, Prod.mk.injEq] at h
      rw [h.2]
      exact .refl _
    · simp only [commits_bind, commits_pure, Prod.mk.injEq] at h
      obtain ⟨⟨ended, after⟩, hend, -, rfl⟩ := h
      exact (endActive_ended hend).keeps (lockCall_commits hlock)

theorem cancelMeeting_keeps {callIds : List String} (h : (cancelMeeting facts callIds scope).Commits scope') :
    Keeps scope scope' := by
  simp only [cancelMeeting, commits_bind] at h
  obtain ⟨-, -, h⟩ := h
  refine commits_foldlM Keeps.refl (fun _ _ _ => Keeps.trans) ?_ callIds h
  exact fun _ _ _ hrevoke => (revokeAll_commits hrevoke).keeps

/-! ### The end of memberships -/

/-- Memberships may end if the same transaction revokes the admissions of their users. -/
theorem Revoked.keeps_of_shared (h : Revoked target { scope with shared := shared } scope')
    (hkept : ∀ participant : AudioCallParticipant, target.covers scope.calls participant = false →
      ActiveMember scope.shared participant.userId → ActiveMember shared participant.userId) : Keeps scope scope' := by
  have hrevoked : Revoked target scope { scope' with shared := scope.shared } :=
    ⟨rfl, h.calls, h.participants, h.admitted⟩
  refine ⟨fun hsafe => ?_, hrevoked.progress.calls, hrevoked.progress.participants⟩
  have hbefore := hrevoked.safe hsafe
  refine ⟨hbefore.oneOpen, hbefore.admittedOpen, fun row hrow => ?_⟩
  rw [h.shared]
  exact hkept row (hrevoked.not_covered hsafe hrow) (hbefore.admittedMember row hrow)

theorem activeMember_endMembership {other : String} (hother : other ≠ userId)
    (h : ActiveMember scope.shared other) : ActiveMember (endMembership userId timestamp scope).shared other := by
  obtain ⟨membership, hrow, huser, hactive⟩ := h
  refine ⟨membership, ?_, huser, hactive⟩
  refine KeyedTable.mem_modify_of_not _ (Conversations.Membership.leave_userId timestamp) hrow ?_
  rw [Bool.and_eq_false_iff, decide_eq_false_iff_not, huser]
  exact .inl hother

/-- The membership of one user ends, and the admissions of this user are revoked. -/
theorem endMembership_keeps {reason : String}
    (h : (revokeAll facts (.membership userId) reason (endMembership userId timestamp scope)).Commits scope') :
    Keeps scope scope' := by
  refine (revokeAll_commits h).keeps_of_shared fun row hcovers hmember => ?_
  rw [RevocationScope.covers, decide_eq_false_iff_not] at hcovers
  exact activeMember_endMembership hcovers hmember

theorem expireRoom_keeps (h : (expireRoom facts timestamp scope).Commits scope') :
    Keeps scope scope' := by
  refine commits_foldlM Keeps.refl (fun _ _ _ => Keeps.trans) ?_ _ h
  exact fun _ _ _ hend => endMembership_keeps hend

theorem eraseUser_keeps (h : (eraseUser facts userId timestamp scope).Commits scope') : Keeps scope scope' := by
  simp only [eraseUser, commits_bind, commits_pure] at h
  obtain ⟨middle, hrevoke, rfl⟩ := h
  have hrevoked := revokeAll_commits hrevoke
  refine ⟨fun hsafe => ?_, hrevoked.progress.calls, hrevoked.progress.participants⟩
  have hmiddle := hrevoked.safe hsafe
  refine ⟨hmiddle.oneOpen, hmiddle.admittedOpen, fun row hrow => ?_⟩
  have hcovers := hrevoked.not_covered hsafe hrow
  rw [RevocationScope.covers, decide_eq_false_iff_not] at hcovers
  exact activeMember_endMembership hcovers (hmiddle.admittedMember row hrow)

/-- A command on memberships revokes the admissions of those whose membership it ends. -/
theorem ends_of_revocationAfter (hmember : ActiveMember shared userId) (hends : step.Ends userId) :
    ∃ reason, revocationAfter step shared = some (.membership userId, reason) := by
  unfold revocationAfter
  rcases hends with ⟨expectedVersion, hcommand⟩ | ⟨expectedVersion, hcommand, hsubject⟩
  · rw [hcommand]
    exact ⟨_, rfl⟩
  · obtain ⟨membership, hrow, huser, hactive⟩ := hmember
    have hfind : shared.memberships.find step.subject = some membership :=
      KeyedTable.find_eq_some.mpr ⟨hrow, huser.trans hsubject.symm⟩
    rw [hcommand, hfind, hsubject]
    simp [hactive]

theorem changeMembership_keeps (h : (changeMembership facts step scope).Commits scope') :
    Keeps scope scope' := by
  simp only [changeMembership, commits_bind, commits_ofExcept] at h
  obtain ⟨shared, hshared, h⟩ := h
  have hstep : (step.transaction scope.shared).Commits shared := by
    unfold Commits
    cases houtcome : (step.transaction scope.shared).outcome with
    | error reason => rw [houtcome] at hshared; cases hshared
    | ok other => rw [houtcome] at hshared; cases hshared; rfl
  split at h
  · rename_i hnone
    rw [commits_pure] at h
    subst h
    refine ⟨fun hsafe => ⟨hsafe.oneOpen, hsafe.admittedOpen, fun row hrow => ?_⟩, .refl _,
      KeyedTable.grows_refl Moves.refl⟩
    have hmember := hsafe.admittedMember row hrow
    refine Conversations.activeMember_kept hstep hmember fun hends => ?_
    obtain ⟨reason, hsome⟩ := ends_of_revocationAfter hmember hends
    rw [hnone] at hsome
    cases hsome
  · rename_i target reason hsome
    refine (revokeAll_commits h).keeps_of_shared fun row hcovers hmember => ?_
    refine Conversations.activeMember_kept hstep hmember fun hends => ?_
    obtain ⟨_, hother⟩ := ends_of_revocationAfter hmember hends
    rw [hsome, Option.some.injEq, Prod.mk.injEq] at hother
    rw [hother.1, RevocationScope.covers, decide_eq_false_iff_not] at hcovers
    exact hcovers rfl

end KComms.AudioCalls.Lifecycle
