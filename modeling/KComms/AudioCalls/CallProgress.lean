import KComms.AudioCalls.CallSystem
import KComms.Conversations.ActiveMembers

/-!
# What the parts of the commands on calls do

All parts keep the rows in order (`Safe`): one call is open at most, and whoever is admitted is a member and is in an
open call.  They move rows in one direction only (`Progress`): an ended call stays ended, a revoked admission stays
revoked, and only the record of an eviction completes it.
-/

namespace KComms.AudioCalls.Lifecycle

open Attempt
open KComms.Conversations (ActiveMember Membership)

/-! ### The invariant and the direction of rows -/

def Admitted (scope : CallScope) (participant : AudioCallParticipant) : Prop :=
  participant ∈ scope.participants.rows ∧ participant.status = .admitted

structure Safe (scope : CallScope) : Prop where
  oneOpen : ∀ a ∈ scope.calls.rows, ∀ b ∈ scope.calls.rows, a.isOpen = true → b.isOpen = true → a = b
  admittedOpen : ∀ participant, Admitted scope participant →
    ∃ call ∈ scope.calls.rows, call.id = participant.audioCallId ∧ call.isOpen = true
  admittedMember : ∀ participant, Admitted scope participant → ActiveMember scope.shared participant.userId

/-- What may become of a participant when these evictions may be completed. -/
structure Moves (Completes : AudioCallParticipant → Prop) (participant participant' : AudioCallParticipant) :
    Prop where
  id : participant'.id = participant.id
  revoked : participant.status ≠ .admitted → participant'.status ≠ .admitted
  completed : participant'.evictionStatus = .completed →
    participant.evictionStatus = .completed ∨ Completes participant

/-- What becomes of a participant when no eviction is completed. -/
abbrev Calm : AudioCallParticipant → AudioCallParticipant → Prop := Moves fun _ => False

variable {reason callId userId participantId identity : String} {endedByUserId actor : Option String}
  {mediaKind : MediaKind} {ended : AudioCall}

theorem Moves.refl {Completes : AudioCallParticipant → Prop} (participant : AudioCallParticipant) :
    Moves Completes participant participant :=
  ⟨rfl, fun h => h, .inl⟩

theorem Calm.trans {a b c : AudioCallParticipant} (h : Calm a b) (h' : Calm b c) : Calm a c := by
  refine ⟨h'.id.trans h.id, fun hrevoked => h'.revoked (h.revoked hrevoked), fun hcompleted => ?_⟩
  rcases h'.completed hcompleted with hcompleted | hfalse
  · exact h.completed hcompleted
  · exact absurd hfalse id

def Uncompleted (participant : AudioCallParticipant) : Prop := participant.evictionStatus ≠ .completed

/-- The calls that have ended stay so. -/
def CallsKept (calls calls' : KeyedTable AudioCall.id) : Prop :=
  ∀ call ∈ calls.rows, ∃ call' ∈ calls'.rows, call'.id = call.id ∧ (call.status = .ended → call'.status = .ended)

theorem CallsKept.refl (calls : KeyedTable AudioCall.id) : CallsKept calls calls :=
  fun call hcall => ⟨call, hcall, rfl, fun h => h⟩

theorem CallsKept.trans {a b c : KeyedTable AudioCall.id} (h : CallsKept a b) (h' : CallsKept b c) :
    CallsKept a c := by
  intro call hcall
  obtain ⟨call', hcall', hid, hended⟩ := h call hcall
  obtain ⟨call'', hcall'', hid', hended'⟩ := h' call' hcall'
  exact ⟨call'', hcall'', hid'.trans hid, fun h => hended' (hended h)⟩

structure Progress (scope scope' : CallScope) : Prop where
  calls : CallsKept scope.calls scope'.calls
  participants : scope.participants.Grows Calm Uncompleted scope'.participants

theorem Progress.refl (scope : CallScope) : Progress scope scope :=
  ⟨.refl _, KeyedTable.grows_refl Moves.refl⟩

theorem Progress.trans {a b c : CallScope} (h : Progress a b) (h' : Progress b c) : Progress a c := by
  refine ⟨h.calls.trans h'.calls, h.participants.trans h'.participants (fun _ _ _ => Calm.trans) ?_⟩
  intro participant participant' hnew hcalm hcompleted
  rcases hcalm.completed hcompleted with hcompleted | hfalse
  · exact hnew hcompleted
  · exact hfalse

variable {facts : CallFacts} {subject : CallSubject} {scope scope' : CallScope} {call : AudioCall}
  {participant : AudioCallParticipant} {target : RevocationScope}

/-! ### Revocation -/

theorem revokeMatching_commits {count : Nat} (h : (revokeMatching facts target reason scope).Commits (count, scope')) :
    scope'.shared = scope.shared ∧ scope'.calls = scope.calls ∧ ∃ text now enforceUntil,
      scope'.participants = scope.participants.modify (revocable target scope.calls)
        (AudioCallParticipant.revoke text now enforceUntil) (AudioCallParticipant.revoke_id text now enforceUntil) := by
  simp only [revokeMatching, commits_bind, commits_pure, Prod.mk.injEq] at h
  obtain ⟨text, -, -, -, -, -, -, rfl⟩ := h
  exact ⟨rfl, rfl, text, _, _, rfl⟩

/-- What a revocation writes, as the other parts use it. -/
structure Revoked (target : RevocationScope) (scope scope' : CallScope) : Prop where
  shared : scope'.shared = scope.shared
  calls : scope'.calls = scope.calls
  participants : scope.participants.Related Calm scope'.participants
  admitted : ∀ participant, Admitted scope' participant →
    Admitted scope participant ∧ revocable target scope.calls participant = false

theorem revoked_of_commits {count : Nat}
    (h : (revokeMatching facts target reason scope).Commits (count, scope')) : Revoked target scope scope' := by
  obtain ⟨hshared, hcalls, text, now, enforceUntil, hparticipants⟩ := revokeMatching_commits h
  refine ⟨hshared, hcalls, ?_, ?_⟩
  · rw [hparticipants]
    refine KeyedTable.related_modify _ (AudioCallParticipant.revoke_id text now enforceUntil) Moves.refl ?_
    intro row _ _
    refine ⟨rfl, fun _ => ?_, fun hcompleted => ?_⟩
    · intro hadmitted
      cases hadmitted
    · cases hcompleted
  · rintro row ⟨hrow, hadmitted⟩
    rw [hparticipants, KeyedTable.mem_modify] at hrow
    rcases hrow with ⟨hrow, hother⟩ | ⟨old, -, -, rfl⟩
    · exact ⟨⟨hrow, hadmitted⟩, hother⟩
    · cases hadmitted

theorem revokeAll_commits (h : (revokeAll facts target reason scope).Commits scope') :
    Revoked target scope scope' := by
  simp only [revokeAll, commits_bind, commits_pure] at h
  obtain ⟨⟨count, _⟩, h, rfl⟩ := h
  exact revoked_of_commits h

theorem Revoked.progress (h : Revoked target scope scope') : Progress scope scope' := by
  refine ⟨?_, h.participants.grows⟩
  rw [h.calls]
  exact .refl _

/-- A participant of an open call who is still admitted was not in the scope of the revocation. -/
theorem Revoked.not_covered (h : Revoked target scope scope') (hsafe : Safe scope)
    (hadmitted : Admitted scope' participant) : target.covers scope.calls participant = false := by
  obtain ⟨hbefore, hrevocable⟩ := h.admitted participant hadmitted
  obtain ⟨call, hcall, hid, hopen⟩ := hsafe.admittedOpen participant hbefore
  have hfind : scope.calls.find participant.audioCallId = some call := KeyedTable.find_eq_some.mpr ⟨hcall, hid⟩
  rw [revocable, hfind, hbefore.2, Option.any_some, hopen] at hrevocable
  simpa using hrevocable

theorem Revoked.safe (h : Revoked target scope scope') (hsafe : Safe scope) : Safe scope' := by
  constructor
  · rw [h.calls]
    exact hsafe.oneOpen
  · intro row hrow
    rw [h.calls]
    exact hsafe.admittedOpen row (h.admitted row hrow).1
  · intro row hrow
    rw [h.shared]
    exact hsafe.admittedMember row (h.admitted row hrow).1

/-! ### The end of a call -/

theorem finishCall_commits (h : (finishCall facts actor endedByUserId reason call scope).Commits (ended, scope')) :
    ∃ middle, Revoked (.call call.id) scope middle ∧ scope'.shared = middle.shared ∧
      scope'.participants = middle.participants ∧
      scope'.calls = middle.calls.update call.id (AudioCall.finish endedByUserId reason facts.endedAt)
        (AudioCall.finish_id endedByUserId reason facts.endedAt) := by
  simp only [finishCall, commits_bind, commits_pure, Prod.mk.injEq] at h
  obtain ⟨⟨count, middle⟩, hrevoked, -, -, -, rfl⟩ := h
  exact ⟨middle, revoked_of_commits hrevoked, rfl, rfl, rfl⟩

/-- The rows while a call is ending. -/
def endingScope (call : AudioCall) (scope : CallScope) : CallScope :=
  { scope with calls := scope.calls.update call.id AudioCall.beginEnding AudioCall.beginEnding_id }

theorem endActive_commits (h : (endActive facts actor endedByUserId reason call scope).Commits (ended, scope')) :
    ∃ middle, Revoked (.call call.id) (endingScope call scope) middle ∧ scope'.shared = middle.shared ∧
      scope'.participants = middle.participants ∧
      scope'.calls = middle.calls.update call.id (AudioCall.finish endedByUserId reason facts.endedAt)
        (AudioCall.finish_id endedByUserId reason facts.endedAt) := by
  simp only [endActive, commits_bind] at h
  obtain ⟨-, -, hfinish⟩ := h
  obtain ⟨middle, hrevoked, hshared, hparticipants, hcalls⟩ := finishCall_commits hfinish
  exact ⟨middle, hrevoked, hshared, hparticipants, hcalls⟩

/-- What the end of a call does. -/
structure Ended (callId : String) (scope scope' : CallScope) : Prop where
  shared : scope'.shared = scope.shared
  isOpen : ∀ other ∈ scope'.calls.rows, other.isOpen = true → other ∈ scope.calls.rows ∧ other.id ≠ callId
  others : ∀ other ∈ scope.calls.rows, other.id ≠ callId → other ∈ scope'.calls.rows
  admitted : ∀ participant, Admitted scope' participant → Admitted scope participant
  revoked : ∀ other ∈ scope.calls.rows, other.id = callId → ∀ participant, Admitted scope' participant →
    participant.audioCallId ≠ callId
  progress : Progress scope scope'

private theorem mem_endedCalls {now : Int} {calls calls' : KeyedTable AudioCall.id}
    (hcalls : calls' = (calls.update callId AudioCall.beginEnding AudioCall.beginEnding_id).update callId
      (AudioCall.finish endedByUserId reason now) (AudioCall.finish_id endedByUserId reason now)) (other : AudioCall) :
    other ∈ calls'.rows ↔ (other ∈ calls.rows ∧ other.id ≠ callId) ∨ ∃ old ∈ calls.rows, old.id = callId ∧
      other = (old.beginEnding).finish endedByUserId reason now := by
  rw [hcalls, KeyedTable.mem_update, KeyedTable.mem_update]
  constructor
  · rintro (⟨⟨hother, hid⟩ | ⟨old, hold, hid, rfl⟩, hne⟩ | ⟨old, hold, hid, rfl⟩)
    · exact .inl ⟨hother, hid⟩
    · exact absurd hid hne
    · rw [KeyedTable.mem_update] at hold
      rcases hold with ⟨-, hne⟩ | ⟨older, holder, holderId, rfl⟩
      · exact absurd hid hne
      · exact .inr ⟨older, holder, holderId, rfl⟩
  · rintro (⟨hother, hid⟩ | ⟨old, hold, hid, rfl⟩)
    · exact .inl ⟨.inl ⟨hother, hid⟩, hid⟩
    · exact .inr ⟨old.beginEnding, KeyedTable.mem_update.mpr (.inr ⟨old, hold, hid, rfl⟩), hid, rfl⟩

theorem endActive_ended (h : (endActive facts actor endedByUserId reason call scope).Commits (ended, scope')) :
    Ended call.id scope scope' := by
  obtain ⟨middle, hrevoked, hshared, hparticipants, hcalls⟩ := endActive_commits h
  rw [hrevoked.calls] at hcalls
  have hmem := mem_endedCalls hcalls
  have hadmitted : ∀ participant, Admitted scope' participant → Admitted middle participant := by
    rintro participant ⟨hrow, hstatus⟩
    rw [hparticipants] at hrow
    exact ⟨hrow, hstatus⟩
  refine ⟨hshared.trans hrevoked.shared, ?_, ?_, ?_, ?_, ?_, ?_⟩
  · intro other hother hopen
    rcases (hmem other).mp hother with hother | ⟨old, -, -, rfl⟩
    · exact hother
    · cases hopen
  · exact fun other hother hid => (hmem other).mpr (.inl ⟨hother, hid⟩)
  · exact fun participant h => (hrevoked.admitted participant (hadmitted participant h)).1
  · intro other hother hid participant hstill hsame
    obtain ⟨⟨-, hstatus⟩, hrevocable⟩ := hrevoked.admitted participant (hadmitted participant hstill)
    -- while the call is ending it counts as open, so its participants are revoked
    have hending : other.beginEnding ∈
        (scope.calls.update call.id AudioCall.beginEnding AudioCall.beginEnding_id).rows :=
      KeyedTable.mem_update.mpr (.inr ⟨other, hother, hid, rfl⟩)
    have hfind : (endingScope call scope).calls.find call.id = some other.beginEnding :=
      KeyedTable.find_eq_some.mpr ⟨hending, hid⟩
    rw [revocable, RevocationScope.covers, hsame, hfind, hstatus] at hrevocable
    simp [AudioCall.beginEnding, AudioCall.isOpen] at hrevocable
  · intro other hother
    by_cases hid : other.id = call.id
    · exact ⟨_, (hmem _).mpr (.inr ⟨other, hother, hid, rfl⟩), rfl, fun _ => rfl⟩
    · exact ⟨other, (hmem other).mpr (.inl ⟨hother, hid⟩), rfl, fun h => h⟩
  · rw [hparticipants]
    exact hrevoked.participants.grows

theorem Ended.safe (h : Ended call.id scope scope') (hcall : call ∈ scope.calls.rows) (hsafe : Safe scope) :
    Safe scope' := by
  constructor
  · intro a ha b hb hopenA hopenB
    exact hsafe.oneOpen a (h.isOpen a ha hopenA).1 b (h.isOpen b hb hopenB).1 hopenA hopenB
  · intro participant hadmitted
    obtain ⟨other, hother, hid, hopen⟩ := hsafe.admittedOpen participant (h.admitted participant hadmitted)
    have hne := h.revoked call hcall rfl participant hadmitted
    rw [← hid] at hne
    exact ⟨other, h.others other hother hne, hid, hopen⟩
  · intro participant hadmitted
    rw [h.shared]
    exact hsafe.admittedMember participant (h.admitted participant hadmitted)

/-- After the end of the open call there is no open one. -/
theorem Ended.none_open (h : Ended call.id scope scope') (hcall : call ∈ scope.calls.rows) (hopen : call.isOpen = true)
    (hsafe : Safe scope) : ∀ other ∈ scope'.calls.rows, other.isOpen = false := by
  intro other hother
  cases hotherOpen : other.isOpen with
  | false => rfl
  | true =>
    obtain ⟨hbefore, hid⟩ := h.isOpen other hother hotherOpen
    rw [hsafe.oneOpen other hbefore call hcall hotherOpen hopen] at hid
    exact absurd rfl hid

/-! ### New calls -/

theorem createCall_commits (h : (createCall facts callId userId mediaKind scope).Commits (call, scope')) :
    call.status = .active ∧ scope'.shared = scope.shared ∧ scope'.participants = scope.participants ∧
      scope.calls.insert call = some scope'.calls := by
  simp only [createCall, commits_bind] at h
  obtain ⟨-, -, h⟩ := h
  split at h
  · exact absurd h (commits_rollback _ _)
  · rename_i calls hinsert
    rw [commits_pure, Prod.mk.injEq] at h
    obtain ⟨rfl, rfl⟩ := h
    exact ⟨rfl, rfl, rfl, hinsert⟩

theorem createCall_safe (h : (createCall facts callId userId mediaKind scope).Commits (call, scope'))
    (hnone : ∀ other ∈ scope.calls.rows, other.isOpen = false) (hsafe : Safe scope) : Safe scope' := by
  obtain ⟨-, hshared, hparticipants, hinsert⟩ := createCall_commits h
  have hadmitted : ∀ participant, Admitted scope' participant → Admitted scope participant := by
    rintro participant ⟨hrow, hstatus⟩
    rw [hparticipants] at hrow
    exact ⟨hrow, hstatus⟩
  -- no other call is open
  have honly : ∀ other ∈ scope'.calls.rows, other.isOpen = true → other = call := by
    intro other hother hopen
    rcases (KeyedTable.mem_insert hinsert).mp hother with rfl | hother
    · rfl
    · rw [hnone other hother] at hopen
      cases hopen
  constructor
  · intro a ha b hb hopenA hopenB
    rw [honly a ha hopenA, honly b hb hopenB]
  · intro participant hparticipant
    obtain ⟨other, hother, hid, hopen⟩ := hsafe.admittedOpen participant (hadmitted participant hparticipant)
    exact ⟨other, (KeyedTable.mem_insert hinsert).mpr (.inr hother), hid, hopen⟩
  · intro participant hparticipant
    rw [hshared]
    exact hsafe.admittedMember participant (hadmitted participant hparticipant)

theorem createCall_progress
    (h : (createCall facts callId userId mediaKind scope).Commits (call, scope')) : Progress scope scope' := by
  obtain ⟨-, -, hparticipants, hinsert⟩ := createCall_commits h
  constructor
  · exact fun other hother => ⟨other, (KeyedTable.mem_insert hinsert).mpr (.inr hother), rfl, fun h => h⟩
  · rw [hparticipants]
    exact KeyedTable.grows_refl Moves.refl

/-- What `start` finds or makes: a call of the table. -/
structure Started (call : AudioCall) (scope scope' : CallScope) : Prop where
  shared : scope'.shared = scope.shared
  call : call ∈ scope'.calls.rows
  safe : Safe scope → Safe scope'
  progress : Progress scope scope'

theorem startLocked_started {status : StartStatus}
    (h : (startLocked facts callId userId mediaKind scope).Commits (call, status, scope')) :
    Started call scope scope' := by
  unfold startLocked at h
  split at h
  · rename_i hfind
    simp only [commits_bind, commits_pure, Prod.mk.injEq] at h
    obtain ⟨⟨created, written⟩, hcreate, rfl, -, rfl⟩ := h
    obtain ⟨-, hshared, -, hinsert⟩ := createCall_commits hcreate
    have hnone : ∀ other ∈ scope.calls.rows, other.isOpen = false := by
      intro other hother
      have hother := List.find?_eq_none.mp hfind other hother
      exact Bool.eq_false_iff.mpr hother
    exact ⟨hshared, (KeyedTable.mem_insert hinsert).mpr (.inl rfl), createCall_safe hcreate hnone,
      createCall_progress hcreate⟩
  · rename_i found hfind
    have hfound := List.mem_of_find?_eq_some hfind
    have hopen := List.find?_some hfind
    split at h
    · exact absurd h (commits_rollback _ _)
    · split at h
      · simp only [commits_bind, commits_pure, Prod.mk.injEq] at h
        obtain ⟨⟨ended, middle⟩, hend, ⟨created, written⟩, hcreate, rfl, -, rfl⟩ := h
        have hended := endActive_ended hend
        obtain ⟨-, hshared, -, hinsert⟩ := createCall_commits hcreate
        refine ⟨hshared.trans hended.shared, (KeyedTable.mem_insert hinsert).mpr (.inl rfl), fun hsafe => ?_,
          hended.progress.trans (createCall_progress hcreate)⟩
        exact createCall_safe hcreate (hended.none_open hfound hopen hsafe) (hended.safe hfound hsafe)
      · simp only [commits_bind, commits_pure, Prod.mk.injEq] at h
        obtain ⟨-, -, rfl, -, rfl⟩ := h
        exact ⟨rfl, hfound, id, .refl _⟩

/-! ### Admission -/

theorem lockCallAccess_commits {access : CallAccess} (h : (lockCallAccess facts subject scope).Commits access) :
    ActiveMember scope.shared subject.userId := by
  unfold lockCallAccess at h
  split at h
  · exact absurd h (commits_rollback _ _)
  · simp only [commits_bind] at h
    obtain ⟨-, -, -, -, h⟩ := h
    split at h
    · exact absurd h (commits_rollback _ _)
    · rename_i membership hmembership
      rw [Option.filter_eq_some_iff] at hmembership
      obtain ⟨hfind, hactive⟩ := hmembership
      obtain ⟨hrow, hid⟩ := KeyedTable.find_eq_some.mp hfind
      exact ⟨membership, hrow, hid, hactive⟩

/-- What an admission does. -/
structure Admits (call : AudioCall) (participant : AudioCallParticipant) (scope scope' : CallScope) : Prop where
  shared : scope'.shared = scope.shared
  calls : scope'.calls = scope.calls
  participant : ∃ row ∈ scope'.participants.rows, row.id = participant.id ∧ row.status = .admitted ∧
    row.audioCallId = call.id
  safe : call ∈ scope.calls.rows → call.isOpen = true → Safe scope → Safe scope'
  progress : Progress scope scope'

theorem activeAdmission_commits
    (h : (activeAdmission facts call subject participantId identity scope).Commits (participant, scope')) :
    participant ∈ scope'.participants.rows ∧ participant.status = .admitted ∧ participant.audioCallId = call.id ∧
      (scope' = scope ∨ (participant.userId = subject.userId ∧ participant.evictionStatus = .notRequired ∧
        scope'.shared = scope.shared ∧ scope'.calls = scope.calls ∧
        scope.participants.insert participant = some scope'.participants)) := by
  unfold activeAdmission at h
  split at h
  · rename_i found hfind
    rw [commits_pure, Prod.mk.injEq] at h
    obtain ⟨rfl, rfl⟩ := h
    have hfound := List.find?_some hfind
    simp only [Bool.and_eq_true, decide_eq_true_eq] at hfound
    exact ⟨List.mem_of_find?_eq_some hfind, hfound.2, hfound.1.1, .inl rfl⟩
  · simp only [commits_bind] at h
    obtain ⟨-, -, h⟩ := h
    split at h
    · exact absurd h (commits_rollback _ _)
    · rename_i participants hinsert
      rw [commits_pure, Prod.mk.injEq] at h
      obtain ⟨rfl, rfl⟩ := h
      exact ⟨(KeyedTable.mem_insert hinsert).mpr (.inl rfl), rfl, rfl, .inr ⟨rfl, rfl, rfl, rfl, hinsert⟩⟩

theorem activeAdmission_safe
    (h : (activeAdmission facts call subject participantId identity scope).Commits (participant, scope'))
    (hmember : ActiveMember scope.shared subject.userId) (hcall : call ∈ scope.calls.rows) (hopen : call.isOpen = true)
    (hsafe : Safe scope) : Safe scope' := by
  obtain ⟨-, -, hid, hsame | ⟨huser, -, hshared, hcalls, hinsert⟩⟩ := activeAdmission_commits h
  · rw [hsame]
    exact hsafe
  · constructor
    · rw [hcalls]
      exact hsafe.oneOpen
    · rintro row ⟨hrow, hstatus⟩
      rw [hcalls]
      rcases (KeyedTable.mem_insert hinsert).mp hrow with rfl | hrow
      · exact ⟨call, hcall, hid.symm, hopen⟩
      · exact hsafe.admittedOpen row ⟨hrow, hstatus⟩
    · rintro row ⟨hrow, hstatus⟩
      rw [hshared]
      rcases (KeyedTable.mem_insert hinsert).mp hrow with rfl | hrow
      · rw [huser]
        exact hmember
      · exact hsafe.admittedMember row ⟨hrow, hstatus⟩

theorem activeAdmission_progress
    (h : (activeAdmission facts call subject participantId identity scope).Commits (participant, scope')) :
    Progress scope scope' := by
  obtain ⟨-, -, -, hsame | ⟨-, heviction, -, hcalls, hinsert⟩⟩ := activeAdmission_commits h
  · rw [hsame]
    exact .refl _
  · constructor
    · rw [hcalls]
      exact .refl _
    · refine KeyedTable.grows_insert Moves.refl (fun hcompleted => ?_) hinsert
      rw [heviction] at hcompleted
      cases hcompleted

theorem issueCredential_commits (h : (issueCredential facts call participant scope).Commits scope') :
    scope' = { scope with
      participants := scope.participants.update participant.id (AudioCallParticipant.recordIssuance facts.issuedAt)
        (AudioCallParticipant.recordIssuance_id facts.issuedAt) } := by
  simp only [issueCredential, commits_bind, commits_pure] at h
  obtain ⟨-, -, -, -, rfl⟩ := h
  rfl

/-- The record of a credential changes nothing that the invariant reads. -/
theorem issueCredential_admitted (h : (issueCredential facts call participant scope).Commits scope')
    {row : AudioCallParticipant} (hrow : Admitted scope' row) :
    ∃ before, Admitted scope before ∧ before.audioCallId = row.audioCallId ∧ before.userId = row.userId := by
  obtain ⟨hmem, hstatus⟩ := hrow
  rw [issueCredential_commits h, KeyedTable.mem_update] at hmem
  rcases hmem with ⟨hmem, -⟩ | ⟨old, hold, -, rfl⟩
  · exact ⟨row, ⟨hmem, hstatus⟩, rfl, rfl⟩
  · exact ⟨old, ⟨hold, hstatus⟩, rfl, rfl⟩

theorem issueCredential_safe (h : (issueCredential facts call participant scope).Commits scope') (hsafe : Safe scope) :
    Safe scope' := by
  have hsame := issueCredential_commits h
  constructor
  · rw [hsame]
    exact hsafe.oneOpen
  · intro row hrow
    obtain ⟨before, hbefore, hcall, -⟩ := issueCredential_admitted h hrow
    rw [hsame, ← hcall]
    exact hsafe.admittedOpen before hbefore
  · intro row hrow
    obtain ⟨before, hbefore, -, huser⟩ := issueCredential_admitted h hrow
    rw [hsame, ← huser]
    exact hsafe.admittedMember before hbefore

theorem issueCredential_progress (h : (issueCredential facts call participant scope).Commits scope') :
    Progress scope scope' := by
  rw [issueCredential_commits h]
  refine ⟨.refl _, KeyedTable.Related.grows ?_⟩
  refine KeyedTable.related_modify _ (AudioCallParticipant.recordIssuance_id facts.issuedAt) Moves.refl ?_
  exact fun row _ _ => ⟨rfl, fun h => h, .inl⟩

theorem admitAndIssue_admits
    (h : (admitAndIssue facts call subject participantId identity scope).Commits (participant, scope'))
    (hmember : ActiveMember scope.shared subject.userId) : Admits call participant scope scope' := by
  simp only [admitAndIssue, commits_bind, commits_pure, Prod.mk.injEq] at h
  obtain ⟨-, -, -, -, ⟨admitted, middle⟩, hadmission, written, hissue, rfl, rfl⟩ := h
  obtain ⟨hrow, hstatus, hid, hbefore⟩ := activeAdmission_commits hadmission
  have hsame := issueCredential_commits hissue
  have hmiddle : middle.shared = scope.shared ∧ middle.calls = scope.calls := by
    rcases hbefore with rfl | ⟨-, -, hshared, hcalls, -⟩
    · exact ⟨rfl, rfl⟩
    · exact ⟨hshared, hcalls⟩
  refine ⟨?_, ?_, ?_, fun hcall hopen hsafe => ?_, ?_⟩
  · rw [hsame]
    exact hmiddle.1
  · rw [hsame]
    exact hmiddle.2
  · have hissued : admitted.recordIssuance facts.issuedAt ∈
        (middle.participants.update admitted.id (AudioCallParticipant.recordIssuance facts.issuedAt)
          (AudioCallParticipant.recordIssuance_id facts.issuedAt)).rows :=
      KeyedTable.mem_update.mpr (.inr ⟨admitted, hrow, rfl, rfl⟩)
    rw [hsame]
    exact ⟨admitted.recordIssuance facts.issuedAt, hissued, rfl, hstatus, hid⟩
  · exact issueCredential_safe hissue (activeAdmission_safe hadmission hmember hcall hopen hsafe)
  · exact (activeAdmission_progress hadmission).trans (issueCredential_progress hissue)

end KComms.AudioCalls.Lifecycle
