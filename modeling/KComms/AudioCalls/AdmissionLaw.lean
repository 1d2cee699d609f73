import KComms.AudioCalls.CallAdmission

/-!
# The law of admission in every run

`admission_follows` collects, for every run of the commands from a conversation without calls, what holds after it and
what its next step may do.
-/

namespace KComms.AudioCalls.Lifecycle

open Attempt
open KComms.Conversations (ActiveMember MembershipStep SharedConversation)

variable {facts : CallFacts} {subject : CallSubject} {scope scope' : CallScope} {call : AudioCall}
  {participant : AudioCallParticipant} {step : CallStep}

/-! ### One step -/

/-- The record of a removal that was tried when the eviction was no longer enforced. -/
def CallStep.Completes (step : CallStep) (participant : AudioCallParticipant) : Prop :=
  ∃ attemptStartedAt enforceUntil, step.command = .recordEviction participant.id .removed attemptStartedAt ∧
    participant.evictionEnforceUntil = some enforceUntil ∧ enforceUntil ≤ attemptStartedAt

structure CallStep.Keeps (step : CallStep) (scope scope' : CallScope) : Prop where
  safe : Safe scope → Safe scope'
  calls : CallsKept scope.calls scope'.calls
  participants : scope.participants.Grows (Moves step.Completes) Uncompleted scope'.participants

variable {participantId callId identity reason : String} {result : EvictionResult} {attemptStartedAt : Int}
  {mediaKind : MediaKind} {credential : Option Credential}

theorem Keeps.of_step (h : Keeps scope scope') : step.Keeps scope scope' := by
  refine ⟨h.safe, h.progress.calls, h.progress.participants.mono fun before after hcalm => ?_⟩
  refine ⟨hcalm.id, hcalm.revoked, fun hcompleted => ?_⟩
  rcases hcalm.completed hcompleted with hcompleted | hfalse
  · exact .inl hcompleted
  · exact absurd hfalse id

theorem recordAttempt_status {now : Int}
    (h : (participant.recordAttempt result attemptStartedAt now).status = .admitted) :
    participant.status = .admitted := by
  cases result with
  | removed => cases h
  | failed => exact h

theorem recordAttempt_completed {now : Int}
    (h : (participant.recordAttempt result attemptStartedAt now).evictionStatus = .completed) :
    result = .removed ∧ ∃ enforceUntil, participant.evictionEnforceUntil = some enforceUntil ∧
      enforceUntil ≤ attemptStartedAt := by
  have hafter : evictionAfter result attemptStartedAt participant = .completed := h
  unfold evictionAfter at hafter
  split at hafter
  · rename_i hcompletes
    rw [completesEviction, Bool.and_eq_true, decide_eq_true_eq, Option.any_eq_true] at hcompletes
    obtain ⟨hresult, enforceUntil, hsome, hle⟩ := hcompletes
    exact ⟨hresult, enforceUntil, hsome, of_decide_eq_true hle⟩
  · split at hafter <;> cases hafter

theorem recordEviction_keeps (hcommand : step.command = .recordEviction participantId result attemptStartedAt)
    (h : (recordEviction facts participantId result attemptStartedAt scope).Commits scope') :
    step.Keeps scope scope' := by
  simp only [recordEviction, commits_bind] at h
  obtain ⟨-, -, h⟩ := h
  split at h
  · exact absurd h (commits_rollback _ _)
  · simp only [commits_bind, commits_pure] at h
    obtain ⟨-, -, -, -, rfl⟩ := h
    have hadmitted : ∀ row, row ∈ (scope.participants.update participantId
        (AudioCallParticipant.recordAttempt result attemptStartedAt facts.checkedAt)
        (AudioCallParticipant.recordAttempt_id result attemptStartedAt facts.checkedAt)).rows →
        row.status = .admitted →
        ∃ before, Admitted scope before ∧ before.audioCallId = row.audioCallId ∧ before.userId = row.userId := by
      intro row hrow hstatus
      rcases KeyedTable.mem_update.mp hrow with ⟨hrow, -⟩ | ⟨old, hold, -, rfl⟩
      · exact ⟨row, ⟨hrow, hstatus⟩, rfl, rfl⟩
      · exact ⟨old, ⟨hold, recordAttempt_status hstatus⟩, rfl, rfl⟩
    refine ⟨fun hsafe => ⟨hsafe.oneOpen, ?_, ?_⟩, .refl _, KeyedTable.Related.grows ?_⟩
    · rintro row ⟨hrow, hstatus⟩
      obtain ⟨before, hbefore, hcall, -⟩ := hadmitted row hrow hstatus
      rw [← hcall]
      exact hsafe.admittedOpen before hbefore
    · rintro row ⟨hrow, hstatus⟩
      obtain ⟨before, hbefore, -, huser⟩ := hadmitted row hrow hstatus
      rw [← huser]
      exact hsafe.admittedMember before hbefore
    · refine KeyedTable.related_modify _
        (AudioCallParticipant.recordAttempt_id result attemptStartedAt facts.checkedAt) Moves.refl ?_
      intro row _ hid
      rw [decide_eq_true_eq] at hid
      refine ⟨rfl, fun hrevoked hadmitted => hrevoked (recordAttempt_status hadmitted), fun hcompleted => ?_⟩
      obtain ⟨rfl, enforceUntil, hsome, hle⟩ := recordAttempt_completed hcompleted
      right
      refine ⟨attemptStartedAt, enforceUntil, ?_, hsome, hle⟩
      rw [hid]
      exact hcommand

/-! ### Results -/

theorem plain_commits {transaction : CallTransaction CallScope} :
    (plain transaction).Commits (credential, scope') ↔ credential = none ∧ transaction.Commits scope' := by
  simp only [plain, commits_bind, commits_pure, Prod.mk.injEq]
  constructor
  · rintro ⟨_, h, rfl, rfl⟩
    exact ⟨rfl, h⟩
  · rintro ⟨rfl, h⟩
    exact ⟨_, h, rfl, rfl⟩

theorem granting_commits {transaction : CallTransaction (AudioCall × AudioCallParticipant × CallScope)}
    (h : (granting transaction).Commits (credential, scope')) :
    ∃ call participant, credential = some ⟨call, participant⟩ ∧ transaction.Commits (call, participant, scope') := by
  simp only [granting, commits_bind, commits_pure, Prod.mk.injEq] at h
  obtain ⟨⟨call, participant, _⟩, h, rfl, rfl⟩ := h
  exact ⟨call, participant, rfl, h⟩

theorem withoutResult_commits {α : Type} {transaction : CallTransaction (α × CallScope)} :
    (withoutResult transaction).Commits scope' ↔ ∃ result, transaction.Commits (result, scope') := by
  simp only [withoutResult, commits_bind, commits_pure]
  constructor
  · rintro ⟨⟨result, _⟩, h, rfl⟩
    exact ⟨result, h⟩
  · rintro ⟨result, h⟩
    exact ⟨_, h, rfl⟩

theorem transaction_keeps (h : (step.transaction scope).Commits (credential, scope')) : step.Keeps scope scope' := by
  unfold CallStep.transaction at h
  split at h
  · obtain ⟨-, hplain⟩ := plain_commits.mp h
    simp only [commits_bind, commits_pure] at hplain
    obtain ⟨⟨call, status, _⟩, hstart, rfl⟩ := hplain
    exact (start_commits hstart).1.keeps.of_step
  · obtain ⟨call, participant, -, h⟩ := granting_commits h
    exact (startWithJoinAuthorized_granted h).keeps.of_step
  · obtain ⟨call, participant, -, h⟩ := granting_commits h
    exact (withJoinAuthorized_granted h).keeps.of_step
  · obtain ⟨-, h⟩ := plain_commits.mp h
    obtain ⟨ended, h⟩ := withoutResult_commits.mp h
    exact (endCall_keeps h).of_step
  · obtain ⟨-, h⟩ := plain_commits.mp h
    obtain ⟨result, h⟩ := withoutResult_commits.mp h
    exact (expireCall_keeps h).of_step
  · exact (cancelMeeting_keeps (plain_commits.mp h).2).of_step
  · exact (revokeAll_commits (plain_commits.mp h).2).keeps.of_step
  · exact (changeMembership_keeps (plain_commits.mp h).2).of_step
  · exact (endMembership_keeps (plain_commits.mp h).2).of_step
  · exact (expireRoom_keeps (plain_commits.mp h).2).of_step
  · exact (eraseUser_keeps (plain_commits.mp h).2).of_step
  · obtain ⟨-, h⟩ := plain_commits.mp h
    simp only [commits_bind, commits_pure] at h
    obtain ⟨-, -, rfl⟩ := h
    exact (Keeps.refl _).of_step
  · rename_i hcommand
    exact recordEviction_keeps hcommand (plain_commits.mp h).2

theorem transaction_granted {credential : Credential}
    (h : (step.transaction scope).Commits (some credential, scope')) :
    Granted step.facts credential.call credential.participant scope scope' := by
  unfold CallStep.transaction at h
  split at h
  case h_2 =>
    obtain ⟨call, participant, hsome, hjoin⟩ := granting_commits h
    cases hsome
    exact startWithJoinAuthorized_granted hjoin
  case h_3 =>
    obtain ⟨call, participant, hsome, hjoin⟩ := granting_commits h
    cases hsome
    exact withJoinAuthorized_granted hjoin
  all_goals
    obtain ⟨hnone, -⟩ := plain_commits.mp h
    cases hnone

/-! ### What the provider is asked for -/

/-- A credential is asked for an active call that has not expired, and for one who is admitted to it. -/
def Justified (facts : CallFacts) : CallEffect → Prop
  | .cleanup _ => True
  | .issue call participant => call.status = .active ∧ facts.ensuredAt < call.expiresAt ∧
      participant.status = .admitted ∧ participant.audioCallId = call.id

theorem revokeMatching_justified {target : RevocationScope} :
    AllIssued (Justified facts) (revokeMatching facts target reason scope) := by
  unfold revokeMatching
  refine (allIssued_ofExcept _).bind fun _ _ => ?_
  refine (allIssued_check _ _).bind fun _ _ => ?_
  exact (allIssued_check _ _).bind fun _ _ => allIssued_pure _

theorem revokeAll_justified {target : RevocationScope} :
    AllIssued (Justified facts) (revokeAll facts target reason scope) := by
  unfold revokeAll
  exact revokeMatching_justified.bind fun _ _ => allIssued_pure _

theorem endActive_justified {actor endedByUserId : Option String} :
    AllIssued (Justified facts) (endActive facts actor endedByUserId reason call scope) := by
  have hcleanup : AllIssued (Justified facts) (cleanupProvider facts call.beginEnding) :=
    ((allIssued_issue _ _).mpr trivial).bind fun _ _ => allIssued_check _ _
  unfold endActive
  refine hcleanup.bind fun _ _ => ?_
  unfold finishCall
  refine revokeMatching_justified.bind fun _ _ => ?_
  exact (allIssued_check _ _).bind fun _ _ => allIssued_pure _

theorem createCall_justified {userId : String} :
    AllIssued (Justified facts) (createCall facts callId userId mediaKind scope) := by
  refine (allIssued_check _ _).bind fun _ _ => ?_
  split
  · exact allIssued_rollback _
  · exact allIssued_pure _

theorem lockCallAccess_justified : AllIssued (Justified facts) (lockCallAccess facts subject scope) := by
  unfold lockCallAccess
  split
  · exact allIssued_rollback _
  · refine (allIssued_check _ _).bind fun _ _ => ?_
    refine (allIssued_check _ _).bind fun _ _ => ?_
    split
    · exact allIssued_rollback _
    · exact allIssued_pure _

theorem mediaEnabled_justified {access : CallAccess} :
    AllIssued (Justified facts) (mediaEnabled mediaKind access) := by
  cases mediaKind with
  | audio => exact allIssued_check _ _
  | video => exact allIssued_check _ _

theorem start_justified :
    AllIssued (Justified facts) (start facts subject callId mediaKind scope) := by
  refine (allIssued_check _ _).bind fun _ _ => ?_
  refine lockCallAccess_justified.bind fun _ _ => ?_
  refine mediaEnabled_justified.bind fun _ _ => ?_
  unfold startLocked
  split
  · exact createCall_justified.bind fun _ _ => allIssued_pure _
  · split
    · exact allIssued_rollback _
    · split
      · refine endActive_justified.bind fun _ _ => ?_
        exact createCall_justified.bind fun _ _ => allIssued_pure _
      · exact (allIssued_check _ _).bind fun _ _ => allIssued_pure _

theorem ensureActive_justified {now : Int} : AllIssued (Justified facts) (ensureActive now call) := by
  unfold ensureActive
  split
  · exact allIssued_rollback _
  · exact allIssued_rollback _
  · exact allIssued_check _ _

theorem lockCall_justified : AllIssued (Justified facts) (lockCall callId scope) := by
  unfold lockCall
  split
  · exact allIssued_rollback _
  · exact allIssued_pure _

/-- Here the credential is asked for. -/
theorem admitAndIssue_justified (hactive : call.status = .active) (hunexpired : facts.ensuredAt < call.expiresAt) :
    AllIssued (Justified facts) (admitAndIssue facts call subject participantId identity scope) := by
  refine (allIssued_check _ _).bind fun _ _ => ?_
  refine (allIssued_check _ _).bind fun _ _ => ?_
  have hadmission : AllIssued (Justified facts) (activeAdmission facts call subject participantId identity scope) := by
    unfold activeAdmission
    split
    · exact allIssued_pure _
    · refine (allIssued_check _ _).bind fun _ _ => ?_
      split
      · exact allIssued_rollback _
      · exact allIssued_pure _
  refine hadmission.bind fun ⟨admitted, middle⟩ hadmitted => ?_
  obtain ⟨-, hstatus, hid, -⟩ := activeAdmission_commits hadmitted
  have hissue : AllIssued (Justified facts) (issueCredential facts call admitted middle) := by
    refine ((allIssued_issue _ _).mpr ⟨hactive, hunexpired, hstatus, hid⟩).bind fun _ _ => ?_
    exact (allIssued_check _ _).bind fun _ _ => allIssued_pure _
  exact hissue.bind fun _ _ => allIssued_pure _

/-- The last part of both joins. -/
private theorem join_justified :
    AllIssued (Justified facts) (do
      ensureActive facts.ensuredAt call
      let (participant, scope) ← admitAndIssue facts call subject participantId identity scope
      pure (call, participant, scope)) := by
  refine ensureActive_justified.bind fun _ hactive => ?_
  obtain ⟨hactive, hunexpired⟩ := ensureActive_commits hactive
  exact (admitAndIssue_justified hactive hunexpired).bind fun _ _ => allIssued_pure _

theorem startWithJoinAuthorized_justified :
    AllIssued (Justified facts)
      (startWithJoinAuthorized facts subject callId participantId identity mediaKind scope) :=
  start_justified.bind fun _ _ => join_justified

theorem withJoinAuthorized_justified {expectedKind : Option MediaKind} :
    AllIssued (Justified facts)
      (withJoinAuthorized facts subject callId participantId identity expectedKind scope) := by
  refine lockCallAccess_justified.bind fun _ _ => ?_
  refine lockCall_justified.bind fun _ _ => ?_
  refine (allIssued_check _ _).bind fun _ _ => ?_
  exact mediaEnabled_justified.bind fun _ _ => join_justified

theorem endCall_justified {reason : Option String} {expectedKind : Option MediaKind} :
    AllIssued (Justified facts) (endCall facts subject callId reason expectedKind scope) := by
  unfold endCall
  refine (allIssued_ofExcept _).bind fun _ _ => ?_
  refine lockCallAccess_justified.bind fun _ _ => ?_
  refine lockCall_justified.bind fun _ _ => ?_
  refine (allIssued_check _ _).bind fun _ _ => ?_
  refine (allIssued_check _ _).bind fun _ _ => ?_
  split
  · exact allIssued_pure _
  · exact allIssued_rollback _
  · exact endActive_justified

theorem expireCall_justified : AllIssued (Justified facts) (expireCall facts callId scope) := by
  refine (allIssued_check _ _).bind fun _ _ => ?_
  refine lockCall_justified.bind fun _ _ => ?_
  split
  · exact allIssued_pure _
  · exact allIssued_rollback _
  · split
    · exact allIssued_pure _
    · exact endActive_justified.bind fun _ _ => allIssued_pure _

theorem cancelMeeting_justified {callIds : List String} :
    AllIssued (Justified facts) (cancelMeeting facts callIds scope) := by
  unfold cancelMeeting
  refine (allIssued_check _ _).bind fun _ _ => ?_
  exact AllIssued.foldlM (fun _ _ => revokeAll_justified) _ _

theorem changeMembership_justified {membershipStep : MembershipStep} :
    AllIssued (Justified facts) (changeMembership facts membershipStep scope) := by
  unfold changeMembership
  refine (allIssued_ofExcept _).bind fun _ _ => ?_
  split
  · exact allIssued_pure _
  · exact revokeAll_justified

theorem expireRoom_justified {timestamp : Int} : AllIssued (Justified facts) (expireRoom facts timestamp scope) := by
  unfold expireRoom
  exact AllIssued.foldlM (fun _ _ => revokeAll_justified) _ _

theorem eraseUser_justified {userId : String} {timestamp : Int} :
    AllIssued (Justified facts) (eraseUser facts userId timestamp scope) := by
  unfold eraseUser
  exact revokeAll_justified.bind fun _ _ => allIssued_pure _

theorem claimEviction_justified :
    AllIssued (Justified facts) (claimEviction facts participantId scope) := by
  refine (allIssued_check _ _).bind fun _ _ => ?_
  split
  · exact allIssued_rollback _
  · refine (allIssued_check _ _).bind fun _ _ => ?_
    split
    · exact allIssued_rollback _
    · exact allIssued_pure _

theorem recordEviction_justified :
    AllIssued (Justified facts) (recordEviction facts participantId result attemptStartedAt scope) := by
  refine (allIssued_check _ _).bind fun _ _ => ?_
  split
  · exact allIssued_rollback _
  · refine (allIssued_check _ _).bind fun _ _ => ?_
    exact (allIssued_check _ _).bind fun _ _ => allIssued_pure _

theorem plain_justified {transaction : CallTransaction CallScope} (h : AllIssued (Justified facts) transaction) :
    AllIssued (Justified facts) (plain transaction) :=
  h.bind fun _ _ => allIssued_pure _

theorem withoutResult_justified {α : Type} {transaction : CallTransaction (α × CallScope)}
    (h : AllIssued (Justified facts) transaction) : AllIssued (Justified facts) (withoutResult transaction) :=
  h.bind fun _ _ => allIssued_pure _

theorem granting_justified {transaction : CallTransaction (AudioCall × AudioCallParticipant × CallScope)}
    (h : AllIssued (Justified facts) transaction) : AllIssued (Justified facts) (granting transaction) :=
  h.bind fun _ _ => allIssued_pure _

theorem transaction_justified : AllIssued (Justified step.facts) (step.transaction scope) := by
  unfold CallStep.transaction
  split
  · exact plain_justified (start_justified.bind fun _ _ => allIssued_pure _)
  · exact granting_justified startWithJoinAuthorized_justified
  · exact granting_justified withJoinAuthorized_justified
  · exact plain_justified (withoutResult_justified endCall_justified)
  · exact plain_justified (withoutResult_justified expireCall_justified)
  · exact plain_justified cancelMeeting_justified
  · exact plain_justified revokeAll_justified
  · exact plain_justified changeMembership_justified
  · exact plain_justified revokeAll_justified
  · exact plain_justified expireRoom_justified
  · exact plain_justified eraseUser_justified
  · exact plain_justified (claimEviction_justified.bind fun _ _ => allIssued_pure _)
  · exact plain_justified recordEviction_justified

/-! ### Runs -/

/-- A conversation without calls. -/
def CallScope.withoutCalls (shared : SharedConversation) : CallScope where
  shared := shared
  calls := .empty
  participants := .empty
  jobs := []
  audits := []
  events := []

def scopeAfter (start : CallScope) (history : List CallStep) : CallScope := runCommands CallScope.next start history

theorem next_keeps (scope : CallScope) (step : CallStep) : step.Keeps scope (scope.next step) := by
  unfold CallScope.next
  split
  · rename_i credential after hcommits
    exact transaction_keeps hcommits
  · exact (Keeps.refl scope).of_step

theorem safe_run {start : CallScope} (hsafe : Safe start) (history : List CallStep) :
    Safe (scopeAfter start history) :=
  runCommands_kept (fun state command hstate => (next_keeps state command).safe hstate) hsafe

/-- A call with this id has ended. -/
def HasEnded (callId : String) (scope : CallScope) : Prop :=
  ∃ call ∈ scope.calls.rows, call.id = callId ∧ call.status = .ended

/-- A participant with this id is not admitted. -/
def NotAdmitted (participantId : String) (scope : CallScope) : Prop :=
  ∃ participant ∈ scope.participants.rows, participant.id = participantId ∧ participant.status ≠ .admitted

theorem hasEnded_run (h : HasEnded callId scope) (history : List CallStep) :
    HasEnded callId (scopeAfter scope history) := by
  refine runCommands_kept (fun state step hstate => ?_) h
  obtain ⟨call, hcall, hid, hended⟩ := hstate
  obtain ⟨call', hcall', hid', hended'⟩ := (next_keeps state step).calls call hcall
  exact ⟨call', hcall', hid'.trans hid, hended' hended⟩

theorem notAdmitted_run (h : NotAdmitted participantId scope) (history : List CallStep) :
    NotAdmitted participantId (scopeAfter scope history) := by
  refine runCommands_kept (fun state step hstate => ?_) h
  obtain ⟨participant, hparticipant, hid, hrevoked⟩ := hstate
  obtain ⟨participant', hparticipant', hmoves⟩ := (next_keeps state step).participants.1 participant hparticipant
  exact ⟨participant', hparticipant', hmoves.id.trans hid, hmoves.revoked hrevoked⟩

/-- What holds after a run, and what the next step may do. -/
structure AdmissionFollows (start : CallScope) (history : List CallStep) : Prop where
  oneOpen : ∀ a ∈ (scopeAfter start history).calls.rows, ∀ b ∈ (scopeAfter start history).calls.rows,
    a.isOpen = true → b.isOpen = true → a = b
  endedStays : ∀ more, ∀ call ∈ (scopeAfter start history).calls.rows, call.status = .ended →
    HasEnded call.id (scopeAfter start (history ++ more))
  issued : ∀ step : CallStep, ∀ call participant,
    .issue call participant ∈ (step.transaction (scopeAfter start history)).effects →
    call.status = .active ∧ step.facts.ensuredAt < call.expiresAt ∧ participant.status = .admitted ∧
      participant.audioCallId = call.id
  granted : ∀ (step : CallStep) (credential : Credential) (scope' : CallScope),
    (step.transaction (scopeAfter start history)).Commits (some credential, scope') →
    credential.call.status = .active ∧ step.facts.ensuredAt < credential.call.expiresAt ∧
      credential.call ∈ scope'.calls.rows ∧ ∃ row ∈ scope'.participants.rows, row.id = credential.participant.id ∧
        row.status = .admitted ∧ row.audioCallId = credential.call.id
  endedCall : ∀ call ∈ (scopeAfter start history).calls.rows, call.status = .ended →
    ∀ participant ∈ (scopeAfter start history).participants.rows, participant.audioCallId = call.id →
    participant.status ≠ .admitted
  removedMember : ∀ participant ∈ (scopeAfter start history).participants.rows,
    ¬ ActiveMember (scopeAfter start history).shared participant.userId → participant.status ≠ .admitted
  revokedStays : ∀ more, ∀ participant ∈ (scopeAfter start history).participants.rows,
    participant.status ≠ .admitted → NotAdmitted participant.id (scopeAfter start (history ++ more))
  completed : ∀ step : CallStep, ∀ row ∈ ((scopeAfter start history).next step).participants.rows,
    row.evictionStatus = .completed → ∃ participant ∈ (scopeAfter start history).participants.rows,
      participant.id = row.id ∧ (participant.evictionStatus = .completed ∨ step.Completes participant)
  refused : ∀ step : CallStep, (step.transaction (scopeAfter start history)).RollsBack →
    (scopeAfter start history).next step = scopeAfter start history

private theorem safe_withoutCalls (shared : SharedConversation) : Safe (.withoutCalls shared) := by
  refine ⟨fun a ha => ?_, ?_, ?_⟩
  · cases ha
  · rintro participant ⟨hrow, -⟩
    cases hrow
  · rintro participant ⟨hrow, -⟩
    cases hrow

theorem admission_follows (shared : SharedConversation) (history : List CallStep) :
    AdmissionFollows (.withoutCalls shared) history := by
  have hsafe := safe_run (safe_withoutCalls shared) history
  refine ⟨hsafe.oneOpen, fun more call hcall hended => ?_, fun step call participant hissue => ?_,
    fun step credential after hcommits => ?_, fun call hcall hended participant hrow hid hadmitted => ?_,
    fun participant hrow hremoved hadmitted => ?_, fun more participant hrow hrevoked => ?_,
    fun step row hrow hcompleted => ?_, fun step hrefused => ?_⟩
  · rw [scopeAfter, runCommands_append]
    exact hasEnded_run ⟨call, hcall, rfl, hended⟩ more
  · exact transaction_justified _ hissue
  · obtain ⟨hactive, hunexpired, hcall, hparticipant, -⟩ := transaction_granted hcommits
    exact ⟨hactive, hunexpired, hcall, hparticipant⟩
  · obtain ⟨other, hother, hotherId, hopen⟩ := hsafe.admittedOpen participant ⟨hrow, hadmitted⟩
    rw [KeyedTable.eq_of_key hother hcall (hotherId.trans hid), AudioCall.isOpen, hended] at hopen
    cases hopen
  · exact hremoved (hsafe.admittedMember participant ⟨hrow, hadmitted⟩)
  · rw [scopeAfter, runCommands_append]
    exact notAdmitted_run ⟨participant, hrow, rfl, hrevoked⟩ more
  · rcases (next_keeps _ step).participants.2 row hrow with ⟨participant, hparticipant, hmoves⟩ | hnew
    · exact ⟨participant, hparticipant, hmoves.id.symm, hmoves.completed hcompleted⟩
    · exact absurd hcompleted hnew
  · obtain ⟨reason, hreason⟩ := hrefused
    unfold CallScope.next
    rw [hreason]

end KComms.AudioCalls.Lifecycle
