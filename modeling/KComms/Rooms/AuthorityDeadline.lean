import KComms.Rooms.Inactivity

/-!
# The deadline of the authority of guests

The deadline is written in the room, in its link and in every live admission, and in an idle room it is the deadline of
the room (`Aligned`).  All commands keep this but for one: the creation that its guest repeats extends the deadline of
an idle room and leaves it idle (`refreshesIdle`).
-/

namespace KComms.Rooms

open Attempt KComms.Accounts

structure Aligned (scope : RoomScope) : Prop where
  link : scope.link.expiresAt = scope.room.authorityExpiresAt
  admissions : ∀ admission ∈ scope.admissions.rows, admission.live = true →
    admission.expiresAt = scope.room.authorityExpiresAt
  idle : scope.room.status = .idle → scope.room.expiresAt = some scope.room.authorityExpiresAt

/-- A guest repeats the creation of an idle room whose deadline is near, and nothing is refused: the key, the window and
the admission of the creator are still good. -/
def refreshesIdle (scope : RoomScope) (step : RoomStep) : Bool :=
  match step.command with
  | .replayCreation .guest fingerprint _ decrypted =>
    step.facts.locked && step.facts.actorCurrent && step.facts.identity &&
      scope.room.requestFingerprint = fingerprint && step.times.first < scope.room.idempotencyExpiresAt && decrypted &&
      (lockCreatorAdmission scope).isSome && scope.room.status = .idle && refreshDue scope.room step.times.second
  | _ => false

variable {settings : RoomSettings} {facts : RoomFacts} {times : Readings} {scope scope' : RoomScope} {step : RoomStep}
  {deadline : Int}

/-! ### The parts of a command -/

private theorem aligned_withDeadline (hidle : scope.room.status = .idle → scope.room.expiresAt = some deadline) :
    Aligned (scope.withDeadline deadline) where
  link := rfl
  admissions := by
    intro admission hadmission hlive
    have hmem : admission ∈ (scope.admissions.modify GuestAdmission.live
        (fun admission => { admission with expiresAt := deadline }) fun _ => rfl).rows := hadmission
    rw [KeyedTable.mem_modify] at hmem
    rcases hmem with ⟨-, hdead⟩ | ⟨old, -, -, rfl⟩
    · exact absurd (hlive.symm.trans hdead) (by decide)
    · rfl
  idle := hidle

/-- Changed admissions that are live have the deadline of the room. -/
private theorem Aligned.setAdmission (h : Aligned scope) (id : String) (change : GuestAdmission → GuestAdmission)
    (keeps : ∀ admission, (change admission).id = admission.id)
    (hchange : ∀ admission, (change admission).live = true →
      (change admission).expiresAt = scope.room.authorityExpiresAt) :
    Aligned { scope with admissions := scope.admissions.update id change keeps } where
  link := h.link
  admissions := by
    intro admission hadmission hlive
    have hmem : admission ∈ (scope.admissions.update id change keeps).rows := hadmission
    rw [KeyedTable.mem_update] at hmem
    rcases hmem with ⟨hold, -⟩ | ⟨old, -, -, rfl⟩
    · exact h.admissions admission hold hlive
    · exact hchange old hlive
  idle := h.idle

private theorem reactivate_aligned {timestamp : Int} (h : scope.room.status ≠ .expired → Aligned scope)
    (hcommits : (reactivateRoom facts timestamp scope).Commits scope') :
    Aligned scope' ∧ scope'.room.status = .active := by
  unfold reactivateRoom at hcommits
  cases hstatus : scope.room.status with
  | active =>
    rw [hstatus] at hcommits
    simp only [commits_pure] at hcommits
    subst hcommits
    have hlive : scope.room.status ≠ .expired := by
      rw [hstatus]
      decide
    exact ⟨h hlive, hstatus⟩
  | idle =>
    rw [hstatus] at hcommits
    simp only [commits_bind, commits_check] at hcommits
    obtain ⟨-, -, hcommits⟩ := hcommits
    rw [extend_lifecycle hcommits]
    exact ⟨aligned_withDeadline (fun hidle => by cases hidle), rfl⟩
  | expired =>
    rw [hstatus] at hcommits
    exact absurd hcommits (commits_rollback _ _)

/-- The rolling authority of a room keeps the deadlines together, when the room is not idle or nothing is extended. -/
private theorem rolling_aligned {timestamp : Int} (h : Aligned scope)
    (hfresh : scope.room.status = .idle → refreshDue scope.room timestamp = false)
    (hcommits : (ensureRollingAuthority facts timestamp scope).Commits (deadline, scope')) :
    Aligned scope' ∧ deadline = scope'.room.authorityExpiresAt ∧ scope'.room.status = scope.room.status := by
  rcases rolling_commits hcommits with ⟨hdue, rfl⟩ | ⟨-, rfl, rfl⟩
  · refine ⟨aligned_withDeadline fun hidle => ?_, rfl, rfl⟩
    rw [hfresh hidle] at hdue
    cases hdue
  · exact ⟨h, rfl, rfl⟩

private theorem presentGuest_aligned {grant : Grant} (h : Aligned scope)
    (hdeadline : deadline = scope.room.authorityExpiresAt)
    (hcommits : (maybeExtendPresentGuest grant deadline scope).Commits scope') : Aligned scope' := by
  rcases presentGuest_commits hcommits with rfl | ⟨id, rfl⟩
  · exact h
  · exact h.setAdmission id (fun admission => { admission with expiresAt := deadline }) (fun _ => rfl)
      fun _ _ => hdeadline

private theorem addAdmission_aligned {admission : GuestAdmission} (h : Aligned scope)
    (hdeadline : admission.expiresAt = scope.room.authorityExpiresAt)
    (hcommits : (addAdmission admission scope).Commits scope') : Aligned scope' := by
  obtain ⟨admissions, hinserted, rfl⟩ := addAdmission_commits hcommits
  refine ⟨h.link, fun other hother hlive => ?_, h.idle⟩
  rcases (KeyedTable.mem_insert hinserted).mp hother with rfl | hother
  · exact hdeadline
  · exact h.admissions other hother hlive

private theorem joinGuest_aligned {identity : GuestIdentity} {key : JoinKey} (h : Aligned scope)
    (hactive : scope.room.status = .active) (hcommits : (joinGuest facts times identity key scope).Commits scope') :
    Aligned scope' := by
  have hfresh : ∀ timestamp, scope.room.status = .idle → refreshDue scope.room timestamp = false := by
    intro timestamp hidle
    rw [hactive] at hidle
    cases hidle
  unfold joinGuest at hcommits
  split at hcommits
  · rename_i admission hadmission
    simp only [replayGuestJoin, commits_bind, commits_check, commits_pure] at hcommits
    obtain ⟨-, -, -, -, ⟨deadline, rolled⟩, hrolled, -, -, rfl⟩ := hcommits
    obtain ⟨haligned, hdeadline, -⟩ := rolling_aligned h (hfresh _) hrolled
    exact haligned.setAdmission admission.id
      (fun admission => { admission with sessionId := identity.sessionId, expiresAt := deadline }) (fun _ => rfl)
      fun _ _ => hdeadline
  · simp only [commits_bind, commits_check] at hcommits
    obtain ⟨-, -, ⟨deadline, rolled⟩, hrolled, -, -, joined, hjoined, hcommits⟩ := hcommits
    obtain ⟨haligned, hdeadline, -⟩ := rolling_aligned h (hfresh _) hrolled
    obtain ⟨memberships, rfl⟩ := addMembership_commits hjoined
    have hmember : Aligned { rolled with memberships := memberships } :=
      ⟨haligned.link, haligned.admissions, haligned.idle⟩
    exact addAdmission_aligned hmember hdeadline hcommits

/-! ### The commands -/

private theorem join_aligned {key : JoinKey} {joiner : Joiner} (h : scope.room.status ≠ .expired → Aligned scope)
    (hcommits : (join facts times key joiner scope).Commits scope') : Aligned scope' := by
  simp only [join, commits_bind, commits_check, commits_pure] at hcommits
  obtain ⟨-, -, -, -, -, -, -, -, woken, hwoken, joined, hjoined, -, -, rfl⟩ := hcommits
  obtain ⟨haligned, hactive⟩ := reactivate_aligned h hwoken
  cases joiner with
  | guest identity => exact joinGuest_aligned haligned hactive hjoined
  | human userId membershipId =>
    obtain ⟨memberships, receipts, rfl⟩ := joinHuman_commits hjoined
    exact ⟨haligned.link, haligned.admissions, haligned.idle⟩

private theorem upsert_aligned {mode : PresenceMode} {grant : Grant} {leaseId digest : String}
    (h : scope.room.status ≠ .expired → Aligned scope)
    (hcommits : (upsert settings facts times mode grant leaseId digest scope).Commits scope') : Aligned scope' := by
  simp only [upsert, commits_bind, commits_check, commits_pure] at hcommits
  obtain ⟨-, -, -, -, -, -, -, -, woken, hwoken, ⟨deadline, rolled⟩, hrolled, extended, hextended, leased, hleased, -, -,
    rfl⟩ := hcommits
  obtain ⟨hwokenAligned, hactive⟩ := reactivate_aligned h hwoken
  obtain ⟨hrolledAligned, hdeadline, -⟩ := rolling_aligned hwokenAligned (fun hidle => by
    rw [hactive] at hidle
    cases hidle) hrolled
  have hextendedAligned := presentGuest_aligned hrolledAligned hdeadline hextended
  obtain ⟨leases, rfl⟩ := upsertLease_commits hleased
  exact ⟨hextendedAligned.link, hextendedAligned.admissions, hextendedAligned.idle⟩

private theorem close_aligned {grant : Grant} {digest : String} (h : Aligned scope)
    (hcommits : (closePresence facts times grant digest scope).Commits scope') : Aligned scope' := by
  simp only [closePresence, commits_bind, commits_check] at hcommits
  obtain ⟨-, -, -, -, -, -, hcommits⟩ := hcommits
  split at hcommits
  · exact absurd hcommits (commits_rollback _ _)
  · simp only [commits_bind, commits_check, commits_pure] at hcommits
    obtain ⟨-, -, rfl⟩ := hcommits
    unfold EphemeralRoom.advanceLastPresence
    split
    · exact ⟨h.link, h.admissions, h.idle⟩
    · exact ⟨h.link, h.admissions, h.idle⟩

private theorem replay_aligned {kind : OwnerKind} {fingerprint sessionId : String} {decrypted : Bool}
    (h : Aligned scope)
    (hguard : refreshesIdle scope ⟨facts, times, .replayCreation kind fingerprint sessionId decrypted⟩ = false)
    (hcommits : (replayCreation facts times kind fingerprint sessionId decrypted scope).Commits scope') :
    Aligned scope' := by
  simp only [replayCreation, commits_bind, commits_check] at hcommits
  obtain ⟨-, hlocked, -, hcurrent, -, hfingerprint, -, hwindow, -, hdecrypted, hcommits⟩ := hcommits
  split at hcommits
  · unfold replayGuestCreator at hcommits
    split at hcommits
    · exact absurd hcommits (commits_rollback _ _)
    · rename_i admission hadmission
      simp only [commits_bind, commits_check, commits_pure] at hcommits
      obtain ⟨⟨deadline, rolled⟩, hrolled, -, hidentity, rfl⟩ := hcommits
      have hfresh : scope.room.status = .idle → refreshDue scope.room times.second = false := by
        intro hidle
        rw [Bool.eq_false_iff]
        intro hdue
        have hrefreshes : refreshesIdle scope ⟨facts, times, .replayCreation .guest fingerprint sessionId decrypted⟩ =
            true := by
          simp only [refreshesIdle, hlocked, hcurrent, hidentity, hfingerprint, hwindow, hdecrypted, hadmission,
            hidle, hdue, Option.isSome_some, decide_true, Bool.and_self]
        rw [hrefreshes] at hguard
        cases hguard
      obtain ⟨haligned, hdeadline, -⟩ := rolling_aligned h hfresh hrolled
      have hset := haligned.setAdmission admission.id
        (fun admission => { admission with sessionId := sessionId, expiresAt := deadline }) (fun _ => rfl)
        fun _ _ => hdeadline
      have hdeadline : deadline = rolled.room.authorityExpiresAt := hdeadline
      subst hdeadline
      exact ⟨hset.link, hset.admissions, hset.idle⟩
  · rw [commits_pure] at hcommits
    subst hcommits
    exact h

private theorem reconcile_aligned {generation : Nat} (h : scope.room.status ≠ .expired → Aligned scope)
    (hcommits : (reconcile facts times generation scope).Commits scope') (hlive : scope'.room.status ≠ .expired) :
    Aligned scope' := by
  rcases reconcile_commits hcommits with rfl | ⟨-, -, rfl⟩
  · exact h hlive
  · exact aligned_withDeadline fun _ => rfl

private theorem convert_aligned {admissionId newSessionId : String} (h : Aligned scope)
    (hcommits : (convert settings facts times admissionId newSessionId scope).Commits scope') : Aligned scope' := by
  obtain ⟨userId, leases, upgraded, hupgraded, rfl⟩ := convert_commits hcommits
  have hconverted := h.setAdmission admissionId (fun admission => { admission with convertedAt := some times.first })
    (fun _ => rfl) fun admission hlive => by
      unfold GuestAdmission.live at hlive
      simp at hlive
  have haligned : Aligned upgraded := by
    rcases upgrade_commits hupgraded with rfl | ⟨rfl, hidle⟩ | ⟨deadline, hdeadline, rfl⟩
    · exact hconverted
    · exact ⟨hconverted.link, hconverted.admissions, fun hnow => absurd hnow hidle⟩
    · exact aligned_withDeadline fun _ => hdeadline
  exact ⟨haligned.link, haligned.admissions, haligned.idle⟩

/-- A command that does not refresh an idle room keeps the deadlines together. -/
theorem execute_aligned (h : scope.room.status ≠ .expired → Aligned scope) (hguard : refreshesIdle scope step = false)
    (hcommits : (execute settings step scope).Commits scope') (hlive : scope'.room.status ≠ .expired) :
    Aligned scope' := by
  have hbefore : Aligned scope := h fun hexpired => hlive ((execute_lifecycle hcommits).terminal hexpired)
  obtain ⟨facts, times, command⟩ := step
  cases command with
  | join key joiner => exact join_aligned h hcommits
  | replayCreation kind fingerprint sessionId decrypted => exact replay_aligned hbefore hguard hcommits
  | presence mode grant leaseId digest => exact upsert_aligned h hcommits
  | close grant digest => exact close_aligned hbefore hcommits
  | reconcile generation => exact reconcile_aligned h hcommits hlive
  | expire generation =>
    rcases expire_commits hcommits with rfl | ⟨-, -, -, -, rfl⟩
    · exact hbefore
    · exact absurd rfl hlive
  | convert admissionId newSessionId => exact convert_aligned hbefore hcommits

private theorem aligned_created {creator : Creator} {tokenDigest fingerprint : String} {maxConversationMembers : Nat} :
    Aligned (createdScope settings creator tokenDigest fingerprint maxConversationMembers times) where
  link := rfl
  admissions := by
    intro admission hadmission _
    cases creator with
    | guest identity =>
      obtain rfl := List.mem_singleton.mp hadmission
      rfl
    | registered userId sessionId membershipId => cases hadmission
  idle hidle := by cases hidle

/-- The step does not refresh an idle room. -/
def LeavesIdle (observed : ObservedRoom) (step : RoomStep) : Prop := refreshesIdle observed.scope step = false

instance (observed : ObservedRoom) (step : RoomStep) : Decidable (LeavesIdle observed step) :=
  inferInstanceAs (Decidable (refreshesIdle observed.scope step = false))

/-- In every run of a room that was created, in which no repeated creation refreshes the idle room: until the room is
expired, all copies of the deadline are equal, and equal to the deadline of the idle room. -/
theorem authority_deadline_agrees (settings : RoomSettings) (facts : RoomFacts) (quota : Bool) (creator : Creator)
    (tokenDigest fingerprint : String) (maxConversationMembers : Nat) (times : Readings) (scope : RoomScope)
    (hcreated : (createRoom settings facts quota creator tokenDigest fingerprint maxConversationMembers times).Commits
      scope) (steps : List RoomStep)
    (hguard : Guarded (ObservedRoom.next settings) LeavesIdle (observedFrom times scope) steps)
    (hlive : (runCommands (ObservedRoom.next settings) (observedFrom times scope) steps).scope.room.status ≠ .expired) :
    Aligned (runCommands (ObservedRoom.next settings) (observedFrom times scope) steps).scope := by
  have hstep : ∀ observed step, (observed.scope.room.status ≠ .expired → Aligned observed.scope) →
      LeavesIdle observed step → (observed.next settings step).scope.room.status ≠ .expired →
      Aligned (observed.next settings step).scope := by
    intro observed step h hleaves
    have hcases : (∃ scope, (execute settings step observed.scope).Commits scope ∧ observed.next settings step = _) ∨
      _ := next_cases
    rcases hcases with ⟨scope, hcommits, hnext⟩ | hnext
    · rw [hnext]
      exact execute_aligned h hleaves hcommits
    · rw [hnext]
      exact h
  have hstart : (observedFrom times scope).scope.room.status ≠ .expired → Aligned (observedFrom times scope).scope := by
    intro _
    rw [createRoom_commits hcreated]
    exact aligned_created
  exact runCommands_invariant hstep hstart hguard hlive

/-- The guest leaves at once, the room is idle when the grace is over, and the guest repeats the creation. -/
def refreshSteps : List RoomStep :=
  [{ facts := willing, times := atSecond 100, command := .reconcile 1 },
   { facts := willing, times := atSecond 200, command := .replayCreation .guest "print" "s-2" true }]

/-- The guests of the idle room are admitted for a day, the room expires in an hour. -/
theorem idle_authority_refreshed :
    (createRoom sampleSettings willing true (.guest sampleGuest) "token" "print" 25 (atSecond 0)).Commits sampleRoom ∧
    (runCommands (ObservedRoom.next sampleSettings) (observedFrom (atSecond 0) sampleRoom)
      refreshSteps).scope.room.status = .idle ∧
    ¬ Aligned (runCommands (ObservedRoom.next sampleSettings) (observedFrom (atSecond 0) sampleRoom)
      refreshSteps).scope := by
  refine ⟨rfl, by decide, fun haligned => ?_⟩
  exact absurd (haligned.idle (by decide)) (by decide)

theorem authority_deadline_agrees_sample :
    Aligned (runCommands (ObservedRoom.next sampleSettings) (observedFrom (atSecond 0) sampleRoom)
      (refreshSteps.take 1)).scope :=
  authority_deadline_agrees sampleSettings willing true (.guest sampleGuest) "token" "print" 25 (atSecond 0) sampleRoom
    rfl (refreshSteps.take 1) (by decide) (by decide)

end KComms.Rooms
