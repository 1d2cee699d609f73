import KComms.Rooms.RoomSystem

/-!
# The life of a room

What the commands do to the status, the generation and the deadlines of a room is a small machine (`LifecycleStep`);
every command that commits is one step of it (`execute_lifecycle`).
-/

namespace KComms.Rooms

open Attempt KComms.Accounts

structure Lifecycle where
  status : RoomStatus
  generation : Nat
  idleTtlSeconds : Int
  lastPresenceAt : Option Int
  idleSince : Option Int
  expiresAt : Option Int
  insertedAt : Int
  deriving DecidableEq, Repr

def EphemeralRoom.lifecycle (room : EphemeralRoom) : Lifecycle where
  status := room.status
  generation := room.generation
  idleTtlSeconds := room.idleTtlSeconds
  lastPresenceAt := room.lastPresenceAt
  idleSince := room.idleSince
  expiresAt := room.expiresAt
  insertedAt := room.insertedAt

namespace Lifecycle

/-- An idle room becomes active again. -/
def reactivate (life : Lifecycle) (timestamp : Int) : Lifecycle :=
  match life.status with
  | .idle =>
    { life with
      status := .active
      idleSince := none
      expiresAt := none
      lastPresenceAt := some timestamp
      generation := life.generation + 1 }
  | _ => life

def present (life : Lifecycle) (timestamp : Int) : Lifecycle := { life with lastPresenceAt := some timestamp }

def leave (life : Lifecycle) (timestamp : Int) : Lifecycle :=
  if life.lastPresenceAt.any (timestamp ≤ ·) then life else life.present timestamp

def baseline (life : Lifecycle) : Int := life.lastPresenceAt.getD life.insertedAt

def becomeIdle (life : Lifecycle) : Lifecycle :=
  { life with
    status := .idle
    idleSince := some life.baseline
    expiresAt := some (life.baseline + seconds life.idleTtlSeconds)
    generation := life.generation + 1 }

def expire (life : Lifecycle) (timestamp : Int) : Lifecycle :=
  { life with status := .expired, expiresAt := some timestamp, generation := life.generation + 1 }

def upgrade (life : Lifecycle) (ttl : Int) : Lifecycle :=
  { life with
    idleTtlSeconds := ttl
    expiresAt := if life.status = .idle then life.idleSince.map (· + seconds ttl) else none
    generation := life.generation + 1 }

end Lifecycle

/-- One committed command, as the life of the room sees it. -/
inductive LifecycleStep (settings : RoomSettings) (step : RoomStep) (life : Lifecycle) : Lifecycle → Prop
  | stay (quiet : step.presence = []) : LifecycleStep settings step life life
  | joined (quiet : step.presence = []) (usable : life.status ≠ .expired) :
      LifecycleStep settings step life (life.reactivate step.times.second)
  | present (counted : step.presence = [step.times.first]) (usable : life.status ≠ .expired) :
      LifecycleStep settings step life ((life.reactivate step.times.second).present step.times.first)
  | left (quiet : step.presence = []) (timestamp : Int) : LifecycleStep settings step life (life.leave timestamp)
  | idled (quiet : step.presence = []) (active : life.status = .active) :
      LifecycleStep settings step life life.becomeIdle
  | expired (quiet : step.presence = []) (generation : Nat) (job : step.command = .expire generation)
      (idle : life.status = .idle)
      (due : ∀ deadline, life.expiresAt = some deadline → deadline ≤ step.times.first) :
      LifecycleStep settings step life (life.expire step.times.first)
  | upgraded (quiet : step.presence = []) :
      LifecycleStep settings step life (life.upgrade settings.registeredIdleTtlSeconds)

variable {settings : RoomSettings} {facts : RoomFacts} {times : Readings} {scope scope' : RoomScope} {step : RoomStep}

/-! ### The helpers leave the life of the room alone -/

variable {deadline timestamp : Int} {grant : Grant} {digest userId : String} {key : JoinKey} {mode : PresenceMode}
  {membershipId sessionId admissionId newSessionId : String}

theorem extend_lifecycle (h : (extendLinkAndAdmissions facts deadline scope).Commits scope') :
    scope' = scope.withDeadline deadline := by
  simp only [extendLinkAndAdmissions, commits_bind, commits_check, commits_pure] at h
  obtain ⟨-, -, rfl⟩ := h
  rfl

/-- The rolling authority is extended, or it stays. -/
theorem rolling_commits (h : (ensureRollingAuthority facts timestamp scope).Commits (deadline, scope')) :
    (refreshDue scope.room timestamp = true ∧ scope' = scope.withDeadline deadline) ∨
      (refreshDue scope.room timestamp = false ∧ deadline = scope.room.authorityExpiresAt ∧ scope' = scope) := by
  unfold ensureRollingAuthority at h
  split at h
  · rename_i hdue
    simp only [commits_bind, commits_pure, Prod.mk.injEq] at h
    obtain ⟨extended, hextended, rfl, rfl⟩ := h
    exact .inl ⟨hdue, extend_lifecycle hextended⟩
  · rename_i hdue
    rw [Bool.not_eq_true] at hdue
    rw [commits_pure, Prod.mk.injEq] at h
    obtain ⟨rfl, rfl⟩ := h
    exact .inr ⟨hdue, rfl, rfl⟩

private theorem rolling_lifecycle (h : (ensureRollingAuthority facts timestamp scope).Commits (deadline, scope')) :
    scope'.room.lifecycle = scope.room.lifecycle := by
  rcases rolling_commits h with ⟨-, rfl⟩ | ⟨-, -, rfl⟩
  · rfl
  · rfl

theorem reactivate_lifecycle (h : (reactivateRoom facts timestamp scope).Commits scope') :
    scope.room.status ≠ .expired ∧ scope'.room.lifecycle = scope.room.lifecycle.reactivate timestamp := by
  unfold reactivateRoom at h
  cases hstatus : scope.room.status with
  | active =>
    rw [hstatus] at h
    simp only [commits_pure] at h
    subst h
    refine ⟨by decide, ?_⟩
    unfold Lifecycle.reactivate EphemeralRoom.lifecycle
    simp only [hstatus]
  | idle =>
    rw [hstatus] at h
    simp only [commits_bind, commits_check] at h
    obtain ⟨-, -, h⟩ := h
    rw [extend_lifecycle h]
    refine ⟨by decide, ?_⟩
    unfold Lifecycle.reactivate EphemeralRoom.lifecycle
    simp only [hstatus]
    rfl
  | expired =>
    rw [hstatus] at h
    exact absurd h (commits_rollback _ _)

theorem presentGuest_commits (h : (maybeExtendPresentGuest grant deadline scope).Commits scope') :
    scope' = scope ∨ ∃ id, scope' = { scope with
      admissions := scope.admissions.update id (fun admission => { admission with expiresAt := deadline })
        fun _ => rfl } := by
  unfold maybeExtendPresentGuest at h
  split at h
  · split at h
    · exact absurd h (commits_rollback _ _)
    · rename_i admission hadmission
      rw [commits_pure] at h
      exact .inr ⟨admission.id, h.symm⟩
  · rw [commits_pure] at h
    exact .inl h.symm

theorem upsertLease_commits {leaseId : String} {expiresAt : Int}
    (h : (upsertLease mode grant leaseId digest timestamp expiresAt scope).Commits scope') :
    ∃ leases, scope' = { scope with leases := leases } := by
  unfold upsertLease at h
  split at h
  · split at h
    · exact absurd h (commits_rollback _ _)
    · simp only [commits_bind] at h
      obtain ⟨-, -, h⟩ := h
      split at h
      · rename_i leases hleases
        rw [commits_pure] at h
        exact ⟨leases, h.symm⟩
      · exact absurd h (commits_rollback _ _)
  · split at h
    · rw [commits_pure] at h
      exact ⟨_, h.symm⟩
    · exact absurd h (commits_rollback _ _)

theorem addMembership_commits {membership : RoomMembership} (h : (addMembership membership scope).Commits scope') :
    ∃ memberships, scope' = { scope with memberships := memberships } := by
  unfold addMembership at h
  split at h
  · rename_i memberships hmemberships
    rw [commits_pure] at h
    exact ⟨memberships, h.symm⟩
  · exact absurd h (commits_rollback _ _)

theorem addAdmission_commits {admission : GuestAdmission} (h : (addAdmission admission scope).Commits scope') :
    ∃ admissions, scope.admissions.insert admission = some admissions ∧
      scope' = { scope with admissions := admissions } := by
  unfold addAdmission at h
  split at h
  · rename_i admissions hadmissions
    rw [commits_pure] at h
    exact ⟨admissions, hadmissions, h.symm⟩
  · exact absurd h (commits_rollback _ _)

theorem humanMembership_commits {member : String}
    (h : (humanMembership times userId membershipId scope).Commits (member, scope')) :
    ∃ memberships, scope' = { scope with memberships := memberships } := by
  unfold humanMembership at h
  split at h
  · split at h
    · rw [commits_pure, Prod.mk.injEq] at h
      exact ⟨scope.memberships, h.2.symm⟩
    · simp only [commits_bind, commits_pure, Prod.mk.injEq] at h
      obtain ⟨-, -, -, rfl⟩ := h
      exact ⟨_, rfl⟩
  · simp only [commits_bind, commits_pure, Prod.mk.injEq] at h
    obtain ⟨-, -, joined, hjoined, -, rfl⟩ := h
    exact addMembership_commits hjoined

theorem joinHuman_commits (h : (joinHuman times userId membershipId key scope).Commits scope') :
    ∃ memberships receipts, scope' = { scope with memberships := memberships, receipts := receipts } := by
  unfold joinHuman at h
  split at h
  · simp only [commits_bind, commits_check, commits_pure] at h
    obtain ⟨-, -, -, -, -, -, rfl⟩ := h
    exact ⟨scope.memberships, scope.receipts, rfl⟩
  · simp only [commits_bind, commits_pure] at h
    obtain ⟨⟨member, joined⟩, hjoined, rfl⟩ := h
    obtain ⟨memberships, rfl⟩ := humanMembership_commits hjoined
    exact ⟨memberships, _, rfl⟩

private theorem joinGuest_lifecycle {identity : GuestIdentity}
    (h : (joinGuest facts times identity key scope).Commits scope') :
    scope'.room.lifecycle = scope.room.lifecycle := by
  unfold joinGuest at h
  split at h
  · simp only [replayGuestJoin, commits_bind, commits_check, commits_pure] at h
    obtain ⟨-, -, -, -, ⟨deadline, rolled⟩, hrolled, -, -, rfl⟩ := h
    have hlife := rolling_lifecycle hrolled
    exact hlife
  · simp only [commits_bind, commits_check] at h
    obtain ⟨-, -, ⟨deadline, rolled⟩, hrolled, -, -, joined, hjoined, h⟩ := h
    obtain ⟨admissions, -, rfl⟩ := addAdmission_commits h
    obtain ⟨memberships, rfl⟩ := addMembership_commits hjoined
    have hlife := rolling_lifecycle hrolled
    exact hlife

/-! ### The commands -/

private theorem join_lifecycle {joiner : Joiner} (h : (join facts times key joiner scope).Commits scope') :
    scope.room.status ≠ .expired ∧ scope'.room.lifecycle = scope.room.lifecycle.reactivate times.second := by
  simp only [join, commits_bind, commits_check, commits_pure] at h
  obtain ⟨-, -, -, -, -, -, -, -, woken, hwoken, joined, hjoined, -, -, rfl⟩ := h
  obtain ⟨hstatus, hlife⟩ := reactivate_lifecycle hwoken
  refine ⟨hstatus, ?_⟩
  rw [← hlife]
  cases joiner with
  | guest identity => exact joinGuest_lifecycle hjoined
  | human userId membershipId =>
    obtain ⟨memberships, receipts, rfl⟩ := joinHuman_commits hjoined
    rfl

private theorem upsert_lifecycle {leaseId : String}
    (h : (upsert settings facts times mode grant leaseId digest scope).Commits scope') :
    scope.room.status ≠ .expired ∧
      scope'.room.lifecycle = (scope.room.lifecycle.reactivate times.second).present times.first := by
  simp only [upsert, commits_bind, commits_check, commits_pure] at h
  obtain ⟨-, -, -, -, -, -, -, -, woken, hwoken, ⟨deadline, rolled⟩, hrolled, extended, hextended, leased, hleased, -, -,
    rfl⟩ := h
  obtain ⟨hstatus, hlife⟩ := reactivate_lifecycle hwoken
  refine ⟨hstatus, ?_⟩
  rw [← hlife, ← rolling_lifecycle hrolled]
  obtain ⟨leases, rfl⟩ := upsertLease_commits hleased
  rcases presentGuest_commits hextended with rfl | ⟨id, rfl⟩
  · rfl
  · rfl

private theorem replay_lifecycle {kind : OwnerKind} {fingerprint : String} {decrypted : Bool}
    (h : (replayCreation facts times kind fingerprint sessionId decrypted scope).Commits scope') :
    scope'.room.lifecycle = scope.room.lifecycle := by
  simp only [replayCreation, commits_bind, commits_check] at h
  obtain ⟨-, -, -, -, -, -, -, -, -, -, h⟩ := h
  split at h
  · unfold replayGuestCreator at h
    split at h
    · exact absurd h (commits_rollback _ _)
    · simp only [commits_bind, commits_check, commits_pure] at h
      obtain ⟨⟨deadline, rolled⟩, hrolled, -, -, rfl⟩ := h
      have hlife := rolling_lifecycle hrolled
      exact hlife
  · rw [commits_pure] at h
    rw [h]

private theorem close_lifecycle (h : (closePresence facts times grant digest scope).Commits scope') :
    ∃ timestamp, scope'.room.lifecycle = scope.room.lifecycle.leave timestamp := by
  simp only [closePresence, commits_bind, commits_check] at h
  obtain ⟨-, -, -, -, -, -, h⟩ := h
  split at h
  · exact absurd h (commits_rollback _ _)
  · rename_i lease hlease
    simp only [commits_bind, commits_check, commits_pure] at h
    obtain ⟨-, -, rfl⟩ := h
    refine ⟨lease.closedOr times.first, ?_⟩
    unfold EphemeralRoom.advanceLastPresence Lifecycle.leave EphemeralRoom.lifecycle
    split <;> rfl

/-- A job that reconciles a room may find it active and without presence. -/
theorem reconcile_commits {generation : Nat} (h : (reconcile facts times generation scope).Commits scope') :
    scope' = scope ∨ (scope.room.generation = generation ∧ scope.room.status = .active ∧
      scope' = { scope with room := scope.room.becomeIdle }.withDeadline
        (scope.room.presenceBaseline + seconds scope.room.idleTtlSeconds)) := by
  simp only [reconcile, commits_bind, commits_check] at h
  obtain ⟨-, -, h⟩ := h
  split at h
  · exact .inl ((commits_pure _ _).mp h).symm
  rename_i hexpired
  split at h
  · exact .inl ((commits_pure _ _).mp h).symm
  rename_i hgeneration
  split at h
  · exact .inl ((commits_pure _ _).mp h).symm
  split at h
  · exact .inl ((commits_pure _ _).mp h).symm
  split at h
  · exact .inl ((commits_pure _ _).mp h).symm
  rename_i hidle
  right
  refine ⟨not_not.mp hgeneration, ?_, ?_⟩
  · cases hstatus : scope.room.status with
    | active => rfl
    | idle => exact absurd hstatus hidle
    | expired => exact absurd hstatus hexpired
  · simp only [transitionToIdle, commits_bind, commits_check, commits_pure] at h
    obtain ⟨-, -, rfl⟩ := h
    rfl

/-- A job that expires a room finds it idle, with this generation, without presence, and after its deadline. -/
theorem expire_commits {generation : Nat} (h : (expire facts times generation scope).Commits scope') :
    scope' = scope ∨ (scope.room.generation = generation ∧ scope.room.status = .idle ∧
      livePresence scope times.first = false ∧ (∀ deadline, scope.room.expiresAt = some deadline → deadline ≤ times.first) ∧
      scope' = scope.expire times.first) := by
  simp only [expire, commits_bind, commits_check] at h
  obtain ⟨-, -, h⟩ := h
  split at h
  · exact .inl ((commits_pure _ _).mp h).symm
  rename_i hexpired
  split at h
  · exact .inl ((commits_pure _ _).mp h).symm
  rename_i hgeneration
  split at h
  · exact .inl ((commits_pure _ _).mp h).symm
  rename_i hpresent
  rw [Bool.or_eq_true, decide_eq_true_eq, not_or, Bool.not_eq_true] at hpresent
  split at h
  · exact .inl ((commits_pure _ _).mp h).symm
  rename_i hdue
  right
  simp only [commits_bind, commits_check, commits_pure] at h
  obtain ⟨-, -, -, -, rfl⟩ := h
  refine ⟨not_not.mp hgeneration, ?_, hpresent.2, ?_, rfl⟩
  · cases hstatus : scope.room.status with
    | active => exact absurd hstatus hpresent.1
    | idle => rfl
    | expired => exact absurd hstatus hexpired
  · intro deadline hdeadline
    rw [hdeadline, Option.any_some, decide_eq_true_eq] at hdue
    omega

theorem upgrade_commits (h : (upgradeConvertedOwner settings facts userId sessionId scope).Commits scope') :
    scope' = scope ∨ (scope' = { scope with room := scope.room.upgrade settings sessionId } ∧
        scope.room.status ≠ .idle) ∨
      ∃ deadline, (scope.room.upgrade settings sessionId).expiresAt = some deadline ∧
        scope' = { scope with room := scope.room.upgrade settings sessionId }.withDeadline deadline := by
  unfold upgradeConvertedOwner at h
  split at h
  · simp only [commits_bind, commits_check] at h
    obtain ⟨-, -, h⟩ := h
    split at h
    · rename_i deadline hstatus hdeadline
      exact .inr (.inr ⟨deadline, hdeadline, extend_lifecycle h⟩)
    · exact absurd h (commits_rollback _ _)
    · rename_i hsome hnone
      rw [commits_pure] at h
      subst h
      refine .inr (.inl ⟨rfl, fun hidle => ?_⟩)
      have hstatus : (scope.room.upgrade settings sessionId).status = .idle := hidle
      cases hdeadline : (scope.room.upgrade settings sessionId).expiresAt with
      | none => exact hnone hstatus hdeadline
      | some deadline => exact hsome deadline hstatus hdeadline
  · rw [commits_pure] at h
    exact .inl h.symm

/-- What a conversion does: the admission is converted, the room may be upgraded, and the leases are handed over. -/
theorem convert_commits (h : (convert settings facts times admissionId newSessionId scope).Commits scope') :
    ∃ userId leases upgraded, (upgradeConvertedOwner settings facts userId newSessionId { scope with
        admissions := scope.admissions.update admissionId
          (fun admission => { admission with convertedAt := some times.first }) fun _ => rfl }).Commits upgraded ∧
      scope' = { upgraded with leases := leases } := by
  simp only [convert, commits_bind, commits_check] at h
  obtain ⟨-, -, h⟩ := h
  split at h
  · exact absurd h (commits_rollback _ _)
  · rename_i admission hadmission
    simp only [commits_bind, commits_check, commits_pure] at h
    obtain ⟨-, -, -, -, upgraded, hupgraded, -, -, rfl⟩ := h
    exact ⟨admission.guestUserId, _, upgraded, hupgraded, rfl⟩

private theorem convert_lifecycle (h : (convert settings facts times admissionId newSessionId scope).Commits scope') :
    scope'.room.lifecycle = scope.room.lifecycle ∨
      scope'.room.lifecycle = scope.room.lifecycle.upgrade settings.registeredIdleTtlSeconds := by
  obtain ⟨userId, leases, upgraded, hupgraded, rfl⟩ := convert_commits h
  rcases upgrade_commits hupgraded with rfl | ⟨rfl, -⟩ | ⟨deadline, -, rfl⟩
  · exact .inl rfl
  · exact .inr rfl
  · exact .inr rfl

/-- Every command that commits is a step of the life of the room. -/
theorem execute_lifecycle (h : (execute settings step scope).Commits scope') :
    LifecycleStep settings step scope.room.lifecycle scope'.room.lifecycle := by
  obtain ⟨facts, times, command⟩ := step
  cases command with
  | join key joiner =>
    obtain ⟨hstatus, hlife⟩ := join_lifecycle h
    rw [hlife]
    exact .joined rfl hstatus
  | replayCreation kind fingerprint sessionId decrypted =>
    rw [replay_lifecycle h]
    exact .stay rfl
  | presence mode grant leaseId digest =>
    obtain ⟨hstatus, hlife⟩ := upsert_lifecycle h
    rw [hlife]
    exact .present rfl hstatus
  | close grant digest =>
    obtain ⟨timestamp, hlife⟩ := close_lifecycle h
    rw [hlife]
    exact .left rfl timestamp
  | reconcile generation =>
    rcases reconcile_commits h with rfl | ⟨-, hactive, rfl⟩
    · exact .stay rfl
    · exact .idled rfl hactive
  | expire generation =>
    rcases expire_commits h with rfl | ⟨-, hidle, -, hdue, rfl⟩
    · exact .stay rfl
    · exact .expired rfl generation rfl hidle hdue
  | convert admissionId newSessionId =>
    rcases convert_lifecycle h with hlife | hlife
    · rw [hlife]
      exact .stay rfl
    · rw [hlife]
      exact .upgraded rfl

end KComms.Rooms
