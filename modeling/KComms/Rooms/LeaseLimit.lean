import KComms.Rooms.Inactivity

/-!
# The limit of live leases

A new lease is refused to a user who has five live ones; a lease that is opened or renewed again is not counted.  So the
limit holds in every run in which a lease that has been closed, or that has lapsed, is renewed only below it.
-/

namespace KComms.Rooms

open Attempt KComms.Accounts

/-- A lease of the user that is neither closed nor over. -/
def PresenceLease.liveFor (userId : String) (timestamp : Int) (lease : PresenceLease) : Bool :=
  lease.userId = userId && lease.closedAt.isNone && timestamp < lease.expiresAt

def liveLeases (scope : RoomScope) (userId : String) (timestamp : Int) : Nat :=
  scope.leases.rows.countP (·.liveFor userId timestamp)

/-! ### What a command does to the leases -/

/-- A lease that is opened or renewed again. -/
def PresenceLease.renew (timestamp expiresAt : Int) (lease : PresenceLease) : PresenceLease :=
  { lease with lastSeenAt := timestamp, expiresAt := expiresAt, closedAt := none }

inductive LeaseStep (scope : RoomScope) (step : RoomStep) (leases : KeyedTable PresenceLease.id) : Prop
  /-- no lease becomes live -/
  | fewer (count : ∀ userId timestamp, leases.rows.countP (·.liveFor userId timestamp) ≤
      liveLeases scope userId timestamp)
  | opened (grant : Grant) (leaseId digest : String) (lease : PresenceLease)
      (command : step.command = .presence .openLease grant leaseId digest) (owner : lease.userId = grant.userId)
      (limit : liveLeases scope grant.userId step.times.first < maxActiveLeasesPerUser)
      (rows : leases.rows = lease :: scope.leases.rows)
  | renewed (mode : PresenceMode) (grant : Grant) (leaseId digest : String) (lease : PresenceLease) (expiresAt : Int)
      (command : step.command = .presence mode grant leaseId digest)
      (found : leaseOfConnection scope digest = some lease) (owner : lease.userId = grant.userId)
      (rows : leases = scope.leases.update lease.id (·.renew step.times.first expiresAt) fun _ => rfl)

variable {settings : RoomSettings} {facts : RoomFacts} {times : Readings} {scope scope' : RoomScope} {step : RoomStep}
  {timestamp : Int} {digest userId : String}

private theorem same_leases {leases : KeyedTable PresenceLease.id} (h : leases = scope.leases) :
    LeaseStep scope step leases :=
  .fewer fun userId timestamp => Nat.le_of_eq (by rw [h]; rfl)

private theorem reactivate_leases (h : (reactivateRoom facts timestamp scope).Commits scope') :
    scope'.leases = scope.leases := by
  unfold reactivateRoom at h
  split at h
  · rw [commits_pure] at h
    rw [h]
  · simp only [commits_bind, commits_check] at h
    obtain ⟨-, -, h⟩ := h
    rw [extend_lifecycle h]
    rfl
  · exact absurd h (commits_rollback _ _)

private theorem rolling_leases {deadline : Int}
    (h : (ensureRollingAuthority facts timestamp scope).Commits (deadline, scope')) : scope'.leases = scope.leases := by
  rcases rolling_commits h with ⟨-, rfl⟩ | ⟨-, -, rfl⟩
  · rfl
  · rfl

private theorem joinGuest_leases {identity : GuestIdentity} {key : JoinKey}
    (h : (joinGuest facts times identity key scope).Commits scope') : scope'.leases = scope.leases := by
  unfold joinGuest at h
  split at h
  · simp only [replayGuestJoin, commits_bind, commits_check, commits_pure] at h
    obtain ⟨-, -, -, -, ⟨deadline, rolled⟩, hrolled, -, -, rfl⟩ := h
    have hleases := rolling_leases hrolled
    exact hleases
  · simp only [commits_bind, commits_check] at h
    obtain ⟨-, -, ⟨deadline, rolled⟩, hrolled, -, -, joined, hjoined, h⟩ := h
    obtain ⟨admissions, -, rfl⟩ := addAdmission_commits h
    obtain ⟨memberships, rfl⟩ := addMembership_commits hjoined
    have hleases := rolling_leases hrolled
    exact hleases

private theorem join_leases {key : JoinKey} {joiner : Joiner} (h : (join facts times key joiner scope).Commits scope') :
    scope'.leases = scope.leases := by
  simp only [join, commits_bind, commits_check, commits_pure] at h
  obtain ⟨-, -, -, -, -, -, -, -, woken, hwoken, joined, hjoined, -, -, rfl⟩ := h
  rw [← reactivate_leases hwoken]
  cases joiner with
  | guest identity => exact joinGuest_leases hjoined
  | human userId membershipId =>
    obtain ⟨memberships, receipts, rfl⟩ := joinHuman_commits hjoined
    rfl

private theorem replay_leases {kind : OwnerKind} {fingerprint sessionId : String} {decrypted : Bool}
    (h : (replayCreation facts times kind fingerprint sessionId decrypted scope).Commits scope') :
    scope'.leases = scope.leases := by
  simp only [replayCreation, commits_bind, commits_check] at h
  obtain ⟨-, -, -, -, -, -, -, -, -, -, h⟩ := h
  split at h
  · unfold replayGuestCreator at h
    split at h
    · exact absurd h (commits_rollback _ _)
    · simp only [commits_bind, commits_check, commits_pure] at h
      obtain ⟨⟨deadline, rolled⟩, hrolled, -, -, rfl⟩ := h
      have hleases := rolling_leases hrolled
      exact hleases
  · rw [commits_pure] at h
    rw [h]

/-- A closed lease is not live. -/
private theorem close_not_live (userId : String) (timestamp closed : Int) (lease : PresenceLease) :
    (lease.close closed).liveFor userId timestamp = false := by
  unfold PresenceLease.close PresenceLease.liveFor
  split
  · rename_i hclosed
    simp [hclosed]
  · simp

private theorem close_leases {grant : Grant} (h : (closePresence facts times grant digest scope).Commits scope')
    (userId : String) (timestamp : Int) :
    liveLeases scope' userId timestamp ≤ liveLeases scope userId timestamp := by
  simp only [closePresence, commits_bind, commits_check] at h
  obtain ⟨-, -, -, -, -, -, h⟩ := h
  split at h
  · exact absurd h (commits_rollback _ _)
  · simp only [commits_bind, commits_check, commits_pure] at h
    obtain ⟨-, -, rfl⟩ := h
    refine KeyedTable.countP_modify_le _ (PresenceLease.close_id times.first) fun lease _ _ hlive => ?_
    rw [close_not_live] at hlive
    cases hlive

private theorem handOff_live {owner oldSessionId newSessionId : String} {handed : Int} {lease : PresenceLease}
    (h : (lease.handOff owner oldSessionId newSessionId handed).liveFor userId timestamp = true) :
    lease.liveFor userId timestamp = true := by
  unfold PresenceLease.handOff at h
  split at h
  · simp [PresenceLease.liveFor] at h
  · exact h

private theorem upgrade_leases {sessionId : String}
    (h : (upgradeConvertedOwner settings facts userId sessionId scope).Commits scope') :
    scope'.leases = scope.leases := by
  rcases upgrade_commits h with rfl | ⟨rfl, -⟩ | ⟨deadline, -, rfl⟩
  · rfl
  · rfl
  · rfl

private theorem convert_leases {admissionId newSessionId : String}
    (h : (convert settings facts times admissionId newSessionId scope).Commits scope') (userId : String)
    (timestamp : Int) : liveLeases scope' userId timestamp ≤ liveLeases scope userId timestamp := by
  simp only [convert, commits_bind, commits_check] at h
  obtain ⟨-, -, h⟩ := h
  split at h
  · exact absurd h (commits_rollback _ _)
  · rename_i admission hadmission
    simp only [commits_bind, commits_check, commits_pure] at h
    obtain ⟨-, -, -, -, upgraded, hupgraded, -, -, rfl⟩ := h
    have hleases := upgrade_leases hupgraded
    unfold liveLeases
    rw [show scope.leases = upgraded.leases from hleases.symm]
    exact KeyedTable.countP_modify_le _ (PresenceLease.handOff_id _ _ _ _) fun lease _ _ hlive => handOff_live hlive

private theorem upsert_leases {mode : PresenceMode} {grant : Grant} {leaseId : String}
    (h : (upsert settings facts times mode grant leaseId digest scope).Commits scope') :
    LeaseStep scope ⟨facts, times, .presence mode grant leaseId digest⟩ scope'.leases := by
  simp only [upsert, commits_bind, commits_check, commits_pure] at h
  obtain ⟨-, -, -, -, -, -, -, -, woken, hwoken, ⟨deadline, rolled⟩, hrolled, extended, hextended, leased, hleased, -, -,
    rfl⟩ := h
  have hleases : extended.leases = scope.leases := by
    rw [← reactivate_leases hwoken, ← rolling_leases hrolled]
    rcases presentGuest_commits hextended with rfl | ⟨id, rfl⟩
    · rfl
    · rfl
  unfold upsertLease leaseOfConnection at hleased
  rw [hleases] at hleased
  split at hleased
  · cases mode with
    | heartbeat => exact absurd hleased (commits_rollback _ _)
    | openLease =>
      simp only [enforceLeaseLimit, hleases, commits_bind, commits_check, decide_eq_true_eq] at hleased
      obtain ⟨-, hlimit, hleased⟩ := hleased
      rw [← List.countP_eq_length_filter] at hlimit
      unfold KeyedTable.insert at hleased
      split at hleased
      · rename_i leases hinserted
        rw [commits_pure] at hleased
        subst hleased
        split at hinserted
        · cases hinserted
        · cases hinserted
          exact .opened grant leaseId digest _ rfl rfl hlimit rfl
      · exact absurd hleased (commits_rollback _ _)
  · rename_i lease hfound
    split at hleased
    · rename_i howner
      rw [Bool.and_eq_true, decide_eq_true_eq] at howner
      rw [commits_pure] at hleased
      subst hleased
      exact .renewed mode grant leaseId digest lease _ rfl hfound howner.1 rfl
    · exact absurd hleased (commits_rollback _ _)

/-- Every command that commits is such a step. -/
theorem execute_leases (h : (execute settings step scope).Commits scope') : LeaseStep scope step scope'.leases := by
  obtain ⟨facts, times, command⟩ := step
  cases command with
  | join key joiner => exact same_leases (join_leases h)
  | replayCreation kind fingerprint sessionId decrypted => exact same_leases (replay_leases h)
  | presence mode grant leaseId digest => exact upsert_leases h
  | close grant digest => exact .fewer (close_leases h)
  | reconcile generation =>
    rcases reconcile_commits h with rfl | ⟨-, -, rfl⟩
    · exact same_leases rfl
    · exact same_leases rfl
  | expire generation =>
    rcases expire_commits h with rfl | ⟨-, -, -, -, rfl⟩
    · exact same_leases rfl
    · exact same_leases rfl
  | convert admissionId newSessionId => exact .fewer (convert_leases h)

/-! ### Runs -/

def Limited (scope : RoomScope) (clock : Int) : Prop :=
  ∀ userId timestamp, clock ≤ timestamp → liveLeases scope userId timestamp ≤ maxActiveLeasesPerUser

def ObservedRoom.Limited (observed : ObservedRoom) : Prop := Rooms.Limited observed.scope observed.clock

/-- Whoever renews a lease that has been closed, or that has lapsed, has fewer live leases than the limit. -/
def RenewsWithinLimit (settings : RoomSettings) (observed : ObservedRoom) (step : RoomStep) : Prop :=
  ∀ mode grant leaseId digest lease, step.command = .presence mode grant leaseId digest →
    leaseOfConnection observed.scope digest = some lease → lease.userId = grant.userId →
    lease.liveFor grant.userId step.times.first = false →
    (execute settings step observed.scope).outcome.isOk = true →
    liveLeases observed.scope grant.userId step.times.first < maxActiveLeasesPerUser

/-- A lease that is live is live before, once it is there. -/
theorem liveLeases_antitone {later : Int} (h : timestamp ≤ later) :
    liveLeases scope userId later ≤ liveLeases scope userId timestamp := by
  refine List.countP_mono_left fun lease _ hlive => ?_
  unfold PresenceLease.liveFor at hlive ⊢
  simp only [Bool.and_eq_true, decide_eq_true_eq] at hlive ⊢
  exact ⟨hlive.1, by omega⟩

variable {observed : ObservedRoom}

private theorem limited_renewed {grant : Grant} {lease : PresenceLease} {expiresAt : Int} {scope' : RoomScope}
    (h : Limited scope times.first) (hfound : leaseOfConnection scope digest = some lease)
    (howner : lease.userId = grant.userId)
    (hleases : scope'.leases = scope.leases.update lease.id (·.renew times.first expiresAt) fun _ => rfl)
    (hlimit : lease.liveFor grant.userId times.first = false →
      liveLeases scope grant.userId times.first < maxActiveLeasesPerUser) : Limited scope' times.first := by
  have hmem : lease ∈ scope.leases.rows := List.mem_of_find?_eq_some hfound
  intro userId timestamp htime
  refine Nat.le_trans (liveLeases_antitone htime) ?_
  unfold liveLeases
  rw [hleases]
  by_cases hcounted : lease.liveFor userId times.first = true
  · -- the renewed lease was counted before
    refine Nat.le_trans (KeyedTable.countP_modify_le _ _ fun row hrow hkey hlive => ?_) (h userId _ (Int.le_refl _))
    have hsame : row = lease := KeyedTable.eq_of_key hrow hmem (of_decide_eq_true hkey)
    rw [hsame]
    exact hcounted
  · by_cases huser : userId = grant.userId
    · subst huser
      rw [Bool.not_eq_true] at hcounted
      have hone : (scope.leases.update lease.id (·.renew times.first expiresAt) fun _ => rfl).rows.countP
          (·.liveFor grant.userId times.first) ≤ scope.leases.rows.countP (·.liveFor grant.userId times.first) + 1 :=
        KeyedTable.countP_update_le_succ lease.id _ _
      have hlimit := hlimit hcounted
      unfold liveLeases at hlimit
      omega
    · -- the leases of another user stay as they are
      refine Nat.le_trans (KeyedTable.countP_modify_le _ _ fun row hrow hkey hlive => ?_) (h userId _ (Int.le_refl _))
      have hsame : row = lease := KeyedTable.eq_of_key hrow hmem (of_decide_eq_true hkey)
      have huser' : row.userId = userId := by
        unfold PresenceLease.liveFor at hlive
        simp only [Bool.and_eq_true, decide_eq_true_eq] at hlive
        exact hlive.1.1
      rw [hsame, howner] at huser'
      exact absurd huser'.symm huser

theorem limited_next (h : observed.Limited) (hclock : ClockOrdered observed step)
    (hrenews : RenewsWithinLimit settings observed step) : (observed.next settings step).Limited := by
  have hordered := step.times.ordered
  unfold ClockOrdered at hclock
  have hbefore : Rooms.Limited observed.scope step.times.first :=
    fun userId timestamp htime => h userId timestamp (by omega)
  rcases next_cases with ⟨scope, hcommits, hnext⟩ | hnext
  · rw [hnext]
    have hok : (execute settings step observed.scope).outcome.isOk = true := by rw [hcommits]; rfl
    have hafter : Rooms.Limited scope step.times.first := by
      cases execute_leases hcommits with
      | fewer hcount =>
        exact fun userId timestamp htime => Nat.le_trans (hcount userId timestamp) (hbefore userId timestamp htime)
      | opened grant leaseId digest lease hcommand howner hlimit hrows =>
        intro userId timestamp htime
        refine Nat.le_trans (liveLeases_antitone htime) ?_
        have hold := hbefore userId step.times.first (Int.le_refl _)
        unfold liveLeases at hold hlimit ⊢
        rw [hrows, List.countP_cons]
        by_cases huser : userId = grant.userId
        · subst huser
          split <;> omega
        · have hother : lease.liveFor userId step.times.first = false := by
            unfold PresenceLease.liveFor
            rw [howner, decide_eq_false (Ne.symm huser), Bool.false_and, Bool.false_and]
          rw [hother]
          exact hold
      | renewed mode grant leaseId digest lease expiresAt hcommand hfound howner hleases =>
        exact limited_renewed hbefore hfound howner hleases fun hdead =>
          hrenews mode grant leaseId digest lease hcommand hfound howner hdead hok
    exact fun userId timestamp htime => hafter userId timestamp (by have : step.times.fourth ≤ timestamp := htime; omega)
  · rw [hnext]
    exact fun userId timestamp htime => hbefore userId timestamp (by have : step.times.fourth ≤ timestamp := htime; omega)

/-- In every run of a room that was created, with a clock that does not go back, in which every renewal of a lease that
is not live finds room below the limit, no user ever has more live leases than the limit. -/
theorem leases_limited (settings : RoomSettings) (facts : RoomFacts) (quota : Bool) (creator : Creator)
    (tokenDigest fingerprint : String) (maxConversationMembers : Nat) (times : Readings) (scope : RoomScope)
    (hcreated : (createRoom settings facts quota creator tokenDigest fingerprint maxConversationMembers times).Commits
      scope) (steps : List RoomStep)
    (hguard : Guarded (ObservedRoom.next settings)
      (fun observed step => ClockOrdered observed step ∧ RenewsWithinLimit settings observed step)
      (observedFrom times scope) steps) (userId : String) (timestamp : Int)
    (htime : (runCommands (ObservedRoom.next settings) (observedFrom times scope) steps).clock ≤ timestamp) :
    liveLeases (runCommands (ObservedRoom.next settings) (observedFrom times scope) steps).scope userId timestamp ≤
      maxActiveLeasesPerUser := by
  have hlimited : (runCommands (ObservedRoom.next settings) (observedFrom times scope) steps).Limited := by
    refine runCommands_invariant (fun observed step h hstep => limited_next h hstep.1 hstep.2) ?_ hguard
    rw [createRoom_commits hcreated]
    exact fun userId timestamp _ => Nat.zero_le _
  exact hlimited userId timestamp htime

/-! ### A guest with many connections -/

/-- A guest opens a connection. -/
def opens (second : Int) (leaseId connection : String) : RoomStep where
  facts := willing
  times := atSecond second
  command := .presence .openLease ⟨"guest", "s-1", true⟩ leaseId connection

def closes (second : Int) (connection : String) : RoomStep where
  facts := willing
  times := atSecond second
  command := .close ⟨"guest", "s-1", true⟩ connection

/-- A connection is closed, and opened again. -/
def reopened : List RoomStep := [opens 10 "l-1" "c-1", closes 11 "c-1", opens 12 "l-2" "c-1"]

theorem leases_limited_sample :
    liveLeases (runCommands (ObservedRoom.next sampleSettings) (observedFrom (atSecond 0) sampleRoom) reopened).scope
      "guest" (seconds 13) ≤ maxActiveLeasesPerUser := by
  refine leases_limited sampleSettings willing true (.guest sampleGuest) "token" "print" 25 (atSecond 0) sampleRoom rfl
    reopened ⟨⟨by decide, ?_⟩, ⟨by decide, ?_⟩, ⟨by decide, ?_⟩, trivial⟩ "guest" (seconds 13)
    (by decide)
  · intro mode grant leaseId digest lease hcommand _ _ _ _
    cases hcommand
    decide
  · intro mode grant leaseId digest lease hcommand
    cases hcommand
  · intro mode grant leaseId digest lease hcommand _ _ _ _
    cases hcommand
    decide

/-- The first connection is closed before five others are opened, and opened again after them. -/
def sixConnections : List RoomStep :=
  [opens 10 "l-1" "c-1", closes 11 "c-1", opens 12 "l-2" "c-2", opens 13 "l-3" "c-3", opens 14 "l-4" "c-4",
    opens 15 "l-5" "c-5", opens 16 "l-6" "c-6", opens 17 "l-7" "c-1"]

theorem sixth_lease_live :
    Guarded (ObservedRoom.next sampleSettings) ClockOrdered (observedFrom (atSecond 0) sampleRoom) sixConnections ∧
      liveLeases (runCommands (ObservedRoom.next sampleSettings) (observedFrom (atSecond 0) sampleRoom)
        sixConnections).scope "guest" (seconds 18) = 6 := by
  decide

end KComms.Rooms
