import KComms.Rooms.RoomLifecycle

/-!
# A room expires after inactivity

The last presence of a room is never before an accepted open or heartbeat, and an idle room is idle since that presence
(`IdleKept`).  So a room that expires has been without presence for its whole time to live (`expires_after_inactivity`).
-/

namespace KComms.Rooms

open Attempt KComms.Accounts

/-- What the life of a room keeps, against the times of accepted presence and the clock. -/
structure IdleKept (life : Lifecycle) (accepted : List Int) (clock : Int) : Prop where
  seen : ∀ time ∈ accepted, ∃ last, life.lastPresenceAt = some last ∧ time ≤ last
  idle : life.status = .idle → ∃ since, life.idleSince = some since ∧
    life.expiresAt = some (since + seconds life.idleTtlSeconds) ∧ ∀ time ∈ accepted, time ≤ since
  past : ∀ time ∈ accepted, time ≤ clock

variable {settings : RoomSettings} {step : RoomStep} {life life' : Lifecycle} {accepted : List Int} {clock : Int}
  {observed : ObservedRoom}

/-- A room that is used again was present after all accepted times. -/
private theorem IdleKept.reactivate (h : IdleKept life accepted clock) (hclock : clock ≤ step.times.first) :
    ∀ time ∈ accepted, ∃ last, (life.reactivate step.times.second).lastPresenceAt = some last ∧ time ≤ last := by
  intro time htime
  have hpast := h.past time htime
  have hordered := step.times.ordered
  unfold Lifecycle.reactivate
  split
  · exact ⟨step.times.second, rfl, by omega⟩
  · exact h.seen time htime

private theorem reactivate_not_idle (husable : life.status ≠ .expired) (timestamp : Int) :
    (life.reactivate timestamp).status = .active := by
  unfold Lifecycle.reactivate
  cases hstatus : life.status with
  | active => exact hstatus
  | idle => rfl
  | expired => exact absurd hstatus husable

/-- A step keeps it. -/
theorem IdleKept.after (h : IdleKept life accepted clock) (hstep : LifecycleStep settings step life life')
    (hclock : clock ≤ step.times.first) : IdleKept life' (step.presence ++ accepted) step.times.fourth := by
  have hordered := step.times.ordered
  have hpast : ∀ time ∈ accepted, time ≤ step.times.fourth := by
    intro time htime
    have := h.past time htime
    omega
  cases hstep with
  | stay quiet =>
    rw [quiet, List.nil_append]
    exact ⟨h.seen, h.idle, hpast⟩
  | joined quiet usable =>
    rw [quiet, List.nil_append]
    refine ⟨h.reactivate hclock, fun hidle => ?_, hpast⟩
    rw [reactivate_not_idle usable] at hidle
    cases hidle
  | present counted usable =>
    rw [counted]
    refine ⟨fun time htime => ⟨step.times.first, rfl, ?_⟩, fun hidle => ?_, fun time htime => ?_⟩
    · rcases List.mem_cons.mp htime with rfl | htime
      · exact Int.le_refl _
      · exact Int.le_trans (h.past time htime) hclock
    · have hactive : ((life.reactivate step.times.second).present step.times.first).status = .active :=
        reactivate_not_idle usable _
      rw [hactive] at hidle
      cases hidle
    · rcases List.mem_cons.mp htime with rfl | htime
      · omega
      · exact hpast time htime
  | left quiet timestamp =>
    rw [quiet, List.nil_append]
    unfold Lifecycle.leave
    split
    · exact ⟨h.seen, h.idle, hpast⟩
    · rename_i hlater
      refine ⟨fun time htime => ⟨timestamp, rfl, ?_⟩, h.idle, hpast⟩
      obtain ⟨last, hlast, hle⟩ := h.seen time htime
      rw [hlast, Option.any_some, decide_eq_true_eq] at hlater
      omega
  | idled quiet active =>
    rw [quiet, List.nil_append]
    refine ⟨h.seen, fun _ => ⟨life.baseline, rfl, rfl, fun time htime => ?_⟩, hpast⟩
    obtain ⟨last, hlast, hle⟩ := h.seen time htime
    unfold Lifecycle.baseline
    rw [hlast]
    exact hle
  | expired quiet generation job idle due =>
    rw [quiet, List.nil_append]
    exact ⟨h.seen, fun hidle => (by cases hidle), hpast⟩
  | upgraded quiet =>
    rw [quiet, List.nil_append]
    refine ⟨h.seen, fun hidle => ?_, hpast⟩
    have hidle : life.status = .idle := hidle
    obtain ⟨since, hsince, -, hbefore⟩ := h.idle hidle
    refine ⟨since, hsince, ?_, hbefore⟩
    unfold Lifecycle.upgrade
    simp only [hidle, hsince, if_true, Option.map_some]

/-! ### Runs -/

def ObservedRoom.IdleKept (observed : ObservedRoom) : Prop :=
  Rooms.IdleKept observed.scope.room.lifecycle observed.accepted observed.clock

theorem idleKept_next (h : observed.IdleKept) (hclock : ClockOrdered observed step) :
    (observed.next settings step).IdleKept := by
  have hordered := step.times.ordered
  unfold ClockOrdered at hclock
  rcases next_cases with ⟨scope, hcommits, hnext⟩ | hnext
  · rw [hnext]
    exact Rooms.IdleKept.after h (execute_lifecycle hcommits) hclock
  · rw [hnext]
    refine ⟨h.seen, h.idle, fun time htime => ?_⟩
    have hpast : time ≤ observed.clock := h.past time htime
    show time ≤ step.times.fourth
    omega

theorem idleKept_created {creator : Creator} {tokenDigest fingerprint : String} {maxConversationMembers : Nat}
    {times : Readings} : (observedFrom times
      (createdScope settings creator tokenDigest fingerprint maxConversationMembers times)).IdleKept where
  seen time htime := by cases htime
  idle hidle := by cases hidle
  past time htime := by cases htime

/-! ### The laws -/

/-- What one step may do to a room. -/
structure StepLaw (settings : RoomSettings) (observed : ObservedRoom) (step : RoomStep) : Prop where
  generation : observed.scope.room.generation ≤ (observed.next settings step).scope.room.generation
  status : observed.scope.room.status ≠ (observed.next settings step).scope.room.status →
    observed.scope.room.generation < (observed.next settings step).scope.room.generation
  terminal : observed.scope.room.status = .expired → (observed.next settings step).scope.room.status = .expired
  stale : ∀ generation, step.command.jobGeneration = some generation → generation ≠ observed.scope.room.generation →
    (observed.next settings step).scope = observed.scope
  inactive : observed.scope.room.status ≠ .expired → (observed.next settings step).scope.room.status = .expired →
    (∀ lease ∈ (observed.next settings step).scope.leases.rows, lease.closedAt = none →
      lease.expiresAt ≤ step.times.first) ∧
    ∀ time ∈ observed.accepted, time + seconds observed.scope.room.idleTtlSeconds ≤ step.times.first

private theorem LifecycleStep.generation (h : LifecycleStep settings step life life') :
    life.generation ≤ life'.generation ∧ (life.status ≠ life'.status → life.generation < life'.generation) := by
  cases h with
  | stay quiet => exact ⟨Nat.le_refl _, fun h => absurd rfl h⟩
  | joined quiet usable =>
    unfold Lifecycle.reactivate
    split
    · exact ⟨Nat.le_succ _, fun _ => Nat.lt_succ_self _⟩
    · exact ⟨Nat.le_refl _, fun h => absurd rfl h⟩
  | present counted usable =>
    unfold Lifecycle.present Lifecycle.reactivate
    split
    · exact ⟨Nat.le_succ _, fun _ => Nat.lt_succ_self _⟩
    · exact ⟨Nat.le_refl _, fun h => absurd rfl h⟩
  | left quiet timestamp =>
    unfold Lifecycle.leave
    split
    · exact ⟨Nat.le_refl _, fun h => absurd rfl h⟩
    · exact ⟨Nat.le_refl _, fun h => absurd rfl h⟩
  | idled quiet active => exact ⟨Nat.le_succ _, fun _ => Nat.lt_succ_self _⟩
  | expired quiet generation job idle due => exact ⟨Nat.le_succ _, fun _ => Nat.lt_succ_self _⟩
  | upgraded quiet => exact ⟨Nat.le_succ _, fun _ => Nat.lt_succ_self _⟩

theorem LifecycleStep.terminal (h : LifecycleStep settings step life life') (hexpired : life.status = .expired) :
    life'.status = .expired := by
  cases h with
  | stay quiet => exact hexpired
  | joined quiet usable => exact absurd hexpired usable
  | present counted usable => exact absurd hexpired usable
  | left quiet timestamp =>
    unfold Lifecycle.leave
    split
    · exact hexpired
    · exact hexpired
  | idled quiet active => exact absurd (active.symm.trans hexpired) (by decide)
  | expired quiet generation job idle due => rfl
  | upgraded quiet => exact hexpired

/-- A room that becomes expired was idle, and its deadline is past. -/
private theorem LifecycleStep.expires (h : LifecycleStep settings step life life') (hbefore : life.status ≠ .expired)
    (hafter : life'.status = .expired) :
    (∃ generation, step.command = .expire generation) ∧ life.status = .idle ∧
      ∀ deadline, life.expiresAt = some deadline → deadline ≤ step.times.first := by
  cases h with
  | stay quiet => exact absurd hafter hbefore
  | joined quiet usable =>
    rw [reactivate_not_idle usable] at hafter
    cases hafter
  | present counted usable =>
    have hactive : ((life.reactivate step.times.second).present step.times.first).status = .active :=
      reactivate_not_idle usable _
    rw [hactive] at hafter
    cases hafter
  | left quiet timestamp =>
    unfold Lifecycle.leave at hafter
    split at hafter
    · exact absurd hafter hbefore
    · exact absurd hafter hbefore
  | idled quiet active => cases hafter
  | expired quiet generation job idle due => exact ⟨⟨generation, job⟩, idle, due⟩
  | upgraded quiet => exact absurd hafter hbefore

/-- A job of another generation leaves the rows as they are. -/
private theorem stale_job {scope scope' : RoomScope} {generation : Nat}
    (h : (execute settings step scope).Commits scope') (hjob : step.command.jobGeneration = some generation)
    (hstale : generation ≠ scope.room.generation) : scope' = scope := by
  obtain ⟨facts, times, command⟩ := step
  cases command with
  | reconcile expected =>
    cases hjob
    rcases reconcile_commits h with hsame | ⟨hgeneration, -⟩
    · exact hsame
    · exact absurd hgeneration.symm hstale
  | expire expected =>
    cases hjob
    rcases expire_commits h with hsame | ⟨hgeneration, -⟩
    · exact hsame
    · exact absurd hgeneration.symm hstale
  | _ => cases hjob

/-- The job that expires a room finds no live lease. -/
private theorem expired_without_lease {scope scope' : RoomScope} {generation : Nat}
    (h : (execute settings step scope).Commits scope') (hjob : step.command = .expire generation)
    (hbefore : scope.room.status ≠ .expired) (hafter : scope'.room.status = .expired) :
    ∀ lease ∈ scope'.leases.rows, lease.closedAt = none → lease.expiresAt ≤ step.times.first := by
  unfold execute at h
  rw [hjob] at h
  rcases expire_commits h with rfl | ⟨-, -, hlive, -, rfl⟩
  · exact absurd hafter hbefore
  · intro lease hlease hopen
    unfold livePresence at hlive
    rw [List.any_eq_false] at hlive
    have hdead : ¬ (lease.closedAt.isNone && decide (step.times.first < lease.expiresAt)) = true := hlive lease hlease
    rw [hopen, Option.isNone_none, Bool.true_and, decide_eq_true_eq] at hdead
    exact Int.not_lt.mp hdead

/-- Each step obeys the laws. -/
theorem stepLaw (hkept : observed.IdleKept) : StepLaw settings observed step := by
  have hcases : (∃ scope, (execute settings step observed.scope).Commits scope ∧ observed.next settings step = _) ∨ _ :=
    next_cases
  rcases hcases with ⟨scope, hcommits, hnext⟩ | hnext
  · have hstep := execute_lifecycle hcommits
    have hgeneration := hstep.generation
    constructor
    · rw [hnext]
      exact hgeneration.1
    · rw [hnext]
      exact hgeneration.2
    · rw [hnext]
      exact hstep.terminal
    · intro generation hjob hstale
      rw [hnext]
      exact stale_job hcommits hjob hstale
    · rw [hnext]
      intro hbefore hafter
      obtain ⟨⟨generation, hjob⟩, hidle, hdue⟩ := hstep.expires hbefore hafter
      refine ⟨expired_without_lease hcommits hjob hbefore hafter, fun time htime => ?_⟩
      obtain ⟨since, -, hexpires, hbefore⟩ := hkept.idle hidle
      have htime := hbefore time htime
      have hdue : since + seconds observed.scope.room.idleTtlSeconds ≤ step.times.first := hdue _ hexpires
      omega
  · constructor
    · exact Nat.le_of_eq (by rw [hnext])
    · rw [hnext]
      intro h
      exact absurd rfl h
    · rw [hnext]
      exact id
    · intro generation hjob hstale
      rw [hnext]
    · rw [hnext]
      intro hbefore hafter
      exact absurd hafter hbefore

/-- In every run of a room that was created, with a clock that does not go back: an idle room expires its time to live
after it became idle, and every next step obeys the laws. -/
theorem expires_after_inactivity (settings : RoomSettings) (facts : RoomFacts) (quota : Bool) (creator : Creator)
    (tokenDigest fingerprint : String) (maxConversationMembers : Nat) (times : Readings) (scope : RoomScope)
    (hcreated : (createRoom settings facts quota creator tokenDigest fingerprint maxConversationMembers times).Commits
      scope) (steps : List RoomStep)
    (hclock : Guarded (ObservedRoom.next settings) ClockOrdered (observedFrom times scope) steps) :
    ((runCommands (ObservedRoom.next settings) (observedFrom times scope) steps).scope.room.status = .idle →
      ∃ since,
        (runCommands (ObservedRoom.next settings) (observedFrom times scope) steps).scope.room.idleSince = some since ∧
        (runCommands (ObservedRoom.next settings) (observedFrom times scope) steps).scope.room.expiresAt =
          some (since + seconds
            (runCommands (ObservedRoom.next settings) (observedFrom times scope) steps).scope.room.idleTtlSeconds)) ∧
    ∀ step, StepLaw settings (runCommands (ObservedRoom.next settings) (observedFrom times scope) steps) step := by
  have hkept : (runCommands (ObservedRoom.next settings) (observedFrom times scope) steps).IdleKept := by
    refine runCommands_invariant (fun observed step h hstep => idleKept_next h hstep) ?_ hclock
    rw [createRoom_commits hcreated]
    exact idleKept_created
  refine ⟨fun hidle => ?_, fun step => stepLaw hkept⟩
  obtain ⟨since, hsince, hexpires, -⟩ := hkept.idle hidle
  exact ⟨since, hsince, hexpires⟩

/-! ### A guest who looks in -/

def sampleSettings : RoomSettings where
  guestIdleTtlSeconds := 3600
  registeredIdleTtlSeconds := 86400
  reconnectGraceSeconds := 90
  presenceLeaseSeconds := 90
  maxParticipants := 25

def willing : RoomFacts where
  locked := true
  actorCurrent := true
  identity := true
  valid := true
  contributed := true

def sampleGuest : GuestIdentity where
  userId := "guest"
  sessionId := "s-1"
  membershipId := "m-1"
  admissionId := "a-1"

/-- All readings at this second. -/
def atSecond (second : Int) : Readings where
  first := seconds second
  second := seconds second
  third := seconds second
  fourth := seconds second
  ordered := ⟨Int.le_refl _, Int.le_refl _, Int.le_refl _⟩

def sampleRoom : RoomScope := createdScope sampleSettings (.guest sampleGuest) "token" "print" 25 (atSecond 0)

/-- The guest opens a lease after ten seconds, is gone when the grace is over, and the room expires after an hour. -/
def sampleSteps : List RoomStep :=
  [{ facts := willing, times := atSecond 10,
     command := .presence .openLease ⟨"guest", "s-1", true⟩ "l-1" "connection" },
   { facts := willing, times := atSecond 200, command := .reconcile 1 },
   { facts := willing, times := atSecond 3610, command := .expire 2 }]

theorem expires_after_inactivity_sample : StepLaw sampleSettings
    (runCommands (ObservedRoom.next sampleSettings) (observedFrom (atSecond 0) sampleRoom) sampleSteps)
    { facts := willing, times := atSecond 4000, command := .expire 3 } :=
  (expires_after_inactivity sampleSettings willing true (.guest sampleGuest) "token" "print" 25 (atSecond 0) sampleRoom
    rfl sampleSteps (by decide)).2 _

example : ((runCommands (ObservedRoom.next sampleSettings) (observedFrom (atSecond 0) sampleRoom)
    sampleSteps).scope.room.status, (runCommands (ObservedRoom.next sampleSettings) (observedFrom (atSecond 0) sampleRoom)
    sampleSteps).scope.room.generation) = (.expired, 3) := by decide

end KComms.Rooms
