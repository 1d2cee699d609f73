import KComms.Accounts.TenantUsers

/-!
# The lifecycle of a user (`Accounts.UserLifecycle`)

An administrator changes the role, the status or the name of a user who is not deleted.  The last owner of the
workspace is kept: `ensureLastOwner` counts the other owners but for those that governance excludes.
-/

namespace KComms.Accounts

open Attempt

structure LifecycleCommand where
  expectedVersion : Nat
  role : Option Role
  status : Option UserStatus
  displayName : Option String
  deriving DecidableEq, Repr

/-- The owners that do not count; without a policy of governance no owner may be changed at all. -/
inductive OwnerExclusions
  | governancePolicyRequired
  | excluded (ids : List String)
  deriving DecidableEq, Repr

/-- Facts from outside of the table: the lock of the tenant, the authority of the session, the quota of active users,
and that the changes are valid. -/
structure LifecycleFacts where
  tenantActive : Bool
  inBudget : Bool
  authorized : Bool
  stillAuthorized : Bool
  capacity : Bool
  valid : Bool
  revoked : Bool
  deriving DecidableEq, Repr

/-- The command takes the role of an owner or the status of an active user away. -/
def LifecycleCommand.demotes (command : LifecycleCommand) : Bool :=
  command.role.any (· ≠ .owner) || command.status.any (· ≠ .active)

/-- The other workspace owners that are not excluded. -/
def remainingOwners (users : UserTable) (id : String) (excluded : List String) : List TenantUser :=
  users.rows.filter fun user => user.id ≠ id && user.workspaceOwner && !excluded.contains user.id

/-- `ensure_last_owner!` -/
def ensureLastOwner (users : UserTable) (target : TenantUser) (command : LifecycleCommand) :
    OwnerExclusions → UserTransaction Unit
  | .governancePolicyRequired =>
    check (!(target.role = .owner && target.status = .active && command.demotes)) .governancePolicyRequired
  | .excluded ids =>
    check (!(target.workspaceOwner && command.demotes && (remainingOwners users target.id ids).isEmpty))
      .lastOwnerRequired

/-- The target of a change: a human who is not deleted. -/
def lifecycleTarget (users : UserTable) (id : String) : Option TenantUser :=
  (users.find id).filter fun user => user.status ≠ .deleted && user.accountType = .human

def lifecycleActor (users : UserTable) (id : String) : Option TenantUser :=
  (users.find id).filter fun user =>
    user.status = .active && user.accountType = .human && user.accessScope = .workspace

def LifecycleCommand.apply (command : LifecycleCommand) (user : TenantUser) : TenantUser :=
  { user with
    role := command.role.getD user.role
    status := command.status.getD user.status
    displayName := command.displayName.getD user.displayName
    lockVersion := user.lockVersion + 1 }

/-- `apply_change!` -/
def applyChange (facts : LifecycleFacts) (actorId userId : String) (command : LifecycleCommand)
    (exclusions : OwnerExclusions) (users : UserTable) : UserTransaction UserTable := do
  check facts.inBudget .forbidden
  check facts.tenantActive .forbidden
  match lifecycleTarget users userId with
  | none => rollback .notFound
  | some target => do
    check (target.lockVersion = command.expectedVersion) .staleVersion
    check facts.authorized .forbidden
    match lifecycleActor users actorId with
    | none => rollback .notFound
    | some actor => do
      check (authorizeChange actor.role target.role command.role target.accessScope) .forbidden
      ensureLastOwner users target command exclusions
      check (!(target.status ≠ .active && command.status = some .active) || facts.capacity) .activeUserQuotaExceeded
      check facts.stillAuthorized .forbidden
      check facts.valid .invalidUser
      let updated := command.apply target
      check (updated.status = .active || facts.revoked) .forbidden
      pure (users.update userId command.apply fun _ => rfl)

/-! ### What a change does -/

section

variable {users users' : UserTable} {user : TenantUser} {id : String} {ids : List String}

theorem mem_remainingOwners : user ∈ remainingOwners users id ids ↔
    user ∈ users.rows ∧ user.id ≠ id ∧ user.workspaceOwner = true ∧ user.id ∉ ids := by
  unfold remainingOwners
  simp [List.mem_filter, and_assoc]

/-- What a change needs, and what it does. -/
structure LifecycleChange (users : UserTable) (userId : String) (command : LifecycleCommand)
    (exclusions : OwnerExclusions) (users' : UserTable) (target : TenantUser) : Prop where
  found : users.find userId = some target
  notDeleted : target.status ≠ .deleted
  lastOwner : ∀ ids, exclusions = .excluded ids → target.workspaceOwner = true → command.demotes = true →
    ∃ other ∈ users.rows, other.id ≠ userId ∧ other.workspaceOwner = true ∧ other.id ∉ ids
  written : users' = users.update userId command.apply fun _ => rfl

theorem applyChange_commits {facts : LifecycleFacts} {actorId userId : String} {command : LifecycleCommand}
    {exclusions : OwnerExclusions}
    (h : (applyChange facts actorId userId command exclusions users).Commits users') :
    ∃ target, LifecycleChange users userId command exclusions users' target := by
  simp only [applyChange, commits_bind, commits_check] at h
  obtain ⟨-, -, -, -, h⟩ := h
  split at h
  · exact absurd h (commits_rollback _ _)
  rename_i target htarget
  unfold lifecycleTarget at htarget
  rw [Option.filter_eq_some_iff, Bool.and_eq_true, decide_eq_true_eq] at htarget
  simp only [commits_bind, commits_check] at h
  obtain ⟨-, -, -, -, h⟩ := h
  split at h
  · exact absurd h (commits_rollback _ _)
  simp only [commits_bind, commits_check, commits_pure] at h
  obtain ⟨_, -, _, hlast, -, -, -, -, -, -, -, -, rfl⟩ := h
  have hid := (KeyedTable.find_eq_some.mp htarget.1).2
  refine ⟨target, htarget.1, htarget.2.1, fun ids hids howner hdemotes => ?_, rfl⟩
  subst hids
  unfold ensureLastOwner at hlast
  rw [commits_check, howner, hdemotes, Bool.true_and, Bool.true_and, Bool.not_eq_true'] at hlast
  rw [List.isEmpty_eq_false_iff_exists_mem] at hlast
  obtain ⟨other, hother⟩ := hlast
  rw [mem_remainingOwners, hid] at hother
  exact ⟨other, hother⟩

/-- Who does not lose the role and the status stays a workspace owner. -/
theorem apply_workspaceOwner {command : LifecycleCommand} (h : user.workspaceOwner = true)
    (hdemotes : command.demotes = false) : (command.apply user).workspaceOwner = true := by
  unfold TenantUser.workspaceOwner at h ⊢
  simp only [Bool.and_eq_true, decide_eq_true_eq] at h ⊢
  unfold LifecycleCommand.demotes at hdemotes
  rw [Bool.or_eq_false_iff] at hdemotes
  obtain ⟨⟨⟨hrole, hstatus⟩, htype⟩, hscope⟩ := h
  refine ⟨⟨⟨?_, ?_⟩, htype⟩, hscope⟩
  · unfold LifecycleCommand.apply
    cases hcommand : command.role with
    | none => exact hrole
    | some role =>
      rw [hcommand, Option.any_some, decide_eq_false_iff_not, not_not] at hdemotes
      exact hdemotes.1
  · unfold LifecycleCommand.apply
    cases hcommand : command.status with
    | none => exact hstatus
    | some status =>
      rw [hcommand, Option.any_some, decide_eq_false_iff_not, not_not] at hdemotes
      exact hdemotes.2

end

end KComms.Accounts
