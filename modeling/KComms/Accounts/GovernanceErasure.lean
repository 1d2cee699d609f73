import KComms.Accounts.Scim
import KComms.Accounts.UserLifecycle

/-!
# The erasure of a user (`Accounts.GovernanceErasure`)

The sessions of the user are drained first (`drain`); the last step makes the identity anonymous and removes what the
directory service keeps of it (`finalize`).  The last workspace owner is kept: the others that are to be deleted do not
count.
-/

namespace KComms.Accounts

open Attempt

/-- Facts from outside of the rows: what the owners of sessions, notifications, calls and private workspaces answer. -/
structure ErasureFacts where
  policyLocked : Bool
  withdrawn : Bool
  contributed : Bool
  drained : Bool
  workspacesErased : Bool
  valid : Bool
  deriving DecidableEq, Repr

/-- `ensure_owner_safe` -/
def ensureOwnerSafe (users : UserTable) (user : TenantUser) (pending : List String) : UserTransaction Unit :=
  check (!(user.workspaceOwner && (remainingOwners users user.id pending).isEmpty)) .lastOwnerRequired

/-- `governance_erasure_target` -/
def erasureTarget (facts : ErasureFacts) (users : UserTable) (userId : String) (pending : List String) :
    UserTransaction TenantUser := do
  check facts.policyLocked .forbidden
  match users.find userId with
  | none => rollback .notFound
  | some user => do
    ensureOwnerSafe users user pending
    pure user

/-- `drain` -/
def drain (facts : ErasureFacts) (users : UserTable) (userId : String) (pending : List String) :
    UserTransaction TenantUser := do
  let user ← erasureTarget facts users userId pending
  check facts.withdrawn .forbidden
  check facts.contributed .userErasureFailed
  pure user

/-- `anonymize_user` -/
def anonymize (user : TenantUser) : TenantUser :=
  { user with
    displayName := "Deleted user"
    email := "deleted-" ++ user.id ++ "@invalid.example"
    status := .deleted
    lockVersion := user.lockVersion + 1 }

/-- `erase_enterprise_identity`: the resources of the user go, also from the members of groups. -/
def eraseEnterpriseIdentity (resources : List ScimResource) (userId : String) : List ScimResource :=
  let ids := (resources.filter fun resource => resource.userId = some userId).map (·.id)
  (resources.map fun resource =>
    if resource.kind = .group then { resource with members := resource.members.filter fun id => !ids.contains id }
    else resource).filter fun resource => resource.userId ≠ some userId

/-- `finalize` -/
def finalize (facts : ErasureFacts) (directory : ScimDirectory) (userId : String) (pending : List String) :
    UserTransaction ScimDirectory := do
  let _ ← erasureTarget facts directory.users userId pending
  check facts.drained .userErasureNotDrained
  check facts.workspacesErased .userErasureFailed
  check facts.valid .userErasureFailed
  pure
    { users := directory.users.update userId anonymize fun _ => rfl
      resources := eraseEnterpriseIdentity directory.resources userId }

/-! ### What the erasure needs, and what it does -/

variable {facts : ErasureFacts} {users : UserTable} {user : TenantUser} {userId : String} {pending : List String}
  {directory directory' : ScimDirectory}

/-- A user who may be erased leaves another owner behind. -/
theorem erasureTarget_commits (h : (erasureTarget facts users userId pending).Commits user) :
    users.find userId = some user ∧ (user.workspaceOwner = true →
      ∃ other ∈ users.rows, other.id ≠ userId ∧ other.workspaceOwner = true ∧ other.id ∉ pending) := by
  simp only [erasureTarget, commits_bind, commits_check] at h
  obtain ⟨-, -, h⟩ := h
  split at h
  · exact absurd h (commits_rollback _ _)
  rename_i found hfound
  simp only [ensureOwnerSafe, commits_bind, commits_check, commits_pure] at h
  obtain ⟨-, hsafe, rfl⟩ := h
  refine ⟨hfound, fun howner => ?_⟩
  rw [howner, Bool.true_and, Bool.not_eq_true', List.isEmpty_eq_false_iff_exists_mem] at hsafe
  obtain ⟨other, hother⟩ := hsafe
  rw [mem_remainingOwners, (KeyedTable.find_eq_some.mp hfound).2] at hother
  exact ⟨other, hother⟩

theorem finalize_commits (h : (finalize facts directory userId pending).Commits directory') :
    (∃ user, (erasureTarget facts directory.users userId pending).Commits user) ∧
      directory'.users = directory.users.update userId anonymize (fun _ => rfl) ∧
      directory'.resources = eraseEnterpriseIdentity directory.resources userId := by
  simp only [finalize, commits_bind, commits_check, commits_pure] at h
  obtain ⟨user, htarget, -, -, -, -, -, -, rfl⟩ := h
  exact ⟨⟨user, htarget⟩, rfl, rfl⟩

end KComms.Accounts
