import KComms.Accounts.Scim

/-!
# What provisioning does to the users of a tenant

`ScimSteps` lists the ways in which an operation of the directory service changes the users: a new user, who is no
owner, or a user of a resource who becomes active or suspended.
-/

namespace KComms.Accounts

open Attempt

/-- A user as a change of its resource leaves it. -/
structure ScimUserUpdate (active : Bool) (change : TenantUser → TenantUser) : Prop where
  id : ∀ user, (change user).id = user.id
  role : ∀ user, (change user).role = user.role
  accountType : ∀ user, (change user).accountType = user.accountType
  accessScope : ∀ user, (change user).accessScope = user.accessScope
  status : ∀ user, (change user).status = if active then .active else .suspended

/-- The change of a resource makes its user active or suspended. -/
def ScimChange.asksFor (change : ScimChange) (resource : ScimResource) (user : TenantUser) (active : Bool) : Prop :=
  ∃ attrs, (change.attrs resource).Commits attrs ∧ attrs.get "active" (.bool (user.status = .active)) = .bool active

section

variable {facts : ScimFacts} {castUuid : String → Option String} {ids : ScimIds} {kind : ScimKind}
  {attrs : ScimAttrs} {name : Option String} {users users' : UserTable} {userId rawId version : String}
  {change : ScimChange} {directory directory' : ScimDirectory}

private theorem provisioned_update (name : Option String) (active : Bool) :
    ScimUserUpdate active (·.provisioned name active) where
  id _ := rfl
  role _ := rfl
  accountType _ := rfl
  accessScope _ := rfl
  status _ := rfl

private theorem deprovisioned_update : ScimUserUpdate false (·.deprovisioned) where
  id _ := rfl
  role _ := rfl
  accountType _ := rfl
  accessScope _ := rfl
  status _ := rfl

/-- The last workspace owner is not suspended: there is another one. -/
theorem preserveOwner_commits {user : TenantUser} {u : Unit} (h : (preserveOwner users user).Commits u)
    (howner : user.workspaceOwner = true) : ∃ other ∈ users.rows, other.id ≠ user.id ∧ other.workspaceOwner = true := by
  unfold preserveOwner at h
  rw [commits_check, Bool.not_eq_true', Bool.and_eq_false_iff, howner, decide_eq_false_iff_not] at h
  have hcount : 1 < (users.rows.filter (·.workspaceOwner)).length := by
    rcases h with h | h
    · cases h
    · omega
  have hids : ((users.rows.filter (·.workspaceOwner)).map (·.id)).Nodup :=
    users.unique.sublist (List.filter_sublist.map _)
  by_contra hnone
  push Not at hnone
  -- all of them are the user
  have hsame : (users.rows.filter (·.workspaceOwner)).map (·.id) ⊆ [user.id] := by
    intro id hid
    obtain ⟨other, hother, rfl⟩ := List.mem_map.1 hid
    obtain ⟨hmem, hactive⟩ := List.mem_filter.1 hother
    by_contra hne
    exact hnone other hmem (fun heq => hne (List.mem_singleton.2 heq)) hactive
  have hone := List.Nodup.length_le_of_subset hids hsame
  rw [List.length_map, List.length_singleton] at hone
  omega

theorem mutateUser_commits (h : (mutateUser facts attrs name users userId).Commits users') :
    ∃ user active update, ∃ hupdate : ScimUserUpdate active update, users.find userId = some user ∧
      attrs.get "active" (.bool (user.status = .active)) = .bool active ∧
      (active = false → (preserveOwner users user).Commits ()) ∧ users' = users.update userId update hupdate.id := by
  unfold mutateUser at h
  split at h
  · exact absurd h (commits_rollback _ _)
  rename_i user huser
  simp only [commits_bind, commits_check] at h
  obtain ⟨-, -, h⟩ := h
  split at h
  · rename_i active hactive
    simp only [commits_bind, commits_check, commits_pure] at h
    obtain ⟨_, hchange, -, -, rfl⟩ := h
    refine ⟨user, active, _, provisioned_update name active, huser, hactive, ?_, rfl⟩
    rintro rfl
    simp only [changeActive, commits_bind] at hchange
    exact hchange.choose_spec.1
  · exact absurd h (commits_rollback _ _)

theorem lockedResource_commits {resources : List ScimResource} {id : String} {resource : ScimResource}
    (h : (lockedResource resources kind id version).Commits resource) :
    findResource resources kind id = some resource := by
  unfold lockedResource at h
  split at h
  · exact absurd h (commits_rollback _ _)
  rename_i found hfound
  simp only [commits_bind, commits_check, commits_pure] at h
  obtain ⟨-, -, rfl⟩ := h
  exact hfound

/-- A change of a resource changes the user of the resource, and no other one. -/
theorem scimMutate_commits (h : (scimMutate facts castUuid kind rawId change version directory).Commits directory') :
    ∃ id resource, castUuid rawId = some id ∧ findResource directory.resources kind id = some resource ∧
      ((resource.userId = none ∧ directory'.users = directory.users) ∨
        ∃ userId user active update, ∃ hupdate : ScimUserUpdate active update, resource.userId = some userId ∧
          directory.users.find userId = some user ∧ change.asksFor resource user active ∧
          (active = false → (preserveOwner directory.users user).Commits ()) ∧
          directory'.users = directory.users.update userId update hupdate.id) := by
  unfold scimMutate at h
  split at h
  · exact absurd h (commits_rollback _ _)
  rename_i id hid
  simp only [commits_bind, commits_check, commits_pure] at h
  obtain ⟨-, -, resource, hresource, attrs, hattrs, -, -, -, -, name, -, members, -, users, husers, rfl⟩ := h
  refine ⟨id, resource, hid, lockedResource_commits hresource, ?_⟩
  unfold mutateUsers at husers
  split at husers
  · rename_i hnone
    rw [commits_pure] at husers
    exact .inl ⟨hnone, husers.symm⟩
  · rename_i userId huserId
    obtain ⟨user, active, update, hupdate, hfound, hactive, hpreserved, husers⟩ := mutateUser_commits husers
    exact .inr ⟨userId, user, active, update, hupdate, huserId, hfound, ⟨attrs, hattrs, hactive⟩, hpreserved, husers⟩

theorem scimDelete_commits (h : (scimDelete facts castUuid kind rawId version directory).Commits directory') :
    ∃ id resource, castUuid rawId = some id ∧ findResource directory.resources kind id = some resource ∧
      ((resource.userId = none ∧ directory'.users = directory.users) ∨
        ∃ userId user update, ∃ hupdate : ScimUserUpdate false update, resource.userId = some userId ∧
          directory.users.find userId = some user ∧ (preserveOwner directory.users user).Commits () ∧
          directory'.users = directory.users.update userId update hupdate.id) := by
  unfold scimDelete at h
  split at h
  · exact absurd h (commits_rollback _ _)
  rename_i id hid
  simp only [commits_bind, commits_check] at h
  obtain ⟨-, -, resource, hresource, h⟩ := h
  refine ⟨id, resource, hid, lockedResource_commits hresource, ?_⟩
  split at h
  · rename_i userId huserId
    split at h
    · exact absurd h (commits_rollback _ _)
    rename_i user huser
    simp only [commits_bind, commits_check, commits_pure] at h
    obtain ⟨_, hpreserved, -, -, rfl⟩ := h
    exact .inr ⟨userId, user, _, deprovisioned_update, huserId, huser, hpreserved, rfl⟩
  · rename_i hnone
    rw [commits_pure] at h
    subst h
    exact .inl ⟨hnone, rfl⟩

private theorem provisionUser_commits {name : String}
    (h : (provisionUser facts ids kind attrs name users).Commits users') :
    users' = users ∨ ∃ user, users.insert user = some users' ∧ user.status ≠ .deleted := by
  unfold provisionUser at h
  split at h
  · rw [commits_pure] at h
    exact .inl h.symm
  · simp only [commits_bind, commits_check] at h
    obtain ⟨-, -, -, -, h⟩ := h
    split at h
    · rename_i email hemail
      split at h
      · rename_i inserted hinserted
        rw [commits_pure] at h
        subst h
        refine .inr ⟨_, hinserted, ?_⟩
        unfold provisionedUser
        split <;> simp
      · exact absurd h (commits_rollback _ _)
    · exact absurd h (commits_rollback _ _)

/-- A creation adds at most one user. -/
theorem scimCreate_commits (h : (scimCreate facts castUuid ids kind attrs directory).Commits directory') :
    directory'.users = directory.users ∨
      ∃ user, directory.users.insert user = some directory'.users ∧ user.status ≠ .deleted := by
  simp only [scimCreate, commits_bind, commits_check] at h
  obtain ⟨-, -, -, -, h⟩ := h
  split at h
  · simp only [commits_bind, commits_check] at h
    obtain ⟨-, -, -, -, h⟩ := h
    split at h
    · simp only [commits_bind, commits_pure] at h
      obtain ⟨_, -, rfl⟩ := h
      exact .inl rfl
    · simp only [commits_bind, commits_check, commits_pure] at h
      obtain ⟨users, husers, -, -, -, -, -, -, rfl⟩ := h
      exact provisionUser_commits husers
  · exact absurd h (commits_rollback _ _)

end

end KComms.Accounts
