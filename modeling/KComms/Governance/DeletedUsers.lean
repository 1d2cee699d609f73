import KComms.Governance.LastingOwner

/-!
# Deleted users

Administrators do not change a deleted user, and an erased user has no resource in the directory service any more.  An
administrator may also set the status to deleted, and then the resource stays: its next change gives the user another
status.  Without such a change a deleted user stays deleted (`deleted_user_kept`).
-/

namespace KComms.Governance

open Attempt KComms.Accounts

variable {castUuid : String → Option String} {tenant tenant' : Tenant} {command : Command} {userId : String}

def Tenant.deletedUser (tenant : Tenant) (userId : String) : Prop :=
  ∃ user, tenant.directory.users.find userId = some user ∧ user.status = .deleted

/-- The directory service does not change or delete the resource of a deleted user. -/
def SparesDeleted (castUuid : String → Option String) (tenant : Tenant) (command : Command) : Prop :=
  ∀ resource user, command.resource castUuid tenant = some resource → resource.userId = some user.id →
    tenant.directory.users.find user.id = some user → user.status ≠ .deleted

/-- A change of a user who is not deleted, or one that deletes, leaves the deleted users deleted. -/
private theorem deleted_update {users : UserTable} {user : TenantUser} {id : String} {change : TenantUser → TenantUser}
    (keeps : ∀ user, (change user).id = user.id) (hfound : users.find userId = some user) (hdeleted : user.status = .deleted)
    (hchange : id = userId → (change user).status = .deleted) :
    ∃ user, (users.update id change keeps).find userId = some user ∧ user.status = .deleted := by
  by_cases hid : id = userId
  · subst hid
    exact ⟨change user, KeyedTable.find_update_self hfound, hchange rfl⟩
  · exact ⟨user, (KeyedTable.find_update_of_ne (Ne.symm hid)).trans hfound, hdeleted⟩

private theorem DirectoryChange.deletedUser {directory : ScimDirectory}
    (h : DirectoryChange castUuid tenant command directory) (hguard : SparesDeleted castUuid tenant command)
    (hdeleted : tenant.deletedUser userId) :
    ∃ user, directory.users.find userId = some user ∧ user.status = .deleted := by
  obtain ⟨user, hfound, hstatus⟩ := hdeleted
  cases h with
  | same => exact ⟨user, hfound, hstatus⟩
  | resourceOnly directory husers =>
    rw [husers]
    exact ⟨user, hfound, hstatus⟩
  | lifecycle id change target users spec =>
    show ∃ user, users.find userId = some user ∧ _
    rw [spec.written]
    refine deleted_update _ hfound hstatus ?_
    rintro rfl
    rw [spec.found] at hfound
    cases hfound
    exact absurd hstatus spec.notDeleted
  | provisioned newUser directory status inserted =>
    refine ⟨user, ?_, hstatus⟩
    rw [KeyedTable.find_insert_of_ne inserted]
    · exact hfound
    · rintro rfl
      have hfree := (KeyedTable.insert_eq_some.mp inserted).2
      obtain ⟨huser, hid⟩ := KeyedTable.find_eq_some.mp hfound
      exact hfree (List.mem_map.mpr ⟨user, huser, hid⟩)
  | updated resource other active change spec directory named bound found asked preserved husers =>
    rw [husers]
    refine deleted_update _ hfound hstatus fun hid => ?_
    rw [hid, hfound] at found
    cases found
    exact absurd hstatus (hguard resource user named bound (hid ▸ hfound))
  | erased id other directory facts allowed husers hresources =>
    rw [husers]
    exact deleted_update _ hfound hstatus fun _ => rfl

/-- In every run in which the directory service does not touch the resource of a deleted user, a deleted user stays
deleted. -/
theorem deleted_user_kept (castUuid : String → Option String) (start : Tenant) (commands : List Command)
    (userId : String) (hdeleted : start.deletedUser userId)
    (hguard : Guarded (afterCommand castUuid) (SparesDeleted castUuid) start commands) :
    (runCommands (afterCommand castUuid) start commands).deletedUser userId := by
  have hstep : ∀ tenant command, tenant.deletedUser userId → SparesDeleted castUuid tenant command →
      (afterCommand castUuid tenant command).deletedUser userId := by
    intro tenant command htenant hcommand
    rcases afterCommand_eq tenant command with h | h
    · cases execute_identity h with
      | directory change _ => exact change.deletedUser hcommand htenant
      | scheduled id user facts allowed hdirectory _ =>
        unfold Tenant.deletedUser
        rw [hdirectory]
        exact htenant
    · rw [h]
      exact htenant
  exact runCommands_invariant hstep hdeleted hguard

/-! ### A user who was deleted by an administrator -/

instance (tenant : Tenant) (userId : String) : Decidable (tenant.deletedUser userId) :=
  decidable_of_iff ((tenant.directory.users.find userId).any (·.status = .deleted) = true) (by
    unfold Tenant.deletedUser
    rw [Option.any_eq_true]
    simp)

def willingLifecycle : LifecycleFacts where
  inBudget := true
  tenantActive := true
  authorized := true
  stillAuthorized := true
  capacity := true
  valid := true
  revoked := true

/-- The first owner deletes the second one. -/
def deleteSecond : Command :=
  .lifecycle willingLifecycle "ada" "bob"
    { expectedVersion := 1, role := none, status := some .deleted, displayName := none }

/-- The directory service sends the user again, as active. -/
def sendSecond : Command :=
  .scimMutate willingScim .user sampleUuid (.replace [("active", .bool true)]) (etag 1)

theorem deleted_user_kept_sample : (runCommands (afterCommand some) (afterCommand some sampleTenant deleteSecond)
    [.transition willing "r-1" 1 .rejected, deleteSecond]).deletedUser "bob" :=
  deleted_user_kept some (afterCommand some sampleTenant deleteSecond) _ "bob" (by decide)
    ⟨fun _ _ hresource => absurd hresource.symm (Option.some_ne_none _),
      fun _ _ hresource => absurd hresource.symm (Option.some_ne_none _), trivial⟩

/-- Deleted, and active again. -/
theorem deleted_user_revived : (afterCommand some sampleTenant deleteSecond).deletedUser "bob" ∧
    ¬ (runCommands (afterCommand some) (afterCommand some sampleTenant deleteSecond) [sendSecond]).deletedUser "bob" ∧
    ((runCommands (afterCommand some) (afterCommand some sampleTenant deleteSecond)
      [sendSecond]).directory.users.find "bob").map (·.status) = some .active := by
  decide

end KComms.Governance
