import KComms.Governance.TenantSystem

/-!
# The last owner of a workspace

A lasting owner is a workspace owner whose deletion is not pending.  Changes by administrators and erasures keep one.
The directory service counts an owner whose deletion is pending too, so it may suspend the last lasting one besides
such an owner: this is the only way to lose it (`lasting_owner_kept`).
-/

namespace KComms.Governance

open Attempt KComms.Accounts

variable {castUuid : String → Option String} {tenant tenant' : Tenant} {command : Command} {users : UserTable}
  {pending pending' : List String} {userId : String}

/-- A workspace owner that remains when the pending deletions are completed. -/
def LastingOwner (users : UserTable) (pending : List String) : Prop :=
  ∃ owner ∈ users.rows, owner.workspaceOwner = true ∧ owner.id ∉ pending

/-- A lasting owner besides the user. -/
def OtherLastingOwner (users : UserTable) (pending : List String) (userId : String) : Prop :=
  ∃ owner ∈ users.rows, owner.id ≠ userId ∧ owner.workspaceOwner = true ∧ owner.id ∉ pending

def Tenant.lastingOwner (tenant : Tenant) : Prop :=
  LastingOwner tenant.directory.users (pendingDeletionUserIds tenant.requests)

/-- The directory service does not ask to suspend the last lasting owner while there are other owners, whose deletion is
pending.  It may ask to suspend the only owner there is: `preserve_owner!` refuses that. -/
def KeepsLastingOwner (castUuid : String → Option String) (tenant : Tenant) (command : Command) : Prop :=
  ∀ user ∈ tenant.directory.users.rows, user.workspaceOwner = true →
    user.id ∉ pendingDeletionUserIds tenant.requests → command.suspends castUuid tenant user →
    (∃ other ∈ tenant.directory.users.rows, other.id ≠ user.id ∧ other.workspaceOwner = true) →
    OtherLastingOwner tenant.directory.users (pendingDeletionUserIds tenant.requests) user.id

/-! ### Changes of users -/

variable {change : TenantUser → TenantUser}

private theorem OtherLastingOwner.update (keeps : ∀ user, (change user).id = user.id)
    (h : OtherLastingOwner users pending userId) : LastingOwner (users.update userId change keeps) pending := by
  obtain ⟨owner, howner, hid, hactive, hlasting⟩ := h
  exact ⟨owner, KeyedTable.mem_update_of_ne howner hid, hactive, hlasting⟩

/-- A change of a user keeps a lasting owner when the user stays an owner or another one remains. -/
private theorem LastingOwner.update (keeps : ∀ user, (change user).id = user.id) (h : LastingOwner users pending)
    (hchange : ∀ user ∈ users.rows, user.id = userId → user.workspaceOwner = true → user.id ∉ pending →
      (change user).workspaceOwner = true ∨ OtherLastingOwner users pending userId) :
    LastingOwner (users.update userId change keeps) pending := by
  obtain ⟨owner, howner, hactive, hlasting⟩ := h
  by_cases hid : owner.id = userId
  · rcases hchange owner howner hid hactive hlasting with hkept | hother
    · refine ⟨change owner, KeyedTable.mem_update.mpr (.inr ⟨owner, howner, hid, rfl⟩), hkept, ?_⟩
      rw [keeps]
      exact hlasting
    · exact hother.update keeps
  · exact ⟨owner, KeyedTable.mem_update_of_ne howner hid, hactive, hlasting⟩

/-- Fewer pending deletions. -/
private theorem LastingOwner.anti (h : LastingOwner users pending) (hsub : ∀ id ∈ pending', id ∈ pending) :
    LastingOwner users pending' := by
  obtain ⟨owner, howner, hactive, hlasting⟩ := h
  exact ⟨owner, howner, hactive, fun hpending => hlasting (hsub owner.id hpending)⟩

/-- A provisioned user who is active keeps the role and the scope. -/
private theorem provisioned_owner (hspec : ScimUserUpdate true change) {user : TenantUser}
    (h : user.workspaceOwner = true) : (change user).workspaceOwner = true := by
  unfold TenantUser.workspaceOwner at h ⊢
  simp only [Bool.and_eq_true, decide_eq_true_eq] at h ⊢
  rw [hspec.role, hspec.accountType, hspec.accessScope, hspec.status]
  exact ⟨⟨⟨h.1.1.1, rfl⟩, h.1.2⟩, h.2⟩

/-- A user who may be erased leaves another lasting owner. -/
private theorem erasureTarget_other {facts : ErasureFacts} {target user : TenantUser}
    (h : (erasureTarget facts users userId pending).Commits target) (huser : user ∈ users.rows)
    (hid : user.id = userId) (howner : user.workspaceOwner = true) : OtherLastingOwner users pending userId := by
  obtain ⟨hfound, hother⟩ := erasureTarget_commits h
  rw [KeyedTable.eq_of_find hfound huser hid] at howner
  exact hother howner

/-- Each change of the directory keeps a lasting owner. -/
private theorem DirectoryChange.lastingOwner {directory : ScimDirectory}
    (h : DirectoryChange castUuid tenant command directory) (hguard : KeepsLastingOwner castUuid tenant command)
    (howner : tenant.lastingOwner) : LastingOwner directory.users (pendingDeletionUserIds tenant.requests) := by
  cases h with
  | same => exact howner
  | resourceOnly directory husers =>
    rw [husers]
    exact howner
  | lifecycle userId change target users spec =>
    show LastingOwner users _
    rw [spec.written]
    refine LastingOwner.update _ howner fun user huser hid hactive _ => ?_
    cases hdemotes : change.demotes with
    | false => exact .inl (apply_workspaceOwner hactive hdemotes)
    | true =>
      rw [KeyedTable.eq_of_find spec.found huser hid] at hactive
      exact .inr (spec.lastOwner _ rfl hactive hdemotes)
  | provisioned user directory status inserted =>
    obtain ⟨owner, hmem, hactive, hlasting⟩ := howner
    exact ⟨owner, (KeyedTable.mem_insert inserted).mpr (.inr hmem), hactive, hlasting⟩
  | updated resource user active change spec directory named bound found asked preserved husers =>
    rw [husers]
    refine LastingOwner.update _ howner fun other hother hid hactive hlasting => ?_
    obtain rfl := KeyedTable.eq_of_find found hother hid
    cases active with
    | true => exact .inl (provisioned_owner spec hactive)
    | false => exact .inr (hguard other hother hactive hlasting (asked rfl) (preserveOwner_commits (preserved rfl) hactive))
  | erased userId user directory facts allowed husers hresources =>
    rw [husers]
    exact LastingOwner.update _ howner fun other hother hid hactive _ => .inr
      (erasureTarget_other allowed hother hid hactive)

/-- A command that does not suspend the last lasting owner through the directory service keeps one. -/
theorem IdentityChange.lastingOwner (h : IdentityChange castUuid tenant command tenant')
    (hguard : KeepsLastingOwner castUuid tenant command) (howner : tenant.lastingOwner) : tenant'.lastingOwner := by
  cases h with
  | directory change hpending => exact (change.lastingOwner hguard howner).anti hpending
  | scheduled userId user facts allowed hdirectory hpending =>
    unfold Tenant.lastingOwner
    rw [hdirectory]
    have hsafe : ∃ owner ∈ tenant.directory.users.rows, owner.workspaceOwner = true ∧
        owner.id ∉ pendingDeletionUserIds tenant.requests ∧ owner.id ≠ userId := by
      obtain ⟨owner, hmem, hactive, hlasting⟩ := howner
      by_cases hid : owner.id = userId
      · obtain ⟨other, hother, hne, hactive', hlasting'⟩ := erasureTarget_other allowed hmem hid hactive
        exact ⟨other, hother, hactive', hlasting', hne⟩
      · exact ⟨owner, hmem, hactive, hlasting, hid⟩
    obtain ⟨owner, hmem, hactive, hlasting, hid⟩ := hsafe
    refine ⟨owner, hmem, hactive, fun hnow => ?_⟩
    rcases hpending owner.id hnow with h | h
    · exact hlasting h
    · exact hid h

/-- In every run in which the directory service never asks to suspend the last lasting owner besides owners whose
deletion is pending, a workspace with a lasting owner keeps one. -/
theorem lasting_owner_kept (castUuid : String → Option String) (start : Tenant) (commands : List Command)
    (howner : start.lastingOwner)
    (hguard : Guarded (afterCommand castUuid) (KeepsLastingOwner castUuid) start commands) :
    (runCommands (afterCommand castUuid) start commands).lastingOwner := by
  refine runCommands_invariant (fun tenant command htenant hcommand => ?_) howner hguard
  rcases afterCommand_eq tenant command with h | h
  · exact (execute_identity h).lastingOwner hcommand htenant
  · rw [h]
    exact htenant

/-! ### Two owners -/

instance (users : UserTable) (pending : List String) : Decidable (LastingOwner users pending) :=
  inferInstanceAs (Decidable (∃ owner ∈ users.rows, owner.workspaceOwner = true ∧ owner.id ∉ pending))

instance (users : UserTable) (pending : List String) (userId : String) :
    Decidable (OtherLastingOwner users pending userId) :=
  inferInstanceAs (Decidable
    (∃ owner ∈ users.rows, owner.id ≠ userId ∧ owner.workspaceOwner = true ∧ owner.id ∉ pending))

instance (tenant : Tenant) : Decidable tenant.lastingOwner :=
  inferInstanceAs (Decidable (LastingOwner tenant.directory.users (pendingDeletionUserIds tenant.requests)))

def sampleOwner (id : String) : TenantUser where
  id := id
  role := .owner
  status := .active
  accountType := .human
  accessScope := .workspace
  displayName := id
  email := id ++ "@example.com"
  lockVersion := 1

def sampleUuid : String := "7b0d5a2c-7c1e-4c39-9a54-0c1f6c8d1f10"

/-- The directory service manages the second owner. -/
def sampleDirectory : ScimDirectory where
  users := ⟨[sampleOwner "ada", sampleOwner "bob"], by decide⟩
  resources := [{ id := sampleUuid, userId := some "bob", kind := .user, externalId := "e-1", displayName := "bob",
                  members := [], lockVersion := 1 }]

def emptyContent : Content where
  messages := .empty
  revisions := []
  reactions := []
  attachments := .empty
  variants := []
  boards := .empty
  operations := []
  snapshots := []
  versions := []
  assets := []

/-- Two owners; it was asked for the deletion of the first one. -/
def sampleTenant : Tenant where
  directory := sampleDirectory
  requests := ⟨[newRequest "r-1" (.user "ada") .pending none none], by decide⟩
  holds := .empty
  content := emptyContent

def willing : GovernanceFacts where
  authorized := true
  stillAuthorized := true
  targetValid := true
  valid := true
  mediaPrepared := true
  mediaPending := false
  mediaPendingAfterDrain := false
  contributed := true
  erasure :=
    { policyLocked := true, withdrawn := true, contributed := true, drained := true, workspacesErased := true,
      valid := true }

def willingScim : ScimFacts where
  authorized := true
  capacity := true
  valid := true
  revoked := true
  federation := true

def suspendSecond : Command :=
  .scimMutate willingScim .user sampleUuid (.replace [("active", .bool false)]) (etag 1)

/-- With no deletion approved, the second owner may be suspended: the first one remains. -/
theorem lasting_owner_kept_sample : (runCommands (afterCommand some) sampleTenant [suspendSecond]).lastingOwner := by
  have hother : ∀ user ∈ sampleTenant.directory.users.rows, OtherLastingOwner sampleTenant.directory.users
      (pendingDeletionUserIds sampleTenant.requests) user.id := by decide
  exact lasting_owner_kept some sampleTenant [suspendSecond] (by decide)
    ⟨fun user huser _ _ _ _ => hother user huser, trivial⟩

/-- The deletion of the first owner is approved; then the directory service suspends the second one, although the
first one is all that is left. -/
theorem last_lasting_owner_lost : sampleTenant.lastingOwner ∧
    ¬ (runCommands (afterCommand some) sampleTenant
      [.transition willing "r-1" 1 .approved, suspendSecond]).lastingOwner := by
  decide

end KComms.Governance
