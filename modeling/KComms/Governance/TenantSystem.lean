import KComms.Accounts.ScimChange
import KComms.Governance.DeletionWorkflow
import KComms.Lib.CommandRuns

/-!
# The commands on a tenant

Changes of users by administrators and by the directory service, requests of deletion, legal holds, and deletion by
members, in any order; each is one transaction.  `Command.write` stands for everything that members write.
-/

namespace KComms.Governance

open Attempt KComms.Accounts

inductive Command
  | lifecycle (facts : LifecycleFacts) (actorId userId : String) (command : LifecycleCommand)
  | scimCreate (facts : ScimFacts) (ids : ScimIds) (kind : ScimKind) (attrs : ScimAttrs)
  | scimMutate (facts : ScimFacts) (kind : ScimKind) (rawId : String) (change : ScimChange) (version : String)
  | scimDelete (facts : ScimFacts) (kind : ScimKind) (rawId version : String)
  | createRequest (facts : GovernanceFacts) (id : String) (target : DeletionTarget) (key : Option String)
  | transition (facts : GovernanceFacts) (id : String) (expectedVersion : Nat) (status : RequestStatus)
  | claim (facts : GovernanceFacts) (id : String)
  | complete (facts : GovernanceFacts) (id : String) (expectedVersion : Nat) (deletedObjectCount : Int)
  | repair (facts : GovernanceFacts) (id : String)
  | recordFailure (facts : GovernanceFacts) (id reason : String)
  | retain (facts : GovernanceFacts) (id messageId : String) (deleteAttachments : Bool)
  | createHold (facts : GovernanceFacts) (id : String) (scope : HoldScope) (key : Option String)
  | releaseHold (facts : GovernanceFacts) (id : String) (expectedVersion : Nat)
  | deleteMessage (facts : GovernanceFacts) (messageId : String)
  | write (content : Content)

def ofUsers {α : Type} (attempt : UserTransaction α) : GovernanceTransaction α :=
  attempt.mapReason GovernanceError.identity

/-- `change_user_lifecycle_view`: the owners whose deletion is pending do not count. -/
def changeUserLifecycle (facts : LifecycleFacts) (actorId userId : String) (command : LifecycleCommand)
    (tenant : Tenant) : GovernanceTransaction Tenant := do
  let users ← ofUsers (applyChange facts actorId userId command (.excluded (pendingDeletionUserIds tenant.requests))
    tenant.directory.users)
  pure { tenant with directory := { tenant.directory with users := users } }

def inDirectory (change : ScimDirectory → UserTransaction ScimDirectory) (tenant : Tenant) :
    GovernanceTransaction Tenant := do
  let directory ← ofUsers (change tenant.directory)
  pure { tenant with directory := directory }

variable (castUuid : String → Option String)

def execute (command : Command) (tenant : Tenant) : GovernanceTransaction Tenant :=
  match command with
  | .lifecycle facts actorId userId command => changeUserLifecycle facts actorId userId command tenant
  | .scimCreate facts ids kind attrs => inDirectory (scimCreate facts castUuid ids kind attrs) tenant
  | .scimMutate facts kind rawId change version =>
    inDirectory (scimMutate facts castUuid kind rawId change version) tenant
  | .scimDelete facts kind rawId version => inDirectory (scimDelete facts castUuid kind rawId version) tenant
  | .createRequest facts id target key => createDeletionRequest facts id target key tenant
  | .transition facts id expectedVersion status => transitionDeletionRequest facts id expectedVersion status tenant
  | .claim facts id => do
    let claimed ← claimDeletionRequest facts id tenant
    pure claimed.1
  | .complete facts id expectedVersion count => completeDeletionRequest facts id expectedVersion count tenant
  | .repair facts id => repairCompletedErasure facts id tenant
  | .recordFailure facts id reason => recordDeletionFailure facts id reason tenant
  | .retain facts id messageId deleteAttachments => enqueueRetentionDeletion facts id messageId deleteAttachments tenant
  | .createHold facts id scope key => createLegalHold facts id scope key tenant
  | .releaseHold facts id expectedVersion => releaseLegalHold facts id expectedVersion tenant
  | .deleteMessage facts messageId => deleteMessage facts messageId tenant
  | .write content => pure { tenant with content := content }

/-- The tenant after a command; one that is rolled back leaves no trace. -/
def afterCommand (tenant : Tenant) (command : Command) : Tenant :=
  match (execute castUuid command tenant).outcome with
  | .ok tenant' => tenant'
  | .error _ => tenant

variable {facts : GovernanceFacts} {target : DeletionTarget} {expectedVersion : Nat}

theorem afterCommand_eq {castUuid : String → Option String} (tenant : Tenant) (command : Command) :
    (execute castUuid command tenant).Commits (afterCommand castUuid tenant command) ∨
      afterCommand castUuid tenant command = tenant := by
  unfold afterCommand
  split
  · rename_i tenant' h
    exact .inl h
  · exact .inr rfl

/-- The resource that a change or a deletion by the directory service names. -/
def Command.resource (tenant : Tenant) : Command → Option ScimResource
  | .scimMutate _ kind rawId _ _ => (castUuid rawId).bind (findResource tenant.directory.resources kind)
  | .scimDelete _ kind rawId _ => (castUuid rawId).bind (findResource tenant.directory.resources kind)
  | _ => none

/-- The directory service asks to suspend the user. -/
def Command.suspends (tenant : Tenant) (command : Command) (user : TenantUser) : Prop :=
  ∃ resource, command.resource castUuid tenant = some resource ∧ resource.userId = some user.id ∧
    match command with
    | .scimMutate _ _ _ change _ => change.asksFor resource user false
    | _ => True

/-! ### What the commands do to the users -/

/-- The ways in which a command changes the directory of a tenant. -/
inductive DirectoryChange (tenant : Tenant) (command : Command) : ScimDirectory → Prop
  | same : DirectoryChange tenant command tenant.directory
  | lifecycle (userId : String) (change : LifecycleCommand) (target : TenantUser) (users : UserTable)
      (spec : LifecycleChange tenant.directory.users userId change
        (.excluded (pendingDeletionUserIds tenant.requests)) users target) :
      DirectoryChange tenant command { tenant.directory with users := users }
  | provisioned (user : TenantUser) (directory : ScimDirectory) (status : user.status ≠ .deleted)
      (inserted : tenant.directory.users.insert user = some directory.users) :
      DirectoryChange tenant command directory
  | resourceOnly (directory : ScimDirectory) (users : directory.users = tenant.directory.users) :
      DirectoryChange tenant command directory
  | updated (resource : ScimResource) (user : TenantUser) (active : Bool) (change : TenantUser → TenantUser)
      (spec : ScimUserUpdate active change) (directory : ScimDirectory)
      (named : command.resource castUuid tenant = some resource) (bound : resource.userId = some user.id)
      (found : tenant.directory.users.find user.id = some user)
      (asked : active = false → command.suspends castUuid tenant user)
      (preserved : active = false → (preserveOwner tenant.directory.users user).Commits ())
      (users : directory.users = tenant.directory.users.update user.id change spec.id) :
      DirectoryChange tenant command directory
  | erased (userId : String) (user : TenantUser) (directory : ScimDirectory)
      (facts : ErasureFacts)
      (allowed : (erasureTarget facts tenant.directory.users userId (pendingDeletionUserIds tenant.requests)).Commits
        user)
      (users : directory.users = tenant.directory.users.update userId anonymize fun _ => rfl)
      (resources : directory.resources = eraseEnterpriseIdentity tenant.directory.resources userId) :
      DirectoryChange tenant command directory

variable {castUuid} {tenant tenant' : Tenant} {command : Command} {request : DeletionRequest}
  {requests : KeyedTable DeletionRequest.id} {userId id : String}

/-- The erasure of content, and of the identity when the target is a user. -/
theorem applyDeletion_commits {plan : DeletionPlan} (h : (applyDeletion facts tenant target plan).Commits tenant') :
    DirectoryChange castUuid tenant command tenant'.directory ∧ tenant'.requests = tenant.requests ∧
      tenant'.holds = tenant.holds ∧ tenant'.content = eraseContent target plan tenant.content := by
  simp only [applyDeletion, commits_bind, commits_check, commits_pure] at h
  obtain ⟨-, -, directory, hdirectory, rfl⟩ := h
  refine ⟨?_, rfl, rfl, rfl⟩
  unfold applyTargetDeletion at hdirectory
  split at hdirectory
  · rename_i userId
    rw [commits_mapReason] at hdirectory
    obtain ⟨⟨user, htarget⟩, husers, hresources⟩ := finalize_commits hdirectory
    exact .erased userId user directory facts.erasure htarget husers hresources
  · rw [commits_pure] at hdirectory
    subst hdirectory
    exact .same

/-! ### Users whose deletion is pending -/

theorem mem_pending : userId ∈ pendingDeletionUserIds requests ↔
    ∃ request ∈ requests.rows, request.target = .user userId ∧
      (request.status = .approved ∨ request.status = .inProgress) := by
  unfold pendingDeletionUserIds
  rw [List.mem_filterMap]
  refine exists_congr fun request => and_congr_right fun _ => ?_
  split
  · rename_i other htarget hstatus
    simp [htarget, hstatus]
  · rename_i other htarget hstatus
    simp [htarget, hstatus]
  · rename_i happroved hrunning
    constructor
    · intro h
      cases h
    · rintro ⟨htarget, hstatus | hstatus⟩
      · exact absurd hstatus (happroved userId htarget)
      · exact absurd hstatus (hrunning userId htarget)

/-- A changed request adds at most its own target. -/
theorem pending_update (change : DeletionRequest → DeletionRequest) (keeps : ∀ request, (change request).id = request.id)
    (hfound : requests.find id = some request) (htarget : (change request).target = request.target)
    (h : userId ∈ pendingDeletionUserIds (requests.update id change keeps)) :
    userId ∈ pendingDeletionUserIds requests ∨
      (request.target = .user userId ∧ ((change request).status = .approved ∨ (change request).status = .inProgress)) := by
  rw [mem_pending] at h
  obtain ⟨other, hother, huser, hstatus⟩ := h
  rw [KeyedTable.mem_update_of_find hfound] at hother
  rcases hother with ⟨hother, -⟩ | rfl
  · exact .inl (mem_pending.mpr ⟨other, hother, huser, hstatus⟩)
  · exact .inr ⟨htarget.symm.trans huser, hstatus⟩

/-- A request that was to be executed already adds no user. -/
private theorem pending_update_same (change : DeletionRequest → DeletionRequest)
    (keeps : ∀ request, (change request).id = request.id) (hfound : requests.find id = some request)
    (htarget : (change request).target = request.target)
    (hstatus : (change request).status = .approved ∨ (change request).status = .inProgress →
      request.status = .approved ∨ request.status = .inProgress) :
    ∀ userId ∈ pendingDeletionUserIds (requests.update id change keeps), userId ∈ pendingDeletionUserIds requests := by
  intro userId h
  rcases pending_update change keeps hfound htarget h with h | ⟨huser, hchanged⟩
  · exact h
  · exact mem_pending.mpr ⟨request, (KeyedTable.find_eq_some.mp hfound).1, huser, hstatus hchanged⟩

/-- A new request is pending, or its target is no user. -/
private theorem pending_add (h : (addRequest tenant request).Commits tenant')
    (hrequest : ∀ userId, request.target = .user userId → request.status = .pending) :
    tenant'.directory = tenant.directory ∧
      ∀ userId ∈ pendingDeletionUserIds tenant'.requests, userId ∈ pendingDeletionUserIds tenant.requests := by
  unfold addRequest at h
  split at h
  · rename_i requests hrequests
    rw [commits_pure] at h
    subst h
    refine ⟨rfl, fun userId huser => ?_⟩
    rw [mem_pending] at huser
    obtain ⟨other, hother, htarget, hstatus⟩ := huser
    rcases (KeyedTable.mem_insert hrequests).mp hother with rfl | hother
    · rw [hrequest userId htarget] at hstatus
      rcases hstatus with hstatus | hstatus <;> cases hstatus
    · exact mem_pending.mpr ⟨other, hother, htarget, hstatus⟩
  · exact absurd h (commits_rollback _ _)

private theorem ensurePreconditions_commits {u : Unit}
    (h : (ensurePreconditions facts tenant (.user userId)).Commits u) :
    ∃ user, (erasureTarget facts.erasure tenant.directory.users userId
      (pendingDeletionUserIds tenant.requests)).Commits user := by
  simp only [ensurePreconditions, commits_bind, commits_mapReason] at h
  obtain ⟨user, huser, -⟩ := h
  exact ⟨user, huser⟩

/-- What a command does to the directory and to the users whose deletion is pending: at most one user is added, and
that one may be erased. -/
inductive IdentityChange (castUuid : String → Option String) (tenant : Tenant) (command : Command) (tenant' : Tenant) :
    Prop
  | directory (change : DirectoryChange castUuid tenant command tenant'.directory)
      (pending : ∀ userId ∈ pendingDeletionUserIds tenant'.requests, userId ∈ pendingDeletionUserIds tenant.requests)
  | scheduled (userId : String) (user : TenantUser) (facts : ErasureFacts)
      (allowed : (erasureTarget facts tenant.directory.users userId (pendingDeletionUserIds tenant.requests)).Commits
        user)
      (directory : tenant'.directory = tenant.directory)
      (pending : ∀ id ∈ pendingDeletionUserIds tenant'.requests, id ∈ pendingDeletionUserIds tenant.requests ∨
        id = userId)

private theorem IdentityChange.unchanged (hdirectory : tenant'.directory = tenant.directory)
    (hpending : ∀ userId ∈ pendingDeletionUserIds tenant'.requests, userId ∈ pendingDeletionUserIds tenant.requests) :
    IdentityChange castUuid tenant command tenant' := by
  refine .directory ?_ hpending
  rw [hdirectory]
  exact .same

/-- A request that becomes approved or in progress after its preconditions were checked. -/
private theorem IdentityChange.schedule (change : DeletionRequest → DeletionRequest)
    (keeps : ∀ request, (change request).id = request.id) {u : Unit} (hfound : tenant.requests.find id = some request)
    (htarget : (change request).target = request.target)
    (hallowed : (ensurePreconditions facts tenant request.target).Commits u) :
    IdentityChange castUuid tenant command { tenant with requests := tenant.requests.update id change keeps } := by
  have hadded : ∀ other ∈ pendingDeletionUserIds (tenant.requests.update id change keeps),
      other ∈ pendingDeletionUserIds tenant.requests ∨ request.target = .user other := by
    intro other hother
    rcases pending_update change keeps hfound htarget hother with h | ⟨h, -⟩
    · exact .inl h
    · exact .inr h
  by_cases huser : ∃ userId, request.target = .user userId
  · obtain ⟨userId, huser⟩ := huser
    rw [huser] at hallowed
    obtain ⟨user, hallowed⟩ := ensurePreconditions_commits hallowed
    refine .scheduled userId user facts.erasure hallowed rfl fun other hother => ?_
    rcases hadded other hother with h | h
    · exact .inl h
    · rw [huser] at h
      cases h
      exact .inr rfl
  · refine .unchanged rfl fun other hother => ?_
    rcases hadded other hother with h | h
    · exact h
    · exact absurd ⟨other, h⟩ huser

/-! ### The commands -/

private theorem transition_identity {status : RequestStatus}
    (h : (transitionDeletionRequest facts id expectedVersion status tenant).Commits tenant') :
    IdentityChange castUuid tenant command tenant' := by
  simp only [transitionDeletionRequest, commits_bind, commits_check] at h
  obtain ⟨-, -, -, hallowed, -, -, h⟩ := h
  split at h
  · exact absurd h (commits_rollback _ _)
  rename_i request hfound
  simp only [commits_bind, commits_check, commits_pure] at h
  obtain ⟨-, -, -, -, _, hready, -, -, rfl⟩ := h
  by_cases happroved : status = .approved
  · subst happroved
    exact .schedule (·.moveTo .approved) (fun _ => rfl) hfound rfl hready
  · refine .unchanged rfl (pending_update_same (·.moveTo status) (fun _ => rfl) hfound rfl fun hstatus => ?_)
    -- a request becomes in progress by its claim only
    rcases hstatus with hstatus | hstatus
    · exact absurd hstatus happroved
    · have hmoved : status = .inProgress := hstatus
      rw [hmoved] at hallowed
      exact absurd hallowed (by decide)

private theorem claim_identity {execution : DeletionExecution}
    (h : (claimDeletionRequest facts id tenant).Commits (tenant', execution)) :
    IdentityChange castUuid tenant command tenant' := by
  simp only [claimDeletionRequest, commits_bind, commits_check] at h
  obtain ⟨-, -, h⟩ := h
  split at h
  · exact absurd h (commits_rollback _ _)
  rename_i request hfound
  simp only [commits_bind, commits_check, commits_pure, Prod.mk.injEq] at h
  obtain ⟨-, hstatus, -, -, -, -, -, -, -, -, rfl, -⟩ := h
  rw [Bool.or_eq_true, decide_eq_true_eq, decide_eq_true_eq] at hstatus
  exact .unchanged rfl (pending_update_same (·.claim) (fun _ => rfl) hfound rfl fun _ => hstatus)

private theorem complete_identity {count : Int}
    (h : (completeDeletionRequest facts id expectedVersion count tenant).Commits tenant') :
    IdentityChange castUuid tenant command tenant' := by
  simp only [completeDeletionRequest, commits_bind, commits_check] at h
  obtain ⟨-, -, h⟩ := h
  split at h
  · exact absurd h (commits_rollback _ _)
  rename_i request hfound
  simp only [commits_bind, commits_check, commits_pure] at h
  obtain ⟨-, -, -, -, -, -, -, -, -, -, -, -, -, -, plan, -, -, -, erased, herased, -, -, rfl⟩ := h
  have hspec : DirectoryChange castUuid tenant command erased.directory ∧ erased.requests = tenant.requests ∧ _ :=
    applyDeletion_commits herased
  obtain ⟨hdirectory, hrequests, -⟩ := hspec
  refine .directory hdirectory ?_
  show ∀ userId ∈ pendingDeletionUserIds (erased.requests.update id (·.complete) fun _ => rfl), _
  rw [hrequests]
  refine pending_update_same (·.complete) (fun _ => rfl) hfound rfl fun hstatus => ?_
  rcases hstatus with hstatus | hstatus <;> cases hstatus

/-- A request for the worker was checked before; one that is repaired stays completed. -/
private theorem prepareUserDeletion_commits {u : Unit} (h : (prepareUserDeletion facts tenant target).Commits u) :
    ∃ u, (ensurePreconditions facts tenant target).Commits u := by
  unfold prepareUserDeletion at h
  split at h
  · simp only [commits_bind] at h
    obtain ⟨u, hready, -⟩ := h
    exact ⟨u, hready⟩
  · rename_i huser
    unfold ensurePreconditions
    split
    · rename_i id
      exact absurd rfl (huser id)
    · exact ⟨(), (commits_pure () ()).mpr rfl⟩

private theorem repair_identity
    (h : (repairCompletedErasure facts id tenant).Commits tenant') : IdentityChange castUuid tenant command tenant' := by
  simp only [repairCompletedErasure, commits_bind, commits_check] at h
  obtain ⟨-, -, h⟩ := h
  split at h
  · exact absurd h (commits_rollback _ _)
  rename_i request hfound
  split at h
  rotate_left
  · rw [commits_pure] at h
    subst h
    exact .unchanged rfl fun _ huser => huser
  rename_i houtdated
  simp only [commits_bind, commits_check] at h
  obtain ⟨-, -, h⟩ := h
  split at h
  · rw [commits_pure] at h
    subst h
    exact .unchanged rfl fun _ huser => huser
  have hid := (KeyedTable.find_eq_some.mp hfound).2
  simp only [repairErasure, commits_bind] at h
  obtain ⟨_, hprepared, plan, -, h⟩ := h
  rw [hid] at h
  split at h
  · simp only [commits_bind, commits_check, commits_pure] at h
    obtain ⟨erased, herased, -, -, rfl⟩ := h
    have hspec : DirectoryChange castUuid tenant command erased.directory ∧ erased.requests = tenant.requests ∧ _ :=
      applyDeletion_commits herased
    obtain ⟨hdirectory, hrequests, -⟩ := hspec
    refine .directory hdirectory ?_
    show ∀ userId ∈ pendingDeletionUserIds (erased.requests.update id (·.repaired) fun _ => rfl), _
    rw [hrequests]
    exact pending_update_same (·.repaired) (fun _ => rfl) hfound rfl fun hstatus => hstatus
  · simp only [commits_bind, commits_check, commits_pure] at h
    obtain ⟨-, -, rfl⟩ := h
    obtain ⟨_, hready⟩ := prepareUserDeletion_commits hprepared
    exact .schedule (·.requeue) (fun _ => rfl) hfound rfl hready

private theorem failure_identity {reason : String}
    (h : (recordDeletionFailure facts id reason tenant).Commits tenant') :
    IdentityChange castUuid tenant command tenant' := by
  simp only [recordDeletionFailure, commits_bind, commits_check] at h
  obtain ⟨-, -, h⟩ := h
  split at h
  · exact absurd h (commits_rollback _ _)
  rename_i request hfound
  simp only [commits_bind, commits_check, commits_pure] at h
  obtain ⟨-, -, -, -, rfl⟩ := h
  exact .unchanged rfl (pending_update_same (·.fail reason) (fun _ => rfl) hfound rfl fun hstatus => hstatus)

private theorem create_identity {key : Option String}
    (h : (createDeletionRequest facts id target key tenant).Commits tenant') :
    IdentityChange castUuid tenant command tenant' := by
  simp only [createDeletionRequest, commits_bind, commits_check] at h
  obtain ⟨-, -, -, -, h⟩ := h
  split at h
  · rw [commits_pure] at h
    subst h
    exact .unchanged rfl fun _ huser => huser
  · simp only [commits_bind, commits_check] at h
    obtain ⟨-, -, h⟩ := h
    obtain ⟨hdirectory, hpending⟩ := pending_add h fun _ _ => rfl
    exact .unchanged hdirectory hpending

private theorem retain_identity {messageId : String} {deleteAttachments : Bool}
    (h : (enqueueRetentionDeletion facts id messageId deleteAttachments tenant).Commits tenant') :
    IdentityChange castUuid tenant command tenant' := by
  simp only [enqueueRetentionDeletion, commits_bind, commits_check] at h
  obtain ⟨-, -, h⟩ := h
  split at h
  · rw [commits_pure] at h
    subst h
    exact .unchanged rfl fun _ huser => huser
  · simp only [commits_bind, commits_check] at h
    obtain ⟨-, -, h⟩ := h
    obtain ⟨hdirectory, hpending⟩ := pending_add h fun userId htarget => by cases htarget
    exact .unchanged hdirectory hpending

private theorem createHold_commits {scope : HoldScope} {key : Option String}
    (h : (createLegalHold facts id scope key tenant).Commits tenant') :
    ∃ holds, tenant' = { tenant with holds := holds } := by
  simp only [createLegalHold, commits_bind, commits_check] at h
  obtain ⟨-, -, -, -, -, -, h⟩ := h
  split at h
  · rw [commits_pure] at h
    exact ⟨tenant.holds, h.symm⟩
  · simp only [commits_bind, commits_check] at h
    obtain ⟨-, -, h⟩ := h
    split at h
    · rw [commits_pure] at h
      exact ⟨_, h.symm⟩
    · exact absurd h (commits_rollback _ _)

private theorem releaseHold_commits (h : (releaseLegalHold facts id expectedVersion tenant).Commits tenant') :
    ∃ holds, tenant' = { tenant with holds := holds } := by
  simp only [releaseLegalHold, commits_bind, commits_check] at h
  obtain ⟨-, -, h⟩ := h
  split at h
  · exact absurd h (commits_rollback _ _)
  · simp only [commits_bind, commits_check, commits_pure] at h
    obtain ⟨-, -, -, -, -, -, rfl⟩ := h
    exact ⟨_, rfl⟩

theorem deleteMessage_commits {messageId : String} (h : (deleteMessage facts messageId tenant).Commits tenant') :
    ∃ message, tenant.content.messages.find messageId = some message ∧
      activeLegalHold tenant.holds [message.conversationId] [message.senderUserId] = false ∧
      tenant' = { tenant with content := { tenant.content with
        messages := tenant.content.messages.update messageId (·.delete) fun _ => rfl } } := by
  unfold deleteMessage at h
  split at h
  · exact absurd h (commits_rollback _ _)
  rename_i message hmessage
  simp only [commits_bind, commits_check, commits_pure, Bool.not_eq_true'] at h
  obtain ⟨-, -, -, hhold, -, -, -, -, rfl⟩ := h
  exact ⟨message, hmessage, hhold, rfl⟩

private theorem inDirectory_commits {change : ScimDirectory → UserTransaction ScimDirectory}
    (h : (inDirectory change tenant).Commits tenant') :
    ∃ directory, (change tenant.directory).Commits directory ∧ tenant' = { tenant with directory := directory } := by
  simp only [inDirectory, ofUsers, commits_bind, commits_mapReason, commits_pure] at h
  obtain ⟨directory, hdirectory, rfl⟩ := h
  exact ⟨directory, hdirectory, rfl⟩

/-- Every command that commits is such a change. -/
theorem execute_identity (h : (execute castUuid command tenant).Commits tenant') :
    IdentityChange castUuid tenant command tenant' := by
  cases command with
  | lifecycle facts actorId userId change =>
    simp only [execute, changeUserLifecycle, ofUsers, commits_bind, commits_mapReason, commits_pure] at h
    obtain ⟨users, husers, rfl⟩ := h
    obtain ⟨target, hspec⟩ := applyChange_commits husers
    exact .directory (.lifecycle userId change target users hspec) fun _ huser => huser
  | scimCreate facts ids kind attrs =>
    obtain ⟨directory, hdirectory, rfl⟩ := inDirectory_commits h
    rcases scimCreate_commits hdirectory with husers | ⟨user, hinserted, hstatus⟩
    · exact .directory (.resourceOnly directory husers) fun _ huser => huser
    · exact .directory (.provisioned user directory hstatus hinserted) fun _ huser => huser
  | scimMutate facts kind rawId change version =>
    obtain ⟨directory, hdirectory, rfl⟩ := inDirectory_commits h
    obtain ⟨id, resource, hid, hresource, hsame | ⟨userId, user, active, update, hupdate, huserId, hfound, hasked,
      hpreserved, husers⟩⟩ := scimMutate_commits hdirectory
    · exact .directory (.resourceOnly directory hsame.2) fun _ huser => huser
    · obtain rfl := (KeyedTable.find_eq_some.mp hfound).2
      have hnamed : (Command.scimMutate facts kind rawId change version).resource castUuid tenant = some resource := by
        show (castUuid rawId).bind (findResource tenant.directory.resources kind) = some resource
        rw [hid]
        exact hresource
      refine .directory (.updated resource user active update hupdate directory hnamed huserId hfound ?_ hpreserved
        husers) fun _ huser => huser
      rintro rfl
      exact ⟨resource, hnamed, huserId, hasked⟩
  | scimDelete facts kind rawId version =>
    obtain ⟨directory, hdirectory, rfl⟩ := inDirectory_commits h
    obtain ⟨id, resource, hid, hresource, hsame | ⟨userId, user, update, hupdate, huserId, hfound, hpreserved,
      husers⟩⟩ := scimDelete_commits hdirectory
    · exact .directory (.resourceOnly directory hsame.2) fun _ huser => huser
    · obtain rfl := (KeyedTable.find_eq_some.mp hfound).2
      have hnamed : (Command.scimDelete facts kind rawId version).resource castUuid tenant = some resource := by
        show (castUuid rawId).bind (findResource tenant.directory.resources kind) = some resource
        rw [hid]
        exact hresource
      exact .directory (.updated resource user false update hupdate directory hnamed huserId hfound
        (fun _ => ⟨resource, hnamed, huserId, trivial⟩) (fun _ => hpreserved) husers) fun _ huser => huser
  | createRequest facts id target key => exact create_identity h
  | transition facts id expectedVersion status => exact transition_identity h
  | claim facts id =>
    simp only [execute, commits_bind, commits_pure] at h
    obtain ⟨⟨claimed, execution⟩, hclaimed, rfl⟩ := h
    exact claim_identity hclaimed
  | complete facts id expectedVersion count => exact complete_identity h
  | repair facts id => exact repair_identity h
  | recordFailure facts id reason => exact failure_identity h
  | retain facts id messageId deleteAttachments => exact retain_identity h
  | createHold facts id scope key =>
    obtain ⟨holds, rfl⟩ := createHold_commits h
    exact .unchanged rfl fun _ huser => huser
  | releaseHold facts id expectedVersion =>
    obtain ⟨holds, rfl⟩ := releaseHold_commits h
    exact .unchanged rfl fun _ huser => huser
  | deleteMessage facts messageId =>
    obtain ⟨message, -, -, rfl⟩ := deleteMessage_commits h
    exact .unchanged rfl fun _ huser => huser
  | write content =>
    simp only [execute, commits_pure] at h
    subst h
    exact .unchanged rfl fun _ huser => huser

end KComms.Governance
