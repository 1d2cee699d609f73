import KComms.Governance.LastingOwner

/-!
# What legal holds keep

A hold covers what lies in its conversation, what its user wrote, or everything.  The check of a deletion sees only
the holds on its target, on the conversations and on the senders of the messages of the target (`protectedTargets`).
The erasure reaches more: attachments, revisions and reactions of others, and whiteboards in conversations where the
target has no message.  Where every hold on what the erasure reaches is seen by the check, no deletion changes what a
hold covers (`held_content_kept`).
-/

namespace KComms.Governance

open Attempt KComms.Accounts

/-! ### Items of content -/

inductive Item
  | message (row : MessageRow)
  | revision (row : RevisionRow)
  | reaction (row : ReactionRow)
  | attachment (row : AttachmentRow)
  | operation (row : OperationRow)
  | snapshot (row : SnapshotRow)
  | version (row : VersionRow)
  deriving DecidableEq, Repr

def Content.has (content : Content) : Item → Prop
  | .message row => row ∈ content.messages.rows
  | .revision row => row ∈ content.revisions
  | .reaction row => row ∈ content.reactions
  | .attachment row => row ∈ content.attachments.rows
  | .operation row => row ∈ content.operations
  | .snapshot row => row ∈ content.snapshots
  | .version row => row ∈ content.versions

/-- The message of a revision, of a reaction or of an attachment. -/
def Item.messageId : Item → Option String
  | .message row => some row.id
  | .revision row => some row.messageId
  | .reaction row => some row.messageId
  | .attachment row => row.messageId
  | _ => none

def Item.conversationId (content : Content) : Item → Option String
  | .message row => some row.conversationId
  | .operation row => some row.conversationId
  | .snapshot row => some row.conversationId
  | .version row => some row.conversationId
  | item => (item.messageId.bind content.messages.find).map (·.conversationId)

/-- The users who wrote an item; the sender of a message also stands for its revisions and reactions. -/
def Item.authors (content : Content) : Item → List String
  | .message row => [row.senderUserId]
  | .revision row => row.editorUserId :: ((content.messages.find row.messageId).map (·.senderUserId)).toList
  | .reaction row => row.userId :: ((content.messages.find row.messageId).map (·.senderUserId)).toList
  | .attachment row => [row.ownerUserId]
  | .operation row => row.actorUserId :: row.sourceActorUserIds
  | .snapshot _ => []
  | .version row => row.actorUserId :: row.sourceActorUserIds

def LegalHold.covers (hold : LegalHold) (content : Content) (item : Item) : Prop :=
  match hold.scope with
  | .tenant => True
  | .user id => id ∈ item.authors content
  | .conversation id => item.conversationId content = some id

/-! ### What a deletion reaches -/

def requestPlan (content : Content) (request : DeletionRequest) : DeletionPlan :=
  deletionPlan content request (governanceImpact content request.target).messageIds

def boardsIn (content : Content) (conversationId : String) : List String :=
  (content.boards.rows.filter fun board => board.conversationId = conversationId).map (·.id)

/-- The items that the erasure of a request removes or changes. -/
def DeletionRequest.reaches (request : DeletionRequest) (content : Content) : Item → Prop
  | .message row => row.id ∈ (requestPlan content request).messageIds
  | .revision row => row.messageId ∈ (requestPlan content request).messageIds
  | .reaction row => row.messageId ∈ (requestPlan content request).messageIds
  | .attachment row => row.id ∈ (requestPlan content request).attachments.map (·.id)
  | .operation row =>
    match request.target with
    | .user id => row.concerns id = true ∧ row.kind = .sceneUpdate
    | .conversation id => row.conversationId = id ∨ row.whiteboardId ∈ boardsIn content id
    | .message _ => False
  | .snapshot row =>
    match request.target with
    | .user id => row.whiteboardId ∈ affectedBoards content id
    | .conversation id => row.whiteboardId ∈ boardsIn content id
    | .message _ => False
  | .version row =>
    match request.target with
    | .user id => row.whiteboardId ∈ affectedBoards content id ∨ row.concerns id = true
    | .conversation id => row.whiteboardId ∈ boardsIn content id
    | .message _ => False

variable {content : Content} {request : DeletionRequest} {target : DeletionTarget} {item : Item} {hold : LegalHold}
  {facts : GovernanceFacts} {message : MessageRow} {expectedVersion : Nat}

private theorem kept_message {ids : List String} (h : message ∈ content.messages.rows)
    (hid : message.id ∉ ids) : message ∈ (tombstoneForErasure ids content).messages.rows := by
  refine KeyedTable.mem_modify_of_not MessageRow.tombstone (fun _ => rfl) h ?_
  rw [List.contains_eq_mem, decide_eq_false_iff_not]
  exact hid

private theorem kept_attachment {ids : List String} {attachment : AttachmentRow}
    (h : attachment ∈ content.attachments.rows) (hid : attachment.id ∉ ids) :
    attachment ∈ (markDeletedForErasure ids content).attachments.rows := by
  refine KeyedTable.mem_modify_of_not AttachmentRow.erase (fun _ => rfl) h ?_
  rw [List.contains_eq_mem, decide_eq_false_iff_not]
  exact hid

/-- The erasure of whiteboards has no say in messages and attachments. -/
private theorem eraseWhiteboards_others (target : DeletionTarget) (content : Content) :
    (eraseWhiteboards target content).messages = content.messages ∧
      (eraseWhiteboards target content).revisions = content.revisions ∧
      (eraseWhiteboards target content).reactions = content.reactions ∧
      (eraseWhiteboards target content).attachments = content.attachments := by
  cases target with
  | user id => exact ⟨rfl, rfl, rfl, rfl⟩
  | conversation id => exact ⟨rfl, rfl, rfl, rfl⟩
  | message id => exact ⟨rfl, rfl, rfl, rfl⟩

private theorem kept_operation {operation : OperationRow} (h : operation ∈ content.operations)
    (hreach : ¬ request.reaches content (.operation operation)) :
    operation ∈ (eraseWhiteboards request.target content).operations := by
  unfold DeletionRequest.reaches at hreach
  cases htarget : request.target with
  | user id =>
    simp only [htarget] at hreach
    refine List.mem_map.mpr ⟨operation, h, if_neg ?_⟩
    rw [Bool.and_eq_true, decide_eq_true_eq]
    exact hreach
  | conversation id =>
    simp only [htarget, not_or] at hreach
    refine List.mem_filter.mpr ⟨h, ?_⟩
    rw [Bool.not_eq_true', Bool.or_eq_false_iff, decide_eq_false_iff_not, List.contains_eq_mem,
      decide_eq_false_iff_not]
    exact hreach
  | message id => exact h

private theorem kept_snapshot {snapshot : SnapshotRow} (h : snapshot ∈ content.snapshots)
    (hreach : ¬ request.reaches content (.snapshot snapshot)) :
    snapshot ∈ (eraseWhiteboards request.target content).snapshots := by
  unfold DeletionRequest.reaches at hreach
  cases htarget : request.target with
  | user id =>
    simp only [htarget] at hreach
    refine List.mem_filter.mpr ⟨h, ?_⟩
    rw [Bool.not_eq_true', List.contains_eq_mem, decide_eq_false_iff_not]
    exact hreach
  | conversation id =>
    simp only [htarget] at hreach
    refine List.mem_filter.mpr ⟨h, ?_⟩
    rw [Bool.not_eq_true', List.contains_eq_mem, decide_eq_false_iff_not]
    exact hreach
  | message id => exact h

private theorem kept_version {version : VersionRow} (h : version ∈ content.versions)
    (hreach : ¬ request.reaches content (.version version)) :
    version ∈ (eraseWhiteboards request.target content).versions := by
  unfold DeletionRequest.reaches at hreach
  cases htarget : request.target with
  | user id =>
    simp only [htarget, not_or, Bool.not_eq_true] at hreach
    refine List.mem_filter.mpr ⟨h, ?_⟩
    rw [Bool.not_eq_true', Bool.or_eq_false_iff, List.contains_eq_mem, decide_eq_false_iff_not]
    exact hreach
  | conversation id =>
    simp only [htarget] at hreach
    refine List.mem_filter.mpr ⟨h, ?_⟩
    rw [Bool.not_eq_true', List.contains_eq_mem, decide_eq_false_iff_not]
    exact hreach
  | message id => exact h

/-- The erasure leaves what it does not reach as it is. -/
theorem has_eraseContent (h : content.has item) (hreach : ¬ request.reaches content item) :
    (eraseContent request.target (requestPlan content request) content).has item := by
  unfold eraseContent
  generalize hplan : requestPlan content request = plan at hreach ⊢
  obtain ⟨hmessages, hrevisions, hreactions, hattachments⟩ := eraseWhiteboards_others request.target
    (markDeletedForErasure (plan.attachments.map (·.id)) (tombstoneForErasure plan.messageIds content))
  cases item with
  | message row =>
    unfold Content.has at h ⊢
    unfold DeletionRequest.reaches at hreach
    rw [hplan] at hreach
    rw [hmessages]
    exact kept_message h hreach
  | revision row =>
    unfold Content.has at h ⊢
    unfold DeletionRequest.reaches at hreach
    rw [hplan] at hreach
    rw [hrevisions]
    refine List.mem_filter.mpr ⟨h, ?_⟩
    rw [Bool.not_eq_true', List.contains_eq_mem, decide_eq_false_iff_not]
    exact hreach
  | reaction row =>
    unfold Content.has at h ⊢
    unfold DeletionRequest.reaches at hreach
    rw [hplan] at hreach
    rw [hreactions]
    refine List.mem_filter.mpr ⟨h, ?_⟩
    rw [Bool.not_eq_true', List.contains_eq_mem, decide_eq_false_iff_not]
    exact hreach
  | attachment row =>
    unfold Content.has at h ⊢
    unfold DeletionRequest.reaches at hreach
    rw [hplan] at hreach
    rw [hattachments]
    have hrow : row ∈ (tombstoneForErasure plan.messageIds content).attachments.rows := h
    exact kept_attachment hrow hreach
  | operation row => exact kept_operation h hreach
  | snapshot row => exact kept_snapshot h hreach
  | version row => exact kept_version h hreach

/-! ### What the check sees -/

/-- A hold that the check of the target sees. -/
def LegalHold.seenBy (hold : LegalHold) (content : Content) (target : DeletionTarget) : Prop :=
  hold.applies (protectedTargets content target).1 (protectedTargets content target).2 = true

/-- A hold on a message that the deletion selects is seen: its conversation and its sender are protected. -/
theorem covers_message_seen (h : message ∈ content.messages.rows) (hselects : target.selects message = true)
    (hcovers : hold.covers content (.message message)) :
    hold.seenBy content target := by
  have hselected : message ∈ content.messages.rows.filter target.selects := List.mem_filter.mpr ⟨h, hselects⟩
  have hconversation : message.conversationId ∈ (governanceImpact content target).conversationIds :=
    List.mem_map.mpr ⟨message, hselected, rfl⟩
  have huser : message.senderUserId ∈ (governanceImpact content target).userIds :=
    List.mem_map.mpr ⟨message, hselected, rfl⟩
  unfold LegalHold.covers at hcovers
  unfold LegalHold.seenBy LegalHold.applies
  cases hscope : hold.scope with
  | tenant => rfl
  | user id =>
    simp only [hscope, Item.authors, List.mem_singleton] at hcovers
    subst hcovers
    show List.contains _ _ = true
    rw [List.contains_eq_mem, decide_eq_true_eq]
    cases target with
    | user other =>
      unfold DeletionTarget.selects at hselects
      rw [decide_eq_true_eq] at hselects
      exact List.mem_singleton.mpr hselects
    | conversation other => exact huser
    | message other => exact huser
  | conversation id =>
    simp only [hscope, Item.conversationId, Option.some.injEq] at hcovers
    subst hcovers
    show List.contains _ _ = true
    rw [List.contains_eq_mem, decide_eq_true_eq]
    cases target with
    | user other => exact hconversation
    | conversation other =>
      unfold DeletionTarget.selects at hselects
      rw [decide_eq_true_eq] at hselects
      exact List.mem_singleton.mpr hselects
    | message other => exact hconversation

/-- A message that is reached is one that the target selects. -/
private theorem reached_message (h : message ∈ content.messages.rows)
    (hreach : request.reaches content (.message message)) : request.target.selects message = true := by
  unfold DeletionRequest.reaches requestPlan deletionPlan governanceImpact at hreach
  obtain ⟨other, hother, hid⟩ := List.mem_map.mp hreach
  obtain ⟨hmem, hselects⟩ := List.mem_filter.mp hother
  rw [KeyedTable.eq_of_key hmem h hid] at hselects
  exact hselects

theorem not_blocked {tenant : Tenant} (h : legalHoldBlocks tenant target = false) (hmem : hold ∈ tenant.holds.rows)
    (hactive : hold.active = true) : ¬ hold.seenBy tenant.content target := by
  intro hseen
  unfold legalHoldBlocks activeLegalHold at h
  rw [List.any_eq_false] at h
  refine h hold hmem ?_
  rw [hactive, Bool.true_and]
  exact hseen

/-! ### Deletions under holds -/

/-- The request that a worker completes or repairs. -/
def Command.deletion (tenant : Tenant) : Command → Option DeletionRequest
  | .complete _ id _ _ => tenant.requests.find id
  | .repair _ id => tenant.requests.find id
  | _ => none

/-- What members write is no deletion. -/
def Command.ofMembers : Command → Bool
  | .write _ => true
  | _ => false

/-- Every active hold on an item that the erasure reaches is seen by the check of the request; the messages themselves
need no such condition. -/
def HoldsSeen (tenant : Tenant) (command : Command) : Prop :=
  ∀ request, command.deletion tenant = some request → ∀ item, tenant.content.has item →
    (∀ row, item ≠ .message row) → request.reaches tenant.content item → ∀ hold ∈ tenant.holds.rows,
    hold.active = true → hold.covers tenant.content item → hold.seenBy tenant.content request.target

variable {castUuid : String → Option String} {tenant tenant' : Tenant} {command : Command} {id : String}

/-- What a command does to the content: nothing, the erasure of a request whose check saw no hold, or the deletion of
a message that no hold covers. -/
inductive ContentChange (tenant : Tenant) (command : Command) : Content → Prop
  | same : ContentChange tenant command tenant.content
  | erased (request : DeletionRequest) (named : command.deletion tenant = some request)
      (free : legalHoldBlocks tenant request.target = false) :
      ContentChange tenant command (eraseContent request.target (requestPlan tenant.content request) tenant.content)
  | deleted (message : MessageRow) (found : tenant.content.messages.find message.id = some message)
      (free : activeLegalHold tenant.holds [message.conversationId] [message.senderUserId] = false) :
      ContentChange tenant command { tenant.content with
        messages := tenant.content.messages.update message.id (·.delete) fun _ => rfl }

private theorem fencedDeletionPlan_commits {plan : DeletionPlan}
    (h : (fencedDeletionPlan tenant request).Commits plan) :
    legalHoldBlocks tenant request.target = false ∧ plan = requestPlan tenant.content request := by
  simp only [fencedDeletionPlan, commits_bind, commits_check, commits_pure, Bool.not_eq_true'] at h
  obtain ⟨-, hfree, rfl⟩ := h
  exact ⟨hfree, rfl⟩

private theorem ContentChange.erase {plan : DeletionPlan} {erased : Tenant}
    (hnamed : command.deletion tenant = some request) (hplan : (fencedDeletionPlan tenant request).Commits plan)
    (herased : (applyDeletion facts tenant request.target plan).Commits erased) :
    ContentChange tenant command erased.content := by
  obtain ⟨hfree, rfl⟩ := fencedDeletionPlan_commits hplan
  have hspec : DirectoryChange some tenant command erased.directory ∧ _ ∧ _ ∧ erased.content = _ :=
    applyDeletion_commits herased
  rw [hspec.2.2.2]
  exact .erased request hnamed hfree

private theorem complete_content {count : Int}
    (h : (completeDeletionRequest facts id expectedVersion count tenant).Commits tenant') :
    ContentChange tenant (.complete facts id expectedVersion count) tenant'.content := by
  simp only [completeDeletionRequest, commits_bind, commits_check] at h
  obtain ⟨-, -, h⟩ := h
  split at h
  · exact absurd h (commits_rollback _ _)
  rename_i request hfound
  simp only [commits_bind, commits_check, commits_pure] at h
  obtain ⟨-, -, -, -, -, -, -, -, -, -, -, -, -, -, plan, hplan, -, -, erased, herased, -, -, rfl⟩ := h
  show ContentChange tenant _ erased.content
  exact .erase hfound hplan herased

private theorem repair_content (h : (repairCompletedErasure facts id tenant).Commits tenant') :
    ContentChange tenant (.repair facts id) tenant'.content := by
  simp only [repairCompletedErasure, commits_bind, commits_check] at h
  obtain ⟨-, -, h⟩ := h
  split at h
  · exact absurd h (commits_rollback _ _)
  rename_i request hfound
  split at h
  rotate_left
  · rw [commits_pure] at h
    subst h
    exact .same
  simp only [commits_bind, commits_check] at h
  obtain ⟨-, -, h⟩ := h
  split at h
  · rw [commits_pure] at h
    subst h
    exact .same
  simp only [repairErasure, commits_bind] at h
  obtain ⟨-, -, plan, hplan, h⟩ := h
  split at h
  · simp only [commits_bind, commits_check, commits_pure] at h
    obtain ⟨erased, herased, -, -, rfl⟩ := h
    show ContentChange tenant _ erased.content
    exact .erase hfound hplan herased
  · simp only [commits_bind, commits_check, commits_pure] at h
    obtain ⟨-, -, rfl⟩ := h
    exact .same

/-! ### The other commands -/

section

private def SameContent (tenant : Tenant) (attempt : GovernanceTransaction Tenant) : Prop :=
  Ensures (fun tenant' => tenant'.content = tenant.content) attempt

private theorem check_sameContent {condition : Bool} {reason : GovernanceError} {rest : GovernanceTransaction Tenant}
    (h : SameContent tenant rest) : SameContent tenant (do check condition reason; rest) := by
  unfold SameContent
  rw [ensures_bind]
  exact .of_forall fun _ => h

private theorem addRequest_sameContent : SameContent tenant (addRequest tenant request) := by
  unfold SameContent addRequest
  split
  · rw [ensures_pure]
  · exact ensures_rollback _

private theorem transition_sameContent {status : RequestStatus} :
    SameContent tenant (transitionDeletionRequest facts id expectedVersion status tenant) := by
  unfold transitionDeletionRequest
  refine check_sameContent (check_sameContent (check_sameContent ?_))
  split
  · exact ensures_rollback _
  · refine check_sameContent (check_sameContent ?_)
    unfold SameContent
    rw [ensures_bind]
    refine .of_forall fun _ => check_sameContent ?_
    exact ensures_pure.mpr rfl

private theorem claim_sameContent :
    SameContent tenant (do
      let claimed ← claimDeletionRequest facts id tenant
      pure claimed.1) := by
  unfold SameContent
  rw [ensures_bind]
  intro claimed hclaimed
  rw [ensures_pure]
  simp only [claimDeletionRequest, commits_bind, commits_check] at hclaimed
  obtain ⟨-, -, hclaimed⟩ := hclaimed
  split at hclaimed
  · exact absurd hclaimed (commits_rollback _ _)
  · simp only [commits_bind, commits_check, commits_pure] at hclaimed
    obtain ⟨-, -, -, -, -, -, -, -, -, -, rfl⟩ := hclaimed
    rfl

private theorem failure_sameContent {reason : String} :
    SameContent tenant (recordDeletionFailure facts id reason tenant) := by
  unfold recordDeletionFailure
  refine check_sameContent ?_
  split
  · exact ensures_rollback _
  · refine check_sameContent (check_sameContent ?_)
    exact ensures_pure.mpr rfl

private theorem create_sameContent {key : Option String} :
    SameContent tenant (createDeletionRequest facts id target key tenant) := by
  unfold createDeletionRequest
  refine check_sameContent (check_sameContent ?_)
  split
  · exact ensures_pure.mpr rfl
  · exact check_sameContent addRequest_sameContent

private theorem retain_sameContent {messageId : String} {deleteAttachments : Bool} :
    SameContent tenant (enqueueRetentionDeletion facts id messageId deleteAttachments tenant) := by
  unfold enqueueRetentionDeletion
  refine check_sameContent ?_
  show SameContent tenant (if _ then _ else _)
  split
  · exact ensures_pure.mpr rfl
  · exact check_sameContent addRequest_sameContent

private theorem createHold_sameContent {scope : HoldScope} {key : Option String} :
    SameContent tenant (createLegalHold facts id scope key tenant) := by
  unfold createLegalHold
  refine check_sameContent (check_sameContent (check_sameContent ?_))
  split
  · exact ensures_pure.mpr rfl
  · refine check_sameContent ?_
    split
    · exact ensures_pure.mpr rfl
    · exact ensures_rollback _

private theorem releaseHold_sameContent :
    SameContent tenant (releaseLegalHold facts id expectedVersion tenant) := by
  unfold releaseLegalHold
  refine check_sameContent ?_
  split
  · exact ensures_rollback _
  · refine check_sameContent (check_sameContent (check_sameContent ?_))
    exact ensures_pure.mpr rfl

private theorem inDirectory_sameContent {change : ScimDirectory → UserTransaction ScimDirectory} :
    SameContent tenant (inDirectory change tenant) := by
  unfold SameContent inDirectory
  rw [ensures_bind]
  exact .of_forall fun _ => ensures_pure.mpr rfl

private theorem lifecycle_sameContent {facts : LifecycleFacts} {actorId userId : String} {change : LifecycleCommand} :
    SameContent tenant (changeUserLifecycle facts actorId userId change tenant) := by
  unfold SameContent changeUserLifecycle
  rw [ensures_bind]
  exact .of_forall fun _ => ensures_pure.mpr rfl

end

/-- Every command that commits is such a change, but for what members write. -/
theorem execute_content (h : (execute castUuid command tenant).Commits tenant') (hmembers : command.ofMembers = false) :
    ContentChange tenant command tenant'.content := by
  have hsame : SameContent tenant (execute castUuid command tenant) → ContentChange tenant command tenant'.content := by
    intro hensures
    rw [hensures tenant' h]
    exact .same
  cases command with
  | lifecycle facts actorId userId change => exact hsame lifecycle_sameContent
  | scimCreate facts ids kind attrs => exact hsame inDirectory_sameContent
  | scimMutate facts kind rawId change version => exact hsame inDirectory_sameContent
  | scimDelete facts kind rawId version => exact hsame inDirectory_sameContent
  | createRequest facts id target key => exact hsame create_sameContent
  | transition facts id expectedVersion status => exact hsame transition_sameContent
  | claim facts id => exact hsame claim_sameContent
  | complete facts id expectedVersion count => exact complete_content h
  | repair facts id => exact repair_content h
  | recordFailure facts id reason => exact hsame failure_sameContent
  | retain facts id messageId deleteAttachments => exact hsame retain_sameContent
  | createHold facts id scope key => exact hsame createHold_sameContent
  | releaseHold facts id expectedVersion => exact hsame releaseHold_sameContent
  | deleteMessage facts messageId =>
    obtain ⟨message, hfound, hfree, rfl⟩ := deleteMessage_commits h
    obtain rfl := (KeyedTable.find_eq_some.mp hfound).2
    exact .deleted message hfound hfree
  | write content => cases hmembers

/-! ### Held content -/

/-- A hold on the message that is deleted by a member is seen. -/
private theorem deleted_not_covered
    (hfree : activeLegalHold tenant.holds [message.conversationId] [message.senderUserId] = false)
    (hhold : hold ∈ tenant.holds.rows) (hactive : hold.active = true) :
    ¬ hold.covers tenant.content (.message message) := by
  intro hcovers
  unfold activeLegalHold at hfree
  rw [List.any_eq_false] at hfree
  refine hfree hold hhold ?_
  rw [hactive, Bool.true_and]
  unfold LegalHold.covers at hcovers
  unfold LegalHold.applies
  cases hscope : hold.scope with
  | tenant => rfl
  | user id =>
    simp only [hscope, Item.authors, List.mem_singleton] at hcovers
    simp [hcovers]
  | conversation id =>
    simp only [hscope, Item.conversationId, Option.some.injEq] at hcovers
    simp [hcovers]

/-- A committed change leaves what a hold covers as it is. -/
theorem ContentChange.keeps {content' : Content} (h : ContentChange tenant command content')
    (hseen : HoldsSeen tenant command) (hitem : tenant.content.has item) (hhold : hold ∈ tenant.holds.rows)
    (hactive : hold.active = true) (hcovers : hold.covers tenant.content item) : content'.has item := by
  cases h with
  | same => exact hitem
  | erased request named free =>
    refine has_eraseContent hitem fun hreach => not_blocked free hhold hactive ?_
    by_cases hmessage : ∃ row, item = .message row
    · obtain ⟨row, rfl⟩ := hmessage
      exact covers_message_seen hitem (reached_message hitem hreach) hcovers
    · exact hseen request named item hitem (fun row hrow => hmessage ⟨row, hrow⟩) hreach hold hhold hactive hcovers
  | deleted message found free =>
    cases item with
    | message row =>
      refine KeyedTable.mem_modify_of_not MessageRow.delete (fun _ => rfl) hitem ?_
      rw [decide_eq_false_iff_not]
      intro hid
      obtain rfl := KeyedTable.eq_of_find found hitem hid
      exact deleted_not_covered free hhold hactive hcovers
    | _ => exact hitem

/-- In every run in which the checks see the holds on all that the erasures reach, each command leaves everything that
an active hold covers as it is. -/
theorem held_content_kept (castUuid : String → Option String) (start : Tenant) (commands : List Command)
    (command : Command)
    (hguard : Guarded (afterCommand castUuid) HoldsSeen start (commands ++ [command]))
    (hmembers : command.ofMembers = false) (item : Item) (hold : LegalHold)
    (hitem : (runCommands (afterCommand castUuid) start commands).content.has item)
    (hhold : hold ∈ (runCommands (afterCommand castUuid) start commands).holds.rows) (hactive : hold.active = true)
    (hcovers : hold.covers (runCommands (afterCommand castUuid) start commands).content item) :
    (runCommands (afterCommand castUuid) start (commands ++ [command])).content.has item := by
  rw [Guarded.append] at hguard
  rw [runCommands_append]
  generalize runCommands (afterCommand castUuid) start commands = tenant at *
  show (afterCommand castUuid tenant command).content.has item
  rcases afterCommand_eq tenant command with h | h
  · exact (execute_content h hmembers).keeps hguard.2.1 hitem hhold hactive hcovers
  · rw [h]
    exact hitem

/-! ### A whiteboard under a hold -/

def sampleOperation : OperationRow where
  whiteboardId := "w-1"
  conversationId := "c-1"
  actorUserId := "eve"
  sourceActorUserIds := []
  kind := .sceneUpdate
  elements := ["rectangle"]
  sequence := 1

def sampleMessage : MessageRow where
  id := "m-1"
  conversationId := "c-1"
  senderUserId := "ada"
  body := some "hello"
  metadata := []
  deleted := false

/-- A conversation under a hold: the user to be deleted has drawn on its board, and has sent no message. -/
def heldTenant : Tenant where
  directory :=
    { users := ⟨[sampleOwner "ada", { sampleOwner "eve" with role := .member }], by decide⟩
      resources := [] }
  requests := ⟨[newRequest "r-1" (.user "eve") .pending none none], by decide⟩
  holds := ⟨[{ id := "h-1", scope := .conversation "c-1", active := true, idempotencyKey := none, lockVersion := 1 }],
    by decide⟩
  content :=
    { emptyContent with
      messages := ⟨[sampleMessage], by decide⟩
      boards := ⟨[{ id := "w-1", conversationId := "c-1", title := "Plan", titleActorUserId := none,
                    libraryVersion := 1 }], by decide⟩
      operations := [sampleOperation] }

/-- The deletion is approved, claimed and completed. -/
def deleteHeldUser : List Command :=
  [.transition willing "r-1" 1 .approved, .claim willing "r-1", .complete willing "r-1" 3 0]

/-- The hold of the conversation stays active, and its operation is emptied. -/
theorem held_operation_neutralized :
    sampleOperation ∈ heldTenant.content.operations ∧
    (∃ hold ∈ (runCommands (afterCommand some) heldTenant deleteHeldUser).holds.rows,
      hold.active = true ∧ hold.scope = .conversation sampleOperation.conversationId) ∧
    sampleOperation ∉ (runCommands (afterCommand some) heldTenant deleteHeldUser).content.operations := by
  decide

/-- The message of the conversation is not deleted. -/
theorem held_content_kept_sample :
    (runCommands (afterCommand some) heldTenant ([] ++ [.deleteMessage willing "m-1"])).content.has
      (.message sampleMessage) := by
  refine held_content_kept some heldTenant [] (.deleteMessage willing "m-1")
    ⟨fun request hrequest => absurd hrequest.symm (Option.some_ne_none _), trivial⟩ rfl (.message sampleMessage)
    { id := "h-1", scope := .conversation "c-1", active := true, idempotencyKey := none, lockVersion := 1 }
    ?_ ?_ rfl rfl
  · exact List.mem_singleton.mpr rfl
  · exact List.mem_singleton.mpr rfl

end KComms.Governance
