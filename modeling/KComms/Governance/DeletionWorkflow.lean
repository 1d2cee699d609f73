import KComms.Accounts.GovernanceErasure
import KComms.Governance.Content

/-!
# Requests of deletion and legal holds (`Governance.DeletionWorkflow`, `Governance.LegalHolds`)

A request of deletion is approved, claimed by a worker and completed; retention creates approved requests.  A claim and
a completion ask for the active legal holds of what the target protects: of the target itself, and of the conversations
and the senders of its messages.
-/

namespace KComms.Governance

open Attempt KComms.Accounts

inductive RequestStatus
  | pending | approved | inProgress | completed | rejected | cancelled
  deriving DecidableEq, Repr

/-- The evidence of a request: whether its stamps are those of the present erasure, and what retention asks for. -/
structure Evidence where
  current : Bool
  domainCurrent : Bool
  retentionDeleteAttachments : Option Bool
  deriving DecidableEq, Repr

structure DeletionRequest where
  id : String
  target : DeletionTarget
  status : RequestStatus
  executionAttempts : Nat
  executionError : Option String
  evidence : Evidence
  idempotencyKey : Option String
  lockVersion : Nat
  deriving DecidableEq, Repr

inductive HoldScope
  | tenant
  | user (id : String)
  | conversation (id : String)
  deriving DecidableEq, Repr

structure LegalHold where
  id : String
  scope : HoldScope
  active : Bool
  idempotencyKey : Option String
  lockVersion : Nat
  deriving DecidableEq, Repr

structure Tenant where
  directory : ScimDirectory
  requests : KeyedTable DeletionRequest.id
  holds : KeyedTable LegalHold.id
  content : Content

inductive GovernanceError
  | notFound | forbidden | staleVersion | invalidStatus | invalidStatusTransition | notClaimable | alreadyDelivered
  | legalHoldActive | mediaErasurePending | deletionEvidenceMismatch | invalidGovernanceTarget | deletionInProgress
  | legalHoldNotActive | invalid | ownerFailed
  | identity (reason : UserError)
  deriving DecidableEq, Repr

abbrev GovernanceTransaction (α : Type) := Attempt Empty GovernanceError α

/-- Facts from outside of the rows: the authority of the caller, before and under the lock, that the fields are valid,
that the target exists, and what the owners of media, documents and calls answer. -/
structure GovernanceFacts where
  authorized : Bool
  stillAuthorized : Bool
  targetValid : Bool
  valid : Bool
  mediaPrepared : Bool
  mediaPending : Bool
  mediaPendingAfterDrain : Bool
  contributed : Bool
  erasure : ErasureFacts
  deriving DecidableEq, Repr

/-! ### What is protected -/

def pendingDeletionUserIds (requests : KeyedTable DeletionRequest.id) : List String :=
  requests.rows.filterMap fun request =>
    match request.target, request.status with
    | .user id, .approved => some id
    | .user id, .inProgress => some id
    | _, _ => none

/-- The conversations and the users whose holds protect the target. -/
def protectedTargets (content : Content) (target : DeletionTarget) : List String × List String :=
  let impact := governanceImpact content target
  match target with
  | .user id => (impact.conversationIds, [id])
  | .message _ => (impact.conversationIds, impact.userIds)
  | .conversation id => ([id], impact.userIds)

def LegalHold.applies (hold : LegalHold) (conversationIds userIds : List String) : Bool :=
  match hold.scope with
  | .tenant => true
  | .user id => userIds.contains id
  | .conversation id => conversationIds.contains id

/-- `active_legal_hold?` -/
def activeLegalHold (holds : KeyedTable LegalHold.id) (conversationIds userIds : List String) : Bool :=
  holds.rows.any fun hold => hold.active && hold.applies conversationIds userIds

/-- `legal_hold_blocks?` -/
def legalHoldBlocks (tenant : Tenant) (target : DeletionTarget) : Bool :=
  let protectedBy := protectedTargets tenant.content target
  activeLegalHold tenant.holds protectedBy.1 protectedBy.2

/-- `ensure_deletion_preconditions!` -/
def ensurePreconditions (facts : GovernanceFacts) (tenant : Tenant) : DeletionTarget → GovernanceTransaction Unit
  | .user id => do
    let _ ← (erasureTarget facts.erasure tenant.directory.users id (pendingDeletionUserIds tenant.requests)).mapReason
      GovernanceError.identity
    pure ()
  | _ => pure ()

/-! ### Requests -/

def newRequest (id : String) (target : DeletionTarget) (status : RequestStatus) (deleteAttachments : Option Bool)
    (key : Option String) : DeletionRequest where
  id := id
  target := target
  status := status
  executionAttempts := 0
  executionError := none
  evidence := { current := false, domainCurrent := false, retentionDeleteAttachments := deleteAttachments }
  idempotencyKey := key
  lockVersion := 1

def addRequest (tenant : Tenant) (request : DeletionRequest) : GovernanceTransaction Tenant :=
  match tenant.requests.insert request with
  | some requests => pure { tenant with requests := requests }
  | none => rollback .invalid

/-- `create_deletion_request` -/
def createDeletionRequest (facts : GovernanceFacts) (id : String) (target : DeletionTarget) (key : Option String)
    (tenant : Tenant) : GovernanceTransaction Tenant := do
  check facts.authorized .forbidden
  check facts.targetValid .invalidGovernanceTarget
  if key.isSome && tenant.requests.rows.any fun request => request.idempotencyKey = key then pure tenant
  else do
    check facts.valid .invalid
    addRequest tenant (newRequest id target .pending none key)

/-- `validate_deletion_transition!` -/
def validTransitions : RequestStatus → List RequestStatus
  | .pending => [.approved, .rejected, .cancelled]
  | .approved => [.inProgress, .cancelled]
  | .inProgress => [.completed, .cancelled]
  | .completed | .rejected | .cancelled => []

def DeletionRequest.moveTo (status : RequestStatus) (request : DeletionRequest) : DeletionRequest :=
  { request with status := status, lockVersion := request.lockVersion + 1 }

/-- An approval needs the preconditions of the deletion. -/
def ensureApproval (facts : GovernanceFacts) (tenant : Tenant) (target : DeletionTarget) :
    RequestStatus → GovernanceTransaction Unit
  | .approved => ensurePreconditions facts tenant target
  | _ => pure ()

/-- `transition_deletion_request` -/
def transitionDeletionRequest (facts : GovernanceFacts) (id : String) (expectedVersion : Nat) (status : RequestStatus)
    (tenant : Tenant) : GovernanceTransaction Tenant := do
  check facts.authorized .forbidden
  check ([.approved, .rejected, .cancelled].contains status) .invalidStatus
  check facts.stillAuthorized .forbidden
  match tenant.requests.find id with
  | none => rollback .notFound
  | some request => do
    check (request.lockVersion = expectedVersion) .staleVersion
    check ((validTransitions request.status).contains status) .invalidStatusTransition
    ensureApproval facts tenant request.target status
    check facts.valid .invalid
    pure { tenant with requests := tenant.requests.update id (·.moveTo status) fun _ => rfl }

/-! ### Execution -/

structure DeletionPlan where
  messageIds : List String
  attachments : List AttachmentRow
  deriving DecidableEq, Repr

def retentionKeepsAttachments (request : DeletionRequest) : Bool :=
  request.evidence.retentionDeleteAttachments = some false

/-- `deletion_plan` -/
def deletionPlan (content : Content) (request : DeletionRequest) (messageIds : List String) : DeletionPlan where
  messageIds := messageIds
  attachments :=
    match request.target with
    | .user id => erasureObjects content messageIds (some id)
    | _ => if retentionKeepsAttachments request then [] else erasureObjects content messageIds none

def deletionMessageIds (content : Content) : DeletionTarget → List String
  | .message id => [id]
  | target => (governanceImpact content target).messageIds

def DeletionRequest.claim (request : DeletionRequest) : DeletionRequest :=
  { request with
    status := .inProgress
    executionAttempts := request.executionAttempts + 1
    executionError := none
    lockVersion := request.lockVersion + 1 }

structure DeletionExecution where
  requestId : String
  expectedVersion : Nat
  objects : List AttachmentRow
  deriving DecidableEq, Repr

/-- `claim_deletion_request` -/
def claimDeletionRequest (facts : GovernanceFacts) (id : String) (tenant : Tenant) :
    GovernanceTransaction (Tenant × DeletionExecution) := do
  check facts.authorized .forbidden
  match tenant.requests.find id with
  | none => rollback .notFound
  | some request => do
    check (request.status = .approved || request.status = .inProgress) .notClaimable
    check (!legalHoldBlocks tenant request.target) .legalHoldActive
    ensurePreconditions facts tenant request.target
    check facts.mediaPrepared .legalHoldActive
    check facts.valid .invalid
    let plan := deletionPlan tenant.content request (deletionMessageIds tenant.content request.target)
    pure ({ tenant with requests := tenant.requests.update id (·.claim) fun _ => rfl },
      { requestId := id, expectedVersion := request.claim.lockVersion, objects := plan.attachments })

/-- `prepare_user_deletion!` -/
def prepareUserDeletion (facts : GovernanceFacts) (tenant : Tenant) (target : DeletionTarget) :
    GovernanceTransaction Unit :=
  match target with
  | .user id => do
    ensurePreconditions facts tenant target
    check (!legalHoldBlocks tenant target) .legalHoldActive
    check (!facts.mediaPending) .mediaErasurePending
    let _ ← (drain facts.erasure tenant.directory.users id (pendingDeletionUserIds tenant.requests)).mapReason
      GovernanceError.identity
    check facts.mediaPrepared .legalHoldActive
    check (!facts.mediaPendingAfterDrain) .mediaErasurePending
    check (!legalHoldBlocks tenant target) .legalHoldActive
  | _ => pure ()

/-- `fenced_deletion_plan!` -/
def fencedDeletionPlan (tenant : Tenant) (request : DeletionRequest) : GovernanceTransaction DeletionPlan := do
  let impact := governanceImpact tenant.content request.target
  check (!legalHoldBlocks tenant request.target) .legalHoldActive
  pure (deletionPlan tenant.content request impact.messageIds)

/-- The content after the erasure of a plan. -/
def eraseContent (target : DeletionTarget) (plan : DeletionPlan) (content : Content) : Content :=
  eraseWhiteboards target (markDeletedForErasure (plan.attachments.map (·.id))
    (tombstoneForErasure plan.messageIds content))

/-- `apply_target_deletion!`, of a user -/
def applyTargetDeletion (facts : GovernanceFacts) (tenant : Tenant) :
    DeletionTarget → GovernanceTransaction ScimDirectory
  | .user id => (finalize facts.erasure tenant.directory id (pendingDeletionUserIds tenant.requests)).mapReason
      GovernanceError.identity
  | _ => pure tenant.directory

/-- `apply_deletion!` -/
def applyDeletion (facts : GovernanceFacts) (tenant : Tenant) (target : DeletionTarget) (plan : DeletionPlan) :
    GovernanceTransaction Tenant := do
  check facts.contributed .ownerFailed
  let directory ← applyTargetDeletion facts tenant target
  pure { tenant with directory := directory, content := eraseContent target plan tenant.content }

def DeletionTarget.ofUser : DeletionTarget → Bool
  | .user _ => true
  | _ => false

def DeletionRequest.complete (request : DeletionRequest) : DeletionRequest :=
  { request with
    status := .completed
    executionError := none
    evidence := { current := true, domainCurrent := request.target.ofUser, retentionDeleteAttachments := none }
    lockVersion := request.lockVersion + 1 }

/-- `complete_deletion_request` -/
def completeDeletionRequest (facts : GovernanceFacts) (id : String) (expectedVersion : Nat) (deletedObjectCount : Int)
    (tenant : Tenant) : GovernanceTransaction Tenant := do
  check facts.authorized .forbidden
  match tenant.requests.find id with
  | none => rollback .notFound
  | some request => do
    check (request.status ≠ .completed) .alreadyDelivered
    check (request.status = .inProgress) .notClaimable
    check (request.lockVersion = expectedVersion) .staleVersion
    check (!legalHoldBlocks tenant request.target) .legalHoldActive
    check (!facts.mediaPending) .mediaErasurePending
    check (0 ≤ deletedObjectCount) .deletionEvidenceMismatch
    prepareUserDeletion facts tenant request.target
    let plan ← fencedDeletionPlan tenant request
    check (deletedObjectCount = plan.attachments.length) .deletionEvidenceMismatch
    let erased ← applyDeletion facts tenant request.target plan
    check facts.valid .invalid
    pure { erased with requests := erased.requests.update id (·.complete) fun _ => rfl }

def DeletionRequest.repaired (request : DeletionRequest) : DeletionRequest :=
  { request with evidence := { request.evidence with
      current := true
      domainCurrent := request.evidence.domainCurrent || request.target.ofUser } }

/-- `requeue_writer_fence_repair!` -/
def DeletionRequest.requeue (request : DeletionRequest) : DeletionRequest :=
  { request with
    status := .inProgress
    evidence := { request.evidence with current := false }
    executionError := some "writer_fence_repair_pending"
    lockVersion := request.lockVersion + 1 }

/-- A completed request that an earlier erasure completed. -/
def DeletionRequest.outdated (request : DeletionRequest) : Bool :=
  request.status = .completed &&
    !(request.evidence.current && (!request.target.ofUser || request.evidence.domainCurrent))

/-- The erasure of a repair; attachments that are left need the worker again. -/
def repairErasure (facts : GovernanceFacts) (tenant : Tenant) (request : DeletionRequest) :
    GovernanceTransaction Tenant := do
  prepareUserDeletion facts tenant request.target
  let plan ← fencedDeletionPlan tenant request
  match plan.attachments with
  | [] => do
    let erased ← applyDeletion facts tenant request.target plan
    check facts.valid .invalid
    pure { erased with requests := erased.requests.update request.id (·.repaired) fun _ => rfl }
  | _ :: _ => do
    check facts.valid .invalid
    pure { tenant with requests := tenant.requests.update request.id (·.requeue) fun _ => rfl }

/-- `repair_completed_erasure` -/
def repairCompletedErasure (facts : GovernanceFacts) (id : String) (tenant : Tenant) : GovernanceTransaction Tenant := do
  check facts.authorized .forbidden
  match tenant.requests.find id with
  | none => rollback .notFound
  | some request =>
    if request.outdated then do
      check facts.mediaPrepared .legalHoldActive
      if facts.mediaPending then pure tenant else repairErasure facts tenant request
    else pure tenant

def DeletionRequest.fail (reason : String) (request : DeletionRequest) : DeletionRequest :=
  { request with executionError := some reason, lockVersion := request.lockVersion + 1 }

/-- `record_deletion_failure` -/
def recordDeletionFailure (facts : GovernanceFacts) (id reason : String) (tenant : Tenant) :
    GovernanceTransaction Tenant := do
  check facts.authorized .forbidden
  match tenant.requests.find id with
  | none => rollback .notFound
  | some request => do
    check (request.status = .inProgress) .notClaimable
    check facts.valid .invalid
    pure { tenant with requests := tenant.requests.update id (·.fail reason) fun _ => rfl }

/-! ### Retention, holds and deletion by members -/

/-- `enqueue_retention_deletion` -/
def enqueueRetentionDeletion (facts : GovernanceFacts) (id messageId : String) (deleteAttachments : Bool)
    (tenant : Tenant) : GovernanceTransaction Tenant := do
  check facts.authorized .forbidden
  let key := some ("retention:" ++ messageId)
  if tenant.requests.rows.any fun request => request.idempotencyKey = key then pure tenant
  else do
    check facts.valid .invalid
    addRequest tenant (newRequest id (.message messageId) .approved (some deleteAttachments) key)

/-- `create_legal_hold` -/
def createLegalHold (facts : GovernanceFacts) (id : String) (scope : HoldScope) (key : Option String)
    (tenant : Tenant) : GovernanceTransaction Tenant := do
  check facts.authorized .forbidden
  check facts.targetValid .invalidGovernanceTarget
  check (!tenant.requests.rows.any fun request => request.status = .inProgress) .deletionInProgress
  if key.isSome && tenant.holds.rows.any fun hold => hold.idempotencyKey = key then pure tenant
  else do
    check facts.valid .invalid
    match tenant.holds.insert { id := id, scope := scope, active := true, idempotencyKey := key, lockVersion := 1 } with
    | some holds => pure { tenant with holds := holds }
    | none => rollback .invalid

def LegalHold.release (hold : LegalHold) : LegalHold :=
  { hold with active := false, lockVersion := hold.lockVersion + 1 }

/-- `release_legal_hold` -/
def releaseLegalHold (facts : GovernanceFacts) (id : String) (expectedVersion : Nat) (tenant : Tenant) :
    GovernanceTransaction Tenant := do
  check facts.authorized .forbidden
  match tenant.holds.find id with
  | none => rollback .notFound
  | some hold => do
    check (hold.lockVersion = expectedVersion) .staleVersion
    check hold.active .legalHoldNotActive
    check facts.valid .invalid
    pure { tenant with holds := tenant.holds.update id (·.release) fun _ => rfl }

def MessageRow.delete (message : MessageRow) : MessageRow := { message with body := none, deleted := true }

/-- `delete_message`, with `authorize_message_deletion` as its check of the policy -/
def deleteMessage (facts : GovernanceFacts) (messageId : String) (tenant : Tenant) : GovernanceTransaction Tenant := do
  match tenant.content.messages.find messageId with
  | none => rollback .notFound
  | some message => do
    check facts.authorized .forbidden
    check (!activeLegalHold tenant.holds [message.conversationId] [message.senderUserId]) .legalHoldActive
    check facts.valid .invalid
    check facts.stillAuthorized .forbidden
    pure { tenant with content := { tenant.content with
      messages := tenant.content.messages.update messageId (·.delete) fun _ => rfl } }

end KComms.Governance
