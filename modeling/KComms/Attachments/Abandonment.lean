import KComms.Attachments.Safety
import Mathlib.Data.List.Sort

/-!
# Abandonment and cleanup (`Attachments.Abandonment`)

An attachment that no message claims is abandoned by its owner, or by the reconciler when its upload has expired; then
its objects are purged, not before the upload authorization has expired and a grace period is over.
-/

namespace KComms.Attachments

open Attempt

/-- The settings of the application, with their defaults. -/
structure CleanupConfig where
  cleanupGraceSeconds : Int := 300
  cleanupClaimTimeoutSeconds : Int := 900
  cleanupReconcileLimit : Int := 100
  deriving DecidableEq, Repr

/-- `cleanup_reconcile_limit` -/
def CleanupConfig.reconcileLimit (config : CleanupConfig) : Nat := (min (max config.cleanupReconcileLimit 1) 1000).toNat

/-- Facts from outside of the rows: that the caller is the worker of these jobs, that the audit event and the job were
inserted, which attachments have a job that is active, and which rows others hold locked; and the clock, as it is read
first and later. -/
structure CleanupFacts where
  authorized : Bool
  recorded : Bool
  enqueued : Bool
  activeJobs : List String
  lockedRows : List String
  now : Int
  later : Int
  deriving DecidableEq, Repr

variable (config : CleanupConfig)

/-! ### Deadlines -/

/-- `current_cleanup_due_at` -/
def currentCleanupDueAt (now : Int) (row : Attachment) : Int :=
  match row.uploadExpiresAt with
  | some expiresAt => expiresAt + seconds config.cleanupGraceSeconds
  | none => now

/-- `later_datetime` -/
def laterDatetime (left : Option Int) (right : Int) : Int :=
  match left with
  | none => right
  | some left => if left < right then right else left

/-- When the cleanup of a row may be claimed. -/
def cleanupRequiredAt (row : Attachment) : Option Int :=
  match row.uploadExpiresAt with
  | some expiresAt =>
    some (laterDatetime row.cleanupNextAttemptAt (expiresAt + seconds config.cleanupGraceSeconds))
  | none => row.cleanupNextAttemptAt

/-- `cleanup_due_in` -/
def cleanupDueIn (now : Int) (row : Attachment) : Option Int :=
  match cleanupRequiredAt config row with
  | some requiredAt => if now < requiredAt then some (max (diffSeconds requiredAt now) 1) else none
  | none => none

/-- `cleanup_retry_delay_seconds` -/
def cleanupRetryDelaySeconds (attempts : Nat) : Int :=
  if 0 < attempts then ([30, 60, 120, 300, 600, 1200, 1800, 3600][min (attempts - 1) 7]?).getD 3600 else 30

/-! ### Abandonment -/

/-- `abandon_attachment!` of a row that it changes. -/
def Attachment.abandon (dueAt : Int) (row : Attachment) : Attachment :=
  { row with
    status := .deleted
    scanClaimToken := none
    scanClaimedAt := none
    scanGeneration := if row.status = .deleted then row.scanGeneration else row.scanGeneration + 1
    cleanupStatus := .scheduled
    cleanupNextAttemptAt := some dueAt
    cleanupClaimedAt := none
    cleanupLastError := none
    cleanupCompletedAt := none }

/-- `abandon_attachment!` -/
def Attachment.abandonAttachment (dueAt : Int) (row : Attachment) : Attachment :=
  if row.status = .deleted ∧ row.cleanupStatus ≠ .notRequired then row else row.abandon dueAt

@[simp] theorem Attachment.abandonAttachment_id (dueAt : Int) (row : Attachment) :
    (row.abandonAttachment dueAt).id = row.id := by
  unfold abandonAttachment
  split <;> rfl

/-- `enqueue_abandon_cleanup!` -/
def enqueueAbandonCleanup (facts : CleanupFacts) (row : Attachment) (store : AttachmentStore) :
    AttachmentTransaction AttachmentStore :=
  if row.cleanupStatus = .complete ∨ row.id ∈ facts.activeJobs then pure store
  else do
    check facts.enqueued .refused
    let scheduledAt := row.cleanupNextAttemptAt.getD (currentCleanupDueAt config facts.later row)
    pure { store with jobs := store.jobs ++ [.abandon row.id row.tenantId scheduledAt] }

/-- The audit event of an attachment that was not deleted before. -/
def auditAbandoned (facts : CleanupFacts) (row : Attachment) (store : AttachmentStore) :
    AttachmentTransaction AttachmentStore :=
  if row.status = .deleted then pure store else audit facts.recorded (.abandoned row.id row.status) store

/-- `abandon_intent` -/
def abandonIntent (facts : CleanupFacts) (id : String) (subject : AttachmentSubject) (store : AttachmentStore) :
    AttachmentTransaction (Attachment × AttachmentStore) := do
  let row ← ownedForUpdate id subject store
  check row.messageId.isNone .attachmentClaimed
  let dueAt := currentCleanupDueAt config facts.now row
  let (abandoned, store) ← save row (Attachment.abandonAttachment dueAt) (Attachment.abandonAttachment_id dueAt) store
  let store ← auditAbandoned facts row store
  let store ← enqueueAbandonCleanup config facts abandoned store
  pure (abandoned, store)

/-! ### The cleanup worker -/

structure CleanupTarget where
  id : String
  tenantId : String
  objectKey : String
  variantObjectKeys : List String
  deriving DecidableEq, Repr

/-- `cleanup_target` -/
def cleanupTarget (row : Attachment) (store : AttachmentStore) : CleanupTarget where
  id := row.id
  tenantId := row.tenantId
  objectKey := row.objectKey
  variantObjectKeys :=
    (store.variants.filter fun variant => variant.attachmentId = row.id ∧ variant.tenantId = row.tenantId).map
      AttachmentVariant.objectKey

inductive CleanupClaim
  | snooze (seconds : Int)
  | target (target : CleanupTarget)
  deriving DecidableEq, Repr

def Attachment.runCleanup (claimedAt : Int) (row : Attachment) : Attachment :=
  { row with
    cleanupStatus := .running
    cleanupAttempts := row.cleanupAttempts + 1
    cleanupClaimedAt := some claimedAt
    cleanupLastError := none }

@[simp] theorem Attachment.runCleanup_id (claimedAt : Int) (row : Attachment) :
    (row.runCleanup claimedAt).id = row.id := rfl

/-- The row of a job of the tenant, which must be abandoned. -/
def lockAbandoned (facts : CleanupFacts) (tenantId id : String) (store : AttachmentStore) :
    AttachmentTransaction Attachment := do
  check facts.authorized .forbidden
  let row ← lockRow (fun row => row.tenantId = tenantId) id store
  check (row.status = .deleted && row.messageId.isNone) .notAbandoned
  pure row

/-- `claim_abandon_cleanup` -/
def claimAbandonCleanup (facts : CleanupFacts) (tenantId id : String) (store : AttachmentStore) :
    AttachmentTransaction (CleanupClaim × AttachmentStore) := do
  let row ← lockAbandoned facts tenantId id store
  check (row.cleanupStatus ≠ .complete) .cleanupComplete
  match cleanupDueIn config facts.now row with
  | some delay => pure (.snooze delay, store)
  | none => do
    let (row, store) ← save row (Attachment.runCleanup facts.later) (Attachment.runCleanup_id facts.later) store
    pure (.target (cleanupTarget row store), store)

def Attachment.completeCleanup (now : Int) (row : Attachment) : Attachment :=
  { row with
    cleanupStatus := .complete
    cleanupNextAttemptAt := none
    cleanupClaimedAt := none
    cleanupLastError := none
    cleanupCompletedAt := some now }

@[simp] theorem Attachment.completeCleanup_id (now : Int) (row : Attachment) : (row.completeCleanup now).id = row.id :=
  rfl

/-- `complete_abandon_cleanup` -/
def completeAbandonCleanup (facts : CleanupFacts) (tenantId id : String) (store : AttachmentStore) :
    AttachmentTransaction (Attachment × AttachmentStore) := do
  let row ← lockAbandoned facts tenantId id store
  save row (Attachment.completeCleanup facts.now) (Attachment.completeCleanup_id facts.now) store

/-- `cleanup_error` -/
def cleanupError (reason : ScannerError) : String :=
  match reason with
  | .atom name => name
  | .kindStatus kind status => kind ++ ":" ++ toString status
  | .other => "attachment_cleanup_failed"

def Attachment.failCleanup (reason : ScannerError) (terminal : Bool) (now : Int) (row : Attachment) : Attachment :=
  { row with
    cleanupStatus := if terminal then .failed else .retryable
    cleanupNextAttemptAt := some (now + seconds (cleanupRetryDelaySeconds row.cleanupAttempts))
    cleanupClaimedAt := none
    cleanupLastError := some (cleanupError reason)
    cleanupCompletedAt := none }

@[simp] theorem Attachment.failCleanup_id (reason : ScannerError) (terminal : Bool) (now : Int) (row : Attachment) :
    (row.failCleanup reason terminal now).id = row.id := rfl

/-- `record_abandon_cleanup_failure` -/
def recordAbandonCleanupFailure (facts : CleanupFacts) (tenantId id : String) (reason : ScannerError) (terminal : Bool)
    (store : AttachmentStore) : AttachmentTransaction (Attachment × AttachmentStore) := do
  let row ← lockAbandoned facts tenantId id store
  check ((cleanupError reason).length ≤ 160) .raised
  save row (Attachment.failCleanup reason terminal facts.now) (Attachment.failCleanup_id reason terminal facts.now)
    store

/-! ### The reconciler -/

def atOrBefore (time : Option Int) (cutoff : Int) : Bool := time.any (· ≤ cutoff)

/-- That no upload of the row may be under way: its authorization, or without one the longest one, has expired and the
grace period is over. -/
def uploadExpired (now : Int) (row : Attachment) : Bool :=
  match row.uploadExpiresAt with
  | some expiresAt => expiresAt ≤ now - seconds config.cleanupGraceSeconds
  | none => row.insertedAt ≤ now - seconds (maxUploadTtlSeconds + config.cleanupGraceSeconds)

def staleIntent (now : Int) (row : Attachment) : Bool :=
  row.status = .pending && row.messageId.isNone && uploadExpired config now row

def cleanupCandidate (now : Int) (row : Attachment) : Bool :=
  row.status = .deleted && row.messageId.isNone && row.cleanupStatus ≠ .complete &&
    (((row.cleanupStatus = .scheduled || row.cleanupStatus = .retryable || row.cleanupStatus = .failed) &&
        (row.cleanupNextAttemptAt.isNone || atOrBefore row.cleanupNextAttemptAt now)) ||
      (row.cleanupStatus = .running &&
        atOrBefore row.cleanupClaimedAt (now - seconds config.cleanupClaimTimeoutSeconds)) ||
      (row.cleanupStatus = .notRequired && uploadExpired config now row))

/-- `order_by: [asc: inserted_at, asc: id]` -/
def insertedBefore (a b : Attachment) : Bool :=
  a.insertedAt < b.insertedAt || (a.insertedAt = b.insertedAt && a.id ≤ b.id)

/-- `order_by: [asc: cleanup_next_attempt_at, asc: id]`, where no time is last. -/
def attemptBefore (a b : Attachment) : Bool :=
  match a.cleanupNextAttemptAt, b.cleanupNextAttemptAt with
  | some first, some second => first < second || (first = second && a.id ≤ b.id)
  | some _, none => true
  | none, some _ => false
  | none, none => a.id ≤ b.id

/-- A bounded batch of rows, in order, under locks that skip the rows that others hold. -/
def lockBatch (facts : CleanupFacts) (condition : Attachment → Bool) (before : Attachment → Attachment → Bool)
    (store : AttachmentStore) : List Attachment :=
  ((store.attachments.rows.filter fun row => condition row ∧ row.id ∉ facts.lockedRows).insertionSort
    fun a b => before a b = true).take config.reconcileLimit

/-- `normalize_reconciled_cleanup!` -/
def Attachment.normalizeReconciledCleanup (now : Int) (row : Attachment) : Attachment :=
  match row.cleanupStatus with
  | .running =>
    { row with
      cleanupStatus := .retryable
      cleanupNextAttemptAt := some now
      cleanupClaimedAt := none
      cleanupLastError := some "cleanup_claim_stale"
      cleanupCompletedAt := none }
  | .notRequired => row.abandonAttachment now
  | _ => row

@[simp] theorem Attachment.normalizeReconciledCleanup_id (now : Int) (row : Attachment) :
    (row.normalizeReconciledCleanup now).id = row.id := by
  unfold normalizeReconciledCleanup
  split
  · rfl
  · exact abandonAttachment_id now row
  · rfl

structure ReconcileResult where
  staleIntents : Nat
  cleanupJobs : Nat
  deriving DecidableEq, Repr

def isOf (rows : List Attachment) (row : Attachment) : Bool := (rows.map Attachment.id).contains row.id

/-- `reconcile_abandon_cleanups` -/
def reconcileAbandonCleanups (facts : CleanupFacts) (store : AttachmentStore) :
    AttachmentTransaction (ReconcileResult × AttachmentStore) := do
  check facts.authorized .forbidden
  let staleIntents := lockBatch config facts (staleIntent config facts.now) insertedBefore store
  let store ← saveAll (isOf staleIntents) (Attachment.abandonAttachment facts.now)
    (Attachment.abandonAttachment_id facts.now) store
  let candidates := lockBatch config facts (cleanupCandidate config facts.now) attemptBefore store
  let store ← saveAll (isOf candidates) (Attachment.normalizeReconciledCleanup facts.now)
    (Attachment.normalizeReconciledCleanup_id facts.now) store
  let normalized := candidates.map (Attachment.normalizeReconciledCleanup facts.now)
  let store ← normalized.foldlM (fun store row => enqueueAbandonCleanup config facts row store) store
  pure (⟨staleIntents.length, candidates.length⟩, store)

end KComms.Attachments
