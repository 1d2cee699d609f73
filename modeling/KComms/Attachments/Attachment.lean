import KComms.Lib.EffectTransaction
import KComms.Lib.KeyedTable

/-!
# Attachments (`Attachments.Attachment`)

The rows of attachments with their variants and scan attempts, and the checks that the database makes of a row when it
is written.  A write of a row that fails a check raises, and its transaction is rolled back.
-/

namespace KComms.Attachments

open Attempt

inductive AttachmentStatus
  | pending | uploaded | ready | quarantined | scanFailed | deleted
  deriving DecidableEq, Repr

inductive ScanStatus
  | pending | scanning | clean | blocked | failed
  deriving DecidableEq, Repr

inductive CleanupStatus
  | notRequired | scheduled | running | retryable | failed | complete
  deriving DecidableEq, Repr

/-- Times are in microseconds. -/
structure Attachment where
  id : String
  tenantId : String
  ownerUserId : String
  messageId : Option String
  objectKey : String
  fileName : String
  contentType : String
  byteSize : Int
  checksumSha256 : Option String
  objectVersionId : Option String
  objectEtag : Option String
  verifiedChecksumSha256 : Option String
  status : AttachmentStatus
  scanStatus : ScanStatus
  scanVerdict : Option String
  scanProvider : Option String
  scanAttempts : Nat
  scanErrorCode : Option String
  scannedAt : Option Int
  quarantinedAt : Option Int
  scanGeneration : Nat
  scanClaimToken : Option String
  scanClaimedAt : Option Int
  uploadedAt : Option Int
  uploadExpiresAt : Option Int
  cleanupStatus : CleanupStatus
  cleanupAttempts : Nat
  cleanupNextAttemptAt : Option Int
  cleanupClaimedAt : Option Int
  cleanupLastError : Option String
  cleanupCompletedAt : Option Int
  insertedAt : Int
  deriving DecidableEq, Repr

/-! ### The checks of the database -/

/-- `attachments_ready_requires_current_clean_version`.  A comparison with no checksum is unknown, which passes. -/
def Attachment.readyRequiresCurrentCleanVersion (row : Attachment) : Bool :=
  row.status ≠ .ready || (row.scanStatus = .clean && row.objectVersionId.isSome && row.objectEtag.isSome &&
    row.verifiedChecksumSha256.isSome &&
      (row.checksumSha256.isNone || row.verifiedChecksumSha256 = row.checksumSha256))

/-- `attachments_scan_claim_consistent` -/
def Attachment.scanClaimConsistent (row : Attachment) : Bool :=
  if row.scanStatus = .scanning then row.scanClaimToken.isSome && row.scanClaimedAt.isSome
  else row.scanClaimToken.isNone && row.scanClaimedAt.isNone

/-- `attachments_cleanup_claim_consistent` -/
def Attachment.cleanupClaimConsistent (row : Attachment) : Bool :=
  if row.cleanupStatus = .running then row.cleanupClaimedAt.isSome else row.cleanupClaimedAt.isNone

/-- `attachments_cleanup_completion_consistent` -/
def Attachment.cleanupCompletionConsistent (row : Attachment) : Bool :=
  if row.cleanupStatus = .complete then row.cleanupCompletedAt.isSome else row.cleanupCompletedAt.isNone

def Attachment.consistent (row : Attachment) : Bool :=
  row.readyRequiresCurrentCleanVersion && row.scanClaimConsistent && row.cleanupClaimConsistent &&
    row.cleanupCompletionConsistent

/-- A ready row is clean: this is how the checks enter the proofs. -/
theorem Attachment.clean_of_ready {row : Attachment} (hconsistent : row.consistent = true)
    (hready : row.status = .ready) : row.scanStatus = .clean := by
  unfold consistent readyRequiresCurrentCleanVersion at hconsistent
  simp only [hready, Bool.and_eq_true] at hconsistent
  obtain ⟨⟨⟨hversion, -⟩, -⟩, -⟩ := hconsistent
  simp only [ne_eq, not_true_eq_false, decide_false, Bool.false_or, Bool.and_eq_true, decide_eq_true_eq] at hversion
  exact hversion.1.1.1.1

/-! ### The store -/

inductive VariantKind
  | thumbnail
  deriving DecidableEq, Repr

structure AttachmentVariant where
  tenantId : String
  attachmentId : String
  kind : VariantKind
  objectKey : String
  contentType : String
  byteSize : Int
  checksumSha256 : String
  deriving DecidableEq, Repr

inductive ScanAttemptStatus
  | clean | blocked | retryable | failed
  deriving DecidableEq, Repr

structure ScanAttempt where
  tenantId : String
  attachmentId : String
  attemptNumber : Nat
  provider : String
  status : ScanAttemptStatus
  verdict : Option String
  errorCode : Option String
  providerReference : Option String
  startedAt : Int
  completedAt : Int
  deriving DecidableEq, Repr

/-- `unique_constraint([:attachment_id, :attempt_number])` -/
def ScanAttempt.number (scan : ScanAttempt) : String × Nat := (scan.attachmentId, scan.attemptNumber)

inductive AttachmentJob
  | scan (attachmentId tenantId : String) (dispatchGeneration : Nat)
  | abandon (attachmentId tenantId : String) (scheduledAt : Int)
  deriving DecidableEq, Repr

inductive AttachmentAudit
  | scanRetried (attachmentId : String) (previousStatus : ScanStatus)
  | abandoned (attachmentId : String) (previousStatus : AttachmentStatus)
  deriving DecidableEq, Repr

structure AttachmentStore where
  attachments : KeyedTable Attachment.id
  variants : List AttachmentVariant
  scanAttempts : KeyedTable ScanAttempt.number
  jobs : List AttachmentJob
  audits : List AttachmentAudit

def AttachmentStore.empty : AttachmentStore where
  attachments := .empty
  variants := []
  scanAttempts := .empty
  jobs := []
  audits := []

inductive AttachmentError
  | notFound | notClaimable | staleScanClaim | alreadyClean | scanInProgress
  | forbidden | stepUpRequired
  | attachmentClaimed | notAbandoned | cleanupComplete
  | attachmentNotPending | invalidUploadExpiry | attachmentChecksumMismatch
  | unsupportedContentType | invalidAttachmentSize | attachmentChecksumRequired | invalidAttachmentChecksum
  | objectIdentityInvalid | policyUnavailable | invalidRow
  | thumbnailNotSupportedForContentType | unsupportedThumbnailContentType | invalidThumbnailSize
  | invalidThumbnailChecksum
  | invalidAttachments | transactionRequired | invalidErasureScope
  | raised | refused
  deriving DecidableEq, Repr

abbrev AttachmentTransaction (α : Type) := Attempt Empty AttachmentError α

/-- A subject, as the commands use it. -/
structure AttachmentSubject where
  tenantId : String
  userId : String
  deriving DecidableEq, Repr

/-- The row of a condition under its lock. -/
def lockRow (condition : Attachment → Bool) (id : String) (store : AttachmentStore) :
    AttachmentTransaction Attachment :=
  match store.attachments.find id with
  | none => rollback .notFound
  | some row => do
    check (condition row) .notFound
    pure row

/-- `Repo.update!` of a locked row. -/
def save (row : Attachment) (change : Attachment → Attachment) (keeps : ∀ row, (change row).id = row.id)
    (store : AttachmentStore) : AttachmentTransaction (Attachment × AttachmentStore) := do
  check (change row).consistent .raised
  pure (change row, { store with attachments := store.attachments.update row.id change keeps })

/-- A write of all rows of a condition. -/
def saveAll (condition : Attachment → Bool) (change : Attachment → Attachment) (keeps : ∀ row, (change row).id = row.id)
    (store : AttachmentStore) : AttachmentTransaction AttachmentStore := do
  check ((store.attachments.rows.filter condition).all fun row => (change row).consistent) .raised
  pure { store with attachments := store.attachments.modify condition change keeps }

def seconds (n : Int) : Int := n * 1000000

/-- `DateTime.diff` -/
def diffSeconds (first second : Int) : Int := first / 1000000 - second / 1000000

variable {store store' : AttachmentStore} {row row' : Attachment} {change : Attachment → Attachment}
  {keeps : ∀ row, (change row).id = row.id}

theorem lockRow_commits {condition : Attachment → Bool} {id : String} (h : (lockRow condition id store).Commits row) :
    row ∈ store.attachments.rows ∧ row.id = id ∧ condition row = true := by
  unfold lockRow at h
  split at h
  · exact absurd h (commits_rollback _ _)
  · rename_i found hfound
    simp only [commits_bind, commits_check, commits_pure] at h
    obtain ⟨-, hcondition, rfl⟩ := h
    obtain ⟨hmem, hid⟩ := KeyedTable.find_eq_some.mp hfound
    exact ⟨hmem, hid, hcondition⟩

theorem save_commits (h : (save row change keeps store).Commits (row', store')) :
    (change row).consistent = true ∧ row' = change row ∧
      store' = { store with attachments := store.attachments.update row.id change keeps } := by
  simp only [save, commits_bind, commits_check, commits_pure, Prod.mk.injEq] at h
  obtain ⟨-, hconsistent, rfl, rfl⟩ := h
  exact ⟨hconsistent, rfl, rfl⟩

theorem saveAll_commits {condition : Attachment → Bool} (h : (saveAll condition change keeps store).Commits store') :
    (∀ row ∈ store.attachments.rows, condition row = true → (change row).consistent = true) ∧
      store' = { store with attachments := store.attachments.modify condition change keeps } := by
  simp only [saveAll, commits_bind, commits_check, commits_pure, List.all_eq_true, List.mem_filter] at h
  obtain ⟨-, hconsistent, rfl⟩ := h
  exact ⟨fun row hrow hcondition => hconsistent row ⟨hrow, hcondition⟩, rfl⟩

end KComms.Attachments
