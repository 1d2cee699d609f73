import KComms.Accounts.TenantUsers
import KComms.Attachments.Uploads

/-!
# Scans of attachments (`Attachments.Safety`)

A scan is claimed with a token and a generation, and its result is recorded against them.  An administrator may send an
attachment back to be scanned again.
-/

namespace KComms.Attachments

open Attempt
open KComms.Accounts (Role)

def scanClaimTimeoutSeconds : Int := 300

/-! ### Claims -/

/-- `claimable_scan?` -/
def claimableScan (now : Int) (row : Attachment) : Bool :=
  let stale := match row.scanClaimedAt with
    | none => true
    | some claimedAt => scanClaimTimeoutSeconds ≤ diffSeconds now claimedAt
  (row.status = .uploaded || row.status = .scanFailed) &&
    (row.scanStatus = .pending || row.scanStatus = .failed || (row.scanStatus = .scanning && stale))

def Attachment.beginScan (token : String) (claimedAt : Int) (row : Attachment) : Attachment :=
  { row with
    scanStatus := .scanning
    scanErrorCode := none
    scanGeneration := row.scanGeneration + 1
    scanClaimToken := some token
    scanClaimedAt := some claimedAt }

@[simp] theorem Attachment.beginScan_id (token : String) (claimedAt : Int) (row : Attachment) :
    (row.beginScan token claimedAt).id = row.id := rfl

inductive ScanClaimResult
  | alreadyClean (row : Attachment)
  | claimed (row : Attachment)
  deriving DecidableEq, Repr

/-- `claim_scan`; the clock is read once for the age of the last claim, and once for the new one. -/
def claimScan (id token : String) (now claimedAt : Int) (store : AttachmentStore) :
    AttachmentTransaction (ScanClaimResult × AttachmentStore) := do
  let row ← lockRow (fun _ => true) id store
  if row.status = .ready ∧ row.scanStatus = .clean then pure (.alreadyClean row, store)
  else if claimableScan now row then do
    let (row, store) ← save row (Attachment.beginScan token claimedAt) (Attachment.beginScan_id token claimedAt) store
    pure (.claimed row, store)
  else rollback .notClaimable

/-! ### Results -/

/-- What a scanner answers in a field; an answer that is missing is the atom `nil`. -/
inductive MetadataValue
  | atom (name : String)
  | text (value : String)
  | other
  deriving DecidableEq, Repr

inductive ScannerError
  | kindStatus (kind : String) (status : Int)
  | atom (name : String)
  | other
  deriving DecidableEq, Repr

structure ScannerMetadata where
  provider : MetadataValue
  verdict : MetadataValue
  providerReference : MetadataValue
  deriving DecidableEq, Repr

inductive ScannerResult
  | ok (metadata : ScannerMetadata)
  | permanent (reason : ScannerError)
  | error (reason : ScannerError)
  | invalid
  deriving DecidableEq, Repr

/-- `scan_attempt_status` -/
def scanAttemptStatus (result : ScannerResult) : ScanAttemptStatus :=
  match result with
  | .ok metadata =>
    match metadata.verdict with
    | .atom verdict | .text verdict =>
      if verdict = "clean" then .clean
      else if ["malicious", "suspicious", "blocked"].contains verdict then .blocked
      else .failed
    | .other => .failed
  | .permanent _ => .failed
  | .error _ => .retryable
  | .invalid => .failed

/-- `safe_text` -/
def safeText (value : MetadataValue) (fallback : Option String) : Option String :=
  match value with
  | .atom name => some name
  | .text value => some (slice value 255)
  | .other => fallback

/-- `safe_error_code` -/
def safeErrorCode (reason : ScannerError) : String :=
  match reason with
  | .kindStatus kind status => kind ++ "_" ++ toString status
  | .atom name => name
  | .other => "scanner_error"

structure ScanMetadata where
  provider : String
  verdict : Option String
  providerReference : Option String
  errorCode : Option String
  deriving DecidableEq, Repr

/-- `scan_error_metadata` -/
def scanErrorMetadata (reason : ScannerError) : ScanMetadata := ⟨"configured", none, none, some (safeErrorCode reason)⟩

/-- `scan_metadata` -/
def scanMetadata (result : ScannerResult) : ScanMetadata :=
  match result with
  | .ok metadata =>
    { provider := (safeText metadata.provider (some "configured")).getD "configured"
      verdict := safeText metadata.verdict none
      providerReference := safeText metadata.providerReference none
      errorCode := none }
  | .permanent reason => scanErrorMetadata reason
  | .error reason => scanErrorMetadata reason
  | .invalid => scanErrorMetadata (.atom "invalid_scanner_response")

/-- What a scan gives in the status of the attachment and of its scan. -/
def scanOutcome (status : ScanAttemptStatus) : AttachmentStatus × ScanStatus :=
  match status with
  | .clean => (.ready, .clean)
  | .blocked => (.quarantined, .blocked)
  | .retryable | .failed => (.scanFailed, .failed)

/-- The verdict of a row whose scan has this status. -/
def verdictOf (status : ScanAttemptStatus) (verdict : Option String) : Option String :=
  match status with
  | .clean => some (verdict.getD "clean")
  | .blocked => some (verdict.getD "blocked")
  | .retryable | .failed => none

/-- A blank text is cast to no value. -/
def castText (value : String) : Option String :=
  if value.toList.all ElixirString.isWhitespace then none else some value

/-- `scan_result_attrs` -/
def Attachment.recordResult (result : ScannerResult) (attemptNumber : Nat) (completedAt : Int) (row : Attachment) :
    Attachment :=
  let status := scanAttemptStatus result
  let metadata := scanMetadata result
  { row with
    status := (scanOutcome status).1
    scanStatus := (scanOutcome status).2
    scanVerdict := verdictOf status metadata.verdict
    scanProvider := some metadata.provider
    scanAttempts := attemptNumber
    scanErrorCode := metadata.errorCode.bind castText
    scannedAt := some completedAt
    quarantinedAt := if status = .clean then none else some completedAt
    scanClaimToken := none
    scanClaimedAt := none }

@[simp] theorem Attachment.recordResult_id (result : ScannerResult) (attemptNumber : Nat) (completedAt : Int)
    (row : Attachment) : (row.recordResult result attemptNumber completedAt).id = row.id := rfl

/-- The claim that a result is recorded for, as the worker read it. -/
structure ScanClaim where
  id : String
  scanClaimToken : Option String
  scanGeneration : Nat
  deriving DecidableEq, Repr

/-- `current_scan_claim?` -/
def currentScanClaim (row : Attachment) (claimed : ScanClaim) : Bool :=
  row.scanStatus = .scanning && claimed.scanClaimToken.isSome && row.scanClaimToken = claimed.scanClaimToken &&
    row.scanGeneration = claimed.scanGeneration

/-- `scan_attempt_attrs` -/
def newScanAttempt (row : Attachment) (result : ScannerResult) (completedAt : Int) : ScanAttempt where
  tenantId := row.tenantId
  attachmentId := row.id
  attemptNumber := row.scanAttempts + 1
  provider := (scanMetadata result).provider
  status := scanAttemptStatus result
  verdict := (scanMetadata result).verdict.bind castText
  errorCode := (scanMetadata result).errorCode.bind castText
  providerReference := (scanMetadata result).providerReference.bind castText
  startedAt := row.scanClaimedAt.getD completedAt
  completedAt := completedAt

/-- `record_scan` -/
def recordScan (claimed : ScanClaim) (result : ScannerResult) (completedAt : Int) (store : AttachmentStore) :
    AttachmentTransaction (Attachment × AttachmentStore) := do
  let row ← lockRow (fun _ => true) claimed.id store
  check (currentScanClaim row claimed) .staleScanClaim
  check (castText (scanMetadata result).provider).isSome .raised
  match store.scanAttempts.insert (newScanAttempt row result completedAt) with
  | none => rollback .raised
  | some scanAttempts =>
    save row (Attachment.recordResult result (row.scanAttempts + 1) completedAt)
      (Attachment.recordResult_id result (row.scanAttempts + 1) completedAt)
      { store with scanAttempts := scanAttempts }

/-! ### Retries -/

/-- The grant of the subject's access, and that the job and the audit event were inserted. -/
structure SafetyFacts where
  grant : Option (Role × Bool)
  enqueued : Bool
  recorded : Bool
  deriving DecidableEq, Repr

/-- `authorize_safety(:manage, …)` -/
def authorizeSafety (facts : SafetyFacts) : AttachmentTransaction Unit :=
  match facts.grant with
  | some (role, stepUpRecent) => do
    check (role = .owner || role = .admin) .forbidden
    check stepUpRecent .stepUpRequired
  | none => rollback .forbidden

/-- `reset_scan!` -/
def Attachment.resetScan (row : Attachment) : Attachment :=
  { row with
    status := .uploaded
    scanStatus := .pending
    scanVerdict := none
    scanErrorCode := none
    quarantinedAt := none
    scanGeneration := row.scanGeneration + 1
    scanClaimToken := none
    scanClaimedAt := none }

@[simp] theorem Attachment.resetScan_id (row : Attachment) : row.resetScan.id = row.id := rfl

def audit (recorded : Bool) (event : AttachmentAudit) (store : AttachmentStore) :
    AttachmentTransaction AttachmentStore := do
  check recorded .refused
  pure { store with audits := store.audits ++ [event] }

/-- `retry_scan` -/
def retryScan (facts : SafetyFacts) (id : String) (subject : AttachmentSubject) (store : AttachmentStore) :
    AttachmentTransaction (Attachment × AttachmentStore) := do
  authorizeSafety facts
  let row ← lockRow (fun row => row.tenantId = subject.tenantId) id store
  check (row.status ≠ .ready) .alreadyClean
  check (row.scanStatus ≠ .scanning) .scanInProgress
  let (updated, store) ← save row Attachment.resetScan Attachment.resetScan_id store
  let store ← enqueueScan facts.enqueued updated store
  let store ← audit facts.recorded (.scanRetried updated.id row.scanStatus) store
  pure (updated, store)

end KComms.Attachments
