import KComms.Attachments.Attachment
import KComms.Lib.ElixirString
import Mathlib.Data.List.SplitOn

/-!
# Uploads of attachments (`Attachments.Uploads`)

An intent creates a pending row; the authorization of the upload records until when the object may be written, and an
upload that was verified makes the row an uploaded one with the identity of its object.
-/

namespace KComms.Attachments

open Attempt

def schemaMaxBytes : Int := 1073741824

def defaultMaxBytes : Int := 26214400

def maxUploadTtlSeconds : Int := 3600

structure ThumbnailAttrs where
  contentType : Option String
  byteSize : Option Int
  checksumSha256 : Option String
  deriving DecidableEq, Repr

/-- The attributes of an intent; a size is the number that `integer` reads. -/
structure IntentAttrs where
  fileName : Option String
  contentType : Option String
  byteSize : Option Int
  checksumSha256 : Option String
  thumbnail : Option ThumbnailAttrs
  deriving DecidableEq, Repr

/-- Facts from outside of the rows: the limit of the policy (none when it could not be read), the graphemes of the
content type, that the rows are valid, that the job was inserted; and the clock. -/
structure UploadFacts where
  attachmentLimit : Option (Option Int)
  contentTypeLength : Nat
  inserted : Bool
  enqueued : Bool
  now : Int
  deriving DecidableEq, Repr

/-! ### Validation -/

/-- `normalize_checksum` -/
def normalizeChecksum (checksum : Option String) : Option String :=
  checksum.map fun checksum => String.ofList ((ElixirString.trim checksum).toList.map Char.toLower)

/-- `~r/^[a-f0-9]{64}$/`, of a value that is trimmed. -/
def isChecksum (checksum : String) : Bool :=
  checksum.length = 64 && checksum.toList.all fun c => c.isDigit || ('a' ≤ c && c ≤ 'f')

/-- `validate_checksum` -/
def validateChecksum (checksum : Option String) : Except AttachmentError String :=
  match checksum with
  | none => .error .attachmentChecksumRequired
  | some checksum => if isChecksum checksum then .ok checksum else .error .invalidAttachmentChecksum

/-- `validate_type` -/
def validateType (contentType : String) : Bool :=
  ["application/pdf", "application/zip", "application/json"].contains contentType ||
    ["image/", "text/"].any (·.toList.isPrefixOf contentType.toList)

/-- `attachment_limit` -/
def attachmentLimit (limit : Option Int) : Int :=
  match limit with
  | some limit => if 0 < limit ∧ limit ≤ schemaMaxBytes then limit else defaultMaxBytes
  | none => defaultMaxBytes

/-- `validate_size` -/
def validateSize (size : Option Int) (maxBytes : Int) : Except AttachmentError Int :=
  match size with
  | some size => if 0 < size ∧ size ≤ maxBytes then .ok size else .error .invalidAttachmentSize
  | none => .error .invalidAttachmentSize

structure ThumbnailIntent where
  contentType : String
  byteSize : Int
  checksumSha256 : String
  deriving DecidableEq, Repr

/-- What `thumbnail_intent` requires of a thumbnail that is declared. -/
def declaredThumbnail (declared : ThumbnailAttrs) : Except AttachmentError ThumbnailIntent :=
  match declared.contentType.filter (["image/webp", "image/jpeg", "image/png"].contains ·) with
  | none => .error .unsupportedThumbnailContentType
  | some contentType =>
    match declared.byteSize.filter fun size => 0 < size ∧ size ≤ 524288 with
    | none => .error .invalidThumbnailSize
    | some byteSize =>
      match (normalizeChecksum declared.checksumSha256).filter isChecksum with
      | none => .error .invalidThumbnailChecksum
      | some checksum => .ok ⟨contentType, byteSize, checksum⟩

/-- `thumbnail_intent` -/
def thumbnailIntent (attrs : IntentAttrs) (contentType : String) : Except AttachmentError (Option ThumbnailIntent) :=
  match attrs.thumbnail with
  | none => .ok none
  | some declared =>
    if "image/".toList.isPrefixOf contentType.toList then (declaredThumbnail declared).map some
    else .error .thumbnailNotSupportedForContentType

/-- `Path.basename` -/
def basename (name : String) : List Char := ((name.toList.splitOn '/').filter (· ≠ [])).getLast?.getD []

/-- `sanitize_file_name` -/
def sanitizeFileName (name : String) : String :=
  let kept (c : Char) : Bool := c.isAlphanum || c = '.' || c = '_' || c = '-'
  String.ofList (((basename name).map fun c => if kept c then c else '_').take 255)

/-! ### Intents -/

/-- The row of an intent, with the defaults of the table. -/
def newAttachment (id fileName contentType : String) (byteSize : Int) (checksum : String) (subject : AttachmentSubject)
    (now : Int) : Attachment where
  id := id
  tenantId := subject.tenantId
  ownerUserId := subject.userId
  messageId := none
  objectKey := subject.tenantId ++ "/" ++ id ++ "/" ++ fileName
  fileName := fileName
  contentType := contentType
  byteSize := byteSize
  checksumSha256 := some checksum
  objectVersionId := none
  objectEtag := none
  verifiedChecksumSha256 := none
  status := .pending
  scanStatus := .pending
  scanVerdict := none
  scanProvider := none
  scanAttempts := 0
  scanErrorCode := none
  scannedAt := none
  quarantinedAt := none
  scanGeneration := 0
  scanClaimToken := none
  scanClaimedAt := none
  uploadedAt := none
  uploadExpiresAt := none
  cleanupStatus := .notRequired
  cleanupAttempts := 0
  cleanupNextAttemptAt := none
  cleanupClaimedAt := none
  cleanupLastError := none
  cleanupCompletedAt := none
  insertedAt := now

/-- `insert_variant` -/
def thumbnailVariant (row : Attachment) (declared : ThumbnailIntent) : AttachmentVariant where
  tenantId := row.tenantId
  attachmentId := row.id
  kind := .thumbnail
  objectKey := row.tenantId ++ "/" ++ row.id ++ "/thumbnail"
  contentType := declared.contentType
  byteSize := declared.byteSize
  checksumSha256 := declared.checksumSha256

/-- The insertion of a row with its variant. -/
def insertAttachment (facts : UploadFacts) (row : Attachment) (thumbnail : Option ThumbnailIntent)
    (store : AttachmentStore) : AttachmentTransaction (Attachment × AttachmentStore) := do
  check (1 ≤ row.fileName.length && 1 ≤ facts.contentTypeLength && facts.contentTypeLength ≤ 120 && facts.inserted)
    .invalidRow
  match store.attachments.insert row with
  | none => rollback .invalidRow
  | some attachments =>
    pure (row, { store with
      attachments := attachments
      variants := store.variants ++ (thumbnail.map (thumbnailVariant row)).toList })

/-- `create_intent` -/
def createIntent (facts : UploadFacts) (id : String) (attrs : IntentAttrs) (subject : AttachmentSubject)
    (store : AttachmentStore) : AttachmentTransaction (Attachment × AttachmentStore) := do
  let contentType := attrs.contentType.getD "application/octet-stream"
  match facts.attachmentLimit with
  | none => rollback .policyUnavailable
  | some limit => do
    check (validateType contentType) .unsupportedContentType
    let byteSize ← ofExcept (validateSize attrs.byteSize (attachmentLimit limit))
    let checksum ← ofExcept (validateChecksum (normalizeChecksum attrs.checksumSha256))
    let thumbnail ← ofExcept (thumbnailIntent attrs contentType)
    let fileName := sanitizeFileName (attrs.fileName.getD "attachment")
    insertAttachment facts (newAttachment id fileName contentType byteSize checksum subject facts.now) thumbnail store

/-- `owned_for_update` -/
def ownedForUpdate (id : String) (subject : AttachmentSubject) (store : AttachmentStore) :
    AttachmentTransaction Attachment :=
  lockRow (fun row => row.tenantId = subject.tenantId && row.ownerUserId = subject.userId) id store

/-! ### Authorization and upload -/

def Attachment.authorizeUpload (expiresAt : Int) (row : Attachment) : Attachment :=
  { row with uploadExpiresAt := some expiresAt }

@[simp] theorem Attachment.authorizeUpload_id (expiresAt : Int) (row : Attachment) :
    (row.authorizeUpload expiresAt).id = row.id := rfl

/-- `record_upload_authorization` -/
def recordUploadAuthorization (facts : UploadFacts) (id : String) (expiresAt : Int) (subject : AttachmentSubject)
    (store : AttachmentStore) : AttachmentTransaction (Attachment × AttachmentStore) := do
  let ttlSeconds := diffSeconds expiresAt facts.now
  check (1 ≤ ttlSeconds && ttlSeconds ≤ maxUploadTtlSeconds) .invalidUploadExpiry
  let row ← ownedForUpdate id subject store
  check (row.status = .pending && row.messageId.isNone) .attachmentNotPending
  save row (Attachment.authorizeUpload expiresAt) (Attachment.authorizeUpload_id expiresAt) store

structure ObjectIdentity where
  objectVersionId : Option String
  objectEtag : Option String
  verifiedChecksumSha256 : Option String
  deriving DecidableEq, Repr

structure VerifiedIdentity where
  objectVersionId : String
  objectEtag : String
  verifiedChecksumSha256 : String
  deriving DecidableEq, Repr

def slice (value : String) (length : Nat) : String := String.ofList (value.toList.take length)

/-- `validate_identity` -/
def validateIdentity (identity : ObjectIdentity) (checksum : String) : Except AttachmentError VerifiedIdentity :=
  match identity.objectVersionId.filter (fun version => !(["", "null"].contains version)),
      identity.objectEtag.filter (· ≠ "") with
  | some version, some etag =>
    if normalizeChecksum identity.verifiedChecksumSha256 = some checksum then
      .ok ⟨slice version 1024, slice etag 255, checksum⟩
    else .error .objectIdentityInvalid
  | _, _ => .error .objectIdentityInvalid

def Attachment.upload (checksum : String) (identity : VerifiedIdentity) (now : Int) (row : Attachment) : Attachment :=
  { row with
    checksumSha256 := some checksum
    objectVersionId := some identity.objectVersionId
    objectEtag := some identity.objectEtag
    verifiedChecksumSha256 := some identity.verifiedChecksumSha256
    status := .uploaded
    scanStatus := .pending
    scanVerdict := none
    scanErrorCode := none
    uploadedAt := some now }

@[simp] theorem Attachment.upload_id (checksum : String) (identity : VerifiedIdentity) (now : Int) (row : Attachment) :
    (row.upload checksum identity now).id = row.id := rfl

/-- `enqueue_scan` -/
def enqueueScan (enqueued : Bool) (row : Attachment) (store : AttachmentStore) :
    AttachmentTransaction AttachmentStore := do
  check enqueued .refused
  pure { store with jobs := store.jobs ++ [.scan row.id row.tenantId row.scanGeneration] }

/-- `maybe_enqueue_scan` -/
def maybeEnqueueScan (enqueued : Bool) (row : Attachment) (store : AttachmentStore) :
    AttachmentTransaction AttachmentStore :=
  if row.scanStatus = .clean ∨ row.scanStatus = .blocked then pure store else enqueueScan enqueued row store

/-- The row that `mark_uploaded` goes on with. -/
def uploadRow (facts : UploadFacts) (checksum : String) (identity : VerifiedIdentity) (row : Attachment)
    (store : AttachmentStore) : AttachmentTransaction (Attachment × AttachmentStore) :=
  match row.status with
  | .pending =>
    save row (Attachment.upload checksum identity facts.now) (Attachment.upload_id checksum identity facts.now) store
  | .uploaded | .ready => pure (row, store)
  | _ => rollback .attachmentNotPending

/-- `mark_uploaded` -/
def markUploaded (facts : UploadFacts) (id : String) (checksum : Option String) (identity : ObjectIdentity)
    (subject : AttachmentSubject) (store : AttachmentStore) : AttachmentTransaction (Attachment × AttachmentStore) := do
  let checksum ← ofExcept (validateChecksum (normalizeChecksum checksum))
  let identity ← ofExcept (validateIdentity identity checksum)
  let row ← ownedForUpdate id subject store
  check (row.checksumSha256 = some checksum) .attachmentChecksumMismatch
  let (row, store) ← uploadRow facts checksum identity row store
  let store ← maybeEnqueueScan facts.enqueued row store
  pure (row, store)

end KComms.Attachments
