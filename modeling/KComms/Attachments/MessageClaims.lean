import KComms.Attachments.Abandonment

/-!
# Attachments of messages (`Attachments.MessageClaims`, `Attachments.Erasure`)

Both are a part of a transaction of another component, which claims attachments for a message or erases their owner's
content; that it goes on to commit is a fact from outside.
-/

namespace KComms.Attachments

open Attempt

/-- That there is a transaction around the command, that it commits, and that the ids are valid ones. -/
structure OuterFacts where
  inTransaction : Bool
  committed : Bool
  validScope : Bool
  deriving DecidableEq, Repr

/-! ### Claims of messages -/

/-- The rows that `attach_ready` claims; a comparison with no checksum is not true. -/
def attachable (ids : List String) (tenantId : String) (subject : AttachmentSubject) (row : Attachment) : Bool :=
  ids.contains row.id && row.tenantId = tenantId && row.ownerUserId = subject.userId && row.status = .ready &&
    row.scanStatus = .clean && row.objectVersionId.isSome &&
    (row.verifiedChecksumSha256.isSome && row.verifiedChecksumSha256 = row.checksumSha256) && row.messageId.isNone

def Attachment.attach (messageId : String) (row : Attachment) : Attachment :=
  { row with messageId := some messageId }

@[simp] theorem Attachment.attach_id (messageId : String) (row : Attachment) : (row.attach messageId).id = row.id := rfl

/-- `attach_ready` -/
def attachReady (facts : OuterFacts) (ids : List String) (messageId tenantId : String) (subject : AttachmentSubject)
    (store : AttachmentStore) : AttachmentTransaction AttachmentStore := do
  check facts.inTransaction .transactionRequired
  let unique := ids.eraseDups
  let attached ← saveAll (attachable unique tenantId subject) (Attachment.attach messageId)
    (Attachment.attach_id messageId) store
  check ((store.attachments.rows.filter (attachable unique tenantId subject)).length = unique.length)
    .invalidAttachments
  check facts.committed .refused
  pure attached

/-! ### Erasure -/

def Attachment.erase (row : Attachment) : Attachment :=
  { row with
    status := .deleted
    fileName := "deleted"
    contentType := "application/octet-stream"
    checksumSha256 := none }

@[simp] theorem Attachment.erase_id (row : Attachment) : row.erase.id = row.id := rfl

/-- `mark_deleted_for_erasure` -/
def markDeletedForErasure (facts : OuterFacts) (tenantId : String) (ids : List String) (store : AttachmentStore) :
    AttachmentTransaction (Nat × AttachmentStore) := do
  check facts.inTransaction .transactionRequired
  check facts.validScope .invalidErasureScope
  let scope (row : Attachment) : Bool := row.tenantId = tenantId && ids.contains row.id
  let erased ← saveAll scope Attachment.erase Attachment.erase_id store
  check facts.committed .refused
  pure ((store.attachments.rows.filter scope).length,
    { erased with
      variants := erased.variants.filter fun variant =>
        !(variant.tenantId = tenantId && ids.contains variant.attachmentId) })

end KComms.Attachments
