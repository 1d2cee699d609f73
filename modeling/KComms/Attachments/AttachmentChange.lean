import KComms.Attachments.MessageClaims
import KComms.Lib.CommandRuns

/-!
# Attachments under their commands

The commands of uploads, scans, cleanup, messages and erasure, each one transaction under the locks of its rows, and
what one of them may do to a row.  Two of them bring a deleted row back: a retry of a scan does not ask for the status,
and an erasure leaves the claim of a scan that is under way as it is, so that its result is recorded.
-/

namespace KComms.Attachments

open Attempt

inductive AttachmentCommand
  | createIntent (facts : UploadFacts) (id : String) (attrs : IntentAttrs) (subject : AttachmentSubject)
  | recordUploadAuthorization (facts : UploadFacts) (id : String) (expiresAt : Int) (subject : AttachmentSubject)
  | markUploaded (facts : UploadFacts) (id : String) (checksum : Option String) (identity : ObjectIdentity)
      (subject : AttachmentSubject)
  | claimScan (id token : String) (now claimedAt : Int)
  | recordScan (claimed : ScanClaim) (result : ScannerResult) (completedAt : Int)
  | retryScan (facts : SafetyFacts) (id : String) (subject : AttachmentSubject)
  | abandonIntent (facts : CleanupFacts) (id : String) (subject : AttachmentSubject)
  | claimAbandonCleanup (facts : CleanupFacts) (tenantId id : String)
  | completeAbandonCleanup (facts : CleanupFacts) (tenantId id : String)
  | recordAbandonCleanupFailure (facts : CleanupFacts) (tenantId id : String) (reason : ScannerError) (terminal : Bool)
  | reconcileAbandonCleanups (facts : CleanupFacts)
  | attachReady (facts : OuterFacts) (ids : List String) (messageId tenantId : String) (subject : AttachmentSubject)
  | markDeletedForErasure (facts : OuterFacts) (tenantId : String) (ids : List String)

/-- What a transaction with a result writes. -/
def written {α : Type} (transaction : AttachmentTransaction (α × AttachmentStore)) :
    AttachmentTransaction AttachmentStore := do
  let (_, store) ← transaction
  pure store

variable (config : CleanupConfig)

def attachmentTransaction (store : AttachmentStore) :
    AttachmentCommand → AttachmentTransaction AttachmentStore
  | .createIntent facts id attrs subject => written (createIntent facts id attrs subject store)
  | .recordUploadAuthorization facts id expiresAt subject =>
    written (recordUploadAuthorization facts id expiresAt subject store)
  | .markUploaded facts id checksum identity subject => written (markUploaded facts id checksum identity subject store)
  | .claimScan id token now claimedAt => written (claimScan id token now claimedAt store)
  | .recordScan claimed result completedAt => written (recordScan claimed result completedAt store)
  | .retryScan facts id subject => written (retryScan facts id subject store)
  | .abandonIntent facts id subject => written (abandonIntent config facts id subject store)
  | .claimAbandonCleanup facts tenantId id => written (claimAbandonCleanup config facts tenantId id store)
  | .completeAbandonCleanup facts tenantId id => written (completeAbandonCleanup facts tenantId id store)
  | .recordAbandonCleanupFailure facts tenantId id reason terminal =>
    written (recordAbandonCleanupFailure facts tenantId id reason terminal store)
  | .reconcileAbandonCleanups facts => written (reconcileAbandonCleanups config facts store)
  | .attachReady facts ids messageId tenantId subject => attachReady facts ids messageId tenantId subject store
  | .markDeletedForErasure facts tenantId ids => written (markDeletedForErasure facts tenantId ids store)

/-- The store after a command; one that is rolled back leaves it as it is. -/
def AttachmentStore.next (store : AttachmentStore) (command : AttachmentCommand) : AttachmentStore :=
  match (attachmentTransaction config store command).outcome with
  | .ok store => store
  | .error _ => store

/-- Whether the subject may retry scans, and its job and audit event are inserted. -/
def SafetyFacts.granted (facts : SafetyFacts) : Bool :=
  match facts.grant with
  | some (role, stepUpRecent) => (role = .owner || role = .admin) && stepUpRecent && facts.enqueued && facts.recorded
  | none => false

/-- A retry of a scan that is granted, on a deleted row of the tenant of which no scan is under way. -/
def retriesDeleted (facts : SafetyFacts) (subject : AttachmentSubject) (row : Attachment) : Bool :=
  facts.granted && row.tenantId = subject.tenantId && row.status = .deleted && row.scanStatus ≠ .scanning

/-- The result of the current scan of a deleted row, which the checks of the rows and the tables let through. -/
def recordsDeleted (claimed : ScanClaim) (result : ScannerResult) (completedAt : Int) (store : AttachmentStore)
    (row : Attachment) : Bool :=
  row.status = .deleted && currentScanClaim row claimed && (castText (scanMetadata result).provider).isSome &&
    (row.recordResult result (row.scanAttempts + 1) completedAt).consistent &&
    (store.scanAttempts.insert (newScanAttempt row result completedAt)).isSome

/-- The commands that bring a deleted row back. -/
def revives (store : AttachmentStore) : AttachmentCommand → Bool
  | .retryScan facts id subject => (store.attachments.find id).any (retriesDeleted facts subject)
  | .recordScan claimed result completedAt =>
    (store.attachments.find claimed.id).any (recordsDeleted claimed result completedAt store)
  | _ => false

/-! ### What a command may do to a row -/

def Attachment.settled (row : Attachment) : Prop := row.status = .ready ∨ row.status = .deleted

structure Evolves (row row' : Attachment) : Prop where
  id : row'.id = row.id
  consistent : row.consistent = true → row'.consistent = true
  deleted : row.status = .deleted → row'.status = .deleted
  settled : row.settled → row'.settled
  attached : ∀ messageId, row.messageId = some messageId → row'.messageId = some messageId
  claimed : ∀ messageId, row'.messageId = some messageId →
    row.messageId = some messageId ∨ (row.messageId = none ∧ row.status = .ready ∧ row.scanStatus = .clean)

variable {id tenantId : String} {facts : CleanupFacts} {subject : AttachmentSubject} {condition : Attachment → Bool}

theorem Evolves.refl (row : Attachment) : Evolves row row where
  id := rfl
  consistent := fun h => h
  deleted := fun h => h
  settled := fun h => h
  attached := fun _ h => h
  claimed := fun _ h => .inl h

/-- Most commands leave the message alone. -/
theorem Evolves.of_message {row row' : Attachment} (hid : row'.id = row.id) (hmessage : row'.messageId = row.messageId)
    (hconsistent : row'.consistent = true) (hdeleted : row.status = .deleted → row'.status = .deleted)
    (hready : row.status = .ready → row'.settled) : Evolves row row' where
  id := hid
  consistent := fun _ => hconsistent
  deleted := hdeleted
  settled := by
    rintro (h | h)
    · exact hready h
    · exact .inr (hdeleted h)
  attached := fun _ h => hmessage.trans h
  claimed := fun _ h => .inl (hmessage.symm.trans h)

/-- A command that leaves the message and the status alone. -/
theorem Evolves.of_status {row row' : Attachment} (hid : row'.id = row.id) (hmessage : row'.messageId = row.messageId)
    (hconsistent : row'.consistent = true) (hstatus : row'.status = row.status) : Evolves row row' :=
  .of_message hid hmessage hconsistent (fun h => hstatus.trans h) fun h => .inl (hstatus.trans h)

/-- A command that deletes a row. -/
theorem Evolves.of_deleted {row row' : Attachment} (hid : row'.id = row.id) (hmessage : row'.messageId = row.messageId)
    (hconsistent : row'.consistent = true) (hstatus : row'.status = .deleted) : Evolves row row' :=
  .of_message hid hmessage hconsistent (fun _ => hstatus) fun _ => .inr hstatus

/-- The rows after a command: a new row may have come, with no message. -/
def TableEvolves (table table' : KeyedTable Attachment.id) : Prop :=
  table.Related Evolves table' ∨
    ∃ row, row.messageId = none ∧ row.consistent = true ∧ table.insert row = some table'

variable {config} {store store' : AttachmentStore} {row row' : Attachment} {change : Attachment → Attachment}
  {keeps : ∀ row, (change row).id = row.id}

theorem TableEvolves.refl (table : KeyedTable Attachment.id) : TableEvolves table table :=
  .inl (KeyedTable.related_refl Evolves.refl)

theorem written_commits {α : Type} {transaction : AttachmentTransaction (α × AttachmentStore)} :
    (written transaction).Commits store ↔ ∃ result, transaction.Commits (result, store) := by
  simp only [written, commits_bind, commits_pure]
  constructor
  · rintro ⟨⟨result, _⟩, h, rfl⟩
    exact ⟨result, h⟩
  · rintro ⟨result, h⟩
    exact ⟨(result, store), h, rfl⟩

theorem save_evolves (h : (save row change keeps store).Commits (row', store')) (hrow : row ∈ store.attachments.rows)
    (hchange : (change row).consistent = true → Evolves row (change row)) :
    TableEvolves store.attachments store'.attachments := by
  obtain ⟨hconsistent, -, rfl⟩ := save_commits h
  exact .inl (KeyedTable.related_update change keeps Evolves.refl hrow (hchange hconsistent))

/-! ### Uploads -/

theorem createIntent_evolves {facts : UploadFacts} {attrs : IntentAttrs}
    (h : (createIntent facts id attrs subject store).Commits (row, store')) :
    TableEvolves store.attachments store'.attachments := by
  unfold createIntent at h
  split at h
  · exact absurd h (commits_rollback _ _)
  · simp only [commits_bind, insertAttachment] at h
    obtain ⟨-, -, byteSize, -, checksum, -, thumbnail, -, -, -, h⟩ := h
    split at h
    · exact absurd h (commits_rollback _ _)
    · rename_i attachments hinsert
      rw [commits_pure, Prod.mk.injEq] at h
      obtain ⟨-, rfl⟩ := h
      exact .inr ⟨_, rfl, rfl, hinsert⟩

theorem recordUploadAuthorization_evolves {facts : UploadFacts} {expiresAt : Int}
    (h : (recordUploadAuthorization facts id expiresAt subject store).Commits (row, store')) :
    TableEvolves store.attachments store'.attachments := by
  simp only [recordUploadAuthorization, commits_bind] at h
  obtain ⟨-, -, found, hfound, -, -, hsave⟩ := h
  obtain ⟨hrow, -, -⟩ := lockRow_commits hfound
  exact save_evolves hsave hrow fun hconsistent => .of_status rfl rfl hconsistent rfl

theorem enqueueScan_attachments {enqueued : Bool} (h : (enqueueScan enqueued row store).Commits store') :
    store'.attachments = store.attachments := by
  simp only [enqueueScan, commits_bind, commits_pure] at h
  obtain ⟨-, -, rfl⟩ := h
  rfl

theorem maybeEnqueueScan_attachments {enqueued : Bool} (h : (maybeEnqueueScan enqueued row store).Commits store') :
    store'.attachments = store.attachments := by
  unfold maybeEnqueueScan at h
  split at h
  · rw [commits_pure] at h
    rw [h]
  · exact enqueueScan_attachments h

theorem markUploaded_evolves {facts : UploadFacts} {checksum : Option String} {identity : ObjectIdentity}
    (h : (markUploaded facts id checksum identity subject store).Commits (row, store')) :
    TableEvolves store.attachments store'.attachments := by
  simp only [markUploaded, commits_bind, commits_pure, Prod.mk.injEq] at h
  obtain ⟨_, -, verified, -, found, hfound, -, -, ⟨uploaded, middle⟩, hupload, final, hscan, -, rfl⟩ := h
  obtain ⟨hrow, -, -⟩ := lockRow_commits hfound
  rw [maybeEnqueueScan_attachments hscan]
  unfold uploadRow at hupload
  split at hupload
  · rename_i hpending
    refine save_evolves hupload hrow fun hconsistent => .of_message rfl rfl hconsistent ?_ ?_
    · intro hdeleted
      rw [hpending] at hdeleted
      cases hdeleted
    · intro hready
      rw [hpending] at hready
      cases hready
  · rw [commits_pure, Prod.mk.injEq] at hupload
    rw [← hupload.2]
    exact .refl _
  · rw [commits_pure, Prod.mk.injEq] at hupload
    rw [← hupload.2]
    exact .refl _
  · exact absurd hupload (commits_rollback _ _)

/-! ### Scans -/

theorem claimScan_evolves {token : String} {now claimedAt : Int} {result : ScanClaimResult}
    (h : (claimScan id token now claimedAt store).Commits (result, store')) :
    TableEvolves store.attachments store'.attachments := by
  simp only [claimScan, commits_bind] at h
  obtain ⟨found, hfound, h⟩ := h
  obtain ⟨hrow, -, -⟩ := lockRow_commits hfound
  split at h
  · rw [commits_pure, Prod.mk.injEq] at h
    rw [← h.2]
    exact .refl _
  · split at h
    · simp only [commits_bind, commits_pure, Prod.mk.injEq] at h
      obtain ⟨⟨claimed, middle⟩, hsave, -, rfl⟩ := h
      exact save_evolves hsave hrow fun hconsistent => .of_status rfl rfl hconsistent rfl
    · exact absurd h (commits_rollback _ _)

theorem find_of_lock (h : (lockRow condition id store).Commits row) :
    store.attachments.find id = some row := by
  obtain ⟨hrow, hid, -⟩ := lockRow_commits h
  exact KeyedTable.find_eq_some.mpr ⟨hrow, hid⟩

/-- A row whose scan is under way is not ready. -/
theorem not_ready_of_scanning (hconsistent : row.consistent = true) (hscanning : row.scanStatus = .scanning) :
    row.status ≠ .ready := by
  intro hready
  rw [Attachment.clean_of_ready hconsistent hready] at hscanning
  cases hscanning

theorem scanning_of_current {claimed : ScanClaim} (h : currentScanClaim row claimed = true) :
    row.scanStatus = .scanning := by
  simp only [currentScanClaim, Bool.and_eq_true, decide_eq_true_eq] at h
  exact h.1.1.1

theorem recordScan_evolves {claimed : ScanClaim} {result : ScannerResult} {completedAt : Int}
    (h : (recordScan claimed result completedAt store).Commits (row', store'))
    (hsound : ∀ row ∈ store.attachments.rows, row.consistent = true)
    (hguard : revives store (.recordScan claimed result completedAt) = false) :
    TableEvolves store.attachments store'.attachments := by
  simp only [recordScan, commits_bind, commits_check] at h
  obtain ⟨found, hfound, -, hcurrent, -, hprovider, h⟩ := h
  obtain ⟨hrow, -, -⟩ := lockRow_commits hfound
  split at h
  · exact absurd h (commits_rollback _ _)
  · rename_i scanAttempts hinsert
    have hsaved := save_commits h
    have hdeleted : found.status ≠ .deleted := by
      intro hdeleted
      have hrevives : recordsDeleted claimed result completedAt store found = true := by
        simp [recordsDeleted, hdeleted, hcurrent, hprovider, hsaved.1, hinsert]
      rw [revives, find_of_lock hfound, Option.any_some, hrevives] at hguard
      cases hguard
    rw [hsaved.2.2]
    refine .inl (KeyedTable.related_update _ (Attachment.recordResult_id _ _ _) Evolves.refl hrow ?_)
    refine .of_message rfl rfl hsaved.1 ?_ ?_
    · exact fun h => absurd h hdeleted
    · exact fun h => absurd h (not_ready_of_scanning (hsound found hrow) (scanning_of_current hcurrent))

theorem authorizeSafety_commits {facts : SafetyFacts} {granted : Unit} (h : (authorizeSafety facts).Commits granted) :
    ∃ role, facts.grant = some (role, true) ∧ (role = .owner ∨ role = .admin) := by
  unfold authorizeSafety at h
  split at h
  · rename_i role stepUpRecent hgrant
    simp only [commits_bind, commits_check, Bool.or_eq_true, decide_eq_true_eq] at h
    obtain ⟨-, hrole, rfl⟩ := h
    exact ⟨role, hgrant, hrole⟩
  · exact absurd h (commits_rollback _ _)

theorem retryScan_commits {facts : SafetyFacts} (h : (retryScan facts id subject store).Commits (row', store')) :
    ∃ row, store.attachments.find id = some row ∧ facts.granted = true ∧ row.tenantId = subject.tenantId ∧
      row.status ≠ .ready ∧ row.scanStatus ≠ .scanning ∧ row.resetScan.consistent = true ∧
      store'.attachments = store.attachments.update row.id Attachment.resetScan Attachment.resetScan_id := by
  simp only [retryScan, enqueueScan, audit, commits_bind, commits_check, commits_pure, Prod.mk.injEq,
    decide_eq_true_eq] at h
  obtain ⟨_, hgrant, found, hfound, -, hready, -, hscanning, ⟨updated, middle⟩, hsave, _, ⟨-, henqueued, rfl⟩, final,
    ⟨-, hrecorded, rfl⟩, rfl, rfl⟩ := h
  obtain ⟨role, hrole, helevated⟩ := authorizeSafety_commits hgrant
  obtain ⟨-, -, htenant⟩ := lockRow_commits hfound
  obtain ⟨hconsistent, -, rfl⟩ := save_commits hsave
  refine ⟨found, find_of_lock hfound, ?_, of_decide_eq_true htenant, hready, hscanning, hconsistent, rfl⟩
  simp [SafetyFacts.granted, hrole, helevated, henqueued, hrecorded]

theorem retryScan_evolves {facts : SafetyFacts} (h : (retryScan facts id subject store).Commits (row', store'))
    (hguard : revives store (.retryScan facts id subject) = false) :
    TableEvolves store.attachments store'.attachments := by
  obtain ⟨row, hfound, hgranted, htenant, hready, hscanning, hconsistent, hstore⟩ := retryScan_commits h
  rw [hstore]
  refine .inl (KeyedTable.related_update _ _ Evolves.refl (KeyedTable.find_eq_some.mp hfound).1 ?_)
  refine .of_message rfl rfl hconsistent ?_ fun h => absurd h hready
  intro hdeleted
  have hrevives : retriesDeleted facts subject row = true := by
    simp [retriesDeleted, hgranted, htenant, hdeleted, hscanning]
  rw [revives, hfound, Option.any_some, hrevives] at hguard
  cases hguard

/-! ### Abandonment and cleanup -/

theorem Attachment.abandonAttachment_status (dueAt : Int) (row : Attachment) :
    (row.abandonAttachment dueAt).status = .deleted := by
  unfold abandonAttachment
  split
  · rename_i h
    exact h.1
  · rfl

theorem Attachment.abandonAttachment_messageId (dueAt : Int) (row : Attachment) :
    (row.abandonAttachment dueAt).messageId = row.messageId := by
  unfold abandonAttachment
  split <;> rfl

theorem auditAbandoned_attachments (h : (auditAbandoned facts row store).Commits store') :
    store'.attachments = store.attachments := by
  unfold auditAbandoned at h
  split at h
  · rw [commits_pure] at h
    rw [h]
  · simp only [audit, commits_bind, commits_pure] at h
    obtain ⟨-, -, rfl⟩ := h
    rfl

theorem enqueueAbandonCleanup_attachments
    (h : (enqueueAbandonCleanup config facts row store).Commits store') : store'.attachments = store.attachments := by
  unfold enqueueAbandonCleanup at h
  split at h
  · rw [commits_pure] at h
    rw [h]
  · simp only [commits_bind, commits_pure] at h
    obtain ⟨-, -, rfl⟩ := h
    rfl

theorem abandonIntent_evolves (h : (abandonIntent config facts id subject store).Commits (row', store')) :
    TableEvolves store.attachments store'.attachments := by
  simp only [abandonIntent, commits_bind, commits_pure, Prod.mk.injEq] at h
  obtain ⟨found, hfound, -, -, ⟨abandoned, middle⟩, hsave, audited, haudit, final, henqueue, -, rfl⟩ := h
  obtain ⟨hrow, -, -⟩ := lockRow_commits hfound
  rw [enqueueAbandonCleanup_attachments henqueue, auditAbandoned_attachments haudit]
  refine save_evolves hsave hrow fun hconsistent => .of_deleted ?_ ?_ hconsistent ?_
  · exact Attachment.abandonAttachment_id _ found
  · exact Attachment.abandonAttachment_messageId _ found
  · exact Attachment.abandonAttachment_status _ found

theorem lockAbandoned_commits (h : (lockAbandoned facts tenantId id store).Commits row) :
    row ∈ store.attachments.rows ∧ row.id = id ∧ row.status = .deleted ∧ row.messageId = none := by
  simp only [lockAbandoned, commits_bind, commits_check, commits_pure, Bool.and_eq_true, decide_eq_true_eq,
    Option.isNone_iff_eq_none] at h
  obtain ⟨-, -, found, hfound, -, ⟨hdeleted, hmessage⟩, rfl⟩ := h
  obtain ⟨hrow, hid, -⟩ := lockRow_commits hfound
  exact ⟨hrow, hid, hdeleted, hmessage⟩

theorem claimAbandonCleanup_evolves {claim : CleanupClaim}
    (h : (claimAbandonCleanup config facts tenantId id store).Commits (claim, store')) :
    TableEvolves store.attachments store'.attachments := by
  simp only [claimAbandonCleanup, commits_bind] at h
  obtain ⟨found, hfound, -, -, h⟩ := h
  obtain ⟨hrow, -, -⟩ := lockAbandoned_commits hfound
  split at h
  · rw [commits_pure, Prod.mk.injEq] at h
    rw [← h.2]
    exact .refl _
  · simp only [commits_bind, commits_pure, Prod.mk.injEq] at h
    obtain ⟨⟨running, middle⟩, hsave, -, rfl⟩ := h
    exact save_evolves hsave hrow fun hconsistent => .of_status rfl rfl hconsistent rfl

theorem completeAbandonCleanup_evolves (h : (completeAbandonCleanup facts tenantId id store).Commits (row', store')) :
    TableEvolves store.attachments store'.attachments := by
  simp only [completeAbandonCleanup, commits_bind] at h
  obtain ⟨found, hfound, hsave⟩ := h
  obtain ⟨hrow, -, -⟩ := lockAbandoned_commits hfound
  exact save_evolves hsave hrow fun hconsistent => .of_status rfl rfl hconsistent rfl

theorem recordAbandonCleanupFailure_evolves {reason : ScannerError} {terminal : Bool}
    (h : (recordAbandonCleanupFailure facts tenantId id reason terminal store).Commits (row', store')) :
    TableEvolves store.attachments store'.attachments := by
  simp only [recordAbandonCleanupFailure, commits_bind] at h
  obtain ⟨found, hfound, -, -, hsave⟩ := h
  obtain ⟨hrow, -, -⟩ := lockAbandoned_commits hfound
  exact save_evolves hsave hrow fun hconsistent => .of_status rfl rfl hconsistent rfl

/-! ### The reconciler -/

/-- What the reconciler does to a row: nothing, or it is a deleted row with no message afterwards. -/
structure Retired (row row' : Attachment) : Prop where
  id : row'.id = row.id
  consistent : row.consistent = true → row'.consistent = true
  retired : row' = row ∨ (row.messageId = none ∧ row'.messageId = none ∧ row'.status = .deleted)

theorem Retired.refl (row : Attachment) : Retired row row := ⟨rfl, fun h => h, .inl rfl⟩

theorem Retired.evolves (h : Retired row row') : Evolves row row' := by
  rcases h.retired with rfl | ⟨hmessage, hmessage', hdeleted⟩
  · exact .refl _
  · refine ⟨h.id, h.consistent, fun _ => hdeleted, fun _ => .inr hdeleted, ?_, ?_⟩
    · intro messageId hsome
      rw [hmessage] at hsome
      cases hsome
    · intro messageId hsome
      rw [hmessage'] at hsome
      cases hsome

theorem Retired.trans {row'' : Attachment} (h : Retired row row') (h' : Retired row' row'') : Retired row row'' := by
  refine ⟨h'.id.trans h.id, fun hrow => h'.consistent (h.consistent hrow), ?_⟩
  rcases h'.retired with rfl | ⟨hmessage, hmessage', hdeleted⟩
  · exact h.retired
  · rcases h.retired with rfl | ⟨hrow, -, -⟩
    · exact .inr ⟨hmessage, hmessage', hdeleted⟩
    · exact .inr ⟨hrow, hmessage', hdeleted⟩

/-- The rows of a batch are rows of its condition. -/
theorem condition_of_batch {before : Attachment → Attachment → Bool} (hrow : row ∈ store.attachments.rows)
    (h : isOf (lockBatch config facts condition before store) row = true) :
    condition row = true := by
  unfold isOf at h
  rw [List.contains_iff_mem, List.mem_map] at h
  obtain ⟨locked, hlocked, hid⟩ := h
  have hmem := List.mem_of_mem_take hlocked
  rw [List.mem_insertionSort, List.mem_filter, decide_eq_true_eq] at hmem
  rw [← KeyedTable.eq_of_key hmem.1 hrow hid]
  exact hmem.2.1

theorem saveAll_retired {before : Attachment → Attachment → Bool}
    (h : (saveAll (isOf (lockBatch config facts condition before store)) change keeps store).Commits store')
    (hchange : ∀ row, condition row = true → (change row).messageId = none ∧ (change row).status = .deleted)
    (hcondition : ∀ row, condition row = true → row.messageId = none) :
    store.attachments.Related Retired store'.attachments := by
  obtain ⟨hconsistent, rfl⟩ := saveAll_commits h
  refine KeyedTable.related_modify change keeps Retired.refl fun row hrow hbatch => ?_
  have hrowCondition := condition_of_batch hrow hbatch
  refine ⟨keeps row, fun _ => hconsistent row hrow hbatch, .inr ?_⟩
  exact ⟨hcondition row hrowCondition, hchange row hrowCondition⟩

theorem normalizeReconciledCleanup_deleted {now : Int} (hmessage : row.messageId = none)
    (hdeleted : row.status = .deleted) :
    (row.normalizeReconciledCleanup now).messageId = none ∧ (row.normalizeReconciledCleanup now).status = .deleted := by
  unfold Attachment.normalizeReconciledCleanup
  split
  · exact ⟨hmessage, hdeleted⟩
  · exact ⟨(Attachment.abandonAttachment_messageId now row).trans hmessage, Attachment.abandonAttachment_status now row⟩
  · exact ⟨hmessage, hdeleted⟩

theorem enqueueAll_attachments {rows : List Attachment}
    (h : (rows.foldlM (fun store row => enqueueAbandonCleanup config facts row store) store).Commits store') :
    store'.attachments = store.attachments := by
  induction rows generalizing store with
  | nil =>
    rw [List.foldlM_nil, commits_pure] at h
    rw [h]
  | cons row rows ih =>
    rw [List.foldlM_cons, commits_bind] at h
    obtain ⟨middle, hfirst, hrest⟩ := h
    rw [ih hrest, enqueueAbandonCleanup_attachments hfirst]

theorem reconcileAbandonCleanups_evolves {result : ReconcileResult}
    (h : (reconcileAbandonCleanups config facts store).Commits (result, store')) :
    TableEvolves store.attachments store'.attachments := by
  simp only [reconcileAbandonCleanups, commits_bind, commits_pure, Prod.mk.injEq] at h
  obtain ⟨-, -, middle, hstale, normalized, hcandidates, final, henqueue, -, rfl⟩ := h
  rw [enqueueAll_attachments henqueue]
  have hfirst := saveAll_retired hstale
    (fun row hrow => by
      simp only [staleIntent, Bool.and_eq_true, Option.isNone_iff_eq_none] at hrow
      exact ⟨(Attachment.abandonAttachment_messageId facts.now row).trans hrow.1.2,
        Attachment.abandonAttachment_status facts.now row⟩)
    (fun row hrow => by
      simp only [staleIntent, Bool.and_eq_true, Option.isNone_iff_eq_none] at hrow
      exact hrow.1.2)
  have hsecond := saveAll_retired hcandidates
    (fun row hrow => by
      simp only [cleanupCandidate, Bool.and_eq_true, decide_eq_true_eq, Option.isNone_iff_eq_none] at hrow
      exact normalizeReconciledCleanup_deleted hrow.1.1.2 hrow.1.1.1)
    (fun row hrow => by
      simp only [cleanupCandidate, Bool.and_eq_true, Option.isNone_iff_eq_none] at hrow
      exact hrow.1.1.2)
  exact .inl ((hfirst.trans hsecond fun _ _ _ => Retired.trans).mono fun _ _ => Retired.evolves)

/-! ### Messages and erasure -/

theorem attachReady_evolves {facts : OuterFacts} {ids : List String} {messageId : String}
    (h : (attachReady facts ids messageId tenantId subject store).Commits store') :
    TableEvolves store.attachments store'.attachments := by
  simp only [attachReady, commits_bind, commits_pure] at h
  obtain ⟨-, -, attached, hsave, -, -, -, -, rfl⟩ := h
  obtain ⟨hconsistent, rfl⟩ := saveAll_commits hsave
  refine .inl (KeyedTable.related_modify _ (Attachment.attach_id messageId) Evolves.refl fun row hrow hcondition => ?_)
  have hattached := hconsistent row hrow hcondition
  simp only [attachable, Bool.and_eq_true, decide_eq_true_eq, Option.isNone_iff_eq_none] at hcondition
  obtain ⟨⟨⟨⟨⟨-, hready⟩, hclean⟩, -⟩, -⟩, hmessage⟩ := hcondition
  refine ⟨rfl, fun _ => hattached, fun h => h, fun h => h, ?_, ?_⟩
  · intro other hother
    rw [hmessage] at hother
    cases hother
  · exact fun _ _ => .inr ⟨hmessage, hready, hclean⟩

theorem markDeletedForErasure_evolves {facts : OuterFacts} {ids : List String} {count : Nat}
    (h : (markDeletedForErasure facts tenantId ids store).Commits (count, store')) :
    TableEvolves store.attachments store'.attachments := by
  simp only [markDeletedForErasure, commits_bind, commits_pure, Prod.mk.injEq] at h
  obtain ⟨-, -, -, -, erased, hsave, -, -, -, rfl⟩ := h
  obtain ⟨hconsistent, rfl⟩ := saveAll_commits hsave
  refine .inl (KeyedTable.related_modify _ Attachment.erase_id Evolves.refl fun row hrow hcondition => ?_)
  exact .of_deleted rfl rfl (hconsistent row hrow hcondition) rfl

/-! ### All commands -/

theorem transaction_evolves {command : AttachmentCommand}
    (h : (attachmentTransaction config store command).Commits store')
    (hsound : ∀ row ∈ store.attachments.rows, row.consistent = true) (hguard : revives store command = false) :
    TableEvolves store.attachments store'.attachments := by
  cases command with
  | createIntent facts id attrs subject =>
    obtain ⟨_, h⟩ := written_commits.mp h
    exact createIntent_evolves h
  | recordUploadAuthorization facts id expiresAt subject =>
    obtain ⟨_, h⟩ := written_commits.mp h
    exact recordUploadAuthorization_evolves h
  | markUploaded facts id checksum identity subject =>
    obtain ⟨_, h⟩ := written_commits.mp h
    exact markUploaded_evolves h
  | claimScan id token now claimedAt =>
    obtain ⟨_, h⟩ := written_commits.mp h
    exact claimScan_evolves h
  | recordScan claimed result completedAt =>
    obtain ⟨_, h⟩ := written_commits.mp h
    exact recordScan_evolves h hsound hguard
  | retryScan facts id subject =>
    obtain ⟨_, h⟩ := written_commits.mp h
    exact retryScan_evolves h hguard
  | abandonIntent facts id subject =>
    obtain ⟨_, h⟩ := written_commits.mp h
    exact abandonIntent_evolves h
  | claimAbandonCleanup facts tenantId id =>
    obtain ⟨_, h⟩ := written_commits.mp h
    exact claimAbandonCleanup_evolves h
  | completeAbandonCleanup facts tenantId id =>
    obtain ⟨_, h⟩ := written_commits.mp h
    exact completeAbandonCleanup_evolves h
  | recordAbandonCleanupFailure facts tenantId id reason terminal =>
    obtain ⟨_, h⟩ := written_commits.mp h
    exact recordAbandonCleanupFailure_evolves h
  | reconcileAbandonCleanups facts =>
    obtain ⟨_, h⟩ := written_commits.mp h
    exact reconcileAbandonCleanups_evolves h
  | attachReady facts ids messageId tenantId subject => exact attachReady_evolves h
  | markDeletedForErasure facts tenantId ids =>
    obtain ⟨_, h⟩ := written_commits.mp h
    exact markDeletedForErasure_evolves h

theorem next_evolves (config : CleanupConfig) {command : AttachmentCommand}
    (hsound : ∀ row ∈ store.attachments.rows, row.consistent = true) (hguard : revives store command = false) :
    TableEvolves store.attachments (store.next config command).attachments := by
  unfold AttachmentStore.next
  split
  · rename_i written hcommits
    exact transaction_evolves hcommits hsound hguard
  · exact .refl _

end KComms.Attachments
