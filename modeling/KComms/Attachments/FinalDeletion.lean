import KComms.Attachments.AttachmentChange

/-!
# The deletion of an attachment is final

Over every run in which no command brings a deleted row back, and over no other one: a deleted attachment stays
deleted, only clean attachments are claimed by messages, which keep them, and objects are purged when no upload can
come any more.
-/

namespace KComms.Attachments

open Attempt

variable (config : CleanupConfig)

/-- The store after a run from the empty one. -/
def storeAfter (commands : List AttachmentCommand) : AttachmentStore :=
  runCommands (AttachmentStore.next config) .empty commands

/-- The rows after a run. -/
def rowsAfter (commands : List AttachmentCommand) : List Attachment := (storeAfter config commands).attachments.rows

/-- What is required of the deletion and of the use of attachments, at all times of a run. -/
structure FinalDeletion (commands : List AttachmentCommand) : Prop where
  /-- A deleted attachment is deleted at all later times. -/
  deleted : ∀ before middle after, before ++ middle ++ after = commands → ∀ row ∈ rowsAfter config before,
    row.status = .deleted → ∃ row' ∈ rowsAfter config (before ++ middle), row'.id = row.id ∧ row'.status = .deleted
  /-- An attachment with a message had it before, or was ready and clean when it was claimed. -/
  claimed : ∀ before command after, before ++ command :: after = commands →
    ∀ row' ∈ rowsAfter config (before ++ [command]), ∀ messageId, row'.messageId = some messageId →
      ∃ row ∈ rowsAfter config before, row.id = row'.id ∧ (row.messageId = some messageId ∨
        (row.messageId = none ∧ row.status = .ready ∧ row.scanStatus = .clean))
  /-- An attachment with a message is ready or deleted, and has this message at all later times. -/
  attached : ∀ before middle after, before ++ middle ++ after = commands → ∀ row ∈ rowsAfter config before,
    ∀ messageId, row.messageId = some messageId → (row.status = .ready ∨ row.status = .deleted) ∧
      ∃ row' ∈ rowsAfter config (before ++ middle), row'.id = row.id ∧ row'.messageId = some messageId
  /-- A purge is claimed of a deleted attachment without a message, after its upload has expired and the grace period
  is over. -/
  purged : ∀ before facts tenantId id after,
    before ++ .claimAbandonCleanup facts tenantId id :: after = commands → ∀ target store,
      (claimAbandonCleanup config facts tenantId id (storeAfter config before)).Commits (.target target, store) →
      ∃ row ∈ rowsAfter config before, row.id = target.id ∧ row.status = .deleted ∧ row.messageId = none ∧
        ∀ expiresAt, row.uploadExpiresAt = some expiresAt →
          expiresAt + seconds config.cleanupGraceSeconds ≤ facts.now

/-! ### What holds of all rows -/

structure Sound (store : AttachmentStore) : Prop where
  consistent : ∀ row ∈ store.attachments.rows, row.consistent = true
  settled : ∀ row ∈ store.attachments.rows, row.messageId ≠ none → row.settled

variable {config} {store : AttachmentStore} {commands : List AttachmentCommand} {row : Attachment}
  {command : AttachmentCommand} {id : String} {table table' : KeyedTable Attachment.id}
  {before middle : List AttachmentCommand} {facts : SafetyFacts} {store' : AttachmentStore}
  {change : Attachment → Attachment} {result : ScannerResult} {completedAt : Int}

theorem sound_empty : Sound .empty := by
  constructor
  · intro row hrow
    cases hrow
  · intro row hrow
    cases hrow

/-- The rows of the next store come from rows before, or have no message. -/
theorem TableEvolves.cases (h : TableEvolves table table') :
    ∀ row' ∈ table'.rows,
      (∃ row ∈ table.rows, Evolves row row') ∨ (row'.messageId = none ∧ row'.consistent = true) := by
  intro row' hrow'
  rcases h with h | ⟨new, hmessage, hconsistent, hinsert⟩
  · exact .inl (h.2 row' hrow')
  · rcases (KeyedTable.mem_insert hinsert).mp hrow' with rfl | hrow
    · exact .inr ⟨hmessage, hconsistent⟩
    · exact .inl ⟨row', hrow, .refl row'⟩

/-- The rows before are rows of the next store. -/
theorem TableEvolves.kept (h : TableEvolves table table') :
    ∀ row ∈ table.rows, ∃ row' ∈ table'.rows, Evolves row row' := by
  intro row hrow
  rcases h with h | ⟨new, -, -, hinsert⟩
  · exact h.1 row hrow
  · exact ⟨row, (KeyedTable.mem_insert hinsert).mpr (.inr hrow), .refl row⟩

theorem sound_next (hsound : Sound store) (hguard : revives store command = false) :
    Sound (store.next config command) := by
  have hevolves := (next_evolves config hsound.consistent hguard).cases
  constructor
  · intro row' hrow'
    rcases hevolves row' hrow' with ⟨row, hrow, h⟩ | ⟨-, hconsistent⟩
    · exact h.consistent (hsound.consistent row hrow)
    · exact hconsistent
  · intro row' hrow' hmessage
    rcases hevolves row' hrow' with ⟨row, hrow, h⟩ | ⟨hnone, -⟩
    · obtain ⟨messageId, hmessageId⟩ := Option.ne_none_iff_exists'.mp hmessage
      refine h.settled ?_
      rcases h.claimed messageId hmessageId with hbefore | ⟨-, hready, -⟩
      · exact hsound.settled row hrow (by simp [hbefore])
      · exact .inl hready
    · exact absurd hnone hmessage

/-- No command of the run brings a deleted row back. -/
abbrev Lasting (config : CleanupConfig) : AttachmentStore → List AttachmentCommand → Prop :=
  Guarded (AttachmentStore.next config) fun store command => revives store command = false

theorem sound_run (hsound : Sound store) (h : Lasting config store commands) :
    Sound (runCommands (AttachmentStore.next config) store commands) :=
  runCommands_invariant (fun _ _ => sound_next) hsound h

/-- What a row keeps over a run from a sound store. -/
theorem kept_run (hsound : Sound store) (hrow : row ∈ store.attachments.rows) (h : Lasting config store commands) :
    ∃ row' ∈ (runCommands (AttachmentStore.next config) store commands).attachments.rows, row'.id = row.id ∧
      (row.status = .deleted → row'.status = .deleted) ∧
      ∀ messageId, row.messageId = some messageId → row'.messageId = some messageId := by
  induction commands generalizing store row with
  | nil => exact ⟨row, hrow, rfl, fun h => h, fun _ h => h⟩
  | cons command commands ih =>
    obtain ⟨middle, hmiddle, hevolves⟩ :=
      (next_evolves config hsound.consistent h.1).kept row hrow
    obtain ⟨row', hrow', hid, hdeleted, hattached⟩ := ih (sound_next hsound h.1) hmiddle h.2
    refine ⟨row', hrow', hid.trans hevolves.id, fun h => hdeleted (hevolves.deleted h), ?_⟩
    exact fun messageId h => hattached messageId (hevolves.attached messageId h)

theorem lasting_parts {after : List AttachmentCommand} (h : before ++ middle ++ after = commands)
    (hlasting : Lasting config .empty commands) :
    Lasting config .empty before ∧ Lasting config (storeAfter config before) middle := by
  rw [← h] at hlasting
  exact Guarded.append.mp (Guarded.append.mp hlasting).1

theorem rowsAfter_append : rowsAfter config (before ++ middle) =
    (runCommands (AttachmentStore.next config) (storeAfter config before) middle).attachments.rows := by
  unfold rowsAfter storeAfter
  rw [runCommands_append]

/-! ### Purges -/

theorem le_of_not_due {now : Int} (h : cleanupDueIn config now row = none) {expiresAt : Int}
    (hexpires : row.uploadExpiresAt = some expiresAt) : expiresAt + seconds config.cleanupGraceSeconds ≤ now := by
  simp only [cleanupDueIn, cleanupRequiredAt, hexpires] at h
  split at h
  · cases h
  · rename_i hdue
    unfold laterDatetime at hdue
    split at hdue
    · omega
    · split at hdue
      · omega
      · omega

theorem claimAbandonCleanup_target {facts : CleanupFacts} {tenantId : String} {target : CleanupTarget}
    (h : (claimAbandonCleanup config facts tenantId id store).Commits (.target target, store')) :
    ∃ row ∈ store.attachments.rows, row.id = target.id ∧ row.status = .deleted ∧ row.messageId = none ∧
      ∀ expiresAt, row.uploadExpiresAt = some expiresAt →
        expiresAt + seconds config.cleanupGraceSeconds ≤ facts.now := by
  simp only [claimAbandonCleanup, commits_bind] at h
  obtain ⟨row, hlocked, -, -, h⟩ := h
  obtain ⟨hrow, -, hdeleted, hmessage⟩ := lockAbandoned_commits hlocked
  split at h
  · rw [commits_pure, Prod.mk.injEq] at h
    cases h.1
  · rename_i hdue
    simp only [commits_bind, commits_pure, Prod.mk.injEq, CleanupClaim.target.injEq] at h
    obtain ⟨⟨running, middle⟩, hsave, rfl, -⟩ := h
    obtain ⟨-, rfl, -⟩ := save_commits hsave
    exact ⟨row, hrow, rfl, hdeleted, hmessage, fun _ => le_of_not_due hdue⟩

/-! ### Runs that last -/

theorem finalDeletion_of_lasting (h : Lasting config .empty commands) : FinalDeletion config commands where
  deleted := by
    intro before middle after hparts row hrow hdeleted
    obtain ⟨hbefore, hmiddle⟩ := lasting_parts hparts h
    obtain ⟨row', hrow', hid, hstays, -⟩ := kept_run (sound_run sound_empty hbefore) hrow hmiddle
    rw [rowsAfter_append]
    exact ⟨row', hrow', hid, hstays hdeleted⟩
  claimed := by
    intro before command after hparts row' hrow' messageId hmessage
    have hsplit : before ++ [command] ++ after = commands := by simpa using hparts
    obtain ⟨hbefore, hcommand, -⟩ := lasting_parts hsplit h
    rw [rowsAfter_append] at hrow'
    have hsound := sound_run sound_empty hbefore
    rcases (next_evolves config hsound.consistent hcommand).cases row' hrow' with ⟨row, hrow, hevolves⟩ | ⟨hnone, -⟩
    · exact ⟨row, hrow, hevolves.id.symm, hevolves.claimed messageId hmessage⟩
    · rw [hnone] at hmessage
      cases hmessage
  attached := by
    intro before middle after hparts row hrow messageId hmessage
    obtain ⟨hbefore, hmiddle⟩ := lasting_parts hparts h
    have hsound := sound_run sound_empty hbefore
    obtain ⟨row', hrow', hid, -, hattached⟩ := kept_run hsound hrow hmiddle
    rw [rowsAfter_append]
    exact ⟨hsound.settled row hrow (by simp [hmessage]), row', hrow', hid, hattached messageId hmessage⟩
  purged := by
    intro before facts tenantId id after _ target store h
    exact claimAbandonCleanup_target h

/-! ### Runs that do not last -/

theorem lockRow_of_find {condition : Attachment → Bool} (hfind : store.attachments.find id = some row)
    (hcondition : condition row = true) :
    (lockRow condition id store).Commits row := by
  unfold lockRow
  rw [hfind]
  simp [hcondition]

theorem save_of_consistent (keeps : ∀ row, (change row).id = row.id) (store : AttachmentStore)
    (h : (change row).consistent = true) :
    (save row change keeps store).Commits
      (change row, { store with attachments := store.attachments.update row.id change keeps }) := by
  simp [save, h]

theorem next_of_commits
    (h : (attachmentTransaction config store command).Commits store') : store.next config command = store' := by
  unfold AttachmentStore.next
  rw [show (attachmentTransaction config store command).outcome = .ok store' from h]

/-- A row that is written is in the table. -/
theorem mem_update_self (keeps : ∀ row, (change row).id = row.id) (hrow : row ∈ store.attachments.rows) :
    change row ∈ (store.attachments.update row.id change keeps).rows :=
  KeyedTable.mem_update.mpr (.inr ⟨row, hrow, rfl, rfl⟩)

theorem resetScan_consistent (h : row.consistent = true) : row.resetScan.consistent = true := by
  simp only [Attachment.consistent, Bool.and_eq_true] at h ⊢
  obtain ⟨⟨⟨-, -⟩, hclaim⟩, hcompletion⟩ := h
  exact ⟨⟨⟨rfl, rfl⟩, hclaim⟩, hcompletion⟩

theorem authorizeSafety_of_granted (h : facts.granted = true) :
    (authorizeSafety facts).Commits () ∧ facts.enqueued = true ∧ facts.recorded = true := by
  unfold SafetyFacts.granted at h
  split at h
  · rename_i role stepUpRecent hgrant
    simp only [Bool.and_eq_true, Bool.or_eq_true, decide_eq_true_eq] at h
    obtain ⟨⟨⟨hrole, hstepUp⟩, henqueued⟩, hrecorded⟩ := h
    exact ⟨by simp [authorizeSafety, hgrant, hrole, hstepUp], henqueued, hrecorded⟩
  · cases h

/-- A row that is deleted before a command and is there with another status afterwards. -/
def Revived (store store' : AttachmentStore) : Prop :=
  ∃ row ∈ store.attachments.rows, row.status = .deleted ∧
    ∃ row' ∈ store'.attachments.rows, row'.id = row.id ∧ row'.status ≠ .deleted

theorem retryScan_revives {subject : AttachmentSubject} (hsound : Sound store)
    (h : revives store (.retryScan facts id subject) = true) :
    Revived store (store.next config (.retryScan facts id subject)) := by
  simp only [revives, Option.any_eq_true, retriesDeleted, Bool.and_eq_true, decide_eq_true_eq] at h
  obtain ⟨row, hfind, ⟨⟨hgranted, htenant⟩, hdeleted⟩, hscanning⟩ := h
  obtain ⟨hrow, -⟩ := KeyedTable.find_eq_some.mp hfind
  obtain ⟨hauthorized, henqueued, hrecorded⟩ := authorizeSafety_of_granted hgranted
  have hlock : (lockRow (fun row => row.tenantId = subject.tenantId) id store).Commits row :=
    lockRow_of_find hfind (decide_eq_true htenant)
  have hsave := save_of_consistent Attachment.resetScan_id store
    (resetScan_consistent (hsound.consistent row hrow))
  obtain ⟨store', hcommits, hrows⟩ : ∃ store', (retryScan facts id subject store).Commits (row.resetScan, store') ∧
      store'.attachments = store.attachments.update row.id Attachment.resetScan Attachment.resetScan_id := by
    simp only [retryScan, enqueueScan, audit, commits_bind, commits_check, commits_pure]
    exact ⟨_, ⟨(), hauthorized, row, hlock, (), by simp [hdeleted], (), decide_eq_true hscanning, _, hsave, _,
      ⟨(), henqueued, rfl⟩, _, ⟨(), hrecorded, rfl⟩, rfl⟩, rfl⟩
  have hnext : store.next config (.retryScan facts id subject) = store' :=
    next_of_commits (written_commits.mpr ⟨_, hcommits⟩)
  rw [hnext]
  refine ⟨row, hrow, hdeleted, row.resetScan, ?_, rfl, ?_⟩
  · rw [hrows]
    exact mem_update_self Attachment.resetScan_id hrow
  · intro huploaded
    cases huploaded

theorem recordResult_status {number : Nat} :
    (row.recordResult result number completedAt).status ≠ .deleted := by
  show (scanOutcome (scanAttemptStatus result)).1 ≠ .deleted
  cases scanAttemptStatus result <;> simp [scanOutcome]

theorem recordScan_revives {claimed : ScanClaim} (h : revives store (.recordScan claimed result completedAt) = true) :
    Revived store (store.next config (.recordScan claimed result completedAt)) := by
  simp only [revives, Option.any_eq_true, recordsDeleted, Bool.and_eq_true, decide_eq_true_eq] at h
  obtain ⟨row, hfind, ⟨⟨⟨hdeleted, hcurrent⟩, hprovider⟩, hconsistent⟩, hinserted⟩ := h
  obtain ⟨scanAttempts, hinsert⟩ := Option.isSome_iff_exists.mp hinserted
  obtain ⟨hrow, -⟩ := KeyedTable.find_eq_some.mp hfind
  have hlock : (lockRow (fun _ => true) claimed.id store).Commits row := lockRow_of_find hfind rfl
  have hsave := save_of_consistent (Attachment.recordResult_id result (row.scanAttempts + 1) completedAt)
    { store with scanAttempts := scanAttempts } hconsistent
  have hcommits : (recordScan claimed result completedAt store).Commits
      (row.recordResult result (row.scanAttempts + 1) completedAt,
        { store with
          attachments := store.attachments.update row.id
            (Attachment.recordResult result (row.scanAttempts + 1) completedAt)
            (Attachment.recordResult_id result (row.scanAttempts + 1) completedAt)
          scanAttempts := scanAttempts }) := by
    simp only [recordScan, commits_bind, commits_check]
    refine ⟨row, hlock, (), hcurrent, (), hprovider, ?_⟩
    rw [hinsert]
    exact hsave
  have hwritten : (attachmentTransaction config store (.recordScan claimed result completedAt)).Commits _ :=
    written_commits.mpr ⟨_, hcommits⟩
  rw [next_of_commits hwritten]
  refine ⟨row, hrow, hdeleted, row.recordResult result (row.scanAttempts + 1) completedAt, ?_, rfl, recordResult_status⟩
  exact mem_update_self (Attachment.recordResult_id _ _ _) hrow

theorem revived_of_revives (hsound : Sound store) (h : revives store command = true) :
    Revived store (store.next config command) := by
  cases command with
  | retryScan facts id subject => exact retryScan_revives hsound h
  | recordScan claimed result completedAt => exact recordScan_revives h
  | _ => cases h

/-- Deletion is final in exactly the runs in which no retry and no result of a scan meets a deleted row. -/
theorem finalDeletion_iff : FinalDeletion config commands ↔ Lasting config .empty commands := by
  refine ⟨fun hfinal => ?_, finalDeletion_of_lasting⟩
  by_contra hlasting
  obtain ⟨before, command, after, hparts, hbefore, hrevives⟩ := exists_first_unguarded hlasting
  rw [Bool.not_eq_false] at hrevives
  -- the first of these commands brings a row back, against the law on deleted rows
  have hrevived : Revived (storeAfter config before) ((storeAfter config before).next config command) :=
    revived_of_revives (sound_run sound_empty hbefore) hrevives
  obtain ⟨row, hrow, hdeleted, row', hrow', hid, hstatus⟩ := hrevived
  have hstep : rowsAfter config (before ++ [command]) =
      ((storeAfter config before).next config command).attachments.rows := rowsAfter_append
  obtain ⟨other, hother, hotherId, hotherDeleted⟩ := hfinal.deleted before [command] after (by simpa using hparts) row
    hrow hdeleted
  rw [hstep] at hother
  have hsame := KeyedTable.eq_of_key hother hrow' (hotherId.trans hid.symm)
  rw [hsame] at hotherDeleted
  exact hstatus hotherDeleted

/-! ### A retry of a scan that brings a deleted attachment back -/

def sampleOwner : AttachmentSubject := ⟨"t", "u"⟩

/-- An intent that its owner abandons. -/
def abandonedIntent : List AttachmentCommand :=
  [.createIntent ⟨some none, 10, true, true, 0⟩ "a"
      ⟨some "notes.txt", some "text/plain", some 1, some (String.ofList (List.replicate 64 'a')), none⟩ sampleOwner,
    .abandonIntent ⟨true, true, true, [], [], 0, 0⟩ "a" sampleOwner]

def adminRetry : AttachmentCommand := .retryScan ⟨some (.admin, true), true, true⟩ "a" sampleOwner

theorem abandoned_retried : ¬ FinalDeletion {} (abandonedIntent ++ [adminRetry]) := by
  intro hfinal
  obtain ⟨row, hrow, hdeleted⟩ : ∃ row ∈ rowsAfter {} abandonedIntent, row.status = .deleted := by decide
  obtain ⟨row', hrow', -, hstill⟩ := hfinal.deleted abandonedIntent [adminRetry] [] rfl row hrow hdeleted
  have hnone : ∀ row ∈ rowsAfter {} (abandonedIntent ++ [adminRetry]), row.status ≠ .deleted := by decide
  exact hnone row' hrow' hstill

end KComms.Attachments
