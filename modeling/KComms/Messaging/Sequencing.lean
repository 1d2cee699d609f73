import KComms.Lib.Consecutive
import KComms.Messaging.MessageCommands
import Mathlib.Data.List.Pairwise

/-!
# The sequences of accepted messages

What is committed beside one another is what a sequence of the successful calls writes, one after the other (`Serial`).
A transaction holds the row of its conversation from the reservation of a sequence on, so the sequence is still the next
one when the transaction commits (`Reserved`), and what it inserts is new until then (`Pending`).
-/

namespace KComms.Messaging

open Consecutive (Numbered)

/-! ### Stages -/

/-- The message that a transaction has inserted and not committed. -/
def Tx.pending (tx : Tx) : Option Message :=
  match tx.stage with
  | .attach message => some message
  | .record message => some message
  | .currentWriteAuthority message .created => some message
  | _ => none

/-- The transaction has the row of a conversation, and the sequence is still the next one there. -/
structure Reserved (db : Db) (tx : Tx) (id : String) (sequence : Nat) : Prop where
  row : tx.rowLock = some id
  conversation : tx.request.conversationId = id
  writes : tx.writes.nextSequence = some (id, sequence + 1)
  next : ∃ conversation ∈ db.conversations, conversation.id = id ∧ conversation.nextSequence = sequence

/-- The transaction has inserted a message that is not there yet. -/
structure Pending (db : Db) (tx : Tx) (message : Message) : Prop where
  reserved : Reserved db tx message.conversationId message.conversationSequence
  writes : tx.writes.messages = [message]
  key : message.key = tx.request.key
  fresh : ∀ other ∈ db.messages, message.id ≠ other.id ∧ message.key ≠ other.key

/-- The transaction has written nothing. -/
structure Clean (tx : Tx) : Prop where
  row : tx.rowLock = none
  writes : tx.writes = Writes.empty

/-- The message with the key of a transaction. -/
structure Found (db : Db) (tx : Tx) (message : Message) : Prop where
  mem : message ∈ db.messages
  key : message.key = tx.request.key

def StageInv (db : Db) (tx : Tx) : Prop :=
  match tx.stage with
  | .lockWriteAuthority => Clean tx
  | .lockIdempotencyKey => Clean tx
  | .existing => Clean tx
  | .authorizeExisting message => Clean tx ∧ Found db tx message
  | .reserveMessageSlot => Clean tx
  | .authorize slot => Reserved db tx slot.id slot.sequence ∧ tx.writes.messages = []
  | .resolveThreadRoot slot => Reserved db tx slot.id slot.sequence ∧ tx.writes.messages = []
  | .validateMentions slot _ => Reserved db tx slot.id slot.sequence ∧ tx.writes.messages = []
  | .insert slot _ => Reserved db tx slot.id slot.sequence ∧ tx.writes.messages = []
  | .attach message => Pending db tx message
  | .record message => Pending db tx message
  | .currentWriteAuthority message .created => Pending db tx message
  | .currentWriteAuthority message .duplicate => Clean tx ∧ Found db tx message
  | .committed message .created => tx.rowLock = none ∧ tx.writes.messages = [message] ∧ Found db tx message
  | .committed message .duplicate => tx.rowLock = none ∧ Found db tx message
  | .failed _ => Clean tx

variable {rt : Runtime} {db : Db} {s s' : State} {p : Nat} {tx tx' : Tx} {message message' : Message} {event : Event}
  {events : List Event}

theorem pending_inv (h : StageInv db tx) (hp : tx.pending = some message) :
    Pending db tx message ∧ tx.running = true := by
  unfold Tx.pending at hp
  unfold StageInv at h
  unfold Tx.running
  split at hp
  · rename_i hstage
    rw [hstage] at h ⊢
    exact ⟨Option.some.inj hp ▸ h, rfl⟩
  · rename_i hstage
    rw [hstage] at h ⊢
    exact ⟨Option.some.inj hp ▸ h, rfl⟩
  · rename_i hstage
    rw [hstage] at h ⊢
    exact ⟨Option.some.inj hp ▸ h, rfl⟩
  · cases hp

/-! ### One transaction -/

section Advance

variable {answer : Answer}

theorem others_iff {property : Tx → Bool} : s.others p property = true ↔
    ∀ (q : Nat) tx, s.txs[q]? = some tx → q ≠ p → property tx = false := by
  unfold State.others
  rw [List.all_eq_true]
  constructor
  · intro h q tx htx hq
    have := h (tx, q) (List.mem_zipIdx_iff_getElem?.2 htx)
    simpa [hq] using this
  · rintro h ⟨tx, q⟩ hmem
    have htx := List.mem_zipIdx_iff_getElem?.1 hmem
    by_cases hq : q = p
    · simp [hq]
    · simp [h q tx htx hq]

theorem clean_rollback (tx : Tx) (reason : Reason) : Clean (tx.rollback reason) := ⟨rfl, rfl⟩

/-- What an advance does to the locks and to what is pending. -/
structure Advanced (s : State) (p : Nat) (tx tx' : Tx) : Prop where
  inv : StageInv s.db tx'
  request : tx'.request = tx.request
  open_ : ∀ message, tx'.stage ≠ .committed message .created
  row : ∀ id, tx'.rowLock = some id → tx.rowLock = some id ∨
    s.others p (fun other => other.rowLock = some id) = true
  pending : ∀ message, tx'.pending = some message → tx.pending = some message ∨
    s.others p (fun other => other.running && other.writes.messages.any (clash message)) = true

theorem advanced_rollback (s : State) (p : Nat) (tx : Tx) (reason : Reason) : Advanced s p tx (tx.rollback reason) :=
  ⟨clean_rollback tx reason, rfl, fun _ h => (by cases h), fun _ h => (by cases h), fun _ h => (by cases h)⟩

/-- A stage whose invariant is the same one, with the same locks and writes. -/
theorem advanced_to {stage : Stage} (hinv : StageInv s.db (tx.to stage))
    (hopen : ∀ message, stage ≠ .committed message .created)
    (hpending : ∀ message, (tx.to stage).pending = some message → tx.pending = some message) :
    Advanced s p tx (tx.to stage) :=
  ⟨hinv, rfl, hopen, fun _ h => Or.inl h, fun message h => Or.inl (hpending message h)⟩

theorem advanced_asked {verdict : Except Reason Unit} {next : Tx} (h : Advanced s p tx next) :
    Advanced s p tx (tx.asked verdict next) := by
  unfold Tx.asked
  split
  · exact h
  · exact advanced_rollback s p tx _

theorem not_clash {other : Message} (h : clash message other = false) :
    message.id ≠ other.id ∧ message.key ≠ other.key := by
  unfold clash at h
  rw [decide_eq_false_iff_not, not_or, not_or] at h
  exact ⟨h.1, h.2.1⟩

theorem advance_spec (h : StageInv s.db tx) (hadvance : advance rt s p tx answer = some tx') : Advanced s p tx tx' := by
  unfold advance at hadvance
  unfold StageInv at h
  cases hstage : tx.stage with
  | lockWriteAuthority =>
    rw [hstage] at hadvance h
    cases hadvance
    exact advanced_asked (advanced_to ⟨h.row, h.writes⟩ (fun _ h => by cases h) (fun _ h => by cases h))
  | lockIdempotencyKey =>
    rw [hstage] at hadvance h
    dsimp only at hadvance
    split at hadvance
    · cases hadvance
      exact ⟨⟨h.row, h.writes⟩, rfl, (fun _ h => by cases h), fun _ h => Or.inl h, (fun _ h => by cases h)⟩
    · cases hadvance
  | existing =>
    rw [hstage] at hadvance h
    dsimp only at hadvance
    split at hadvance
    · rename_i message hfound
      cases hadvance
      have hkey := List.find?_some hfound
      rw [decide_eq_true_eq] at hkey
      exact advanced_to ⟨⟨h.row, h.writes⟩, List.mem_of_find?_eq_some hfound, hkey⟩ (fun _ h => by cases h)
        (fun _ h => by cases h)
    · cases hadvance
      exact advanced_to ⟨h.row, h.writes⟩ (fun _ h => by cases h) (fun _ h => by cases h)
  | authorizeExisting message =>
    rw [hstage] at hadvance h
    cases hadvance
    exact advanced_asked (advanced_to ⟨⟨h.1.row, h.1.writes⟩, h.2.mem, h.2.key⟩ (fun _ h => by cases h)
      (fun _ h => by cases h))
  | reserveMessageSlot =>
    rw [hstage] at hadvance h
    dsimp only at hadvance
    split at hadvance
    · cases hadvance
      exact advanced_rollback s p tx _
    · rename_i conversation hfound
      split at hadvance
      · rename_i hfree
        split at hadvance
        · cases hadvance
          exact advanced_rollback s p tx _
        · split at hadvance
          · cases hadvance
            exact advanced_rollback s p tx _
          · cases hadvance
            have hid := List.find?_some hfound
            rw [decide_eq_true_eq] at hid
            refine ⟨⟨⟨rfl, hid.1.symm, rfl, conversation, List.mem_of_find?_eq_some hfound, rfl, rfl⟩, rfl⟩, rfl,
              (fun _ h => by cases h), fun id hrow => Or.inr ?_, (fun _ h => by cases h)⟩
            rw [← Option.some.inj hrow]
            exact hfree
      · cases hadvance
  | authorize slot =>
    rw [hstage] at hadvance h
    cases hadvance
    exact advanced_asked (advanced_to ⟨⟨h.1.row, h.1.conversation, h.1.writes, h.1.next⟩, h.2⟩ (fun _ h => by cases h)
      (fun _ h => by cases h))
  | resolveThreadRoot slot =>
    rw [hstage] at hadvance h
    dsimp only at hadvance
    split at hadvance
    · cases hadvance
      exact advanced_to ⟨⟨h.1.row, h.1.conversation, h.1.writes, h.1.next⟩, h.2⟩ (fun _ h => by cases h)
        (fun _ h => by cases h)
    · cases hadvance
      exact advanced_rollback s p tx _
  | validateMentions slot threadRootMessageId =>
    rw [hstage] at hadvance h
    cases hadvance
    exact advanced_asked (advanced_to ⟨⟨h.1.row, h.1.conversation, h.1.writes, h.1.next⟩, h.2⟩ (fun _ h => by cases h)
      (fun _ h => by cases h))
  | insert slot threadRootMessageId =>
    rw [hstage] at hadvance h
    dsimp only at hadvance
    split at hadvance
    · cases hadvance
      exact advanced_rollback s p tx _
    split at hadvance
    · rename_i hfree
      split at hadvance
      · cases hadvance
        exact advanced_rollback s p tx _
      · rename_i hnone
        cases hadvance
        obtain ⟨⟨hrow, hconversation, hwrites, hnext⟩, -⟩ := h
        have hfresh : ∀ other ∈ s.db.messages,
            (newMessage tx.request slot threadRootMessageId answer).id ≠ other.id ∧
              (newMessage tx.request slot threadRootMessageId answer).key ≠ other.key := by
          intro other hother
          rw [Bool.not_eq_true, List.any_eq_false] at hnone
          exact not_clash (Bool.not_eq_true _ ▸ hnone other hother)
        refine ⟨⟨⟨?_, rfl, ?_, ?_⟩, rfl, rfl, hfresh⟩, rfl, (fun _ h => by cases h), fun _ h => Or.inl h, ?_⟩
        · exact hrow.trans (congrArg some hconversation.symm)
        · exact hwrites.trans (by rw [← hconversation]; rfl)
        · rw [← hconversation] at hnext
          exact hnext
        · intro message hpending
          rw [← Option.some.inj hpending]
          exact Or.inr hfree
    · cases hadvance
  | attach message =>
    rw [hstage] at hadvance h
    cases hadvance
    refine advanced_asked (advanced_to ⟨⟨h.reserved.row, h.reserved.conversation, h.reserved.writes, h.reserved.next⟩,
      h.writes, h.key, h.fresh⟩ (fun _ h => by cases h) (fun other hpending => ?_))
    unfold Tx.pending
    rw [hstage]
    exact hpending
  | record message =>
    rw [hstage] at hadvance h
    cases hadvance
    refine advanced_asked ⟨⟨⟨h.reserved.row, h.reserved.conversation, h.reserved.writes, h.reserved.next⟩,
      h.writes, h.key, h.fresh⟩, rfl, (fun _ h => by cases h), fun _ h => Or.inl h, fun other hpending => Or.inl ?_⟩
    unfold Tx.pending
    rw [hstage]
    exact hpending
  | currentWriteAuthority message status =>
    rw [hstage] at hadvance
    dsimp only at hadvance
    split at hadvance
    · cases hadvance
    · cases hadvance
      exact advanced_rollback s p tx _
  | committed message status =>
    rw [hstage] at hadvance
    cases hadvance
  | failed reason =>
    rw [hstage] at hadvance
    cases hadvance

end Advance

/-! ### All transactions -/

/-- The writes of a transaction. -/
def State.writesOf (s : State) (p : Nat) : Writes :=
  match s.txs[p]? with
  | some tx => tx.writes
  | none => Writes.empty

/-- The transaction has committed a new message. -/
def State.Created (s : State) (p : Nat) (message : Message) : Prop :=
  ∃ tx, s.txs[p]? = some tx ∧ tx.stage = .committed message .created

/-- The database is what the calls that created a message have written, one after the other. -/
structure Serial (db : Db) (s : State) (order : List Nat) : Prop where
  nodup : order.Nodup
  created : ∀ p, p ∈ order ↔ ∃ message, s.Created p message
  db : s.db = (order.map s.writesOf).foldl Db.apply db

/-- The messages of a conversation have the sequences from the one that was next at first to the one before the next. -/
def NumberedFrom (db : Db) (conversation : Conversation) (db' : Db) : Prop :=
  ∃ first ∈ db.conversations, first.id = conversation.id ∧ first.tenantId = conversation.tenantId ∧
    conversation.nextSequence = first.nextSequence + (db'.messagesOf conversation.id).length ∧
    Numbered Message.conversationSequence first.nextSequence (db'.messagesOf conversation.id)

structure StateInv (db : Db) (s : State) : Prop where
  conversationIds : (s.db.conversations.map Conversation.id).Nodup
  numbered : ∀ conversation ∈ s.db.conversations, NumberedFrom db conversation s.db
  keys : (s.db.messages.map Message.key).Nodup
  stages : ∀ (p : Nat) tx, s.txs[p]? = some tx → StageInv s.db tx
  rows : ∀ (p q : Nat) tx tx' id, p ≠ q → s.txs[p]? = some tx → s.txs[q]? = some tx' → tx.rowLock = some id →
    tx'.rowLock ≠ some id
  pending : ∀ (p q : Nat) tx tx' message message', p ≠ q → s.txs[p]? = some tx → s.txs[q]? = some tx' →
    tx.pending = some message → tx'.pending = some message' → message.id ≠ message'.id ∧ message.key ≠ message'.key
  serial : ∃ order, Serial db s order

/-- A database with conversations and no messages yet. -/
structure Db.Initial (db : Db) : Prop where
  conversationIds : (db.conversations.map Conversation.id).Nodup
  messages : db.messages = []

theorem inv_initial (h : db.Initial) : StateInv db ⟨db, []⟩ := by
  refine ⟨h.conversationIds, ?_, ?_, ?_, ?_, ?_, [], ?_⟩
  · intro conversation hconversation
    have hnone : db.messagesOf conversation.id = [] := by
      unfold Db.messagesOf
      rw [h.messages]
      rfl
    refine ⟨conversation, hconversation, rfl, rfl, ?_, ?_⟩
    · rw [hnone]
      rfl
    · rw [hnone]
      exact Consecutive.numbered_nil _
  · rw [h.messages]
    exact List.nodup_nil
  · exact fun p tx htx => (by cases htx)
  · exact fun p q tx tx' id _ htx => (by cases htx)
  · exact fun p q tx tx' message message' _ htx => (by cases htx)
  · refine ⟨List.nodup_nil, fun p => ?_, rfl⟩
    constructor
    · intro hp
      cases hp
    · rintro ⟨message, tx, htx, -⟩
      cases htx

/-! ### Steps that leave the database -/

theorem get_set {q : Nat} {txs : List Tx} (h : (txs.set p tx)[q]? = some tx') :
    (q = p ∧ tx' = tx) ∨ (q ≠ p ∧ txs[q]? = some tx') := by
  rw [List.getElem?_set] at h
  split at h
  · rename_i hpq
    split at h
    · exact Or.inl ⟨hpq.symm, (Option.some.inj h).symm⟩
    · cases h
  · rename_i hpq
    exact Or.inr ⟨Ne.symm hpq, h⟩

/-- A new transaction. -/
theorem StateInv.start (h : StateInv db s) (request : Request) : StateInv db { s with txs := s.txs ++ [Tx.start request] } := by
  have hget : ∀ (q : Nat) tx, (s.txs ++ [Tx.start request])[q]? = some tx →
      s.txs[q]? = some tx ∨ (q = s.txs.length ∧ tx = Tx.start request) := by
    intro q tx htx
    rw [List.getElem?_append] at htx
    split at htx
    · exact Or.inl htx
    · rw [List.getElem?_singleton] at htx
      split at htx
      · exact Or.inr ⟨by omega, (Option.some.inj htx).symm⟩
      · cases htx
  have hold : ∀ (q : Nat) tx, s.txs[q]? = some tx → (s.txs ++ [Tx.start request])[q]? = some tx := by
    intro q tx htx
    obtain ⟨hlt, -⟩ := List.getElem?_eq_some_iff.1 htx
    rw [List.getElem?_append_left hlt]
    exact htx
  refine ⟨h.conversationIds, h.numbered, h.keys, ?_, ?_, ?_, ?_⟩
  · intro q tx htx
    rcases hget q tx htx with htx | ⟨-, rfl⟩
    · exact h.stages q tx htx
    · exact ⟨rfl, rfl⟩
  · intro q r tx tx' id hne htx htx' hrow
    rcases hget q tx htx with htx | ⟨-, rfl⟩
    · rcases hget r tx' htx' with htx' | ⟨-, rfl⟩
      · exact h.rows q r tx tx' id hne htx htx' hrow
      · intro hnone
        cases hnone
    · cases hrow
  · intro q r tx tx' message message' hne htx htx' hpending hpending'
    rcases hget q tx htx with htx | ⟨-, rfl⟩
    · rcases hget r tx' htx' with htx' | ⟨-, rfl⟩
      · exact h.pending q r tx tx' message message' hne htx htx' hpending hpending'
      · cases hpending'
    · cases hpending
  · obtain ⟨order, hserial⟩ := h.serial
    have hcreated : ∀ q message, State.Created { s with txs := s.txs ++ [Tx.start request] } q message ↔
        s.Created q message := by
      intro q message
      constructor
      · rintro ⟨tx, htx, hstage⟩
        rcases hget q tx htx with htx | ⟨-, rfl⟩
        · exact ⟨tx, htx, hstage⟩
        · cases hstage
      · rintro ⟨tx, htx, hstage⟩
        exact ⟨tx, hold q tx htx, hstage⟩
    refine ⟨order, hserial.nodup, fun q => ?_, ?_⟩
    · rw [hserial.created]
      exact exists_congr fun message => (hcreated q message).symm
    · refine hserial.db.trans ?_
      congr 1
      apply List.map_congr_left
      intro q hq
      obtain ⟨message, tx, htx, -⟩ := (hserial.created q).1 hq
      unfold State.writesOf
      rw [hold q tx htx, htx]

/-- A transaction goes on without a commit of its own writes. -/
theorem StateInv.advanced (h : StateInv db s) (htx : s.txs[p]? = some tx) (hopen : ∀ message, tx.stage ≠ .committed message .created)
    (hadvanced : Advanced s p tx tx') : StateInv db { s with txs := s.txs.set p tx' } := by
  refine ⟨h.conversationIds, h.numbered, h.keys, ?_, ?_, ?_, ?_⟩
  · intro q other hother
    rcases get_set hother with ⟨-, rfl⟩ | ⟨-, hother⟩
    · exact hadvanced.inv
    · exact h.stages q other hother
  · -- a new row lock is one that no other transaction has
    intro q r other other' id hne hother hother' hrow
    rcases get_set hother with ⟨rfl, rfl⟩ | ⟨hq, hget⟩
    · rcases get_set hother' with ⟨rfl, -⟩ | ⟨hr, hget'⟩
      · exact absurd rfl hne
      · rcases hadvanced.row id hrow with hold | hfree
        · exact h.rows q r tx other' id hne htx hget' hold
        · have := others_iff.1 hfree r other' hget' hr
          rwa [decide_eq_false_iff_not] at this
    · rcases get_set hother' with ⟨rfl, rfl⟩ | ⟨hr, hget'⟩
      · intro hrow'
        rcases hadvanced.row id hrow' with hold | hfree
        · exact h.rows q r other tx id hne hget htx hrow hold
        · have := others_iff.1 hfree q other hget hq
          rw [decide_eq_false_iff_not] at this
          exact this hrow
      · exact h.rows q r other other' id hne hget hget' hrow
  · -- a new pending message is unlike those of the other transactions
    have hunlike : ∀ (q : Nat) other message message', q ≠ p → s.txs[q]? = some other → tx'.pending = some message →
        other.pending = some message' → message.id ≠ message'.id ∧ message.key ≠ message'.key := by
      intro q other message message' hq hother hpending hpending'
      rcases hadvanced.pending message hpending with hold | hfree
      · exact h.pending p q tx other message message' (Ne.symm hq) htx hother hold hpending'
      · obtain ⟨hinv, hrunning⟩ := pending_inv (h.stages q other hother) hpending'
        have := others_iff.1 hfree q other hother hq
        rw [hrunning, Bool.true_and, hinv.writes, List.any_cons, List.any_nil, Bool.or_false] at this
        exact not_clash this
    intro q r other other' message message' hne hother hother' hpending hpending'
    rcases get_set hother with ⟨rfl, rfl⟩ | ⟨hq, hget⟩
    · rcases get_set hother' with ⟨rfl, -⟩ | ⟨hr, hget'⟩
      · exact absurd rfl hne
      · exact hunlike r other' message message' hr hget' hpending hpending'
    · rcases get_set hother' with ⟨rfl, rfl⟩ | ⟨hr, hget'⟩
      · obtain ⟨hid, hkey⟩ := hunlike q other message' message hq hget hpending' hpending
        exact ⟨hid.symm, hkey.symm⟩
      · exact h.pending q r other other' message message' hne hget hget' hpending hpending'
  · obtain ⟨order, hserial⟩ := h.serial
    have hcreated : ∀ q message, State.Created { s with txs := s.txs.set p tx' } q message ↔ s.Created q message := by
      intro q message
      constructor
      · rintro ⟨other, hother, hstage⟩
        rcases get_set hother with ⟨rfl, rfl⟩ | ⟨-, hother⟩
        · exact absurd hstage (hadvanced.open_ message)
        · exact ⟨other, hother, hstage⟩
      · rintro ⟨other, hother, hstage⟩
        refine ⟨other, ?_, hstage⟩
        have hq : p ≠ q := by
          rintro rfl
          rw [htx] at hother
          rw [Option.some.inj hother] at hopen
          exact hopen message hstage
        exact (List.getElem?_set_ne hq).trans hother
    refine ⟨order, hserial.nodup, fun q => ?_, ?_⟩
    · rw [hserial.created]
      exact exists_congr fun message => (hcreated q message).symm
    · refine hserial.db.trans ?_
      congr 1
      apply List.map_congr_left
      intro q hq
      obtain ⟨message, hq⟩ := (hserial.created q).1 hq
      obtain ⟨other, hother, hstage⟩ := (hcreated q message).2 hq
      obtain ⟨other', hother', hstage'⟩ := hq
      have hne : p ≠ q := by
        rintro rfl
        rw [htx] at hother'
        rw [Option.some.inj hother'] at hopen
        exact hopen message hstage'
      unfold State.writesOf
      rw [show (s.txs.set p tx')[q]? = s.txs[q]? from List.getElem?_set_ne hne]

/-! ### Commits -/

theorem apply_empty (db : Db) : db.apply Writes.empty = db := by
  unfold Db.apply Writes.empty Db.setNextSequence
  simp only [List.append_nil]

section Commit

variable {other : Tx}

theorem Pending.apply_messages (h : Pending db tx message) :
    (db.apply tx.writes).messages = db.messages ++ [message] := by
  unfold Db.apply
  dsimp only
  rw [h.writes]

theorem Pending.apply_conversations (h : Pending db tx message) :
    (db.apply tx.writes).conversations = db.conversations.map fun conversation =>
      if conversation.id = message.conversationId then
        { conversation with nextSequence := message.conversationSequence + 1 }
      else conversation := by
  unfold Db.apply
  dsimp only
  rw [h.reserved.writes]
  rfl

/-- A commit leaves alone what a transaction with another row has. -/
theorem Reserved.commit {id : String} {sequence : Nat} (h : Reserved s.db other id sequence)
    (hp : Pending s.db tx message) (hrow : other.rowLock ≠ some message.conversationId) :
    Reserved (s.db.apply tx.writes) other id sequence := by
  refine ⟨h.row, h.conversation, h.writes, ?_⟩
  obtain ⟨conversation, hmem, hid, hsequence⟩ := h.next
  have hne : id ≠ message.conversationId := by
    rintro rfl
    exact hrow h.row
  rw [hp.apply_conversations]
  refine ⟨conversation, List.mem_map.2 ⟨conversation, hmem, ?_⟩, hid, hsequence⟩
  rw [hid, if_neg hne]

theorem Found.commit (h : Found s.db other message) (hp : Pending s.db tx message') :
    Found (s.db.apply tx.writes) other message := by
  refine ⟨?_, h.key⟩
  rw [hp.apply_messages]
  exact List.mem_append_left _ h.mem

theorem Pending.commit (h : Pending s.db other message') (hp : Pending s.db tx message)
    (hrow : other.rowLock ≠ some message.conversationId)
    (hunlike : message'.id ≠ message.id ∧ message'.key ≠ message.key) : Pending (s.db.apply tx.writes) other message' := by
  refine ⟨h.reserved.commit hp hrow, h.writes, h.key, ?_⟩
  intro old hold
  rw [hp.apply_messages] at hold
  rcases List.mem_append.1 hold with hold | hold
  · exact h.fresh old hold
  · rw [List.mem_singleton.1 hold]
    exact hunlike

/-- The stages of the other transactions. -/
theorem StageInv.commit (h : StageInv s.db other) (hp : Pending s.db tx message)
    (hrow : other.rowLock ≠ some message.conversationId)
    (hunlike : ∀ message', other.pending = some message' → message'.id ≠ message.id ∧ message'.key ≠ message.key) :
    StageInv (s.db.apply tx.writes) other := by
  have hpending : ∀ message', Pending s.db other message' → other.pending = some message' →
      Pending (s.db.apply tx.writes) other message' :=
    fun message' hother heq => hother.commit hp hrow (hunlike message' heq)
  unfold StageInv at h ⊢
  unfold Tx.pending at hpending
  cases hstage : other.stage with
  | lockWriteAuthority => rwa [hstage] at h
  | lockIdempotencyKey => rwa [hstage] at h
  | existing => rwa [hstage] at h
  | authorizeExisting found =>
    rw [hstage] at h
    exact ⟨h.1, h.2.commit hp⟩
  | reserveMessageSlot => rwa [hstage] at h
  | authorize slot =>
    rw [hstage] at h
    exact ⟨h.1.commit hp hrow, h.2⟩
  | resolveThreadRoot slot =>
    rw [hstage] at h
    exact ⟨h.1.commit hp hrow, h.2⟩
  | validateMentions slot threadRootMessageId =>
    rw [hstage] at h
    exact ⟨h.1.commit hp hrow, h.2⟩
  | insert slot threadRootMessageId =>
    rw [hstage] at h
    exact ⟨h.1.commit hp hrow, h.2⟩
  | attach message' =>
    rw [hstage] at h hpending
    exact hpending message' h rfl
  | record message' =>
    rw [hstage] at h hpending
    exact hpending message' h rfl
  | currentWriteAuthority message' status =>
    rw [hstage] at h hpending
    cases status with
    | created => exact hpending message' h rfl
    | duplicate => exact ⟨h.1, h.2.commit hp⟩
  | committed message' status =>
    rw [hstage] at h
    cases status with
    | created => exact ⟨h.1, h.2.1, h.2.2.commit hp⟩
    | duplicate => exact ⟨h.1, h.2.commit hp⟩
  | failed reason => rwa [hstage] at h

/-- The next message of a conversation. -/
theorem Pending.numbered (h : StateInv db s) (hp : Pending s.db tx message) :
    ∀ conversation ∈ (s.db.apply tx.writes).conversations, NumberedFrom db conversation (s.db.apply tx.writes) := by
  intro conversation hconversation
  rw [hp.apply_conversations] at hconversation
  obtain ⟨old, hold, rfl⟩ := List.mem_map.1 hconversation
  obtain ⟨first, hfirst, hid, htenant, hnext, hnumbered⟩ := h.numbered old hold
  have hmessages : (s.db.apply tx.writes).messagesOf old.id =
      s.db.messagesOf old.id ++ if old.id = message.conversationId then [message] else [] := by
    unfold Db.messagesOf
    rw [hp.apply_messages, List.filter_append]
    congr 1
    by_cases heq : old.id = message.conversationId
    · simp [heq]
    · simp [heq, Ne.symm heq]
  by_cases heq : old.id = message.conversationId
  · rw [if_pos heq] at hmessages ⊢
    obtain ⟨reserved, hreserved, hreservedId, hsequence⟩ := hp.reserved.next
    have hsame : reserved = old := List.inj_on_of_nodup_map h.conversationIds hreserved hold (hreservedId.trans heq.symm)
    subst hsame
    refine ⟨first, hfirst, hid, htenant, ?_, ?_⟩
    · dsimp only
      rw [hmessages, List.length_append, List.length_singleton]
      omega
    · dsimp only
      rw [hmessages]
      refine Consecutive.numbered_append.2 ⟨hnumbered, ?_⟩
      rw [Consecutive.numbered_cons]
      exact ⟨by omega, Consecutive.numbered_nil _⟩
  · rw [if_neg heq, List.append_nil] at hmessages
    rw [if_neg heq]
    refine ⟨first, hfirst, hid, htenant, ?_, ?_⟩
    · rw [hmessages]
      exact hnext
    · rw [hmessages]
      exact hnumbered

/-- The commit of a new message. -/
theorem StateInv.commit_created (h : StateInv db s) (htx : s.txs[p]? = some tx)
    (hstage : tx.stage = .currentWriteAuthority message .created) : StateInv db (commit s p tx message .created) := by
  have hp : Pending s.db tx message := by
    have := h.stages p tx htx
    unfold StageInv at this
    rwa [hstage] at this
  have hpending : tx.pending = some message := by
    unfold Tx.pending
    rw [hstage]
  have hlength : p < s.txs.length := (List.getElem?_eq_some_iff.1 htx).1
  unfold commit
  refine ⟨?_, hp.numbered h, ?_, ?_, ?_, ?_, ?_⟩
  · have hids : (s.db.apply tx.writes).conversations.map Conversation.id = s.db.conversations.map Conversation.id := by
      rw [hp.apply_conversations, List.map_map]
      apply List.map_congr_left
      intro conversation _
      simp only [Function.comp]
      split <;> rfl
    rw [hids]
    exact h.conversationIds
  · rw [hp.apply_messages, List.map_append, List.nodup_append]
    refine ⟨h.keys, List.nodup_singleton _, ?_⟩
    intro key hkey key' hkey'
    rw [List.map_singleton, List.mem_singleton] at hkey'
    obtain ⟨old, hold, rfl⟩ := List.mem_map.1 hkey
    rw [hkey']
    exact (hp.fresh old hold).2.symm
  · intro q other hother
    rcases get_set hother with ⟨-, rfl⟩ | ⟨hq, hget⟩
    · refine ⟨rfl, hp.writes, ?_, hp.key⟩
      rw [hp.apply_messages]
      exact List.mem_append_right _ (by simp)
    · refine (h.stages q other hget).commit hp (h.rows p q tx other _ (Ne.symm hq) htx hget hp.reserved.row) ?_
      intro message' hpending'
      exact h.pending q p other tx message' message hq hget htx hpending' hpending
  · intro q r other other' id hne hother hother' hrow
    rcases get_set hother with ⟨-, rfl⟩ | ⟨-, hget⟩
    · cases hrow
    · rcases get_set hother' with ⟨-, rfl⟩ | ⟨-, hget'⟩
      · intro hnone
        cases hnone
      · exact h.rows q r other other' id hne hget hget' hrow
  · intro q r other other' message₁ message₂ hne hother hother' hpending₁ hpending₂
    rcases get_set hother with ⟨-, rfl⟩ | ⟨-, hget⟩
    · cases hpending₁
    · rcases get_set hother' with ⟨-, rfl⟩ | ⟨-, hget'⟩
      · cases hpending₂
      · exact h.pending q r other other' message₁ message₂ hne hget hget' hpending₁ hpending₂
  · obtain ⟨order, hserial⟩ := h.serial
    have hnew : p ∉ order := by
      intro hmem
      obtain ⟨message', other, hother, hcommitted⟩ := (hserial.created p).1 hmem
      rw [htx] at hother
      rw [← Option.some.inj hother, hstage] at hcommitted
      cases hcommitted
    refine ⟨order ++ [p], ?_, ?_, ?_⟩
    · rw [List.nodup_append]
      refine ⟨hserial.nodup, List.nodup_singleton _, ?_⟩
      intro q hq q' hq'
      rw [List.mem_singleton.1 hq']
      rintro rfl
      exact hnew hq
    · intro q
      rw [List.mem_append, List.mem_singleton, hserial.created]
      constructor
      · rintro (⟨message', other, hother, hcommitted⟩ | rfl)
        · refine ⟨message', other, ?_, hcommitted⟩
          have hne : p ≠ q := by
            rintro rfl
            exact hnew ((hserial.created p).2 ⟨message', other, hother, hcommitted⟩)
          exact (List.getElem?_set_ne hne).trans hother
        · exact ⟨message, _, List.getElem?_set_self hlength, rfl⟩
      · rintro ⟨message', other, hother, hcommitted⟩
        rcases get_set hother with ⟨hq, -⟩ | ⟨-, hget⟩
        · exact Or.inr hq
        · exact Or.inl ⟨message', other, hget, hcommitted⟩
    · have hsame : (order ++ [p]).map (State.writesOf
          { db := s.db.apply tx.writes,
            txs := s.txs.set p { tx.to (.committed message .created) with keyLock := none, rowLock := none } }) =
          order.map s.writesOf ++ [tx.writes] := by
        rw [List.map_append, List.map_singleton]
        congr 1
        · apply List.map_congr_left
          intro q hq
          have hne : p ≠ q := by
            rintro rfl
            exact hnew hq
          unfold State.writesOf
          dsimp only
          rw [List.getElem?_set_ne hne]
        · unfold State.writesOf
          dsimp only
          rw [List.getElem?_set_self hlength]
          rfl
      rw [hsame, List.foldl_append, ← hserial.db]
      rfl

/-- A duplicate has nothing to commit. -/
theorem StateInv.commit_duplicate (h : StateInv db s) (htx : s.txs[p]? = some tx)
    (hstage : tx.stage = .currentWriteAuthority message .duplicate) : StateInv db (commit s p tx message .duplicate) := by
  obtain ⟨hclean, hfound⟩ : Clean tx ∧ Found s.db tx message := by
    have := h.stages p tx htx
    unfold StageInv at this
    rwa [hstage] at this
  unfold commit
  rw [hclean.writes, apply_empty]
  apply h.advanced htx
  · intro message'
    rw [hstage]
    intro heq
    cases heq
  · exact ⟨⟨rfl, hfound.mem, hfound.key⟩, rfl, (fun _ h => by cases h), (fun _ h => by cases h), (fun _ h => by cases h)⟩

end Commit

/-! ### Runs -/

theorem running_of_advance {answer : Answer} (h : advance rt s p tx answer = some tx') :
    tx.running = true := by
  unfold Tx.running
  cases hstage : tx.stage with
  | committed message status =>
    unfold advance at h
    rw [hstage] at h
    cases h
  | failed reason =>
    unfold advance at h
    rw [hstage] at h
    cases h
  | _ => rfl

theorem open_of_running (h : tx.running = true) (message : Message) (status : Accepted) :
    tx.stage ≠ .committed message status := by
  intro hstage
  unfold Tx.running at h
  rw [hstage] at h
  cases h

/-- What an event can do. -/
inductive Steps (rt : Runtime) (s : State) : Event → State → Prop
  | rejected (attrs : Attrs) (subject : Subject) : Steps rt s (.call attrs subject) s
  | start (attrs : Attrs) (subject : Subject) (request : Request) :
      Steps rt s (.call attrs subject) { s with txs := s.txs ++ [Tx.start request] }
  | advance (p : Nat) (answer : Answer) (tx tx' : Tx) (get : s.txs[p]? = some tx)
      (advanced : advance rt s p tx answer = some tx') : Steps rt s (.advance p answer) { s with txs := s.txs.set p tx' }
  | commit (p : Nat) (answer : Answer) (tx : Tx) (message : Message) (status : Accepted) (get : s.txs[p]? = some tx)
      (stage : tx.stage = .currentWriteAuthority message status) :
      Steps rt s (.advance p answer) (commit s p tx message status)
  | abort (p : Nat) (reason : Reason) (tx : Tx) (get : s.txs[p]? = some tx) (running : tx.running = true) :
      Steps rt s (.abort p reason) { s with txs := s.txs.set p (tx.rollback reason) }

theorem step_cases (h : step rt s event = some s') : Steps rt s event s' := by
  cases event with
  | call attrs subject =>
    simp only [step] at h
    split at h
    · cases h
      exact .start attrs subject _
    · cases h
      exact .rejected attrs subject
  | advance p answer =>
    simp only [step] at h
    split at h
    · cases h
    · rename_i tx htx
      split at h
      · rename_i message status _ hstage _
        cases h
        exact .commit p answer tx message status htx hstage
      · obtain ⟨tx', hadvance, rfl⟩ := Option.map_eq_some_iff.1 h
        exact .advance p answer tx tx' htx hadvance
  | abort p reason =>
    simp only [step] at h
    split at h
    · cases h
    · rename_i tx htx
      split at h
      · rename_i hrunning
        cases h
        exact .abort p reason tx htx hrunning
      · cases h

theorem StateInv.step (h : StateInv db s) (hstep : step rt s event = some s') : StateInv db s' := by
  cases step_cases hstep with
  | rejected attrs subject => exact h
  | start attrs subject request => exact h.start request
  | advance p answer tx tx' get advanced =>
    have hopen := open_of_running (running_of_advance advanced)
    exact h.advanced get (fun message => hopen message .created) (advance_spec (h.stages p tx get) advanced)
  | commit p answer tx message status get stage =>
    cases status with
    | created => exact h.commit_created get stage
    | duplicate => exact h.commit_duplicate get stage
  | abort p reason tx get running =>
    have hopen := open_of_running running
    exact h.advanced get (fun message => hopen message .created) (advanced_rollback s p tx reason)

theorem run_inv (h : StateInv db s) (hrun : run rt s events = some s') : StateInv db s' := by
  unfold run at hrun
  induction events generalizing s with
  | nil =>
    cases hrun
    exact h
  | cons event events ih =>
    rw [List.foldlM_cons] at hrun
    obtain ⟨mid, hstep, hrest⟩ := Option.bind_eq_some_iff.1 hrun
    exact ih (h.step hstep) hrest

/-- A transaction that has ended stays as it is. -/
theorem ended_step (hstep : step rt s event = some s') (htx : s.txs[p]? = some tx)
    (hended : tx.running = false) : s'.txs[p]? = some tx := by
  have hne : ∀ q other, s.txs[q]? = some other → other.running = true → q ≠ p := by
    rintro q other hother hrunning rfl
    rw [htx] at hother
    rw [← Option.some.inj hother, hended] at hrunning
    cases hrunning
  cases step_cases hstep with
  | rejected attrs subject => exact htx
  | start attrs subject request =>
    obtain ⟨hlt, -⟩ := List.getElem?_eq_some_iff.1 htx
    exact (List.getElem?_append_left hlt).trans htx
  | advance q answer other other' get advanced =>
    exact (List.getElem?_set_ne (hne q other get (running_of_advance advanced))).trans htx
  | commit q answer other message status get stage =>
    have hrunning : other.running = true := by
      unfold Tx.running
      rw [stage]
    exact (List.getElem?_set_ne (hne q other get hrunning)).trans htx
  | abort q reason other get running => exact (List.getElem?_set_ne (hne q other get running)).trans htx

theorem ended_run (hrun : run rt s events = some s') (htx : s.txs[p]? = some tx)
    (hended : tx.running = false) : s'.txs[p]? = some tx := by
  unfold run at hrun
  induction events generalizing s with
  | nil =>
    cases hrun
    exact htx
  | cons event events ih =>
    rw [List.foldlM_cons] at hrun
    obtain ⟨mid, hstep, hrest⟩ := Option.bind_eq_some_iff.1 hrun
    exact ih hrest (ended_step hstep htx hended)

/-! ### The claims of a run -/

/-- The transaction of an event. -/
def Event.transaction : Event → Option Nat
  | .call _ _ => none
  | .advance p _ => some p
  | .abort p _ => some p

/-- What holds after the events from a database. -/
structure Sequenced (rt : Runtime) (db : Db) (events : List Event) (s : State) : Prop where
  numbered : ∀ conversation ∈ s.db.conversations, NumberedFrom db conversation s.db
  keys : (s.db.messages.map Message.key).Nodup
  returned : ∀ (p : Nat) tx message status, s.txs[p]? = some tx → tx.stage = .committed message status →
    message ∈ s.db.messages ∧ message.key = tx.request.key
  same : ∀ (p q : Nat) tx tx' message message' status status', s.txs[p]? = some tx → s.txs[q]? = some tx' →
    tx.request.key = tx'.request.key → tx.stage = .committed message status → tx'.stage = .committed message' status' →
    message = message'
  created : ∀ (p : Nat) tx message status, s.txs[p]? = some tx → tx.stage = .committed message status →
    ∃! q : Nat, ∃ tx' : Tx, s.txs[q]? = some tx' ∧ tx'.request.key = tx.request.key ∧
      ∃ message', tx'.stage = .committed message' .created
  failed : ∀ before event after s₁ s₂ (p : Nat) tx reason, events = before ++ event :: after →
    run rt ⟨db, []⟩ before = some s₁ → step rt s₁ event = some s₂ → event.transaction = some p →
    s.txs[p]? = some tx → tx.stage = .failed reason → s₂.db = s₁.db
  rejected : ∀ before attrs subject after s₁ s₂, events = before ++ .call attrs subject :: after →
    run rt ⟨db, []⟩ before = some s₁ → step rt s₁ (.call attrs subject) = some s₂ → s₂.db = s₁.db
  serial : ∃ order, Serial db s order

theorem StateInv.found (h : StateInv db s) {status : Accepted} (htx : s.txs[p]? = some tx)
    (hstage : tx.stage = .committed message status) : Found s.db tx message := by
  have := h.stages p tx htx
  unfold StageInv at this
  rw [hstage] at this
  cases status with
  | created => exact this.2.2
  | duplicate => exact this.2

theorem StateInv.key_inj (h : StateInv db s) (hmem : message ∈ s.db.messages) (hmem' : message' ∈ s.db.messages)
    (hkey : message.key = message'.key) : message = message' :=
  List.inj_on_of_nodup_map h.keys hmem hmem' hkey

private theorem foldl_apply_messages (db : Db) (writes : List Writes) :
    (writes.foldl Db.apply db).messages = db.messages ++ writes.flatMap Writes.messages := by
  induction writes generalizing db with
  | nil => simp
  | cons w writes ih =>
    rw [List.foldl_cons, ih]
    unfold Db.apply
    simp

/-- One call has created the message of a key. -/
theorem StateInv.exists_created (h : StateInv db s) (hdb : db.messages = [])
    (hmem : message ∈ s.db.messages) : ∃! q, s.Created q message := by
  obtain ⟨order, hserial⟩ := h.serial
  have hwritten : ∀ q other, s.Created q other → (s.writesOf q).messages = [other] := by
    rintro q other ⟨tx, htx, hstage⟩
    have := h.stages q tx htx
    unfold StageInv at this
    rw [hstage] at this
    unfold State.writesOf
    rw [htx]
    exact this.2.1
  have hmessages : s.db.messages = order.flatMap fun q => (s.writesOf q).messages := by
    have hall := congrArg Db.messages hserial.db
    rw [foldl_apply_messages, hdb, List.nil_append, List.flatMap_map] at hall
    exact hall
  rw [hmessages] at hmem
  obtain ⟨q, hq, hwrites⟩ := List.mem_flatMap.1 hmem
  obtain ⟨other, hcreated⟩ := (hserial.created q).1 hq
  have hother := hwritten q other hcreated
  rw [hother, List.mem_singleton] at hwrites
  subst hwrites
  refine ⟨q, hcreated, fun r hr => ?_⟩
  by_contra hne
  -- two calls would have written the key twice
  have hkeys := h.keys
  rw [hmessages, List.map_flatMap, List.nodup_flatMap] at hkeys
  have hsymm : Std.Symm (Function.onFun List.Disjoint fun a => (s.writesOf a).messages.map Message.key) :=
    ⟨fun a b hab key hb ha => hab ha hb⟩
  have hdisjoint := hkeys.2.forall ((hserial.created r).2 ⟨message, hr⟩) hq hne
  change List.Disjoint ((s.writesOf r).messages.map Message.key) ((s.writesOf q).messages.map Message.key) at hdisjoint
  rw [hwritten r message hr, hother] at hdisjoint
  exact hdisjoint (List.mem_singleton.2 rfl) (List.mem_singleton.2 rfl)

theorem created_once (h : StateInv db s) (hdb : db.messages = []) {status : Accepted} (htx : s.txs[p]? = some tx)
    (hstage : tx.stage = .committed message status) :
    ∃! q : Nat, ∃ tx' : Tx, s.txs[q]? = some tx' ∧ tx'.request.key = tx.request.key ∧
      ∃ message', tx'.stage = .committed message' .created := by
  have hfound := h.found htx hstage
  obtain ⟨q, ⟨tx', htx', hstage'⟩, hunique⟩ := h.exists_created hdb hfound.mem
  have hfound' := h.found htx' hstage'
  refine ⟨q, ⟨tx', htx', hfound'.key.symm.trans hfound.key, message, hstage'⟩, ?_⟩
  rintro r ⟨other, hother, hkey, message', hcommitted⟩
  have hotherFound := h.found hother hcommitted
  have hsame : message' = message :=
    h.key_inj hotherFound.mem hfound.mem (hotherFound.key.trans (hkey.trans hfound.key.symm))
  rw [hsame] at hcommitted
  exact hunique r ⟨other, hother, hcommitted⟩

/-- An event that changes the database ends a call with success. -/
theorem db_eq_or_committed (hstep : step rt s event = some s') (hp : event.transaction = some p) :
    s'.db = s.db ∨ ∃ tx message status, s'.txs[p]? = some tx ∧ tx.stage = .committed message status := by
  cases step_cases hstep with
  | rejected attrs subject => exact Or.inl rfl
  | start attrs subject request => exact Or.inl rfl
  | advance q answer tx tx' get advanced => exact Or.inl rfl
  | commit q answer tx message status get stage =>
    cases hp
    obtain ⟨hlt, -⟩ := List.getElem?_eq_some_iff.1 get
    exact Or.inr ⟨_, message, status, List.getElem?_set_self hlt, rfl⟩
  | abort q reason tx get running => exact Or.inl rfl

theorem run_append {events' : List Event} (h : run rt s (events ++ events') = some s') :
    ∃ mid, run rt s events = some mid ∧ run rt mid events' = some s' := by
  unfold run at h ⊢
  rw [List.foldlM_append] at h
  exact Option.bind_eq_some_iff.1 h

/-- In every run of calls beside one another, with any answers of other components, delays and aborts. -/
theorem messages_sequenced (rt : Runtime) (db : Db) (hdb : db.Initial) (events : List Event) (s : State)
    (hrun : run rt ⟨db, []⟩ events = some s) : Sequenced rt db events s := by
  have h := run_inv (inv_initial hdb) hrun
  refine ⟨h.numbered, h.keys, ?_, ?_, ?_, ?_, ?_, h.serial⟩
  · intro p tx message status htx hstage
    have hfound := h.found htx hstage
    exact ⟨hfound.mem, hfound.key⟩
  · intro p q tx tx' message message' status status' htx htx' hkey hstage hstage'
    have hfound := h.found htx hstage
    have hfound' := h.found htx' hstage'
    exact h.key_inj hfound.mem hfound'.mem (hfound.key.trans (hkey.trans hfound'.key.symm))
  · intro p tx message status htx hstage
    exact created_once h hdb.messages htx hstage
  · rintro before event after s₁ s₂ p tx reason rfl hbefore hstep hp htx hstage
    obtain ⟨mid, hmid, hrest⟩ := run_append hrun
    obtain rfl := Option.some.inj (hbefore.symm.trans hmid)
    rcases db_eq_or_committed hstep hp with hsame | ⟨tx', message, status, htx', hstage'⟩
    · exact hsame
    · -- the call would have ended with success
      unfold run at hrest
      rw [List.foldlM_cons, hstep] at hrest
      have hended : tx'.running = false := by
        unfold Tx.running
        rw [hstage']
      have hlast := ended_run hrest htx' hended
      rw [htx] at hlast
      rw [Option.some.inj hlast, hstage'] at hstage
      cases hstage
  · rintro before attrs subject after s₁ s₂ - - hstep
    cases step_cases hstep with
    | rejected => rfl
    | start => rfl

/-- Four calls, of which the second is a retry of the first and the fourth replies to no message: the first two and the
third run beside one another, and the fourth fails after it has reserved a sequence. -/
def sampleAttrs (clientMessageId : String) (replyToMessageId : Option String) : Attrs :=
  { tenantId := some "tenant-1", conversationId := some "conversation-1", senderUserId := some "user-1",
    senderDeviceId := some "device-1", clientMessageId := some clientMessageId, replyToMessageId := replyToMessageId,
    mentionedUserIds := some [], body := some "hello", metadata := [], attachmentIds := [] }

def sampleSubject : Subject := ⟨"tenant-1", "user-1", "device-1", none⟩

def sampleRuntime : Runtime :=
  { uuid := fun _ => true, graphemes := String.length, encodedMetadata := fun _ => some 2,
    validateMetadata := fun _ => .ok (), lockKey := fun key => key.clientMessageId.length }

def sampleAnswer (n : Nat) : Answer := ⟨.ok (), [], [], fun k => "id-" ++ toString [n, k], n⟩

def sampleEvents : List Event :=
  [.call (sampleAttrs "message-1" none) sampleSubject, .call (sampleAttrs "message-1" none) sampleSubject,
   .call (sampleAttrs "message-two" none) sampleSubject, .call (sampleAttrs "message-four" (some "id-9")) sampleSubject] ++
    ([3, 3, 3, 3, 3, 3, 0, 0, 1, 2, 2, 2, 0, 0, 0, 0, 0, 0, 0, 0, 0] ++ [2, 2, 2, 2, 2, 2, 2, 2] ++ [1, 1, 1, 1]).map
      fun p => .advance p (sampleAnswer p)

def sampleDb : Db := ⟨[⟨"conversation-1", "tenant-1", 5⟩], [], [], [], []⟩

/-- What a call has come to. -/
def Stage.outcome : Stage → Option (Nat × Accepted)
  | .committed message status => some (message.conversationSequence, status)
  | _ => none

theorem messages_sequenced_sample : ∃ s, run sampleRuntime ⟨sampleDb, []⟩ sampleEvents = some s ∧
    Sequenced sampleRuntime sampleDb sampleEvents s ∧
    s.txs.map (fun tx => tx.stage.outcome) = [some (5, .created), some (5, .duplicate), some (6, .created), none] ∧
    s.db.conversations.map Conversation.nextSequence = [7] := by
  have hrun : ((run sampleRuntime ⟨sampleDb, []⟩ sampleEvents).map fun s =>
      (s.txs.map (fun tx => tx.stage.outcome), s.db.conversations.map Conversation.nextSequence)) =
      some ([some (5, .created), some (5, .duplicate), some (6, .created), none], [7]) := by decide
  obtain ⟨s, hs, heq⟩ := Option.map_eq_some_iff.1 hrun
  obtain ⟨houtcomes, hnext⟩ := Prod.mk.inj heq
  exact ⟨s, hs, messages_sequenced sampleRuntime sampleDb ⟨by decide, rfl⟩ sampleEvents s hs, houtcomes, hnext⟩

end KComms.Messaging
