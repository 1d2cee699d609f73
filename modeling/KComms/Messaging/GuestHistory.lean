import KComms.Messaging.History

/-!
# What guests see (`EventVisibility`)

The reads of a guest and the events that the channel of a guest pushes, in two states that differ in what was before the
admission.  Everything is the same but the counts of replies, which are of whole threads (`blind_iff`).
-/

namespace KComms.Messaging

/-! ### Events of the channel -/

/-- A value of a payload, under an atom or a string. -/
inductive PayloadValue
  | absent
  | integer (value : Int)
  | string (value : String)
  | other
  deriving DecidableEq, Repr

/-- A payload that is a map; the id of the message is found under four keys. -/
structure EventPayload where
  conversationSequence : PayloadValue
  messageId : PayloadValue
  deriving DecidableEq, Repr

inductive EventDenied
  | hidden | forbidden
  deriving DecidableEq, Repr

def messageEvents : List String :=
  ["message.created.v1", "message.updated.v1", "message.deleted.v1", "message.reaction_added.v1",
   "message.reaction_removed.v1"]

/-- What the runtime reads: UUIDs and whole strings as integers. -/
structure Parsing where
  uuid : String → Bool
  parseInteger : String → Option Int

section Event

variable (parsing : Parsing) (content : Content) (conversationId : String) (reader : Reader)

/-- `event_sequence`; a sequence that is no integer is invalid, and an absent one is nothing. -/
def eventSequence : PayloadValue → Except EventDenied (Option Int)
  | .integer value => .ok (some value)
  | .string value =>
    match parsing.parseInteger value with
    | some value => .ok (some value)
    | none => .error .hidden
  | .absent => .ok none
  | .other => .error .hidden

/-- `authorize_guest_message_id` -/
def authorizeGuestMessageId : PayloadValue → Except EventDenied Unit
  | .string messageId =>
    match messageEventVisible parsing.uuid content conversationId messageId reader with
    | .ok true => .ok ()
    | .ok false => .error .hidden
    | .error _ => .error .forbidden
  | _ => .error .hidden

/-- `authorize_guest_message_event`, of a payload that may not be a map. -/
def authorizeGuestMessageEvent : Option EventPayload → Except EventDenied Unit
  | none => .error .hidden
  | some payload =>
    match reader.guestHistoryFromSequence with
    | none => .error .forbidden
    | some historyFromSequence =>
      if 0 < historyFromSequence then do
        match ← eventSequence parsing payload.conversationSequence with
        | some sequence => if historyFromSequence ≤ sequence then .ok () else .error .hidden
        | none => authorizeGuestMessageId parsing content conversationId reader payload.messageId
      else .error .forbidden

/-- `EventVisibility.authorize` -/
def authorizeEvent (event : String) (payload : Option EventPayload) : Except EventDenied Unit :=
  if event ∈ messageEvents then
    match reader.accountType with
    | .guest => authorizeGuestMessageEvent parsing content conversationId reader payload
    | _ => .ok ()
  else .ok ()

end Event

/-! ### Two states -/

/-- The message was in the conversation before the admission. -/
def before (conversationId : String) (f : Int) (message : Message) : Bool :=
  message.conversationId = conversationId ∧ (message.conversationSequence : Int) < f

/-- The states differ in messages before the admission only. -/
structure Agree (conversationId : String) (f : Int) (s s' : Content) : Prop where
  messages : s.messages.filter (fun message => !before conversationId f message) =
    s'.messages.filter fun message => !before conversationId f message
  attachments : ∀ message ∈ s.messages, before conversationId f message = false →
    (s.attachments.filter fun attachment => attachment.messageId = some message.id) =
      s'.attachments.filter fun attachment => attachment.messageId = some message.id
  reactions : ∀ message ∈ s.messages, before conversationId f message = false →
    (s.reactions.filter fun reaction => reaction.messageId = message.id) =
      s'.reactions.filter fun reaction => reaction.messageId = message.id
  mentions : ∀ message ∈ s.messages, before conversationId f message = false →
    (s.mentions.filter fun mention => mention.messageId = message.id) =
      s'.mentions.filter fun mention => mention.messageId = message.id
  users : s.users = s'.users
  authorizeRead : s.authorizeRead = s'.authorizeRead

/-- The guest sees the same in both states. -/
structure Blind (conversationId : String) (reader : Reader) (s s' : Content) : Prop where
  listHistory : ∀ opts, listHistory s conversationId reader opts = listHistory s' conversationId reader opts
  listHistoryPage : ∀ uuid opts,
    listHistoryPage uuid s conversationId reader opts = listHistoryPage uuid s' conversationId reader opts
  refreshSenderLabels : ∀ uuid messageIds,
    refreshSenderLabels uuid s conversationId messageIds reader = refreshSenderLabels uuid s' conversationId messageIds reader
  messageEventVisible : ∀ uuid messageId,
    messageEventVisible uuid s conversationId messageId reader = messageEventVisible uuid s' conversationId messageId reader
  authorizeEvent : ∀ parsing event payload,
    authorizeEvent parsing s conversationId reader event payload = authorizeEvent parsing s' conversationId reader event payload

/-- The replies to a root from before the admission. -/
def repliesBefore (conversationId : String) (f : Int) (content : Content) (rootId : String) : Nat :=
  content.messages.countP fun message =>
    before conversationId f message && decide (message.threadRootMessageId = some rootId)

/-- Every message that the guest may read is in a thread with as many replies from before the admission. -/
def SameRepliesBefore (conversationId : String) (f : Int) (reader : Reader) (s s' : Content) : Prop :=
  ∀ message ∈ s.messages, message.tenantId = reader.tenantId → message.conversationId = conversationId →
    f ≤ message.conversationSequence →
    repliesBefore conversationId f s message.root = repliesBefore conversationId f s' message.root

section Agree

variable {conversationId : String} {f : Int} {s s' : Content} {reader : Reader}

theorem before_eq_false {message : Message} : before conversationId f message = false ↔
    (message.conversationId = conversationId → f ≤ message.conversationSequence) := by
  unfold before
  rw [decide_eq_false_iff_not, not_and]
  apply imp_congr_right
  intro _
  omega

/-- A query for messages from the admission on does not see what was before. -/
theorem Agree.filter (h : Agree conversationId f s s') {p : Message → Bool}
    (hp : ∀ message, p message = true → before conversationId f message = false) :
    s.messages.filter p = s'.messages.filter p := by
  have hsplit : ∀ messages : List Message, messages.filter p =
      (messages.filter fun message => !before conversationId f message).filter p := by
    intro messages
    rw [List.filter_filter]
    apply List.filter_congr
    intro message _
    by_cases hmessage : p message = true
    · rw [hmessage, hp message hmessage]
      rfl
    · simp [hmessage]
  rw [hsplit s.messages, hsplit s'.messages, h.messages]

theorem Agree.rows (h : Agree conversationId f s s') {tenantId : String} {afterSequence : Int}
    (hafter : f - 1 ≤ afterSequence) (beforeSequence : Option Int) :
    s.rows tenantId conversationId afterSequence beforeSequence = s'.rows tenantId conversationId afterSequence beforeSequence := by
  unfold Content.rows
  rw [h.filter]
  intro message hmessage
  rw [decide_eq_true_eq] at hmessage
  rw [before_eq_false]
  intro _
  omega

/-- A count of replies is one of those before the admission and one that is the same in both states. -/
theorem Agree.replies (h : Agree conversationId f s s') (rootId : String) :
    s.replies rootId = s'.replies rootId ↔
      repliesBefore conversationId f s rootId = repliesBefore conversationId f s' rootId := by
  have hsplit : ∀ content : Content, content.replies rootId = repliesBefore conversationId f content rootId +
      (content.messages.filter fun message => !before conversationId f message).countP
        fun message => message.threadRootMessageId = some rootId := by
    intro content
    unfold Content.replies repliesBefore
    induction content.messages with
    | nil => rfl
    | cons message messages ih =>
      rw [List.countP_cons, List.countP_cons, ih]
      by_cases hbefore : before conversationId f message = true
      · rw [List.filter_cons_of_neg (by simp [hbefore])]
        simp only [hbefore, Bool.true_and]
        omega
      · rw [Bool.not_eq_true] at hbefore
        rw [List.filter_cons_of_pos (by simp [hbefore]), List.countP_cons]
        simp only [hbefore, Bool.false_and, Bool.false_eq_true, if_false]
        omega
  rw [hsplit s, hsplit s', h.messages]
  omega

theorem Agree.hydrate (h : Agree conversationId f s s') {message : Message} (hmem : message ∈ s.messages)
    (hlater : before conversationId f message = false) : hydrateMessage s message = hydrateMessage s' message ↔
      repliesBefore conversationId f s message.root = repliesBefore conversationId f s' message.root := by
  rw [← h.replies]
  unfold hydrateMessage
  rw [h.attachments message hmem hlater, h.reactions message hmem hlater, h.mentions message hmem hlater]
  constructor
  · exact fun heq => congrArg MessageView.threadReplyCount heq
  · intro heq
    rw [heq]

theorem Agree.hydrateMessages (h : Agree conversationId f s s')
    (hsame : SameRepliesBefore conversationId f reader s s') {messages : List Message}
    (hmessages : ∀ message ∈ messages, message ∈ s.messages ∧ message.tenantId = reader.tenantId ∧
      message.conversationId = conversationId ∧ f ≤ message.conversationSequence) :
    hydrateMessages s messages = hydrateMessages s' messages := by
  apply List.map_congr_left
  intro message hmessage
  obtain ⟨hmem, htenant, hconversation, hlater⟩ := hmessages message hmessage
  exact (h.hydrate hmem (before_eq_false.2 fun _ => hlater)).2 (hsame message hmem htenant hconversation hlater)

/-- The query for one sequence. -/
theorem rows_single {content : Content} {message : Message} (hmem : message ∈ content.messages) {tenantId : String}
    (htenant : message.tenantId = tenantId) (hconversation : message.conversationId = conversationId)
    (hlater : f ≤ message.conversationSequence) :
    content.rows tenantId conversationId (max ((message.conversationSequence : Int) - 1) (f - 1))
      (some ((message.conversationSequence : Int) + 1)) = [message] := by
  have hnodup : content.messages.Nodup := List.Nodup.of_map _ content.sequences
  have hone : content.messages.filter (fun other => decide (other.tenantId = tenantId ∧
      other.conversationId = conversationId ∧
      max ((message.conversationSequence : Int) - 1) (f - 1) < other.conversationSequence ∧
      ∀ before ∈ some ((message.conversationSequence : Int) + 1), (other.conversationSequence : Int) < before)) =
      content.messages.filter fun other => other == message := by
    apply List.filter_congr
    intro other hother
    rw [Bool.eq_iff_iff, decide_eq_true_eq, beq_iff_eq]
    constructor
    · rintro ⟨-, hsame, hgt, hlt⟩
      have := hlt _ rfl
      have hsequence : other.conversationSequence = message.conversationSequence := by omega
      exact List.inj_on_of_nodup_map content.sequences hother hmem
        (Prod.ext (hsame.trans hconversation.symm) hsequence)
    · rintro rfl
      refine ⟨htenant, hconversation, by omega, ?_⟩
      intro before hbefore
      rw [← Option.some.inj hbefore]
      omega
  unfold Content.rows
  rw [hone, List.filter_beq, List.count_eq_one_of_mem hnodup hmem]
  rfl

section Guest

variable (hguest : reader.accountType = .guest) (hfrom : reader.guestHistoryFromSequence = some f) (hpos : 0 < f)
include hguest hfrom hpos

theorem scoped_guest (requestedAfterSequence : Int) :
    scopedHistoryAfterSequence reader requestedAfterSequence = .ok (max requestedAfterSequence (f - 1)) := by
  unfold scopedHistoryAfterSequence
  rw [hguest, hfrom]
  dsimp only
  rw [if_pos hpos]

theorem listHistory_guest {content : Content} (hauthorize : content.authorizeRead conversationId reader = .ok ())
    (opts : Options) : listHistory content conversationId reader opts = .ok (hydrateMessages content
      ((content.rows reader.tenantId conversationId (max opts.afterSequence (f - 1)) opts.beforeSequence).take
        (clampLimit opts.limit (if opts.probeMore then 501 else 500)))) :=
  listHistory_ok hauthorize opts (scoped_guest hguest hfrom hpos opts.afterSequence)

theorem Agree.listHistory (h : Agree conversationId f s s')
    (hsame : s.authorizeRead conversationId reader = .ok () → SameRepliesBefore conversationId f reader s s')
    (opts : Options) : listHistory s conversationId reader opts = listHistory s' conversationId reader opts := by
  cases hauthorize : s.authorizeRead conversationId reader with
  | error e =>
    unfold KComms.Messaging.listHistory
    rw [← h.authorizeRead, hauthorize]
    rfl
  | ok allowed =>
    have hauthorize' := hauthorize
    rw [h.authorizeRead] at hauthorize'
    rw [listHistory_guest hguest hfrom hpos hauthorize, listHistory_guest hguest hfrom hpos hauthorize']
    have hrows : s.rows reader.tenantId conversationId (max opts.afterSequence (f - 1)) opts.beforeSequence =
        s'.rows reader.tenantId conversationId (max opts.afterSequence (f - 1)) opts.beforeSequence :=
      h.rows (by omega) _
    rw [← hrows, h.hydrateMessages (hsame hauthorize)]
    intro message hmessage
    have hmem := mem_rows.1 (List.mem_of_mem_take hmessage)
    exact ⟨hmem.1, hmem.2.1, hmem.2.2.1, by omega⟩

theorem Agree.messageEventVisible (h : Agree conversationId f s s') (uuid : String → Bool) (messageId : String) :
    messageEventVisible uuid s conversationId messageId reader = messageEventVisible uuid s' conversationId messageId reader := by
  have hany : ∀ messages : List Message, ∀ p : Message → Bool, messages.any p = !(messages.filter p).isEmpty := by
    intro messages p
    induction messages with
    | nil => rfl
    | cons message messages ih =>
      rw [List.any_cons, ih]
      by_cases hmessage : p message = true
      · rw [List.filter_cons_of_pos hmessage, hmessage]
        rfl
      · rw [List.filter_cons_of_neg hmessage]
        simp [hmessage]
  unfold KComms.Messaging.messageEventVisible
  rw [← h.authorizeRead, scoped_guest hguest hfrom hpos]
  split
  · cases s.authorizeRead conversationId reader with
    | error e => rfl
    | ok allowed =>
      change Except.ok _ = Except.ok _
      rw [hany, hany, h.filter]
      intro message hmessage
      rw [decide_eq_true_eq] at hmessage
      rw [before_eq_false]
      intro _
      omega
  · rfl

theorem Agree.refreshSenderLabels (h : Agree conversationId f s s') (uuid : String → Bool) (messageIds : List String) :
    refreshSenderLabels uuid s conversationId messageIds reader =
      refreshSenderLabels uuid s' conversationId messageIds reader := by
  unfold KComms.Messaging.refreshSenderLabels
  rw [← h.authorizeRead, scoped_guest hguest hfrom hpos, ← h.users]
  cases s.authorizeRead conversationId reader with
  | error e => rfl
  | ok allowed =>
    by_cases hvalid : validMessageIds uuid messageIds = true
    · rw [hvalid]
      change Except.ok _ = Except.ok _
      rw [h.filter]
      intro message hmessage
      rw [decide_eq_true_eq] at hmessage
      rw [before_eq_false]
      intro _
      omega
    · rw [Bool.not_eq_true] at hvalid
      rw [hvalid]
      rfl

/-- A guest who may read sees the counts: a page that ends with the message shows it. -/
theorem Agree.sameReplies (h : Agree conversationId f s s') (hauthorize : s.authorizeRead conversationId reader = .ok ())
    (hlist : ∀ opts, KComms.Messaging.listHistory s conversationId reader opts =
      KComms.Messaging.listHistory s' conversationId reader opts) : SameRepliesBefore conversationId f reader s s' := by
  intro message hmem htenant hconversation hlater
  have hread := hlist ⟨message.conversationSequence - 1, some (message.conversationSequence + 1), 1, false, false⟩
  have hauthorize' := hauthorize
  rw [h.authorizeRead] at hauthorize'
  rw [listHistory_guest hguest hfrom hpos hauthorize, listHistory_guest hguest hfrom hpos hauthorize'] at hread
  dsimp only at hread
  rw [← h.rows (by omega), rows_single hmem htenant hconversation hlater] at hread
  have hhydrate : hydrateMessage s message = hydrateMessage s' message := (List.cons.inj (Except.ok.inj hread)).1
  exact (h.hydrate hmem (before_eq_false.2 fun _ => hlater)).1 hhydrate

end Guest

end Agree

/-- Exactly the counts of replies can tell a guest of what was before the admission. -/
theorem blind_iff (conversationId : String) (reader : Reader) (f : Int) (hguest : reader.accountType = .guest)
    (hfrom : reader.guestHistoryFromSequence = some f) (hpos : 0 < f) (s s' : Content)
    (h : Agree conversationId f s s') : Blind conversationId reader s s' ↔
      (s.authorizeRead conversationId reader = .ok () → SameRepliesBefore conversationId f reader s s') := by
  constructor
  · exact fun hblind hauthorize => h.sameReplies hguest hfrom hpos hauthorize hblind.listHistory
  · intro hsame
    have hlist := h.listHistory hguest hfrom hpos hsame
    have hvisible := h.messageEventVisible hguest hfrom hpos
    refine ⟨hlist, ?_, h.refreshSenderLabels hguest hfrom hpos, hvisible, ?_⟩
    · intro uuid opts
      unfold listHistoryPage retainedSenderLabels
      dsimp only
      rw [hlist, h.users]
    · intro parsing event payload
      unfold authorizeEvent authorizeGuestMessageEvent authorizeGuestMessageId
      simp only [hvisible]

/-- A conversation of three messages and a guest who was admitted before the third, which replies to the first; the
second does so too, or not. -/
def sampleMessage (sequence : Nat) (threadRootMessageId : Option String) : Message :=
  { id := "message-" ++ toString sequence, tenantId := "tenant-1", conversationId := "conversation-1",
    senderUserId := "user-1", senderDeviceId := "device-1", replyToMessageId := threadRootMessageId,
    threadRootMessageId := threadRootMessageId, clientMessageId := "client-" ++ toString sequence,
    conversationSequence := sequence, body := some "hello", attachmentCount := 0, metadata := [], status := .active,
    editedAt := none, deletedAt := none, insertedAt := sequence }

def sampleContent (threadRootMessageId : Option String) : Content :=
  { messages := [sampleMessage 1 none, sampleMessage 2 threadRootMessageId, sampleMessage 3 (some "message-1")],
    attachments := [], reactions := [], mentions := [], users := [], authorizeRead := fun _ _ => .ok (),
    sequences := show [("conversation-1", 1), ("conversation-1", 2), ("conversation-1", 3)].Nodup by decide }

def sampleGuest : Reader := ⟨"tenant-1", "user-2", .guest, some 3⟩

theorem agree_sample : Agree "conversation-1" 3 (sampleContent (some "message-1")) (sampleContent none) :=
  ⟨by decide, fun _ _ _ => rfl, fun _ _ _ => rfl, fun _ _ _ => rfl, rfl, rfl⟩

theorem blind_iff_sample : Blind "conversation-1" sampleGuest (sampleContent (some "message-1")) (sampleContent none) ↔
    ((sampleContent (some "message-1")).authorizeRead "conversation-1" sampleGuest = .ok () →
      SameRepliesBefore "conversation-1" 3 sampleGuest (sampleContent (some "message-1")) (sampleContent none)) :=
  blind_iff "conversation-1" sampleGuest 3 rfl rfl (by decide) _ _ agree_sample

/-- The guest learns whether the second message was a reply. -/
theorem guest_sees_replies : Agree "conversation-1" 3 (sampleContent (some "message-1")) (sampleContent none) ∧
    ¬ Blind "conversation-1" sampleGuest (sampleContent (some "message-1")) (sampleContent none) := by
  refine ⟨agree_sample, fun h => ?_⟩
  have hpage := congrArg (fun result => result.toOption.map fun views => views.map MessageView.threadReplyCount)
    (h.listHistory ⟨0, none, 100, false, false⟩)
  revert hpage
  decide

end KComms.Messaging
