import KComms.Feed.UseConversationFeed

/-!
# Catching up closes gaps

Whatever order messages arrive in and however often, the contiguous sequence is the greatest one up to which all were
received (`tracks_run`), and the pages of a catch-up have all that was there when it began.
-/

namespace KComms.Feed

open Messaging (Content Reader scopedHistoryAfterSequence)
open ContiguousPrefix (Tracks)

/-! ### What is received -/

/-- The sequences that an event delivers to a conversation. -/
def FeedEvent.sequences (conversationId : String) : FeedEvent → Set Nat
  | .messages incoming =>
    {k | ∃ message ∈ incoming, message.conversationId = conversationId ∧ message.conversationSequence = k}
  | _ => ∅

def received (conversationId : String) (events : List FeedEvent) : Set Nat :=
  {k | ∃ event ∈ events, k ∈ event.sequences conversationId}

variable {after : Int} {content : Content}

theorem received_cons (conversationId : String) (event : FeedEvent) (events : List FeedEvent) :
    received conversationId (event :: events) =
      event.sequences conversationId ∪ received conversationId events := by
  ext k
  simp [received]

theorem mem_addFuture {current k : Nat} {incoming : List Message} : ∀ {future : Finset Nat},
    k ∈ addFuture current future incoming ↔
      k ∈ future ∨ (∃ message ∈ incoming, message.conversationSequence = k) ∧ current < k := by
  induction incoming with
  | nil => intro future; simp [addFuture]
  | cons message incoming ih =>
    intro future
    show k ∈ addFuture current (if current < message.conversationSequence then _ else future) incoming ↔ _
    rw [ih]
    by_cases hlt : current < message.conversationSequence
    · rw [if_pos hlt, Finset.mem_insert]
      constructor
      · rintro ((rfl | hk) | ⟨⟨other, hother, rfl⟩, hk⟩)
        · exact .inr ⟨⟨message, by simp, rfl⟩, hlt⟩
        · exact .inl hk
        · exact .inr ⟨⟨other, by simp [hother], rfl⟩, hk⟩
      · rintro (hk | ⟨⟨other, hother, rfl⟩, hk⟩)
        · exact .inl (.inr hk)
        · rcases List.mem_cons.1 hother with rfl | hother
          · exact .inl (.inl rfl)
          · exact .inr ⟨⟨other, hother, rfl⟩, hk⟩
    · rw [if_neg hlt]
      constructor
      · rintro (hk | ⟨⟨other, hother, rfl⟩, hk⟩)
        · exact .inl hk
        · exact .inr ⟨⟨other, by simp [hother], rfl⟩, hk⟩
      · rintro (hk | ⟨⟨other, hother, rfl⟩, hk⟩)
        · exact .inl hk
        · rcases List.mem_cons.1 hother with rfl | hother
          · exact absurd hk hlt
          · exact .inr ⟨⟨other, hother, rfl⟩, hk⟩

/-- `advanceContiguousSequence` is exact. -/
theorem tracks_advance {start current : Nat} {future : Finset Nat} {before : Set Nat}
    (h : Tracks start before current future) (incoming : List Message) :
    Tracks start (before ∪ {k | ∃ message ∈ incoming, message.conversationSequence = k})
      (advanceContiguousSequence current future incoming).1 (advanceContiguousSequence current future incoming).2 :=
  h.absorb fun _ => mem_addFuture

/-! ### The feed -/

/-- The receipts of the feed follow what was received from `start` on. -/
structure Follows (conversationId : String) (start : Nat) (before : Set Nat) (feed : ConversationFeed) : Prop where
  active : feed.activeConversationId = some conversationId
  tracks : Tracks start before feed.contiguousSequence feed.futureSequences

variable {conversationId : String} {start : Nat} {before : Set Nat} {feed : ConversationFeed}

theorem follows_opened (feed : ConversationFeed) (conversationId : String) (start : Nat) :
    Follows conversationId start ∅ (feed.opened conversationId start) :=
  ⟨rfl, ContiguousPrefix.tracks_start start⟩

theorem Follows.of_eq {feed' : ConversationFeed} (h : Follows conversationId start before feed)
    (hactive : feed'.activeConversationId = feed.activeConversationId)
    (hcontiguous : feed'.contiguousSequence = feed.contiguousSequence)
    (hfuture : feed'.futureSequences = feed.futureSequences) : Follows conversationId start before feed' := by
  refine ⟨hactive.trans h.active, ?_⟩
  rw [hcontiguous, hfuture]
  exact h.tracks

theorem summaries_eq (feed : ConversationFeed) (incoming : List Message) :
    (feed.updateConversationSummaries incoming).activeConversationId = feed.activeConversationId ∧
      (feed.updateConversationSummaries incoming).contiguousSequence = feed.contiguousSequence ∧
      (feed.updateConversationSummaries incoming).futureSequences = feed.futureSequences := by
  unfold ConversationFeed.updateConversationSummaries
  dsimp only
  split <;> exact ⟨rfl, rfl, rfl⟩

theorem Follows.receiveMessages (h : Follows conversationId start before feed) (incoming : List Message) :
    Follows conversationId start (before ∪ (FeedEvent.messages incoming).sequences conversationId)
      (feed.receiveMessages incoming) := by
  obtain ⟨hactive, hcontiguous, hfuture⟩ := summaries_eq feed incoming
  have hsummaries := h.of_eq hactive hcontiguous hfuture
  have hsequences : (FeedEvent.messages incoming).sequences conversationId =
      {k | ∃ message ∈ (feed.updateConversationSummaries incoming).active incoming,
        message.conversationSequence = k} := by
    ext k
    unfold ConversationFeed.active
    simp only [FeedEvent.sequences, Set.mem_ofPred_eq, List.mem_filter, decide_eq_true_eq, hsummaries.active,
      Option.some.injEq, and_assoc]
  unfold ConversationFeed.receiveMessages
  split
  · rename_i hnil
    rw [hsequences, hnil]
    simpa [ConversationFeed.active] using h
  · dsimp only
    split
    · rename_i hnil
      rw [hsequences, hnil]
      simpa using hsummaries
    · rw [hsequences]
      have hadvanced := tracks_advance hsummaries.tracks
        ((feed.updateConversationSummaries incoming).active incoming)
      split
      · exact ⟨hsummaries.active, hadvanced⟩
      · exact ⟨hsummaries.active, hadvanced⟩

theorem Follows.step (h : Follows conversationId start before feed) (event : FeedEvent) :
    Follows conversationId start (before ∪ event.sequences conversationId) (feed.step event) := by
  have other : ∀ {event : FeedEvent}, event.sequences conversationId = ∅ →
      (feed.step event).activeConversationId = feed.activeConversationId →
      (feed.step event).contiguousSequence = feed.contiguousSequence →
      (feed.step event).futureSequences = feed.futureSequences →
      Follows conversationId start (before ∪ event.sequences conversationId) (feed.step event) := by
    intro event hnone hactive hcontiguous hfuture
    rw [hnone, Set.union_empty]
    exact h.of_eq hactive hcontiguous hfuture
  cases event with
  | messages incoming => exact h.receiveMessages incoming
  | updated message =>
    have hfields : (feed.updateLoadedMessage message).activeConversationId = feed.activeConversationId ∧
        (feed.updateLoadedMessage message).contiguousSequence = feed.contiguousSequence ∧
        (feed.updateLoadedMessage message).futureSequences = feed.futureSequences := by
      unfold ConversationFeed.updateLoadedMessage
      split <;> exact ⟨rfl, rfl, rfl⟩
    exact other rfl hfields.1 hfields.2.1 hfields.2.2
  | scrolledUp =>
    have hfields : feed.loadOlder.1.activeConversationId = feed.activeConversationId ∧
        feed.loadOlder.1.contiguousSequence = feed.contiguousSequence ∧
        feed.loadOlder.1.futureSequences = feed.futureSequences := by
      unfold ConversationFeed.loadOlder
      split
      · exact ⟨rfl, rfl, rfl⟩
      · split
        · exact ⟨rfl, rfl, rfl⟩
        · dsimp only
          split <;> exact ⟨rfl, rfl, rfl⟩
    exact other rfl hfields.1 hfields.2.1 hfields.2.2
  | older request page =>
    have hfields : (feed.receiveOlder request page).activeConversationId = feed.activeConversationId ∧
        (feed.receiveOlder request page).contiguousSequence = feed.contiguousSequence ∧
        (feed.receiveOlder request page).futureSequences = feed.futureSequences := by
      unfold ConversationFeed.receiveOlder
      split <;> exact ⟨rfl, rfl, rfl⟩
    exact other rfl hfields.1 hfields.2.1 hfields.2.2
  | _ => exact other rfl rfl rfl rfl

theorem Follows.run {events : List FeedEvent} : ∀ {before : Set Nat} {feed : ConversationFeed},
    Follows conversationId start before feed →
      Follows conversationId start (before ∪ received conversationId events) (feed.run events) := by
  induction events with
  | nil =>
    intro before feed h
    have hnone : received conversationId [] = ∅ := by
      ext k
      simp [received]
    rw [hnone, Set.union_empty]
    exact h
  | cons event events ih =>
    intro before feed h
    rw [received_cons, ← Set.union_assoc]
    exact ih (h.step event)

/-! ### Pages of the conversation -/

theorem messages_conversation {uuid : String → Bool} {reader : Reader} {cursor : Int} {beforeSequence : Option Int}
    {page : MessagePage} (h : messages uuid content conversationId reader cursor 200 beforeSequence = .ok page)
    {message : Message} (hmem : message ∈ page.data) : message.conversationId = conversationId := by
  rw [messages_eq] at h
  cases hlist : Messaging.listHistory content conversationId reader (probe cursor beforeSequence) with
  | error reason =>
    rw [hlist] at h
    cases h
  | ok views =>
    rw [hlist] at h
    cases h
    obtain ⟨view, hview, rfl⟩ := List.mem_map.1 hmem
    exact Messaging.listHistory_conversation hlist (List.mem_of_mem_take hview)

theorem catchUpFrom_conversation {uuid : String → Bool} {reader : Reader} {beforeSequence : Option Int}
    {turn : Nat → Turn} (left : Nat) : ∀ (pages : Nat) (cursor : Int) {page : MessagePage} {message : Message},
    page ∈ (catchUpFrom uuid conversationId reader beforeSequence turn left pages cursor).pages →
      message ∈ page.data → message.conversationId = conversationId := by
  induction left with
  | zero =>
    intro pages cursor page message hpage
    simp [catchUpFrom] at hpage
  | succ left ih =>
    intro pages cursor page message hpage hmem
    have h := catchUpFrom_succ uuid conversationId reader beforeSequence turn left pages cursor
    generalize catchUpFrom uuid conversationId reader beforeSequence turn (left + 1) pages cursor = result at h hpage
    cases h with
    | stopped => cases hpage
    | failed => cases hpage
    | last page' after _ _ _ hmessages =>
      rw [List.mem_singleton.1 hpage] at hmem
      exact messages_conversation hmessages hmem
    | more page' after place _ _ _ _ _ hmessages =>
      rcases List.mem_cons.1 hpage with rfl | hpage
      · exact messages_conversation hmessages hmem
      · exact ih _ _ hpage hmem

/-! ### The range at the start -/

section CatchUp

variable {uuid : String → Bool} {conversationId : String} {reader : Reader} {beforeSequence : Option Int}
  {turn : Nat → Turn} {stored : Content}

theorem range_isPrefix {content' : Content} (h : Keeps reader conversationId content content') (after : Int)
    (beforeSequence : Option Int) : range content reader.tenantId conversationId after beforeSequence <+:
      range content' reader.tenantId conversationId after beforeSequence :=
  KeysetPages.after_isPrefix (h.filter _) after

theorem mem_range {tenantId : String} {place : String × Nat} :
    place ∈ range content tenantId conversationId after beforeSequence ↔
      place ∈ places content tenantId conversationId ∧ (∀ before ∈ beforeSequence, sequence place < before) ∧
        after < sequence place := by
  unfold range window
  rw [KeysetPages.mem_after, List.mem_filter, decide_eq_true_eq, and_assoc]

/-- Delivered messages ascend and are of the range. -/
structure InRange (after : Int) (beforeSequence : Option Int) (delivered : List (String × Nat)) : Prop where
  ascending : delivered.Pairwise fun place place' => place.2 < place'.2
  after_lt : ∀ place ∈ delivered, after < sequence place
  lt_before : ∀ place ∈ delivered, ∀ before ∈ beforeSequence, sequence place < before

theorem Accounts.inRange {left pages : Nat} {result : CatchUp}
    (h : Accounts (rangeAt conversationId reader beforeSequence turn after) left pages result) :
    InRange after beforeSequence result.delivered := by
  obtain ⟨last, -, hstart, -⟩ := h.delivered
  have hmem : ∀ place ∈ result.delivered, place ∈ rangeAt conversationId reader beforeSequence turn after last :=
    fun place hplace => hstart.subset hplace
  have hascending := (window_ascending (turn last).content reader.tenantId conversationId beforeSequence).after after
  refine ⟨?_, fun place hplace => (mem_range.1 (hmem place hplace)).2.2,
    fun place hplace => (mem_range.1 (hmem place hplace)).2.1⟩
  exact (hascending.sublist hstart.sublist).imp Int.ofNat_lt.1

/-- What was there at the start is delivered, at the latest with the hundred thousandth message. -/
theorem Accounts.wanted {result : CatchUp}
    (h : Accounts (rangeAt conversationId reader beforeSequence turn after) 500 0 result)
    (hstored : ∀ k, Keeps reader conversationId stored (turn k).content)
    (hended : result.outcome = .returned ∨ result.outcome = .limitExceeded ∧
      (range stored reader.tenantId conversationId after beforeSequence).length ≤ 100000) :
    range stored reader.tenantId conversationId after beforeSequence <+: result.delivered := by
  obtain ⟨last, -, hstart, hall⟩ := h.delivered
  have hwanted := range_isPrefix (hstored last) after beforeSequence
  rcases hended with hreturned | ⟨hlimit, hlength⟩
  · rw [hall hreturned]
    exact hwanted
  · apply List.prefix_of_prefix_length_le hwanted hstart
    rw [(h.limit hlimit).1]
    omega

/-- A sequence of the range up to a stored one is stored in the range. -/
theorem exists_place {first : Nat}
    (hlog : Consecutive.Numbered Messaging.Message.conversationSequence first (log stored reader.tenantId conversationId))
    {place : String × Nat} (hplace : place ∈ range stored reader.tenantId conversationId after beforeSequence) {k : Nat}
    (hk : first ≤ k) (hafter : after < k) (hle : k ≤ place.2) :
    ∃ id, (id, k) ∈ range stored reader.tenantId conversationId after beforeSequence := by
  rw [mem_range] at hplace
  obtain ⟨message, hmessage, hsame⟩ := List.mem_map.1 hplace.1
  have hbounds := hlog.bounds hmessage
  have hsequence : message.conversationSequence = place.2 := congrArg Prod.snd hsame
  obtain ⟨other, hother, heq⟩ := hlog.exists_of_mem hk (by omega)
  refine ⟨other.id, mem_range.2 ⟨?_, ?_, hafter⟩⟩
  · exact List.mem_map.2 ⟨other, hother, Prod.ext rfl heq⟩
  · intro before hbefore
    have := hplace.2.1 before hbefore
    unfold sequence at this ⊢
    omega

end CatchUp

/-- Catching up delivers what there was, once and in order, and closes the gaps of the feed. -/
theorem catch_up_closes_gaps (uuid : String → Bool) (conversationId : String) (reader : Reader)
    (afterSequence : Int) (beforeSequence : Option Int) (stored : Content) (turn : Nat → Turn) (after : Int)
    (first : Nat) (hscoped : scopedHistoryAfterSequence reader afterSequence = .ok after)
    (hlog : Consecutive.Numbered Messaging.Message.conversationSequence first
      (log stored reader.tenantId conversationId))
    (hstored : Keeps reader conversationId stored (turn 0).content)
    (hturns : ∀ k, Keeps reader conversationId (turn k).content (turn (k + 1)).content)
    (feed : ConversationFeed) (start : Nat) (events : List FeedEvent) :
    let result := loadConversationCatchUp uuid conversationId reader beforeSequence turn afterSequence
    let wanted := range stored reader.tenantId conversationId after beforeSequence
    let opened := feed.opened conversationId start
    result.outcome ≠ .nonAdvancing ∧ InRange after beforeSequence result.delivered ∧
      (result.outcome = .returned ∨ result.outcome = .limitExceeded ∧ wanted.length ≤ 100000 →
        wanted <+: result.delivered) ∧
      ((∀ k ≤ 500, (turn k).current = true ∧ (turn k).stillCurrent = true) →
        (∀ k < 500, (turn k).content.authorizeRead conversationId reader = .ok ()) →
        (∀ k < 500, (range (turn k).content reader.tenantId conversationId after beforeSequence).length < 100000) →
          result.outcome = .returned) ∧
      IsGreatest {n | start ≤ n ∧ ∀ k, start < k → k ≤ n → k ∈ received conversationId events}
        (opened.run events).contiguousSequence ∧
      (∀ k, k ∈ (opened.run events).futureSequences ↔
        k ∈ received conversationId events ∧ (opened.run events).contiguousSequence < k) ∧
      (result.outcome = .returned → (∀ page ∈ result.pages, .messages page.data ∈ events) → after ≤ start →
        first ≤ start + 1 → ∀ place ∈ wanted, place.2 ≤ (opened.run events).contiguousSequence) := by
  intro result wanted opened
  have hkeeps : ∀ k, Keeps reader conversationId stored (turn k).content :=
    fun k => List.IsPrefix.trans hstored (keeps_le hturns (Nat.zero_le k))
  have haccounts : Accounts (rangeAt conversationId reader beforeSequence turn after) 500 0 result :=
    catchUpFrom_accounts hturns 500 0 afterSequence hscoped
  have hfollows : Follows conversationId start (∅ ∪ received conversationId events) (opened.run events) :=
    (follows_opened feed conversationId start).run
  have htracks := hfollows.tracks
  rw [Set.empty_union] at htracks
  refine ⟨catchUpFrom_advances 500 0 afterSequence, haccounts.inRange, haccounts.wanted hkeeps, ?_,
    htracks.isGreatest, htracks.mem_future, ?_⟩
  · intro hcurrent hauthorize hlength
    have hends : result.outcome = .returned ∨ result.outcome = .limitExceeded :=
      catchUpFrom_ends 500 0 afterSequence (by simpa using hcurrent) (by simpa using hauthorize) hscoped
    rcases hends with hreturned | hlimit
    · exact hreturned
    · have hmore := (haccounts.limit hlimit).2 (by omega)
      have hless := hlength 499 (by omega)
      change 200 * 500 < (range (turn 499).content reader.tenantId conversationId after beforeSequence).length at hmore
      omega
  · intro hreturned hpages hafter hfirst place hplace
    apply htracks.le_of_forall_mem
    intro k hk hle
    have hdelivered := (haccounts.wanted hkeeps (.inl hreturned)).subset
    obtain ⟨id, hid⟩ := exists_place hlog hplace (by omega) (by omega) hle
    obtain ⟨message, hmessage, hsame⟩ := List.mem_map.1 (hdelivered hid)
    obtain ⟨page, hpage, hmem⟩ := List.mem_flatMap.1 hmessage
    exact ⟨.messages page.data, hpages page hpage, message, hmem, catchUpFrom_conversation 500 0 _ hpage hmem,
      congrArg Prod.snd hsame⟩

/-- A conversation of two messages, of which the second came by an event. -/
def pagedMessage (sequence : Nat) : Messaging.Message :=
  { id := "message-" ++ toString sequence, tenantId := "tenant-1", conversationId := "conversation-1",
    senderUserId := "user-1", senderDeviceId := "device-1", replyToMessageId := none, threadRootMessageId := none,
    clientMessageId := "client-" ++ toString sequence, conversationSequence := sequence, body := some "hello",
    attachmentCount := 0, metadata := [], status := .active, editedAt := none, deletedAt := none,
    insertedAt := sequence }

def pagedContent : Content :=
  { messages := [pagedMessage 2, pagedMessage 1], attachments := [], reactions := [], mentions := [], users := [],
    authorizeRead := fun _ _ => .ok (), sequences := show [("conversation-1", 2), ("conversation-1", 1)].Nodup by decide }

def pagedReader : Reader := ⟨"tenant-1", "user-2", .human, none⟩

def pagedFeed : ConversationFeed :=
  { activeConversationId := none, sessionUserId := some "user-2", messages := [], nextRef := 0, conversations := [],
    knownMessageIds := ∅, visible := true, nearBottom := true, newMessageCount := 0, contiguousSequence := 0,
    futureSequences := ∅, pendingCatchUpRequest := none, hasOlder := false, olderLoading := false,
    loadOlderRequestGeneration := 0, readCursors := OrderedMap.empty, deliveryCursors := [] }

def pagedCatchUp : CatchUp :=
  loadConversationCatchUp (fun _ => true) "conversation-1" pagedReader none (fun _ => ⟨true, pagedContent, true⟩) 0

theorem catch_up_closes_gaps_sample : pagedCatchUp.outcome = .returned ∧
    [("message-1", 1), ("message-2", 2)] <+: pagedCatchUp.delivered ∧
    2 ≤ ((pagedFeed.opened "conversation-1" 0).run
      (.messages [presented (Messaging.hydrateMessage pagedContent (pagedMessage 2))] ::
        pagedCatchUp.pages.map fun page => .messages page.data)).contiguousSequence := by
  have hrange : range pagedContent "tenant-1" "conversation-1" 0 none = [("message-1", 1), ("message-2", 2)] := by
    decide
  have hlog : Consecutive.Numbered Messaging.Message.conversationSequence 1
      (log pagedContent "tenant-1" "conversation-1") := Consecutive.numbered_of_eq (n := 2) (by decide)
  obtain ⟨-, -, hwanted, hreturns, -, -, hcloses⟩ :=
    catch_up_closes_gaps (fun _ => true) "conversation-1" pagedReader 0 none pagedContent
      (fun _ => ⟨true, pagedContent, true⟩) 0 1 rfl hlog (List.prefix_refl _) (fun _ => List.prefix_refl _)
      pagedFeed 0 (.messages [presented (Messaging.hydrateMessage pagedContent (pagedMessage 2))] ::
        pagedCatchUp.pages.map fun page => .messages page.data)
  have hreturned : pagedCatchUp.outcome = .returned := by
    refine hreturns (fun _ _ => ⟨rfl, rfl⟩) (fun _ _ => rfl) fun _ _ => ?_
    change (range pagedContent "tenant-1" "conversation-1" 0 none).length < 100000
    rw [hrange]
    decide
  refine ⟨hreturned, hrange ▸ hwanted (.inl hreturned), ?_⟩
  refine hcloses hreturned ?_ (by decide) (by decide) ("message-2", 2) ?_
  · intro page hpage
    exact List.mem_cons_of_mem _ (List.mem_map_of_mem hpage)
  · change _ ∈ range pagedContent "tenant-1" "conversation-1" 0 none
    rw [hrange]
    decide

end KComms.Feed
