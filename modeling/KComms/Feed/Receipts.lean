import KComms.Feed.UseConversationFeed
import KComms.Lib.LastValue
import KComms.Messaging.DeliveryCursors

/-!
# Receipts on the page

The server keeps the greatest sequences; the page shows the last ones it got.  So what it shows goes back exactly
where the receipts of a user or of a device are processed out of order.
-/

namespace KComms.Feed

open Messaging (Mark MarkCall DeliveryCursorView ReceiptEvent Receipts Join noReceipts receipts_join markConversationRead)

/-! ### What the server sends -/

def shown (view : DeliveryCursorView) : MessageDeliveryCursor :=
  ⟨view.recipientUserId, view.deviceRef, view.deliveredSequence, view.readSequence⟩

/-- The events and the answer of a call that is done; a read also announces its sequence. -/
def announced (call : MarkCall) : List FeedEvent :=
  match call.stage with
  | .replied _ view =>
    let receipts := [.delivery (shown view), .markedDelivered (shown view)]
    if call.mark = .read then .read ⟨call.subject.userId, call.sequence.toNat⟩ :: receipts else receipts
  | _ => []

/-! ### What the page shows -/

def ConversationFeed.displayedRead (feed : ConversationFeed) (userId : String) : Option Nat :=
  feed.readCursors.get? userId

def ConversationFeed.displayedDelivery (feed : ConversationFeed) (key : String) : Option MessageDeliveryCursor :=
  feed.deliveryCursors.find? fun cursor => cursor.key = key

/-- One receipt is at least another. -/
def MessageDeliveryCursor.le (cursor cursor' : MessageDeliveryCursor) : Prop :=
  cursor.deliveredSequence ≤ cursor'.deliveredSequence ∧ cursor.readSequence ≤ cursor'.readSequence

/-- What the page shows of a user or of a device never goes back. -/
structure DisplayNeverBack (feed : ConversationFeed) (events : List FeedEvent) : Prop where
  read : ∀ userId i j, i ≤ j → ∀ sequence, (feed.run (events.take i)).displayedRead userId = some sequence →
    ∃ sequence', (feed.run (events.take j)).displayedRead userId = some sequence' ∧ sequence ≤ sequence'
  delivery : ∀ key i j, i ≤ j → ∀ cursor, (feed.run (events.take i)).displayedDelivery key = some cursor →
    ∃ cursor', (feed.run (events.take j)).displayedDelivery key = some cursor' ∧ cursor.le cursor'

def FeedEvent.readOf (userId : String) : FeedEvent → Option Nat
  | .read event => if event.userId = userId then some event.sequence else none
  | _ => none

def FeedEvent.deliveryOf (key : String) : FeedEvent → Option MessageDeliveryCursor
  | .delivery event => if event.key = key then some event else none
  | .markedDelivered incoming => if incoming.key = key then some incoming else none
  | _ => none

/-- The receipts of each user and of each device are processed in order, after what is shown already. -/
structure ProcessedInOrder (feed : ConversationFeed) (events : List FeedEvent) : Prop where
  read : ∀ userId, LastValue.InOrder (FeedEvent.readOf userId) (· ≤ ·) (feed.displayedRead userId) events
  delivery : ∀ key,
    LastValue.InOrder (FeedEvent.deliveryOf key) MessageDeliveryCursor.le (feed.displayedDelivery key) events

theorem find?_mergeDeliveryCursor (cursors : List MessageDeliveryCursor) (incoming : MessageDeliveryCursor)
    (key : String) : (mergeDeliveryCursor cursors incoming).find? (fun cursor => cursor.key = key) =
      if incoming.key = key then some incoming else cursors.find? fun cursor => cursor.key = key := by
  unfold mergeDeliveryCursor
  rw [List.find?_append]
  split
  · rename_i hkey
    have hnone : (cursors.filter fun cursor => cursor.key ≠ incoming.key).find? (fun cursor => cursor.key = key) =
        none := by
      rw [List.find?_eq_none]
      intro cursor hmem
      simpa [← hkey] using (List.mem_filter.1 hmem).2
    rw [hnone]
    simp [hkey]
  · rename_i hkey
    have hsame : (cursors.filter fun cursor => cursor.key ≠ incoming.key).find? (fun cursor => cursor.key = key) =
        cursors.find? fun cursor => cursor.key = key := by
      rw [List.find?_filter]
      congr 1
      funext cursor
      by_cases hcursor : cursor.key = key
      · simp [hcursor, Ne.symm hkey]
      · simp [hcursor]
    rw [hsame]
    simp [hkey]

/-- No other event touches the receipts. -/
theorem receiveMessages_receipts (feed : ConversationFeed) (incoming : List Message) :
    (feed.receiveMessages incoming).readCursors = feed.readCursors ∧
      (feed.receiveMessages incoming).deliveryCursors = feed.deliveryCursors := by
  have hsummaries : (feed.updateConversationSummaries incoming).readCursors = feed.readCursors ∧
      (feed.updateConversationSummaries incoming).deliveryCursors = feed.deliveryCursors := by
    unfold ConversationFeed.updateConversationSummaries
    dsimp only
    split <;> exact ⟨rfl, rfl⟩
  unfold ConversationFeed.receiveMessages
  split
  · exact ⟨rfl, rfl⟩
  · dsimp only
    split
    · exact hsummaries
    · split <;> exact hsummaries

theorem step_receipts (feed : ConversationFeed) (event : FeedEvent)
    (hlist : ∀ cursors, event ≠ .deliveryCursors cursors) (userId key : String) :
    (feed.step event).displayedRead userId = (event.readOf userId).or (feed.displayedRead userId) ∧
      (feed.step event).displayedDelivery key = (event.deliveryOf key).or (feed.displayedDelivery key) := by
  have same : ∀ {feed' : ConversationFeed}, feed'.readCursors = feed.readCursors →
      feed'.deliveryCursors = feed.deliveryCursors →
      feed'.displayedRead userId = feed.displayedRead userId ∧
        feed'.displayedDelivery key = feed.displayedDelivery key := by
    intro feed' hread hdelivery
    unfold ConversationFeed.displayedRead ConversationFeed.displayedDelivery
    rw [hread, hdelivery]
    exact ⟨rfl, rfl⟩
  cases event with
  | messages incoming =>
    have h := receiveMessages_receipts feed incoming
    exact same h.1 h.2
  | updated message =>
    have h : (feed.updateLoadedMessage message).readCursors = feed.readCursors ∧
        (feed.updateLoadedMessage message).deliveryCursors = feed.deliveryCursors := by
      unfold ConversationFeed.updateLoadedMessage
      split <;> exact ⟨rfl, rfl⟩
    exact same h.1 h.2
  | scrolledUp =>
    have h : feed.loadOlder.1.readCursors = feed.readCursors ∧
        feed.loadOlder.1.deliveryCursors = feed.deliveryCursors := by
      unfold ConversationFeed.loadOlder
      split
      · exact ⟨rfl, rfl⟩
      · split
        · exact ⟨rfl, rfl⟩
        · dsimp only
          split <;> exact ⟨rfl, rfl⟩
    exact same h.1 h.2
  | older request page =>
    have h : (feed.receiveOlder request page).readCursors = feed.readCursors ∧
        (feed.receiveOlder request page).deliveryCursors = feed.deliveryCursors := by
      unfold ConversationFeed.receiveOlder
      split <;> exact ⟨rfl, rfl⟩
    exact same h.1 h.2
  | read event =>
    refine ⟨?_, rfl⟩
    show (feed.readCursors.set event.userId event.sequence).get? userId = _
    rw [OrderedMap.get?_set]
    unfold FeedEvent.readOf
    dsimp only
    split <;> rfl
  | delivery event =>
    refine ⟨rfl, ?_⟩
    show (mergeDeliveryCursor feed.deliveryCursors event).find? _ = _
    rw [find?_mergeDeliveryCursor]
    unfold FeedEvent.deliveryOf
    dsimp only
    split <;> rfl
  | markedDelivered incoming =>
    refine ⟨rfl, ?_⟩
    show (mergeDeliveryCursor feed.deliveryCursors incoming).find? _ = _
    rw [find?_mergeDeliveryCursor]
    unfold FeedEvent.deliveryOf
    dsimp only
    split <;> rfl
  | deliveryCursors cursors => exact absurd rfl (hlist cursors)
  | _ => exact same rfl rfl

/-- The page shows the last receipts. -/
theorem run_receipts {events : List FeedEvent} (userId key : String) : ∀ {feed : ConversationFeed},
    (∀ cursors, FeedEvent.deliveryCursors cursors ∉ events) →
    (feed.run events).displayedRead userId =
        LastValue.after (FeedEvent.readOf userId) (feed.displayedRead userId) events ∧
      (feed.run events).displayedDelivery key =
        LastValue.after (FeedEvent.deliveryOf key) (feed.displayedDelivery key) events := by
  induction events with
  | nil => exact fun _ => ⟨rfl, rfl⟩
  | cons event events ih =>
    intro feed hlist
    have hstep := step_receipts feed event (fun cursors h => hlist cursors (by simp [h])) userId key
    have hrest := @ih (feed.step event) fun cursors h => hlist cursors (List.mem_cons_of_mem _ h)
    rw [LastValue.after_cons, LastValue.after_cons, ← hstep.1, ← hstep.2]
    exact hrest

theorem MessageDeliveryCursor.le_refl (cursor : MessageDeliveryCursor) : cursor.le cursor :=
  ⟨Nat.le_refl _, Nat.le_refl _⟩

theorem MessageDeliveryCursor.le_trans {cursor cursor' cursor'' : MessageDeliveryCursor} (h : cursor.le cursor')
    (h' : cursor'.le cursor'') : cursor.le cursor'' := ⟨h.1.trans h'.1, h.2.trans h'.2⟩

theorem displayNeverBack_iff (feed : ConversationFeed) (events : List FeedEvent)
    (hlist : ∀ cursors, FeedEvent.deliveryCursors cursors ∉ events) :
    DisplayNeverBack feed events ↔ ProcessedInOrder feed events := by
  have hshown := fun i userId key => @run_receipts (events.take i) userId key feed
    fun cursors h => hlist cursors (List.mem_of_mem_take h)
  have hread : ∀ userId, (∀ i j, i ≤ j → ∀ sequence,
      (feed.run (events.take i)).displayedRead userId = some sequence →
        ∃ sequence', (feed.run (events.take j)).displayedRead userId = some sequence' ∧ sequence ≤ sequence') ↔
      LastValue.InOrder (FeedEvent.readOf userId) (· ≤ ·) (feed.displayedRead userId) events := by
    intro userId
    rw [← LastValue.neverBack_iff Nat.le_refl fun _ _ _ => Nat.le_trans]
    unfold LastValue.NeverBack
    simp only [(hshown _ userId "").1]
  have hdelivery : ∀ key, (∀ i j, i ≤ j → ∀ cursor,
      (feed.run (events.take i)).displayedDelivery key = some cursor →
        ∃ cursor', (feed.run (events.take j)).displayedDelivery key = some cursor' ∧ cursor.le cursor') ↔
      LastValue.InOrder (FeedEvent.deliveryOf key) MessageDeliveryCursor.le (feed.displayedDelivery key) events := by
    intro key
    rw [← LastValue.neverBack_iff MessageDeliveryCursor.le_refl fun _ _ _ => MessageDeliveryCursor.le_trans]
    unfold LastValue.NeverBack
    simp only [(hshown _ "" key).2]
  constructor
  · exact fun h => ⟨fun userId => (hread userId).1 (h.read userId), fun key => (hdelivery key).1 (h.delivery key)⟩
  · exact fun h => ⟨fun userId => (hread userId).2 (h.read userId), fun key => (hdelivery key).2 (h.delivery key)⟩

/-- The receipts are monotone joins on the server; on the page exactly where they are processed in order. -/
theorem receipts_monotone_iff (deviceRef : String → String → String) (messages : List Messaging.Message)
    (marks : List ReceiptEvent) (feed : ConversationFeed) (events : List FeedEvent)
    (hlist : ∀ cursors, FeedEvent.deliveryCursors cursors ∉ events) :
    Join deviceRef (noReceipts messages) marks ∧ (DisplayNeverBack feed events ↔ ProcessedInOrder feed events) :=
  ⟨receipts_join deviceRef messages marks, displayNeverBack_iff feed events hlist⟩

/-- Two messages are read, and the first one is read again from a page that knows no other. -/
def readMessage (sequence : Nat) : Messaging.Message :=
  { id := "message-" ++ toString sequence, tenantId := "tenant-1", conversationId := "conversation-1",
    senderUserId := "user-1", senderDeviceId := "device-1", replyToMessageId := none, threadRootMessageId := none,
    clientMessageId := "client-" ++ toString sequence, conversationSequence := sequence, body := some "hello",
    attachmentCount := 0, metadata := [], status := .active, editedAt := none, deletedAt := none,
    insertedAt := sequence }

def readSubject : Messaging.Subject := ⟨"tenant-1", "user-2", "device-2", none⟩

def readMarks : List ReceiptEvent :=
  [.called .read "conversation-1" (markConversationRead 0 2 3).2 readSubject, .bounded 0 (.ok ()),
    .upserted 0 "cursor-1" 10, .fetched 0,
    .called .read "conversation-1" (markConversationRead 2 1 3).2 readSubject, .bounded 1 (.ok ()),
    .upserted 1 "cursor-2" 20, .fetched 1]

def readReceipts : Receipts :=
  (noReceipts [readMessage 1, readMessage 2]).run (fun _ deviceId => deviceId) readMarks

def readFeed : ConversationFeed :=
  { activeConversationId := some "conversation-1", sessionUserId := some "user-1", messages := [], nextRef := 0,
    conversations := [], knownMessageIds := ∅, visible := true, nearBottom := true, newMessageCount := 0,
    contiguousSequence := 0, futureSequences := ∅, pendingCatchUpRequest := none, hasOlder := false,
    olderLoading := false, loadOlderRequestGeneration := 0, readCursors := OrderedMap.empty, deliveryCursors := [] }

def readEvents : List FeedEvent := [.read ⟨"user-2", 2⟩, .read ⟨"user-2", 1⟩]

theorem receipts_monotone_iff_sample : Join (fun _ deviceId => deviceId) (noReceipts [readMessage 1, readMessage 2])
    readMarks ∧ (DisplayNeverBack readFeed readEvents ↔ ProcessedInOrder readFeed readEvents) :=
  receipts_monotone_iff (fun _ deviceId => deviceId) [readMessage 1, readMessage 2] readMarks readFeed readEvents
    (fun cursors h => by simp [readEvents] at h)

/-- The second read leaves what is stored, but the page shows its sequence. -/
theorem read_goes_back : (∀ event ∈ readEvents, event ∈ readReceipts.calls.flatMap announced) ∧
    Messaging.readOf readReceipts.cursors ⟨"tenant-1", "conversation-1", "user-2", "device-2"⟩ = 2 ∧
    ¬ DisplayNeverBack readFeed readEvents := by
  have hannounced : readReceipts.calls.flatMap announced =
      [.read ⟨"user-2", 2⟩, .delivery ⟨"user-2", "device-2", 2, 2⟩, .markedDelivered ⟨"user-2", "device-2", 2, 2⟩,
        .read ⟨"user-2", 1⟩, .delivery ⟨"user-2", "device-2", 2, 2⟩, .markedDelivered ⟨"user-2", "device-2", 2, 2⟩] := by
    rfl
  refine ⟨?_, by decide, fun h => ?_⟩
  · rw [hannounced]
    intro event hevent
    rcases List.mem_cons.1 hevent with rfl | hevent
    · simp
    · rw [List.mem_singleton.1 hevent]
      simp
  · obtain ⟨sequence, hshown, hle⟩ := h.read "user-2" 1 2 (by omega) 2 rfl
    obtain rfl : 1 = sequence := Option.some.inj hshown
    omega

end KComms.Feed
