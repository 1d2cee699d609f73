import KComms.Feed.LoadedMessages

/-!
# Removed messages on the page

The server produces the values of messages, of which none is active again after one that is not; the page gets them
late and in any order.  A reading for the reconciliation alone is bound in time: it finds what is current after it
began.
-/

namespace KComms.Feed

open Messaging (Status)

/-! ### The server and the page -/

/-- A reading of the loaded messages: the messages and the number of values by then. -/
structure Reading where
  snapshot : List Loaded
  since : Nat

/-- The values of all messages so far, the page, and what it is reading again. -/
structure World where
  produced : List Message
  feed : ConversationFeed
  reading : Option Reading

inductive Happening
  | produced (value : Message)
  | processed (event : FeedEvent)
  | readingStarted
  | readingFinished (incoming : List Message)
  | readingDropped

/-- What an event delivers. -/
def FeedEvent.values : FeedEvent → List Message
  | .messages incoming => incoming
  | .updated message => [message]
  | .reconciled _ incoming => incoming
  | .older _ page => page
  | _ => []

def World.step (world : World) : Happening → World
  | .produced value => { world with produced := world.produced ++ [value] }
  | .processed event => { world with feed := world.feed.step event }
  | .readingStarted => { world with reading := some ⟨world.feed.messages, world.produced.length⟩ }
  | .readingFinished incoming =>
    match world.reading with
    | none => world
    | some reading =>
      { world with feed := world.feed.step (.reconciled reading.snapshot incoming), reading := none }
  | .readingDropped => { world with reading := none }

def World.run (world : World) (happenings : List Happening) : World := happenings.foldl World.step world

/-- No value is active after one of the same message that is not. -/
def Terminal (produced : List Message) : Prop :=
  produced.Pairwise fun value value' => value.id = value'.id → value.status ≠ .active → value'.status ≠ .active

/-- A value that was the current one of its message at some time from `since` on. -/
def CurrentSince (produced : List Message) (since : Nat) (value : Message) : Prop :=
  ∃ n, since ≤ n ∧ n ≤ produced.length ∧ lastOf (produced.take n) value.id = some value

/-- What can happen: a value is produced once it may be, and delivered once it was produced. -/
def Genuine (world : World) : Happening → Prop
  | .produced value => ∀ old ∈ world.produced, old.id = value.id → old.status ≠ .active → value.status ≠ .active
  | .processed event =>
    (∀ value ∈ event.values, value ∈ world.produced) ∧ ∀ snapshot incoming, event ≠ .reconciled snapshot incoming
  | .readingStarted => world.reading = none
  | .readingFinished incoming =>
    ∀ reading ∈ world.reading, ∀ value ∈ incoming, CurrentSince world.produced reading.since value
  | .readingDropped => True

/-- The page holds a message that was removed. -/
def Removed (feed : ConversationFeed) (id : String) : Prop :=
  ∃ loaded ∈ feed.messages, loaded.id = id ∧ loaded.status ≠ .active

/-- The page holds a message as active. -/
def Active (feed : ConversationFeed) (id : String) : Prop :=
  ∃ loaded ∈ feed.messages, loaded.id = id ∧ loaded.status = .active

/-! ### What the messages on the page are -/

/-- A message on the page has a status that the server produced. -/
def Known (produced : List Message) (loaded : Loaded) : Prop :=
  ∃ value ∈ produced, value.id = loaded.id ∧ value.status = loaded.status

structure ReadingInv (world : World) (reading : Reading) : Prop where
  since_le : reading.since ≤ world.produced.length
  known : ∀ previous ∈ reading.snapshot, Known (world.produced.take reading.since) previous
  ref_lt : ∀ previous ∈ reading.snapshot, previous.ref < world.feed.nextRef
  same : ∀ previous ∈ reading.snapshot, ∀ loaded ∈ world.feed.messages, loaded.id = previous.id →
    loaded.ref = previous.ref → loaded = previous

structure WorldInv (world : World) : Prop where
  terminal : Terminal world.produced
  distinct : Distinct world.feed.messages
  ref_lt : ∀ loaded ∈ world.feed.messages, loaded.ref < world.feed.nextRef
  known : ∀ loaded ∈ world.feed.messages, Known world.produced loaded
  reading : ∀ reading ∈ world.reading, ReadingInv world reading

variable {world : World} {feed : ConversationFeed} {id : String} {happenings : List Happening} {produced : List Message}
  {happening : Happening}

theorem removed_iff (h : Distinct feed.messages) :
    Removed feed id ↔ ∃ status, statusOf feed.messages id = some status ∧ status ≠ .active := by
  constructor
  · rintro ⟨loaded, hmem, hid, hstatus⟩
    exact ⟨_, (statusOf_eq_some h).2 ⟨loaded, hmem, hid, rfl⟩, hstatus⟩
  · rintro ⟨status, hstatus, hne⟩
    obtain ⟨loaded, hmem, hid, rfl⟩ := (statusOf_eq_some h).1 hstatus
    exact ⟨loaded, hmem, hid, hne⟩

theorem active_iff (h : Distinct feed.messages) :
    Active feed id ↔ statusOf feed.messages id = some .active := (statusOf_eq_some h).symm

/-! ### Values of the server -/

theorem lastOf_terminal (h : Terminal produced) {old value : Message} (hold : old ∈ produced)
    (hremoved : old.status ≠ .active) (hlast : lastOf produced old.id = some value) :
    value.status ≠ .active := by
  obtain ⟨hid, newer, older, happend, hnewer⟩ := List.find?_eq_some_iff_append.1 hlast
  rw [decide_eq_true_eq] at hid
  have hsplit : produced = older.reverse ++ value :: newer.reverse := by
    rw [← List.reverse_reverse produced, happend]
    simp
  rw [hsplit] at h hold
  rcases List.mem_append.1 hold with holder | hrest
  · exact (List.pairwise_append.1 h).2.2 old holder value (by simp) hid.symm hremoved
  · rcases List.mem_cons.1 hrest with rfl | hnew
    · exact hremoved
    · have := hnewer old (List.mem_reverse.1 hnew)
      simp at this

theorem Known.mono {produced' : List Message} {loaded : Loaded} (h : Known produced loaded)
    (hsub : produced ⊆ produced') : Known produced' loaded := by
  obtain ⟨value, hmem, hvalue⟩ := h
  exact ⟨value, hsub hmem, hvalue⟩

/-- What is read for a message that was removed before the reading is removed as well. -/
theorem CurrentSince.removed (h : Terminal produced) {since : Nat} {previous : Loaded}
    (hknown : Known (produced.take since) previous) (hremoved : previous.status ≠ .active) {value : Message}
    (hcurrent : CurrentSince produced since value) (hid : value.id = previous.id) : value.status ≠ .active := by
  obtain ⟨n, hsince, -, hlast⟩ := hcurrent
  obtain ⟨old, hold, holdId, holdStatus⟩ := hknown
  have hterminal : Terminal (produced.take n) := List.Pairwise.sublist (List.take_sublist _ _) h
  have hmem : old ∈ produced.take n := (List.take_subset_take_left _ hsince) hold
  refine lastOf_terminal hterminal hmem (holdStatus ▸ hremoved) ?_
  rw [holdId, ← hid]
  exact hlast

/-! ### Every step -/

theorem writes_step (feed : ConversationFeed) (event : FeedEvent) : Writes feed (feed.step event) event.values := by
  cases event with
  | messages incoming => exact writes_receiveMessages feed incoming
  | updated message => exact writes_updateLoadedMessage feed message
  | reaction event add => exact writes_applyReaction feed event add
  | reconciled snapshot incoming => exact writes_reconcileLoadedMessages feed snapshot incoming
  | older request page => exact writes_receiveOlder feed request page
  | scrolledUp => exact writes_of_eq (loadOlder_messages feed).1 (loadOlder_messages feed).2 _
  | _ => refine writes_of_eq ?_ ?_ _ <;> rfl

theorem WorldInv.process (h : WorldInv world) (event : FeedEvent) (hvalues : ∀ value ∈ event.values, value ∈ world.produced) :
    WorldInv { world with feed := world.feed.step event } := by
  have hwrites := writes_step world.feed event
  refine ⟨h.terminal, hwrites.distinct h.distinct, ?_, ?_, ?_⟩
  · intro loaded hmem
    rcases hwrites.fresh h.distinct loaded hmem with hold | hnew
    · exact Nat.lt_of_lt_of_le (h.ref_lt loaded hold) hwrites.nextRef_le
    · exact hnew.2
  · intro loaded hmem
    have hstatus := (statusOf_eq_some (hwrites.distinct h.distinct)).2 ⟨loaded, hmem, rfl, rfl⟩
    rcases hwrites.source h.distinct _ _ hstatus with hold | ⟨value, hvalue, hid, hsame⟩
    · obtain ⟨old, holdMem, holdId, holdStatus⟩ := (statusOf_eq_some h.distinct).1 hold
      obtain ⟨value, hvalue, hid, hsame⟩ := h.known old holdMem
      exact ⟨value, hvalue, hid.trans holdId, hsame.trans holdStatus⟩
    · exact ⟨value, hvalues value hvalue, hid, hsame⟩
  · intro reading hreading
    have hinv := h.reading reading hreading
    refine ⟨hinv.since_le, hinv.known, ?_, ?_⟩
    · exact fun previous hprevious => Nat.lt_of_lt_of_le (hinv.ref_lt previous hprevious) hwrites.nextRef_le
    · intro previous hprevious loaded hmem hid href
      rcases hwrites.fresh h.distinct loaded hmem with hold | hnew
      · exact hinv.same previous hprevious loaded hold hid href
      · have := hinv.ref_lt previous hprevious
        omega

theorem WorldInv.step (h : WorldInv world) (hgenuine : Genuine world happening) :
    WorldInv (world.step happening) := by
  cases happening with
  | produced value =>
    have hsub : world.produced ⊆ world.produced ++ [value] := List.subset_append_left _ _
    refine ⟨?_, h.distinct, h.ref_lt, fun loaded hmem => (h.known loaded hmem).mono hsub, ?_⟩
    · refine List.pairwise_append.2 ⟨h.terminal, List.pairwise_singleton _ _, ?_⟩
      intro old hold new hnew
      rw [List.mem_singleton.1 hnew]
      exact hgenuine old hold
    · intro reading hreading
      have hinv := h.reading reading hreading
      have hsince := hinv.since_le
      refine ⟨?_, ?_, hinv.ref_lt, hinv.same⟩
      · show reading.since ≤ (world.produced ++ [value]).length
        rw [List.length_append]
        omega
      · intro previous hprevious
        show Known ((world.produced ++ [value]).take reading.since) previous
        rw [List.take_append_of_le_length hsince]
        exact hinv.known previous hprevious
  | processed event => exact h.process event hgenuine.1
  | readingStarted =>
    refine ⟨h.terminal, h.distinct, h.ref_lt, h.known, ?_⟩
    intro reading hreading
    obtain rfl := Option.some.inj hreading
    refine ⟨Nat.le_refl _, ?_, h.ref_lt, ?_⟩
    · intro previous hprevious
      show Known (world.produced.take world.produced.length) previous
      rw [List.take_length]
      exact h.known previous hprevious
    · intro previous hprevious loaded hmem hid _
      exact List.inj_on_of_nodup_map h.distinct hmem hprevious hid
  | readingFinished incoming =>
    cases hreading : world.reading with
    | none =>
      have hstep : world.step (.readingFinished incoming) = world := by
        unfold World.step
        simp only [hreading]
      rw [hstep]
      exact h
    | some reading =>
      have hstep : world.step (.readingFinished incoming) =
          { world with feed := world.feed.step (.reconciled reading.snapshot incoming), reading := none } := by
        unfold World.step
        simp only [hreading]
      have hvalues : ∀ value ∈ incoming, value ∈ world.produced := by
        intro value hvalue
        obtain ⟨n, -, -, hlast⟩ := hgenuine reading hreading value hvalue
        exact List.mem_of_mem_take (lastOf_mem hlast).1
      have hprocessed := h.process (.reconciled reading.snapshot incoming) hvalues
      rw [hstep]
      exact ⟨hprocessed.terminal, hprocessed.distinct, hprocessed.ref_lt, hprocessed.known, by simp⟩
  | readingDropped => exact ⟨h.terminal, h.distinct, h.ref_lt, h.known, by simp [World.step]⟩

/-! ### What makes a message active -/

/-- A message that is not active on the page gets active by an event: the last value received of it is active, or a
page of older messages has it as active and the page holds it no more. -/
def Revives (feed : ConversationFeed) (id : String) : FeedEvent → Prop
  | .messages incoming => (lastOf (feed.active incoming) id).map Message.status = some .active
  | .older request page =>
    feed.Awaits request ∧ statusOf feed.messages id = none ∧ (lastOf page id).map Message.status = some .active
  | _ => False

theorem active_step (h : WorldInv world) {event : FeedEvent}
    (hgenuine : ∀ snapshot incoming, event ≠ .reconciled snapshot incoming)
    (hnot : ¬ Active world.feed id) : Active (world.feed.step event) id ↔ Revives world.feed id event := by
  have hnone : statusOf world.feed.messages id ≠ some .active := fun hactive => hnot ((active_iff h.distinct).2 hactive)
  rw [active_iff ((writes_step world.feed event).distinct h.distinct)]
  have unchanged : ∀ {feed' : ConversationFeed}, feed'.messages = world.feed.messages →
      (statusOf feed'.messages id = some .active ↔ False) := by
    intro feed' hsame
    rw [hsame]
    exact iff_false_intro hnone
  cases event with
  | messages incoming =>
    show statusOf (world.feed.receiveMessages incoming).messages id = _ ↔ _
    rw [statusOf_receiveMessages, Option.or_eq_some_iff]
    constructor
    · rintro (hlast | ⟨-, hheld⟩)
      · exact hlast
      · exact absurd hheld hnone
    · exact .inl
  | updated message => exact iff_false_intro fun hactive => hnone (statusOf_updateLoadedMessage _ _ h.distinct hactive)
  | reaction event add =>
    show statusOf (world.feed.applyReaction event add).messages id = _ ↔ _
    rw [statusOf_applyReaction _ _ _ h.distinct]
    exact iff_false_intro hnone
  | reconciled snapshot incoming => exact absurd rfl (hgenuine snapshot incoming)
  | older request page =>
    rcases receiveOlder_cases world.feed request page with ⟨hstale, hsame⟩ | ⟨hawaits, -⟩
    · show statusOf (world.feed.receiveOlder request page).messages id = _ ↔ _
      rw [hsame]
      constructor
      · exact fun hactive => absurd hactive hnone
      · exact fun hrevives => absurd hrevives.1 hstale
    · show statusOf (world.feed.receiveOlder request page).messages id = _ ↔ _
      rw [statusOf_receiveOlder hawaits, Option.or_eq_some_iff]
      constructor
      · rintro (hheld | ⟨habsent, hlast⟩)
        · exact absurd hheld hnone
        · exact ⟨hawaits, habsent, hlast⟩
      · exact fun hrevives => .inr hrevives.2
  | scrolledUp => exact unchanged (loadOlder_messages world.feed).1
  | _ => exact unchanged rfl

/-- Reconciliation makes no message active: what was removed at the snapshot is removed when it is read. -/
theorem not_active_reconciled (h : WorldInv world) {reading : Reading} (hreading : world.reading = some reading)
    {incoming : List Message} (hcurrent : ∀ value ∈ incoming, CurrentSince world.produced reading.since value)
    (hnot : ¬ Active world.feed id) :
    ¬ Active (world.feed.step (.reconciled reading.snapshot incoming)) id := by
  have hdistinct := (writes_step world.feed (.reconciled reading.snapshot incoming)).distinct h.distinct
  rw [active_iff hdistinct]
  intro hactive
  rcases statusOf_reconcileLoadedMessages _ _ _ h.distinct hactive with hheld | ⟨loaded, hmem, hid, previous, hget, href, hread⟩
  · exact hnot ((active_iff h.distinct).2 hheld)
  · obtain ⟨value, hlast, hvalue⟩ := Option.map_eq_some_iff.1 hread
    obtain ⟨hvalueMem, hvalueId⟩ := lastOf_mem hlast
    rw [get?_byId_eq] at hget
    have hprevious : previous ∈ reading.snapshot := List.mem_reverse.1 (List.mem_of_find?_eq_some hget)
    have hpreviousId : previous.id = id := by simpa using List.find?_some hget
    have hinv := h.reading reading hreading
    have hsame := hinv.same previous hprevious loaded hmem (hid.trans hpreviousId.symm) href
    have hremoved : previous.status ≠ .active := by
      intro hpreviousActive
      exact hnot ⟨loaded, hmem, hid, hsame ▸ hpreviousActive⟩
    exact (hcurrent value hvalueMem).removed h.terminal (hinv.known previous hprevious) hremoved
      (hvalueId.trans hpreviousId.symm) hvalue

/-- What a happening revives. -/
def Happening.Revives (world : World) (id : String) : Happening → Prop
  | .processed event => Feed.Revives world.feed id event
  | _ => False

theorem active_happening (h : WorldInv world) (hgenuine : Genuine world happening)
    (hnot : ¬ Active world.feed id) : Active (world.step happening).feed id ↔ happening.Revives world id := by
  cases happening with
  | produced value => exact iff_false_intro hnot
  | processed event => exact active_step h hgenuine.2 hnot
  | readingStarted => exact iff_false_intro hnot
  | readingFinished incoming =>
    refine iff_false_intro ?_
    unfold World.step
    dsimp only
    split
    · exact hnot
    · rename_i reading hreading
      exact not_active_reconciled h hreading (hgenuine reading hreading) hnot
  | readingDropped => exact iff_false_intro hnot

/-! ### Runs -/

/-- The state of a run before its step `i`. -/
def World.at (world : World) (happenings : List Happening) (i : Nat) : World := world.run (happenings.take i)

def GenuineRun (world : World) (happenings : List Happening) : Prop :=
  ∀ i happening, happenings[i]? = some happening → Genuine (world.at happenings i) happening

/-- A message that was held as removed is never held as active from then on. -/
def StaysRemoved (world : World) (happenings : List Happening) : Prop :=
  ∀ i j, i ≤ j → ∀ id, Removed (world.at happenings i).feed id → ¬ Active (world.at happenings j).feed id

/-- No step revives a message that was held as removed. -/
def NoneRevived (world : World) (happenings : List Happening) : Prop :=
  ∀ i happening, happenings[i]? = some happening → ∀ k ≤ i, ∀ id, Removed (world.at happenings k).feed id →
    ¬ happening.Revives (world.at happenings i) id

theorem at_succ (world : World) {i : Nat}
    (h : happenings[i]? = some happening) : world.at happenings (i + 1) = (world.at happenings i).step happening := by
  unfold World.at World.run
  rw [List.take_add_one, h, Option.toList_some, List.foldl_append]
  rfl

theorem at_succ_of_none (world : World) {i : Nat} (h : happenings[i]? = none) :
    world.at happenings (i + 1) = world.at happenings i := by
  unfold World.at
  rw [List.take_add_one, h, Option.toList_none, List.append_nil]

theorem worldInv_at (h : WorldInv world) (hgenuine : GenuineRun world happenings) (i : Nat) :
    WorldInv (world.at happenings i) := by
  induction i with
  | zero => exact h
  | succ i ih =>
    cases hi : happenings[i]? with
    | none =>
      rw [at_succ_of_none world hi]
      exact ih
    | some happening =>
      rw [at_succ world hi]
      exact ih.step (hgenuine i happening hi)

theorem not_active_of_removed (h : Distinct feed.messages) (hremoved : Removed feed id) :
    ¬ Active feed id := by
  rw [removed_iff h] at hremoved
  rw [active_iff h]
  obtain ⟨status, hstatus, hne⟩ := hremoved
  intro hactive
  rw [hstatus] at hactive
  exact hne (Option.some.inj hactive)

theorem staysRemoved_iff (h : WorldInv world) (hgenuine : GenuineRun world happenings) :
    StaysRemoved world happenings ↔ NoneRevived world happenings := by
  constructor
  · intro hstays i happening hi k hk id hremoved hrevives
    have hnot := hstays k i hk id hremoved
    have hactive := (active_happening (worldInv_at h hgenuine i) (hgenuine i happening hi) hnot).2 hrevives
    rw [← at_succ world hi] at hactive
    exact hstays k (i + 1) (by omega) id hremoved hactive
  · intro hnone i j hij id hremoved
    induction hij with
    | refl => exact not_active_of_removed (worldInv_at h hgenuine i).distinct hremoved
    | step hle ih =>
      rename_i j
      cases hj : happenings[j]? with
      | none =>
        rw [Nat.succ_eq_add_one, at_succ_of_none world hj]
        exact ih
      | some happening =>
        rw [Nat.succ_eq_add_one, at_succ world hj,
          active_happening (worldInv_at h hgenuine j) (hgenuine j happening hj) ih]
        exact hnone j happening hj i hle id hremoved

/-- The page of a conversation that was opened. -/
def openedWorld (produced : List Message) (feed : ConversationFeed) (conversationId : String) (start : Nat) : World :=
  ⟨produced, feed.opened conversationId start, none⟩

/-- Removal is terminal on the page exactly where no late value of a removed message comes by a batch of messages, or
by a page of older messages after the removed one was dropped. -/
theorem removal_terminal_iff (produced : List Message) (feed : ConversationFeed) (conversationId : String) (start : Nat)
    (hproduced : Terminal produced) (happenings : List Happening)
    (hgenuine : GenuineRun (openedWorld produced feed conversationId start) happenings) :
    StaysRemoved (openedWorld produced feed conversationId start) happenings ↔
      NoneRevived (openedWorld produced feed conversationId start) happenings := by
  have hinv : WorldInv (openedWorld produced feed conversationId start) := by
    refine ⟨hproduced, List.nodup_nil, ?_, ?_, ?_⟩
    · intro loaded hmem
      cases hmem
    · intro loaded hmem
      cases hmem
    · intro reading hreading
      cases hreading
  exact staysRemoved_iff hinv hgenuine

/-- A message is deleted; a page that was read before arrives after the event of the deletion. -/
def deletedMessage (status : Status) : Message :=
  { id := "message-1", tenantId := "tenant-1", conversationId := "conversation-1", senderUserId := "user-1",
    threadRootMessageId := none, threadReplyCount := some 0, conversationSequence := 1,
    body := if status = .active then some "hello" else none, status := status, reactions := [] }

def deletedFeed : ConversationFeed :=
  { activeConversationId := none, sessionUserId := some "user-2", messages := [], nextRef := 0, conversations := [],
    knownMessageIds := ∅, visible := true, nearBottom := true, newMessageCount := 0, contiguousSequence := 0,
    futureSequences := ∅, pendingCatchUpRequest := none, hasOlder := false, olderLoading := false,
    loadOlderRequestGeneration := 0, readCursors := OrderedMap.empty, deliveryCursors := [] }

def deletedWorld : World := openedWorld [deletedMessage .active] deletedFeed "conversation-1" 0

/-- The events of a creation and a deletion, and what arrives late. -/
def deletion (late : FeedEvent) : List Happening :=
  [.processed (.messages [deletedMessage .active]), .produced (deletedMessage .deleted),
    .processed (.messages [deletedMessage .deleted]), .processed late]

theorem genuine_deletion {late : FeedEvent} (hlate : late.values = [deletedMessage .active])
    (hevent : ∀ snapshot incoming, late ≠ .reconciled snapshot incoming) : GenuineRun deletedWorld (deletion late) := by
  intro i happening hi
  match i with
  | 0 =>
    cases hi
    exact ⟨fun value hvalue => hvalue, by simp⟩
  | 1 =>
    cases hi
    exact fun _ _ _ _ => by decide
  | 2 =>
    cases hi
    exact ⟨fun value hvalue => List.mem_cons_of_mem _ hvalue, by simp⟩
  | 3 =>
    cases hi
    refine ⟨?_, hevent⟩
    rw [hlate]
    exact fun value hvalue => List.mem_cons.2 (.inl (List.mem_singleton.1 hvalue))
  | i + 4 => cases hi

theorem removal_terminal_iff_sample :
    StaysRemoved deletedWorld (deletion (.updated (deletedMessage .active))) ↔
      NoneRevived deletedWorld (deletion (.updated (deletedMessage .active))) :=
  removal_terminal_iff [deletedMessage .active] deletedFeed "conversation-1" 0 (List.pairwise_singleton _ _)
    (deletion (.updated (deletedMessage .active))) (genuine_deletion rfl (by simp))

/-- The late page shows the deleted message again. -/
theorem late_page_revives : GenuineRun deletedWorld (deletion (.messages [deletedMessage .active])) ∧
    ¬ StaysRemoved deletedWorld (deletion (.messages [deletedMessage .active])) := by
  refine ⟨genuine_deletion rfl (by simp), fun h => ?_⟩
  have hremoved : (deletedWorld.at (deletion (.messages [deletedMessage .active])) 3).feed.messages =
      [⟨1, deletedMessage .deleted⟩] := by decide +kernel
  have hactive : (deletedWorld.at (deletion (.messages [deletedMessage .active])) 4).feed.messages =
      [⟨2, deletedMessage .active⟩] := by decide +kernel
  refine h 3 4 (by omega) "message-1" ⟨⟨1, deletedMessage .deleted⟩, ?_, rfl, by decide⟩
    ⟨⟨2, deletedMessage .active⟩, ?_, rfl, rfl⟩
  · rw [hremoved]
    exact List.mem_singleton.2 rfl
  · rw [hactive]
    exact List.mem_singleton.2 rfl

end KComms.Feed
