import KComms.Feed.UseConversationFeed
import KComms.Lib.LatestWins

/-!
# The loaded messages

What each operation of the feed does to the messages it holds: they are distinct, an object that is new has a new
identity, and a message has the status of what was there or of what was delivered (`Writes`).  Which of the two it is
depends on the operation (`statusOf_receiveMessages`, `statusOf_receiveOlder`, `statusOf_updateLoadedMessage`).
-/

namespace KComms.Feed

open Messaging (Status)

/-! ### Maps by the identity of the message -/

def Loaded.id (loaded : Loaded) : String := loaded.message.id

def Loaded.status (loaded : Loaded) : Status := loaded.message.status

/-- The messages are distinct. -/
def Distinct (messages : List Loaded) : Prop := (messages.map Loaded.id).Nodup

abbrev Keyed (byId : OrderedMap String Loaded) : Prop := LatestWins.Keyed Loaded.id byId

variable {id : String} {loaded : Loaded} {messages : List Loaded} {acc : OrderedMap String Loaded × Nat}

theorem keyed_setAll : ∀ {byId : OrderedMap String Loaded}, Keyed byId →
    Keyed (byId.setAll (messages.map fun loaded => (loaded.message.id, loaded))) := by
  induction messages with
  | nil => exact fun h => h
  | cons loaded messages ih => exact fun h => ih (LatestWins.Keyed.set h loaded)

theorem keyed_byId (messages : List Loaded) : Keyed (byId messages) := keyed_setAll LatestWins.keyed_empty

theorem get?_byId (h : Distinct messages) :
    (byId messages).get? id = some loaded ↔ loaded ∈ messages ∧ loaded.id = id := by
  have hkeys : ((messages.map fun loaded => (loaded.message.id, loaded)).map Prod.fst).Nodup := by
    rw [List.map_map]
    exact h
  rw [← OrderedMap.mem_entries, byId, OrderedMap.entries_ofList hkeys, List.mem_map]
  constructor
  · rintro ⟨other, hother, heq⟩
    cases heq
    exact ⟨hother, rfl⟩
  · rintro ⟨hmem, rfl⟩
    exact ⟨loaded, hmem, rfl⟩

/-- Of messages with one id the last one counts. -/
theorem get?_byId_eq (messages : List Loaded) (id : String) :
    (byId messages).get? id = messages.reverse.find? fun loaded => loaded.id = id := by
  unfold byId OrderedMap.ofList
  rw [OrderedMap.get?_setAll, ← List.map_reverse, List.find?_map, Option.map_map]
  simp only [OrderedMap.get?_empty, Option.or_none]
  exact Option.map_id'

theorem mem_sorted {byId : OrderedMap String Loaded} (h : Keyed byId) :
    loaded ∈ sorted byId ↔ byId.get? loaded.id = some loaded := by
  unfold sorted
  rw [List.mem_insertionSort, OrderedMap.mem_values]
  constructor
  · rintro ⟨id, hid⟩
    rwa [← h.get? hid]
  · exact fun hid => ⟨_, hid⟩

theorem distinct_sorted {byId : OrderedMap String Loaded} (h : Keyed byId) : Distinct (sorted byId) := by
  unfold Distinct sorted
  rw [((List.perm_insertionSort _ _).map _).nodup_iff, h.map_key]
  exact byId.keys_nodup

/-! ### Statuses -/

/-- The status under which a message is held. -/
def statusOf (messages : List Loaded) (id : String) : Option Status := ((byId messages).get? id).map Loaded.status

/-- The last value of a message in a list. -/
def lastOf (values : List Message) (id : String) : Option Message := values.reverse.find? fun message => message.id = id

theorem statusOf_eq_some (h : Distinct messages) {status : Status} :
    statusOf messages id = some status ↔ ∃ loaded ∈ messages, loaded.id = id ∧ loaded.status = status := by
  unfold statusOf
  rw [Option.map_eq_some_iff]
  constructor
  · rintro ⟨loaded, hget, rfl⟩
    obtain ⟨hmem, hid⟩ := (get?_byId h).1 hget
    exact ⟨loaded, hmem, hid, rfl⟩
  · rintro ⟨loaded, hmem, hid, rfl⟩
    exact ⟨loaded, (get?_byId h).2 ⟨hmem, hid⟩, rfl⟩

theorem statusOf_sorted {byId : OrderedMap String Loaded} (h : Keyed byId) (id : String) :
    statusOf (sorted byId) id = (byId.get? id).map Loaded.status := by
  ext status
  rw [statusOf_eq_some (distinct_sorted h), Option.map_eq_some_iff]
  constructor
  · rintro ⟨loaded, hmem, rfl, rfl⟩
    exact ⟨loaded, (mem_sorted h).1 hmem, rfl⟩
  · rintro ⟨loaded, hget, rfl⟩
    have hid : id = loaded.id := h.get? hget
    subst hid
    exact ⟨loaded, (mem_sorted h).2 hget, rfl, rfl⟩

theorem lastOf_mem {values : List Message} {message : Message} (h : lastOf values id = some message) :
    message ∈ values ∧ message.id = id := by
  unfold lastOf at h
  have hid := List.find?_some h
  rw [decide_eq_true_eq] at hid
  exact ⟨List.mem_reverse.1 (List.mem_of_find?_eq_some h), hid⟩

theorem map_load (nextRef : Nat) (values : List Message) : (load nextRef values).map Loaded.message = values := by
  apply List.ext_getElem?
  intro i
  unfold load
  rw [List.getElem?_map, List.getElem?_mapIdx, Option.map_map]
  exact Option.map_id'

theorem ref_load {nextRef : Nat} {values : List Message} (h : loaded ∈ load nextRef values) :
    nextRef ≤ loaded.ref ∧ loaded.ref < nextRef + values.length := by
  unfold load at h
  obtain ⟨i, hi, rfl⟩ := List.mem_mapIdx.1 h
  dsimp only
  omega

/-- The last loaded value of a message. -/
theorem find?_load (nextRef : Nat) (values : List Message) (id : String) :
    ((load nextRef values).reverse.find? fun loaded => loaded.id = id).map Loaded.message = lastOf values id := by
  unfold lastOf
  conv_rhs => rw [← map_load nextRef values]
  rw [← List.map_reverse, List.find?_map]
  rfl

theorem status_load (nextRef : Nat) (values : List Message) (id : String) :
    ((load nextRef values).reverse.find? fun loaded => loaded.id = id).map Loaded.status =
      (lastOf values id).map Message.status := by
  rw [← find?_load nextRef, Option.map_map]
  rfl

/-! ### What operations write -/

/-- An operation keeps or replaces messages by new objects, whose status is that of a message that was there or of a
delivered value. -/
structure Writes (feed feed' : ConversationFeed) (values : List Message) : Prop where
  distinct : Distinct feed.messages → Distinct feed'.messages
  nextRef_le : feed.nextRef ≤ feed'.nextRef
  fresh : Distinct feed.messages → ∀ loaded ∈ feed'.messages, loaded ∈ feed.messages ∨
    feed.nextRef ≤ loaded.ref ∧ loaded.ref < feed'.nextRef
  source : Distinct feed.messages → ∀ id status, statusOf feed'.messages id = some status →
    statusOf feed.messages id = some status ∨ ∃ value ∈ values, value.id = id ∧ value.status = status

variable {feed feed' : ConversationFeed}

theorem writes_of_eq (hmessages : feed'.messages = feed.messages) (hnext : feed'.nextRef = feed.nextRef)
    (values : List Message) : Writes feed feed' values where
  distinct h := hmessages ▸ h
  nextRef_le := Nat.le_of_eq hnext.symm
  fresh _ _ hmem := .inl (hmessages ▸ hmem)
  source _ _ _ h := .inl (hmessages ▸ h)

/-! ### Merging -/

theorem keyed_mergeMessage (h : Keyed acc.1) (loaded : Loaded) :
    Keyed (mergeMessage acc loaded).1 := by
  have hset : Keyed (acc.1.set loaded.message.id loaded) := LatestWins.Keyed.set h loaded
  unfold mergeMessage
  dsimp only
  split
  · exact hset
  · rename_i root _
    exact LatestWins.Keyed.set hset (recount acc.2 root.message loaded.message)

/-- Copying the root of a thread keeps its status. -/
theorem status_mergeMessage (h : Keyed acc.1) (loaded : Loaded) (id : String) :
    ((mergeMessage acc loaded).1.get? id).map Loaded.status =
      if loaded.id = id then some loaded.status else (acc.1.get? id).map Loaded.status := by
  have hset : Keyed (acc.1.set loaded.message.id loaded) := LatestWins.Keyed.set h loaded
  have hget : ((acc.1.set loaded.message.id loaded).get? id).map Loaded.status =
      if loaded.id = id then some loaded.status else (acc.1.get? id).map Loaded.status := by
    rw [OrderedMap.get?_set]
    unfold Loaded.id
    split <;> rfl
  rw [← hget]
  unfold mergeMessage
  dsimp only
  split
  · rfl
  · rename_i root hroot
    rw [OrderedMap.get?_set]
    split
    · rename_i hid
      obtain ⟨rootId, -, hrootGet⟩ := Option.bind_eq_some_iff.1 hroot
      have hkey : rootId = root.id := hset.get? hrootGet
      have hrootId : rootId = id := hkey.trans hid
      rw [← hrootId, hrootGet]
      rfl
    · rfl

theorem status_foldl_mergeMessage {incoming : List Loaded} : ∀ {acc : OrderedMap String Loaded × Nat}, Keyed acc.1 →
    Keyed (incoming.foldl mergeMessage acc).1 ∧ ∀ id, ((incoming.foldl mergeMessage acc).1.get? id).map Loaded.status =
      ((incoming.reverse.find? fun loaded => loaded.id = id).map Loaded.status).or
        ((acc.1.get? id).map Loaded.status) := by
  induction incoming with
  | nil => exact fun h => ⟨h, fun _ => rfl⟩
  | cons loaded incoming ih =>
    intro acc h
    obtain ⟨hkeyed, hstatus⟩ := ih (keyed_mergeMessage h loaded)
    refine ⟨hkeyed, fun id => ?_⟩
    rw [List.foldl_cons, hstatus, status_mergeMessage h, List.reverse_cons, List.find?_append]
    cases incoming.reverse.find? fun loaded => loaded.id = id with
    | some found => rfl
    | none =>
      by_cases hid : loaded.id = id
      · simp [hid]
      · simp [hid]

/-- Objects of a merged map are held ones, incoming ones or new copies. -/
theorem ref_foldl_mergeMessage {incoming : List Loaded} : ∀ {acc : OrderedMap String Loaded × Nat},
    acc.2 ≤ (incoming.foldl mergeMessage acc).2 ∧ ∀ id loaded, (incoming.foldl mergeMessage acc).1.get? id = some loaded →
      acc.1.get? id = some loaded ∨ loaded ∈ incoming ∨
        acc.2 ≤ loaded.ref ∧ loaded.ref < (incoming.foldl mergeMessage acc).2 := by
  induction incoming with
  | nil => exact ⟨Nat.le_refl _, fun id loaded h => .inl h⟩
  | cons new incoming ih =>
    intro acc
    obtain ⟨hle, hget⟩ := @ih (mergeMessage acc new)
    have hstep : acc.2 ≤ (mergeMessage acc new).2 ∧ ∀ id loaded, (mergeMessage acc new).1.get? id = some loaded →
        acc.1.get? id = some loaded ∨ loaded = new ∨ acc.2 ≤ loaded.ref ∧ loaded.ref < (mergeMessage acc new).2 := by
      unfold mergeMessage
      dsimp only
      split
      · refine ⟨Nat.le_refl _, fun id loaded h => ?_⟩
        rw [OrderedMap.get?_set] at h
        split at h
        · exact .inr (.inl (Option.some.inj h).symm)
        · exact .inl h
      · refine ⟨by omega, fun id loaded h => ?_⟩
        rw [OrderedMap.get?_set] at h
        split at h
        · rw [← Option.some.inj h]
          unfold recount
          dsimp only
          omega
        · rw [OrderedMap.get?_set] at h
          split at h
          · exact .inr (.inl (Option.some.inj h).symm)
          · exact .inl h
    rw [List.foldl_cons]
    refine ⟨by omega, fun id loaded h => ?_⟩
    rcases hget id loaded h with h | h | h
    · rcases hstep.2 id loaded h with h | h | h
      · exact .inl h
      · exact .inr (.inl (by simp [h]))
      · exact .inr (.inr ⟨h.1, by omega⟩)
    · exact .inr (.inl (by simp [h]))
    · exact .inr (.inr ⟨by omega, h.2⟩)

theorem statusOf_mergeMessages (feed : ConversationFeed) (values : List Message) (id : String) :
    statusOf (feed.mergeMessages values).messages id =
      ((lastOf values id).map Message.status).or (statusOf feed.messages id) := by
  obtain ⟨hkeyed, hstatus⟩ := @status_foldl_mergeMessage (load feed.nextRef values)
    (byId feed.messages, feed.nextRef + values.length) (keyed_byId feed.messages)
  show statusOf (sorted _) id = _
  rw [statusOf_sorted hkeyed, hstatus, status_load]
  rfl

theorem writes_mergeMessages (feed : ConversationFeed) (values : List Message) :
    Writes feed (feed.mergeMessages values) values := by
  obtain ⟨hkeyed, -⟩ := @status_foldl_mergeMessage (load feed.nextRef values)
    (byId feed.messages, feed.nextRef + values.length) (keyed_byId feed.messages)
  obtain ⟨hle, href⟩ := @ref_foldl_mergeMessage (load feed.nextRef values)
    (byId feed.messages, feed.nextRef + values.length)
  refine ⟨fun _ => distinct_sorted hkeyed, Nat.le_trans (Nat.le_add_right _ _) hle, ?_, ?_⟩
  · intro hdistinct loaded hmem
    rcases href _ _ ((mem_sorted hkeyed).1 hmem) with hget | hload | hcopy
    · exact .inl ((get?_byId hdistinct).1 hget).1
    · have := ref_load hload
      exact .inr ⟨this.1, Nat.lt_of_lt_of_le this.2 hle⟩
    · exact .inr ⟨Nat.le_trans (Nat.le_add_right _ _) hcopy.1, hcopy.2⟩
  · intro _ id status h
    rw [statusOf_mergeMessages] at h
    cases hlast : lastOf values id with
    | none =>
      rw [hlast] at h
      exact .inl h
    | some value =>
      rw [hlast] at h
      obtain ⟨hmem, hid⟩ := lastOf_mem hlast
      exact .inr ⟨value, hmem, hid, Option.some.inj h⟩

/-! ### The other operations -/

theorem summaries_messages (feed : ConversationFeed) (incoming : List Message) :
    (feed.updateConversationSummaries incoming).messages = feed.messages ∧
      (feed.updateConversationSummaries incoming).nextRef = feed.nextRef ∧
      (feed.updateConversationSummaries incoming).active incoming = feed.active incoming := by
  unfold ConversationFeed.updateConversationSummaries
  dsimp only
  split <;> exact ⟨rfl, rfl, rfl⟩

/-- Where `receiveMessages` merges, and from what. -/
theorem receiveMessages_cases (feed : ConversationFeed) (incoming : List Message) :
    (feed.active incoming = [] ∧ (feed.receiveMessages incoming).messages = feed.messages ∧
      (feed.receiveMessages incoming).nextRef = feed.nextRef) ∨
    ∃ noted : ConversationFeed, noted.messages = feed.messages ∧ noted.nextRef = feed.nextRef ∧
      feed.receiveMessages incoming = noted.mergeMessages (feed.active incoming) := by
  obtain ⟨hmessages, hnext, hactive⟩ := summaries_messages feed incoming
  unfold ConversationFeed.receiveMessages
  split
  · rename_i hnil
    rw [hnil]
    exact .inl ⟨rfl, rfl, rfl⟩
  · dsimp only
    rw [hactive]
    split
    · rename_i hnone
      exact .inl ⟨hnone, hmessages, hnext⟩
    · refine .inr ⟨_, ?_, ?_, rfl⟩
      · split <;> exact hmessages
      · split <;> exact hnext

/-- Received values replace what is held. -/
theorem statusOf_receiveMessages (feed : ConversationFeed) (incoming : List Message) (id : String) :
    statusOf (feed.receiveMessages incoming).messages id =
      ((lastOf (feed.active incoming) id).map Message.status).or (statusOf feed.messages id) := by
  rcases receiveMessages_cases feed incoming with ⟨hnone, hmessages, -⟩ | ⟨noted, hmessages, -, hreceive⟩
  · rw [hmessages, hnone]
    rfl
  · rw [hreceive, statusOf_mergeMessages, hmessages]

theorem writes_receiveMessages (feed : ConversationFeed) (incoming : List Message) :
    Writes feed (feed.receiveMessages incoming) incoming := by
  rcases receiveMessages_cases feed incoming with ⟨-, hmessages, hnext⟩ | ⟨noted, hmessages, hnext, hreceive⟩
  · exact writes_of_eq hmessages hnext incoming
  · have h := writes_mergeMessages noted (feed.active incoming)
    rw [← hreceive] at h
    refine ⟨fun hdistinct => h.distinct (hmessages ▸ hdistinct), hnext ▸ h.nextRef_le, ?_, ?_⟩
    · intro hdistinct loaded hmem
      rw [← hmessages, ← hnext]
      exact h.fresh (hmessages ▸ hdistinct) loaded hmem
    · intro hdistinct id status hstatus
      rw [← hmessages]
      rcases h.source (hmessages ▸ hdistinct) id status hstatus with hheld | ⟨value, hvalue, hid⟩
      · exact .inl hheld
      · exact .inr ⟨value, (List.mem_filter.1 hvalue).1, hid⟩

/-- Rewriting messages one by one keeps them distinct. -/
theorem distinct_mapIdx {f : Nat → Loaded → Loaded} (hid : ∀ i loaded, (f i loaded).id = loaded.id)
    (h : Distinct messages) : Distinct (messages.mapIdx f) := by
  have hmap : (messages.mapIdx f).map Loaded.id = messages.map Loaded.id := by
    apply List.ext_getElem?
    intro i
    rw [List.getElem?_map, List.getElem?_mapIdx, List.getElem?_map, Option.map_map]
    congr 1
    funext loaded
    exact hid i loaded
  unfold Distinct
  rw [hmap]
  exact h

theorem statusOf_applyReaction (feed : ConversationFeed) (event : ReactionEvent) (add : Bool)
    (h : Distinct feed.messages) (id : String) :
    statusOf (feed.applyReaction event add).messages id = statusOf feed.messages id := by
  have hid : ∀ i loaded, (if loaded.message.id ≠ event.messageId then loaded
      else (⟨feed.nextRef + i, loaded.message.react event add⟩ : Loaded)).id = loaded.id := by
    intro i loaded
    split <;> rfl
  have hstatus : ∀ i loaded, (if loaded.message.id ≠ event.messageId then loaded
      else (⟨feed.nextRef + i, loaded.message.react event add⟩ : Loaded)).status = loaded.status := by
    intro i loaded
    split <;> rfl
  have hdistinct : Distinct (feed.applyReaction event add).messages := distinct_mapIdx hid h
  ext status
  rw [statusOf_eq_some hdistinct, statusOf_eq_some h]
  constructor
  · rintro ⟨loaded, hmem, rfl, rfl⟩
    obtain ⟨i, hi, rfl⟩ := List.mem_mapIdx.1 hmem
    exact ⟨_, List.getElem_mem hi, (hid i _).symm, (hstatus i _).symm⟩
  · rintro ⟨loaded, hmem, rfl, rfl⟩
    obtain ⟨i, hi, rfl⟩ := List.getElem_of_mem hmem
    exact ⟨_, List.mem_mapIdx.2 ⟨i, hi, rfl⟩, hid i _, hstatus i _⟩

theorem writes_applyReaction (feed : ConversationFeed) (event : ReactionEvent) (add : Bool) :
    Writes feed (feed.applyReaction event add) [] where
  distinct h := by
    apply distinct_mapIdx _ h
    intro i loaded
    split <;> rfl
  nextRef_le := Nat.le_add_right _ _
  fresh _ loaded hmem := by
    obtain ⟨i, hi, rfl⟩ := List.mem_mapIdx.1 hmem
    split
    · exact .inl (List.getElem_mem hi)
    · refine .inr ⟨Nat.le_add_right _ _, ?_⟩
      show feed.nextRef + i < feed.nextRef + feed.messages.length
      omega
  source h id status hstatus := by
    rw [statusOf_applyReaction feed event add h] at hstatus
    exact .inl hstatus

theorem replaced_id {updated : Loaded} : (replaced loaded updated).id = loaded.id := by
  unfold replaced
  split
  · rfl
  · rename_i hid
    rw [Classical.not_not] at hid
    split
    · rfl
    · exact hid.symm

theorem distinct_map {f : Loaded → Loaded} (hid : ∀ loaded, (f loaded).id = loaded.id)
    (h : Distinct messages) : Distinct (messages.map f) := by
  unfold Distinct
  rw [List.map_map, show Loaded.id ∘ f = Loaded.id from funext hid]
  exact h

/-- The messages after an update, whether or not one was replaced. -/
theorem updateLoadedMessage_messages (feed : ConversationFeed) (updated : Message) :
    (feed.updateLoadedMessage updated).messages = feed.messages ∧
        (feed.updateLoadedMessage updated).nextRef = feed.nextRef ∨
      (feed.updateLoadedMessage updated).messages =
          feed.messages.map (fun loaded => replaced loaded ⟨feed.nextRef, updated⟩) ∧
        (feed.updateLoadedMessage updated).nextRef = feed.nextRef + 1 := by
  unfold ConversationFeed.updateLoadedMessage
  split
  · exact .inl ⟨rfl, rfl⟩
  · refine .inr ⟨?_, rfl⟩
    dsimp only
    split
    · rfl
    · rename_i hnone
      rw [Bool.not_eq_true, List.any_eq_false] at hnone
      have hsame : ∀ loaded ∈ feed.messages, replaced loaded ⟨feed.nextRef, updated⟩ = loaded := by
        intro loaded hmem
        have hid := hnone loaded hmem
        rw [decide_eq_true_eq] at hid
        unfold replaced
        rw [if_pos hid]
      rw [List.map_congr_left hsame, List.map_id']

theorem status_replaced (loaded updated : Loaded) :
    replaced loaded updated = loaded ∨
      replaced loaded updated = updated ∧ updated.id = loaded.id ∧
        (loaded.status = .active ∨ updated.status ≠ .active) := by
  unfold replaced
  split
  · exact .inl rfl
  · rename_i hid
    rw [Classical.not_not] at hid
    split
    · exact .inl rfl
    · rename_i hterminal
      refine .inr ⟨rfl, hid.symm, ?_⟩
      by_cases hactive : loaded.status = .active
      · exact .inl hactive
      · exact .inr fun h => hterminal ⟨hactive, h⟩

/-- A message that is active after an update was active before. -/
theorem statusOf_updateLoadedMessage (feed : ConversationFeed) (updated : Message) (h : Distinct feed.messages)
    (hactive : statusOf (feed.updateLoadedMessage updated).messages id = some .active) :
    statusOf feed.messages id = some .active := by
  rcases updateLoadedMessage_messages feed updated with ⟨hmessages, -⟩ | ⟨hmessages, -⟩
  · rw [hmessages] at hactive
    exact hactive
  · rw [hmessages, statusOf_eq_some (distinct_map (fun _ => replaced_id) h)] at hactive
    obtain ⟨_, hmem, rfl, hstatus⟩ := hactive
    obtain ⟨loaded, hloaded, rfl⟩ := List.mem_map.1 hmem
    rw [statusOf_eq_some h]
    refine ⟨loaded, hloaded, replaced_id.symm, ?_⟩
    rcases status_replaced loaded ⟨feed.nextRef, updated⟩ with hsame | ⟨hnew, -, hkept | hremoved⟩
    · rw [hsame] at hstatus
      exact hstatus
    · exact hkept
    · rw [hnew] at hstatus
      exact absurd hstatus hremoved

theorem writes_updateLoadedMessage (feed : ConversationFeed) (updated : Message) :
    Writes feed (feed.updateLoadedMessage updated) [updated] := by
  rcases updateLoadedMessage_messages feed updated with ⟨hmessages, hnext⟩ | ⟨hmessages, hnext⟩
  · exact writes_of_eq hmessages hnext _
  · refine ⟨fun h => ?_, by omega, ?_, ?_⟩
    · rw [hmessages]
      exact distinct_map (fun _ => replaced_id) h
    · intro _ new hmem
      rw [hmessages] at hmem
      obtain ⟨loaded, hloaded, rfl⟩ := List.mem_map.1 hmem
      rcases status_replaced loaded ⟨feed.nextRef, updated⟩ with hsame | ⟨hnew, -⟩
      · rw [hsame]
        exact .inl hloaded
      · rw [hnew, hnext]
        exact .inr ⟨Nat.le_refl _, Nat.lt_succ_self _⟩
    · intro h id status hstatus
      rw [hmessages, statusOf_eq_some (distinct_map (fun _ => replaced_id) h)] at hstatus
      obtain ⟨_, hmem, rfl, rfl⟩ := hstatus
      obtain ⟨loaded, hloaded, rfl⟩ := List.mem_map.1 hmem
      rcases status_replaced loaded ⟨feed.nextRef, updated⟩ with hsame | ⟨hnew, hid, -⟩
      · rw [hsame, statusOf_eq_some h]
        exact .inl ⟨loaded, hloaded, rfl, rfl⟩
      · rw [hnew]
        exact .inr ⟨updated, List.mem_singleton.2 rfl, rfl, rfl⟩

/-! ### Older pages -/

theorem loadOlder_messages (feed : ConversationFeed) :
    feed.loadOlder.1.messages = feed.messages ∧ feed.loadOlder.1.nextRef = feed.nextRef := by
  unfold ConversationFeed.loadOlder
  split
  · exact ⟨rfl, rfl⟩
  · split
    · exact ⟨rfl, rfl⟩
    · dsimp only
      split <;> exact ⟨rfl, rfl⟩

/-- Whether the answer of a request for older messages counts. -/
def ConversationFeed.Awaits (feed : ConversationFeed) (request : OlderRequest) : Prop :=
  request.generation = feed.loadOlderRequestGeneration ∧ feed.activeConversationId = some request.conversationId

theorem receiveOlder_cases (feed : ConversationFeed) (request : OlderRequest) (page : List Message) :
    (¬ feed.Awaits request ∧ feed.receiveOlder request page = feed) ∨
      feed.Awaits request ∧
        (feed.receiveOlder request page).messages = sorted (byId (load feed.nextRef page ++ feed.messages)) ∧
        (feed.receiveOlder request page).nextRef = feed.nextRef + page.length := by
  unfold ConversationFeed.receiveOlder ConversationFeed.Awaits
  split
  · rename_i hstale
    refine .inl ⟨?_, rfl⟩
    rintro ⟨hgeneration, hactive⟩
    rcases hstale with h | h
    · exact h hgeneration
    · exact h hactive
  · rename_i hcurrent
    rw [not_or, Classical.not_not, Classical.not_not] at hcurrent
    exact .inr ⟨hcurrent, rfl, rfl⟩

/-- What the page holds goes before what a page of older messages has. -/
theorem get?_byId_append (messages messages' : List Loaded) (id : String) :
    (byId (messages ++ messages')).get? id =
      ((byId messages').get? id).or (messages.reverse.find? fun loaded => loaded.id = id) := by
  rw [get?_byId_eq, get?_byId_eq, List.reverse_append, List.find?_append]

theorem statusOf_receiveOlder {feed : ConversationFeed} {request : OlderRequest} (hawaits : feed.Awaits request)
    (page : List Message) (id : String) : statusOf (feed.receiveOlder request page).messages id =
      (statusOf feed.messages id).or ((lastOf page id).map Message.status) := by
  rcases receiveOlder_cases feed request page with ⟨hstale, -⟩ | ⟨-, hmessages, -⟩
  · exact absurd hawaits hstale
  · rw [hmessages, statusOf_sorted (keyed_byId _), get?_byId_append, ← status_load feed.nextRef]
    unfold statusOf
    cases (byId feed.messages).get? id <;> rfl

theorem writes_receiveOlder (feed : ConversationFeed) (request : OlderRequest) (page : List Message) :
    Writes feed (feed.receiveOlder request page) page := by
  rcases receiveOlder_cases feed request page with ⟨-, hsame⟩ | ⟨hawaits, hmessages, hnext⟩
  · rw [hsame]
    exact writes_of_eq rfl rfl page
  · refine ⟨fun _ => ?_, by omega, ?_, ?_⟩
    · rw [hmessages]
      exact distinct_sorted (keyed_byId _)
    · intro h loaded hmem
      rw [hmessages, mem_sorted (keyed_byId _), get?_byId_append, Option.or_eq_some_iff] at hmem
      rcases hmem with hheld | ⟨-, hpage⟩
      · exact .inl ((get?_byId h).1 hheld).1
      · have := ref_load (List.mem_reverse.1 (List.mem_of_find?_eq_some hpage))
        rw [hnext]
        exact .inr this
    · intro _ id status hstatus
      rw [statusOf_receiveOlder hawaits, Option.or_eq_some_iff] at hstatus
      rcases hstatus with hheld | ⟨-, hpage⟩
      · exact .inl hheld
      · obtain ⟨value, hlast, hvalue⟩ := Option.map_eq_some_iff.1 hpage
        obtain ⟨hmem, hid⟩ := lastOf_mem hlast
        exact .inr ⟨value, hmem, hid, hvalue⟩

/-! ### Reconciliation -/

/-- A message stays, or the object of the snapshot is replaced by what was read. -/
theorem mem_reconciled {snapshot incoming : OrderedMap String Loaded} (hkeyed : Keyed incoming) {new : Loaded}
    (h : new ∈ reconciled snapshot incoming loaded) : new = loaded ∨
      ∃ previous, snapshot.get? loaded.id = some previous ∧ loaded.ref = previous.ref ∧
        incoming.get? loaded.id = some new ∧ new.id = loaded.id := by
  unfold reconciled at h
  split at h
  · exact .inl (List.mem_singleton.1 h)
  · rename_i previous hprevious
    split at h
    · exact .inl (List.mem_singleton.1 h)
    · rename_i href
      rw [Classical.not_not] at href
      rw [Option.mem_toList] at h
      exact .inr ⟨previous, hprevious, href, h, (hkeyed.get? h).symm⟩

theorem reconciled_ids {snapshot incoming : OrderedMap String Loaded} (hkeyed : Keyed incoming) (messages : List Loaded) :
    ((messages.flatMap (reconciled snapshot incoming)).map Loaded.id).Sublist (messages.map Loaded.id) := by
  induction messages with
  | nil => exact List.Sublist.refl _
  | cons loaded messages ih =>
    rw [List.flatMap_cons, List.map_append, List.map_cons]
    have hone : ((reconciled snapshot incoming loaded).map Loaded.id).Sublist [loaded.id] := by
      unfold reconciled
      split
      · exact List.Sublist.refl _
      · split
        · exact List.Sublist.refl _
        · cases hget : incoming.get? loaded.message.id with
          | none => exact List.nil_sublist _
          | some fresh =>
            have hid : fresh.id = loaded.id := (hkeyed.get? hget).symm
            show [fresh.id].Sublist [loaded.id]
            rw [hid]
    exact hone.append ih

/-- What is read again replaces the object of the snapshot only. -/
theorem statusOf_reconcileLoadedMessages (feed : ConversationFeed) (snapshot : List Loaded) (incoming : List Message)
    (h : Distinct feed.messages) {status : Status}
    (hstatus : statusOf (feed.reconcileLoadedMessages snapshot incoming).messages id = some status) :
    statusOf feed.messages id = some status ∨
      ∃ loaded ∈ feed.messages, loaded.id = id ∧ ∃ previous, (byId snapshot).get? id = some previous ∧
        loaded.ref = previous.ref ∧ (lastOf incoming id).map Message.status = some status := by
  have hkeyed := keyed_byId (load feed.nextRef incoming)
  have hdistinct : Distinct (feed.reconcileLoadedMessages snapshot incoming).messages :=
    List.Nodup.sublist (reconciled_ids hkeyed feed.messages) h
  rw [statusOf_eq_some hdistinct] at hstatus
  obtain ⟨new, hnew, rfl, rfl⟩ := hstatus
  obtain ⟨loaded, hloaded, hmem⟩ := List.mem_flatMap.1 hnew
  rcases mem_reconciled hkeyed hmem with rfl | ⟨previous, hprevious, href, hget, hid⟩
  · exact .inl ((statusOf_eq_some h).2 ⟨new, hloaded, rfl, rfl⟩)
  · refine .inr ⟨loaded, hloaded, hid.symm, previous, hid ▸ hprevious, href, ?_⟩
    rw [get?_byId_eq] at hget
    rw [← status_load feed.nextRef, hid, hget]
    rfl

theorem writes_reconcileLoadedMessages (feed : ConversationFeed) (snapshot : List Loaded) (incoming : List Message) :
    Writes feed (feed.reconcileLoadedMessages snapshot incoming) incoming := by
  have hkeyed := keyed_byId (load feed.nextRef incoming)
  refine ⟨List.Nodup.sublist (reconciled_ids hkeyed feed.messages), Nat.le_add_right _ _, ?_, ?_⟩
  · intro _ new hnew
    obtain ⟨loaded, hloaded, hmem⟩ := List.mem_flatMap.1 hnew
    rcases mem_reconciled hkeyed hmem with rfl | ⟨previous, -, -, hget, -⟩
    · exact .inl hloaded
    · rw [get?_byId_eq] at hget
      exact .inr (ref_load (List.mem_reverse.1 (List.mem_of_find?_eq_some hget)))
  · intro h id status hstatus
    rcases statusOf_reconcileLoadedMessages feed snapshot incoming h hstatus with hkept | ⟨-, -, -, -, -, -, hread⟩
    · exact .inl hkept
    · obtain ⟨value, hlast, hvalue⟩ := Option.map_eq_some_iff.1 hread
      obtain ⟨hmem, hid⟩ := lastOf_mem hlast
      exact .inr ⟨value, hmem, hid, hvalue⟩

end KComms.Feed
