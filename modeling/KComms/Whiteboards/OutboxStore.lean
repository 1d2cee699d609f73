import KComms.Documents.TextChanges
import KComms.Whiteboards.Outbox

/-!
# The browser store of unacknowledged edits (`whiteboardOutboxStore.ts`)

Each batch has a record in IndexedDB, and an item in `localStorage` as long as the record is not written.  The reader
checks again what it finds, by rules of its own: `loadable` is what it demands of an element.

A value in a store is what a structured clone, or `JSON.parse`, gives back.  Values of other types are seen as far as
`normalizeEntry` tells them apart.  Which transactions complete and which calls of `localStorage` throw is up to the
browser (`Access`).
-/

namespace KComms.Whiteboards.OutboxStore

open Documents.Model (utf16 utf16Length maxSafeInteger)
open Persistence

/-! ### Values in the stores -/

/-- An object that is read as an entry; a member is `none` if it is not what `normalizeEntry` asks for: no string, no
integer, no date, no array. -/
structure StoredEntry where
  id : Option String
  baseSequence : Option Int
  createdAt : Option Nat
  /-- What is no object with a string as its `id` and a known type is `none`. -/
  elements : Option (List (Option ElementData))
  deriving DecidableEq, Repr

/-- `none` is a value that is no object, or a text that is no JSON. -/
abbrev StoredValue := Option StoredEntry

def stored (entry : WhiteboardOutboxEntry) : StoredValue :=
  some ⟨some entry.id, some entry.baseSequence, some entry.createdAt, some (entry.elements.map some)⟩

/-- A record of IndexedDB, under its `key`. -/
structure StoredRecord where
  scope : String
  entry : StoredValue
  deriving DecidableEq, Repr

structure Browser where
  database : OrderedMap String StoredRecord
  localStorage : OrderedMap String StoredValue

/-- What the browser lets through. -/
structure Access where
  /-- The transaction completes. -/
  database : Bool
  setItem : String → Bool
  removeItem : String → Bool
  /-- The items of `localStorage` can be read. -/
  items : Bool

/-! ### Reading an entry -/

section Reading

variable (link customData : ElementData → Bool)

def allowedType (type : ElementType) : Bool :=
  [.rectangle, .diamond, .ellipse, .line, .arrow, .freedraw, .text, .frame].contains type

/-- What `normalizeEntry` asks of an element; `link` and `customData` tell whether these members are truthy. -/
def loadable (element : ElementData) : Bool :=
  decide (8 ≤ utf16Length element.id) && allowedType element.type && element.version.isSome &&
    element.versionNonce.isSome && !link element && !customData element

def normalizeElements (elements : List (Option ElementData)) : Option (List ElementData) :=
  elements.mapM fun element => element.filter (loadable link customData)

def normalizeEntry (value : StoredValue) : Option WhiteboardOutboxEntry :=
  match value with
  | some ⟨some id, some baseSequence, some createdAt, some elements⟩ =>
    if utf16Length id < 8 ∨ 128 < utf16Length id ∨ baseSequence < 0 ∨ maxSafeInteger < baseSequence ∨
        elements.length = 0 ∨ 50 < elements.length then none
    else
      match normalizeElements link customData elements with
      | none => none
      | some elements => some ⟨id, baseSequence.toNat, elements, createdAt⟩
  | _ => none

end Reading

/-! ### The two stores -/

section Stores

variable (link customData : ElementData → Bool) (encodeURIComponent : String → String)

def fallbackPrefix (key : String) : String := "k-comms.whiteboard-outbox.v1:" ++ encodeURIComponent key ++ ":"

/-- The key of the item of an entry. -/
def itemKey (key id : String) : String := fallbackPrefix encodeURIComponent key ++ id

/-- The key of the record of an entry. -/
def recordKey (key id : String) : String := key ++ "\x00" ++ id

def keep (entries : OrderedMap String WhiteboardOutboxEntry) (value : StoredValue) :
    OrderedMap String WhiteboardOutboxEntry :=
  match normalizeEntry link customData value with
  | none => entries
  | some entry => entries.set entry.id entry

/-- The records of `store.index("scope").getAll(key)`, in the order of their own keys. -/
def getAll (browser : Browser) (key : String) : List StoredRecord :=
  ((browser.database.entries.filter fun item => item.2.scope = key).insertionSort
    fun a b => utf16 a.1 ≤ utf16 b.1).map Prod.snd

/-- The items whose key starts with the prefix. -/
def fallbackItems (browser : Browser) (key : String) : List (String × StoredValue) :=
  browser.localStorage.entries.filter fun item =>
    (fallbackPrefix encodeURIComponent key).toList.isPrefixOf item.1.toList

def loadWhiteboardOutbox (access : Access) (key : String) (browser : Browser) : List WhiteboardOutboxEntry :=
  let entries : OrderedMap String WhiteboardOutboxEntry := OrderedMap.empty
  let entries := if access.database then
      (getAll browser key).foldl (fun entries record => keep link customData entries record.entry) entries
    else entries
  let entries := if access.items then
      (fallbackItems encodeURIComponent browser key).foldl (fun entries item => keep link customData entries item.2) entries
    else entries
  entries.values.insertionSort fun a b => a.createdAt ≤ b.createdAt

/-- The copies in `localStorage`, and whether all of them could be made. -/
def saveItems (access : Access) (key : String) (entries : List WhiteboardOutboxEntry)
    (items : OrderedMap String StoredValue) : OrderedMap String StoredValue × Bool :=
  entries.foldl
    (fun state entry =>
      if access.setItem (itemKey encodeURIComponent key entry.id) then
        (state.1.set (itemKey encodeURIComponent key entry.id) (stored entry), state.2)
      else (state.1, false))
    (items, true)

def removeItems (access : Access) (key : String) (entries : List WhiteboardOutboxEntry)
    (items : OrderedMap String StoredValue) : OrderedMap String StoredValue :=
  entries.foldl
    (fun items entry =>
      if access.removeItem (itemKey encodeURIComponent key entry.id) then
        items.erase (itemKey encodeURIComponent key entry.id)
      else items)
    items

def putRecords (key : String) (entries : List WhiteboardOutboxEntry) (database : OrderedMap String StoredRecord) :
    OrderedMap String StoredRecord :=
  entries.foldl (fun database entry => database.set (recordKey key entry.id) ⟨key, stored entry⟩) database

/-- The result is `false` if neither store can retain the batch. -/
def saveWhiteboardOutbox (access : Access) (key : String) (entries : List WhiteboardOutboxEntry) (browser : Browser) :
    Browser × Bool :=
  let (items, fallbackSaved) := saveItems encodeURIComponent access key entries browser.localStorage
  if access.database then
    (⟨putRecords key entries browser.database, removeItems encodeURIComponent access key entries items⟩, true)
  else ({ browser with localStorage := items }, fallbackSaved)

end Stores

/-! ### Entries that pass -/

variable {entry : WhiteboardOutboxEntry}

section Passing

variable {link customData : ElementData → Bool}

theorem normalizeElements_some {elements result : List ElementData} :
    normalizeElements link customData (elements.map some) = some result ↔
      elements = result ∧ ∀ e ∈ elements, loadable link customData e = true := by
  unfold normalizeElements
  induction elements generalizing result with
  | nil => simp
  | cons e elements ih =>
    rw [List.map_cons, List.mapM_cons]
    by_cases he : loadable link customData e = true
    · rw [Option.filter_some_pos he]
      cases hrest : (elements.map some).mapM fun element => element.filter (loadable link customData) with
      | none =>
        have hnot : ¬ ∀ e ∈ elements, loadable link customData e = true := by
          intro hall
          have := (@ih elements).2 ⟨rfl, hall⟩
          rw [hrest] at this
          cases this
        simp [hnot]
      | some rest =>
        obtain ⟨rfl, hall⟩ := ih.1 hrest
        simpa [he] using fun _ => hall
    · rw [Option.filter_some_neg (Bool.eq_false_iff.2 he)]
      simp [he]

/-- An entry is read back as it is, or not at all. -/
theorem normalizeEntry_stored {result : WhiteboardOutboxEntry} :
    normalizeEntry link customData (stored entry) = some result ↔
      entry = result ∧ (8 ≤ utf16Length entry.id ∧ utf16Length entry.id ≤ 128) ∧ entry.baseSequence ≤ maxSafeInteger ∧
        (entry.elements.length ≠ 0 ∧ entry.elements.length ≤ 50) ∧
        ∀ e ∈ entry.elements, loadable link customData e = true := by
  obtain ⟨id, baseSequence, elements, createdAt⟩ := entry
  unfold normalizeEntry stored
  dsimp only
  rw [List.length_map]
  split
  · rename_i hrefused
    simp only [false_iff, reduceCtorEq]
    omega
  · rename_i hpassed
    cases hnormal : normalizeElements link customData (elements.map some) with
    | none =>
      have hnot : ¬ ∀ e ∈ elements, loadable link customData e = true := by
        intro hall
        rw [normalizeElements_some.2 ⟨rfl, hall⟩] at hnormal
        cases hnormal
      simp [hnot]
    | some elements' =>
      obtain ⟨rfl, hall⟩ := normalizeElements_some.1 hnormal
      simp only [Int.toNat_natCast, Option.some.injEq]
      constructor
      · intro hresult
        exact ⟨hresult, by omega, by omega, by omega, hall⟩
      · rintro ⟨hresult, -⟩
        exact hresult

end Passing

/-! ### What the stores hold -/

section Holding

variable {link customData : ElementData → Bool} {encodeURIComponent : String → String} {access : Access} {key : String}

/-- The values that are read. -/
def readValues (encodeURIComponent : String → String) (access : Access) (key : String) (browser : Browser) :
    List StoredValue :=
  (if access.database then (getAll browser key).map StoredRecord.entry else []) ++
    if access.items then (fallbackItems encodeURIComponent browser key).map Prod.snd else []

private theorem foldl_keep (values : List StoredValue) (entries : OrderedMap String WhiteboardOutboxEntry) :
    values.foldl (keep link customData) entries =
      entries.setAll ((values.filterMap (normalizeEntry link customData)).map fun entry => (entry.id, entry)) := by
  induction values generalizing entries with
  | nil => rfl
  | cons value values ih =>
    rw [List.foldl_cons, ih, List.filterMap_cons]
    unfold keep
    cases normalizeEntry link customData value <;> rfl

/-- An entry comes back if it is read, where all that is read under its id is the entry. -/
theorem mem_loadWhiteboardOutbox {browser : Browser}
    (hunique : ∀ value ∈ readValues encodeURIComponent access key browser, ∀ other,
      normalizeEntry link customData value = some other → other.id = entry.id → other = entry) :
    entry ∈ loadWhiteboardOutbox link customData encodeURIComponent access key browser ↔
      ∃ value ∈ readValues encodeURIComponent access key browser, normalizeEntry link customData value = some entry := by
  have hload : loadWhiteboardOutbox link customData encodeURIComponent access key browser =
      ((readValues encodeURIComponent access key browser).foldl (keep link customData)
        OrderedMap.empty).values.insertionSort fun a b => a.createdAt ≤ b.createdAt := by
    unfold loadWhiteboardOutbox readValues
    rw [List.foldl_append]
    cases access.database <;> cases access.items <;> simp [List.foldl_map]
  rw [hload, (List.perm_insertionSort _ _).mem_iff, foldl_keep]
  generalize readValues encodeURIComponent access key browser = values at hunique
  constructor
  · intro hmem
    obtain ⟨id, hid⟩ := OrderedMap.mem_values.1 hmem
    rcases OrderedMap.mem_of_get?_setAll hid with hpair | hempty
    · obtain ⟨other, hother, hsame⟩ := List.mem_map.1 hpair
      obtain ⟨-, rfl⟩ := Prod.mk.inj hsame
      exact List.mem_filterMap.1 hother
    · cases hempty
  · rintro ⟨value, hvalue, hentry⟩
    refine OrderedMap.mem_values.2 ⟨entry.id, ?_⟩
    rw [OrderedMap.get?_setAll, OrderedMap.get?_empty, Option.or_none]
    have hsome : (entry.id, entry) ∈ ((values.filterMap (normalizeEntry link customData)).map
        fun entry => (entry.id, entry)).reverse := by
      rw [List.mem_reverse]
      exact List.mem_map_of_mem (List.mem_filterMap.2 ⟨value, hvalue, hentry⟩)
    cases hfind : ((values.filterMap (normalizeEntry link customData)).map
        fun entry => (entry.id, entry)).reverse.find? fun e => e.1 = entry.id with
    | none =>
      have hnone := List.find?_eq_none.1 hfind _ hsome
      simp at hnone
    | some pair =>
      have hpair := List.mem_of_find?_eq_some hfind
      have hkey := List.find?_some hfind
      rw [List.mem_reverse] at hpair
      obtain ⟨other, hother, rfl⟩ := List.mem_map.1 hpair
      obtain ⟨value', hvalue', hother⟩ := List.mem_filterMap.1 hother
      rw [hunique value' hvalue' other hother (of_decide_eq_true hkey)]
      rfl

theorem mem_readValues {browser : Browser} {value : StoredValue} :
    value ∈ readValues encodeURIComponent access key browser ↔
      (access.database = true ∧ ∃ at' record, browser.database.get? at' = some record ∧ record.scope = key ∧
        record.entry = value) ∨
      (access.items = true ∧ ∃ at', browser.localStorage.get? at' = some value ∧
        (fallbackPrefix encodeURIComponent key).toList.isPrefixOf at'.toList = true) := by
  unfold readValues getAll fallbackItems
  rw [List.mem_append]
  apply or_congr
  · cases access.database with
    | false => simp
    | true =>
      simp only [if_true, true_and, List.mem_map, List.mem_insertionSort, List.mem_filter, decide_eq_true_eq]
      constructor
      · rintro ⟨record, ⟨⟨at', found⟩, ⟨hget, hscope⟩, rfl⟩, hvalue⟩
        exact ⟨at', found, OrderedMap.mem_entries.1 hget, hscope, hvalue⟩
      · rintro ⟨at', record, hget, hscope, hvalue⟩
        exact ⟨record, ⟨(at', record), ⟨OrderedMap.mem_entries.2 hget, hscope⟩, rfl⟩, hvalue⟩
  · cases access.items with
    | false => simp
    | true =>
      simp only [if_true, true_and, List.mem_map, List.mem_filter]
      constructor
      · rintro ⟨⟨at', found⟩, ⟨hget, hprefix⟩, rfl⟩
        exact ⟨at', OrderedMap.mem_entries.1 hget, hprefix⟩
      · rintro ⟨at', hget, hprefix⟩
        exact ⟨(at', value), ⟨OrderedMap.mem_entries.2 hget, hprefix⟩, rfl⟩

/-! ### What a save leaves in the stores -/

theorem putRecords_eq (key : String) (entries : List WhiteboardOutboxEntry) (database : OrderedMap String StoredRecord) :
    putRecords key entries database =
      database.setAll (entries.map fun entry => (recordKey key entry.id, ⟨key, stored entry⟩)) := by
  unfold putRecords OrderedMap.setAll
  rw [List.foldl_map]

theorem saveItems_eq (encodeURIComponent : String → String) (access : Access) (key : String)
    (entries : List WhiteboardOutboxEntry) (items : OrderedMap String StoredValue) :
    saveItems encodeURIComponent access key entries items =
      (items.setAll ((entries.filter fun entry => access.setItem (itemKey encodeURIComponent key entry.id)).map fun entry =>
        (itemKey encodeURIComponent key entry.id, stored entry)),
      entries.all fun entry => access.setItem (itemKey encodeURIComponent key entry.id)) := by
  unfold saveItems
  have hfold : ∀ (entries : List WhiteboardOutboxEntry) (items : OrderedMap String StoredValue) (saved : Bool),
      entries.foldl
        (fun state entry =>
          if access.setItem (itemKey encodeURIComponent key entry.id) then
            (state.1.set (itemKey encodeURIComponent key entry.id) (stored entry), state.2)
          else (state.1, false)) (items, saved) =
        (items.setAll ((entries.filter fun entry => access.setItem (itemKey encodeURIComponent key entry.id)).map
          fun entry => (itemKey encodeURIComponent key entry.id, stored entry)),
        saved && entries.all fun entry => access.setItem (itemKey encodeURIComponent key entry.id)) := by
    intro entries
    induction entries with
    | nil => intro items saved; simp [OrderedMap.setAll]
    | cons entry entries ih =>
      intro items saved
      rw [List.foldl_cons]
      by_cases hset : access.setItem (itemKey encodeURIComponent key entry.id) = true
      · rw [if_pos hset, ih]
        simp [hset, OrderedMap.setAll]
      · rw [if_neg hset, ih]
        simp [hset]
  rw [hfold]
  rfl

theorem get?_removeItems {entries : List WhiteboardOutboxEntry} {items : OrderedMap String StoredValue} {at' : String}
    {value : StoredValue} : (removeItems encodeURIComponent access key entries items).get? at' = some value ↔
      items.get? at' = some value ∧ ∀ entry ∈ entries, access.removeItem (itemKey encodeURIComponent key entry.id) = true →
        itemKey encodeURIComponent key entry.id ≠ at' := by
  unfold removeItems
  induction entries generalizing items with
  | nil => simp
  | cons entry entries ih =>
    rw [List.foldl_cons, ih, List.forall_mem_cons]
    by_cases hremove : access.removeItem (itemKey encodeURIComponent key entry.id) = true
    · rw [if_pos hremove, OrderedMap.get?_erase]
      by_cases hat : itemKey encodeURIComponent key entry.id = at'
      · subst hat
        simp [hremove]
      · simp [hat, hremove]
    · rw [if_neg hremove]
      simp [hremove]

end Holding

section Saved

variable {link customData : ElementData → Bool} {encodeURIComponent : String → String} {saving loading : Access}
  {key : String} {entries : List WhiteboardOutboxEntry} {browser : Browser}

/-- No value in the stores is read as an entry with the id. -/
def Unused (link customData : ElementData → Bool) (browser : Browser) (id : String) : Prop :=
  (∀ record ∈ browser.database.values, ∀ entry, normalizeEntry link customData record.entry = some entry → entry.id ≠ id) ∧
    ∀ value ∈ browser.localStorage.values, ∀ entry, normalizeEntry link customData value = some entry → entry.id ≠ id

/-- The ids that `crypto.randomUUID` has drawn for the entries. -/
structure Drawn (link customData : ElementData → Bool) (browser : Browser) (entries : List WhiteboardOutboxEntry) : Prop where
  distinct : (entries.map WhiteboardOutboxEntry.id).Nodup
  length : ∀ entry ∈ entries, utf16Length entry.id = 36
  unused : ∀ entry ∈ entries, Unused link customData browser entry.id

/-- A store that has taken the entry is read, and has not let go of it. -/
def Readable (encodeURIComponent : String → String) (saving loading : Access) (key : String)
    (entry : WhiteboardOutboxEntry) : Prop :=
  (saving.database = true ∧ loading.database = true) ∨
    (loading.items = true ∧ saving.setItem (itemKey encodeURIComponent key entry.id) = true ∧
      ¬ (saving.database = true ∧ saving.removeItem (itemKey encodeURIComponent key entry.id) = true))

theorem recordKey_injective {id id' : String} (h : recordKey key id = recordKey key id') : id = id' :=
  (String.append_right_inj _).1 h

theorem itemKey_injective {id id' : String} (h : itemKey encodeURIComponent key id = itemKey encodeURIComponent key id') :
    id = id' :=
  (String.append_right_inj _).1 h

private theorem nodup_keys {prefixed : String → String} (hprefixed : ∀ id id', prefixed id = prefixed id' → id = id')
    (hdistinct : (entries.map WhiteboardOutboxEntry.id).Nodup) {α : Type} (f : WhiteboardOutboxEntry → α) :
    ((entries.map fun entry => (prefixed entry.id, f entry)).map Prod.fst).Nodup := by
  have hkeys := hdistinct.map hprefixed
  rw [List.map_map] at hkeys ⊢
  exact hkeys

theorem get?_putRecords (key : String) (hdistinct : (entries.map WhiteboardOutboxEntry.id).Nodup)
    (database : OrderedMap String StoredRecord) :
    (∀ entry ∈ entries, (putRecords key entries database).get? (recordKey key entry.id) = some ⟨key, stored entry⟩) ∧
    ∀ at' record, (putRecords key entries database).get? at' = some record →
      (∃ entry ∈ entries, record = ⟨key, stored entry⟩) ∨ database.get? at' = some record := by
  rw [putRecords_eq]
  constructor
  · intro entry hentry
    exact OrderedMap.get?_setAll_of_mem (nodup_keys (fun _ _ => recordKey_injective) hdistinct _)
      (List.mem_map.2 ⟨entry, hentry, rfl⟩)
  · intro at' record hget
    rcases OrderedMap.mem_of_get?_setAll hget with hnew | hold
    · obtain ⟨entry, hentry, hsame⟩ := List.mem_map.1 hnew
      exact Or.inl ⟨entry, hentry, (Prod.mk.inj hsame).2.symm⟩
    · exact Or.inr hold

theorem get?_saveItems (encodeURIComponent : String → String) (saving : Access) (key : String)
    (hdistinct : (entries.map WhiteboardOutboxEntry.id).Nodup) (items : OrderedMap String StoredValue) :
    (∀ entry ∈ entries, saving.setItem (itemKey encodeURIComponent key entry.id) = true →
      (saveItems encodeURIComponent saving key entries items).1.get? (itemKey encodeURIComponent key entry.id) =
        some (stored entry)) ∧
    ∀ at' value, (saveItems encodeURIComponent saving key entries items).1.get? at' = some value →
      (∃ entry ∈ entries, at' = itemKey encodeURIComponent key entry.id ∧ saving.setItem at' = true ∧
        value = stored entry) ∨ items.get? at' = some value := by
  rw [saveItems_eq]
  constructor
  · intro entry hentry hset
    have hfilter := (List.filter_sublist (p := fun entry : WhiteboardOutboxEntry =>
      saving.setItem (itemKey encodeURIComponent key entry.id))).map WhiteboardOutboxEntry.id |>.nodup hdistinct
    exact OrderedMap.get?_setAll_of_mem (nodup_keys (fun _ _ => itemKey_injective) hfilter _)
      (List.mem_map.2 ⟨entry, List.mem_filter.2 ⟨hentry, hset⟩, rfl⟩)
  · intro at' value hget
    rcases OrderedMap.mem_of_get?_setAll hget with hnew | hold
    · obtain ⟨entry, hentry, hsame⟩ := List.mem_map.1 hnew
      obtain ⟨hentry, hset⟩ := List.mem_filter.1 hentry
      obtain ⟨rfl, rfl⟩ := Prod.mk.inj hsame
      exact Or.inl ⟨entry, hentry, rfl, hset, rfl⟩
    · exact Or.inr hold

/-- What is read after the save: the entries in a store that is read, and what was there before. -/
theorem mem_readValues_saved (encodeURIComponent : String → String) (saving loading : Access) (key : String)
    (browser : Browser) (hdistinct : (entries.map WhiteboardOutboxEntry.id).Nodup) :
    (∀ entry ∈ entries, Readable encodeURIComponent saving loading key entry → stored entry ∈
      readValues encodeURIComponent loading key (saveWhiteboardOutbox encodeURIComponent saving key entries browser).1) ∧
    ∀ value ∈ readValues encodeURIComponent loading key
      (saveWhiteboardOutbox encodeURIComponent saving key entries browser).1,
      (∃ entry ∈ entries, Readable encodeURIComponent saving loading key entry ∧ value = stored entry) ∨
        (∃ record ∈ browser.database.values, record.entry = value) ∨ value ∈ browser.localStorage.values := by
  obtain ⟨hput, hputOnly⟩ := get?_putRecords key hdistinct browser.database
  obtain ⟨hset, hsetOnly⟩ := get?_saveItems encodeURIComponent saving key hdistinct browser.localStorage
  unfold saveWhiteboardOutbox
  dsimp only
  constructor
  · rintro entry hentry (⟨hsaving, hloading⟩ | ⟨hitems, htaken, hkept⟩)
    · rw [if_pos hsaving]
      exact mem_readValues.2 (Or.inl ⟨hloading, _, _, hput entry hentry, rfl, rfl⟩)
    · refine mem_readValues.2 (Or.inr ⟨hitems, itemKey encodeURIComponent key entry.id, ?_, ?_⟩)
      · have htaken := hset entry hentry htaken
        split
        · rename_i hsaving
          refine get?_removeItems.2 ⟨htaken, fun other _ hremove hsame => hkept ⟨hsaving, ?_⟩⟩
          rw [← hsame]
          exact hremove
        · exact htaken
      · unfold itemKey
        rw [String.toList_append, List.isPrefixOf_iff_prefix]
        exact List.prefix_append _ _
  · intro value hvalue
    rcases mem_readValues.1 hvalue with ⟨hloading, at', record, hget, -, hvalue⟩ | ⟨hitems, at', hget, -⟩
    · by_cases hsaving : saving.database = true
      · rw [if_pos hsaving] at hget
        rcases hputOnly at' record hget with ⟨entry, hentry, rfl⟩ | hold
        · exact Or.inl ⟨entry, hentry, Or.inl ⟨hsaving, hloading⟩, hvalue.symm⟩
        · exact Or.inr (Or.inl ⟨record, OrderedMap.mem_values.2 ⟨at', hold⟩, hvalue⟩)
      · rw [if_neg hsaving] at hget
        exact Or.inr (Or.inl ⟨record, OrderedMap.mem_values.2 ⟨at', hget⟩, hvalue⟩)
    · have hitem : (saveItems encodeURIComponent saving key entries browser.localStorage).1.get? at' = some value ∧
          (saving.database = true → ∀ entry ∈ entries,
            saving.removeItem (itemKey encodeURIComponent key entry.id) = true →
              itemKey encodeURIComponent key entry.id ≠ at') := by
        by_cases hsaving : saving.database = true
        · rw [if_pos hsaving] at hget
          obtain ⟨hget, hkept⟩ := get?_removeItems.1 hget
          exact ⟨hget, fun _ => hkept⟩
        · rw [if_neg hsaving] at hget
          exact ⟨hget, fun h => absurd h hsaving⟩
      rcases hsetOnly at' value hitem.1 with ⟨entry, hentry, rfl, htaken, hvalue⟩ | hold
      · exact Or.inl ⟨entry, hentry, Or.inr ⟨hitems, htaken, fun h => hitem.2 h.1 entry hentry h.2 rfl⟩, hvalue⟩
      · exact Or.inr (Or.inr (OrderedMap.mem_values.2 ⟨at', hold⟩))

/-- An entry that is saved comes back just when a store that has it is read and the reader accepts it. -/
theorem saved_comes_back (hdrawn : Drawn link customData browser entries) (hentry : entry ∈ entries) :
    entry ∈ loadWhiteboardOutbox link customData encodeURIComponent loading key
        (saveWhiteboardOutbox encodeURIComponent saving key entries browser).1 ↔
      Readable encodeURIComponent saving loading key entry ∧
        normalizeEntry link customData (stored entry) = some entry := by
  obtain ⟨hthere, honly⟩ := mem_readValues_saved encodeURIComponent saving loading key browser hdrawn.distinct
  -- a value that is read as an entry with the id has been saved for it
  have hid : ∀ value ∈ readValues encodeURIComponent loading key
      (saveWhiteboardOutbox encodeURIComponent saving key entries browser).1, ∀ other,
      normalizeEntry link customData value = some other → other.id = entry.id →
        other = entry ∧ value = stored entry ∧ Readable encodeURIComponent saving loading key entry := by
    intro value hvalue other hnormal hsame
    obtain ⟨hdatabase, hlocal⟩ := hdrawn.unused entry hentry
    rcases honly value hvalue with ⟨saved, hsaved, hreadable, rfl⟩ | ⟨record, hrecord, rfl⟩ | hold
    · obtain ⟨rfl, -⟩ := normalizeEntry_stored.1 hnormal
      obtain rfl := List.inj_on_of_nodup_map hdrawn.distinct hsaved hentry hsame
      exact ⟨rfl, rfl, hreadable⟩
    · exact absurd hsame (hdatabase record hrecord other hnormal)
    · exact absurd hsame (hlocal value hold other hnormal)
  rw [mem_loadWhiteboardOutbox fun value hvalue other hnormal hsame => (hid value hvalue other hnormal hsame).1]
  constructor
  · rintro ⟨value, hvalue, hnormal⟩
    obtain ⟨-, rfl, hreadable⟩ := hid value hvalue entry hnormal rfl
    exact ⟨hreadable, hnormal⟩
  · rintro ⟨hreadable, hnormal⟩
    exact ⟨stored entry, hthere entry hentry hreadable, hnormal⟩

end Saved

/-! ### The batches of the client -/

section Sealed

variable {encodedBytes : ElementData → Nat} {uuid : Nat → String} {now : Nat}

/-- The batches so far have one to fifty elements each, and the next one has at most fifty. -/
private structure SealedInv (base : Nat) (state : Sealing) : Prop where
  entries : ∀ entry ∈ state.entries,
    (entry.elements.length ≠ 0 ∧ entry.elements.length ≤ 50) ∧ entry.baseSequence = base
  next : state.elements.length ≤ 50

private theorem SealedInv.seal {base : Nat} {state : Sealing} (h : SealedInv base state) (uuid : Nat → String)
    (now drawn : Nat) :
    SealedInv base (state.seal uuid now drawn base) ∧ (state.seal uuid now drawn base).elements.length = 0 := by
  unfold Sealing.seal
  split
  · rename_i hempty
    exact ⟨h, hempty⟩
  · rename_i hnonempty
    refine ⟨⟨fun entry hentry => ?_, Nat.zero_le _⟩, rfl⟩
    rcases List.mem_append.1 hentry with hold | hnew
    · exact h.entries entry hold
    · rw [List.mem_singleton.1 hnew]
      exact ⟨⟨hnonempty, h.next⟩, rfl⟩

private theorem SealedInv.add {base : Nat} {state : Sealing} (h : SealedInv base state) (drawn : Nat) (e : ElementData) :
    SealedInv base (Sealing.add encodedBytes uuid now drawn base state e) := by
  unfold Sealing.add
  dsimp only
  split
  · obtain ⟨hseal, hempty⟩ := h.seal uuid now drawn
    refine ⟨hseal.entries, ?_⟩
    rw [List.length_append, hempty]
    exact Nat.le_of_ble_eq_true rfl
  · rename_i hroom
    refine ⟨h.entries, ?_⟩
    rw [List.length_append, List.length_singleton]
    omega

theorem batches_sealed (c : Client) (h : entry ∈ batches encodedBytes uuid now c) :
    (entry.elements.length ≠ 0 ∧ entry.elements.length ≤ 50) ∧
      entry.baseSequence = c.pendingBase.getD c.stream.latestSequence := by
  have hfold : ∀ (elements : List ElementData) (state : Sealing),
      SealedInv (c.pendingBase.getD c.stream.latestSequence) state →
      SealedInv (c.pendingBase.getD c.stream.latestSequence) (elements.foldl
        (Sealing.add encodedBytes uuid now c.drawn (c.pendingBase.getD c.stream.latestSequence)) state) := by
    intro elements
    induction elements with
    | nil => exact fun state h => h
    | cons e elements ih => exact fun state h => ih _ (h.add c.drawn e)
  have hstart : SealedInv (c.pendingBase.getD c.stream.latestSequence) ⟨[], [], 0⟩ := ⟨by simp, Nat.zero_le _⟩
  exact ((hfold c.pending.values _ hstart).seal uuid now c.drawn).1.entries entry h

/-- All batches of the pending elements come back after a reload if and only if each is in a store that is read and the
reader accepts every pending element. -/
theorem outbox_round_trip (link customData : ElementData → Bool) (encodeURIComponent : String → String)
    (encodedBytes : ElementData → Nat) (uuid : Nat → String) (now : Nat) (c : Client) (key : String)
    (saving loading : Access) (browser : Browser)
    (hdrawn : Drawn link customData browser (batches encodedBytes uuid now c)) :
    (∀ entry ∈ batches encodedBytes uuid now c,
      entry ∈ loadWhiteboardOutbox link customData encodeURIComponent loading key
        (saveWhiteboardOutbox encodeURIComponent saving key (batches encodedBytes uuid now c) browser).1) ↔
    (∀ entry ∈ batches encodedBytes uuid now c, Readable encodeURIComponent saving loading key entry) ∧
      ∀ e ∈ c.pending.values, loadable link customData e = true ∧
        c.pendingBase.getD c.stream.latestSequence ≤ maxSafeInteger := by
  have helements := (batches_spec encodedBytes uuid now c).1
  rw [← helements]
  constructor
  · intro hback
    have heach := fun entry hentry => (saved_comes_back hdrawn hentry).1 (hback entry hentry)
    refine ⟨fun entry hentry => (heach entry hentry).1, fun e he => ?_⟩
    obtain ⟨entry, hentry, he⟩ := List.mem_flatMap.1 he
    obtain ⟨-, -, hbase, -, hall⟩ := normalizeEntry_stored.1 (heach entry hentry).2
    rw [(batches_sealed c hentry).2] at hbase
    exact ⟨hall e he, hbase⟩
  · rintro ⟨hreadable, hall⟩ entry hentry
    obtain ⟨hcount, hbase⟩ := batches_sealed c hentry
    refine (saved_comes_back hdrawn hentry).2 ⟨hreadable entry hentry, normalizeEntry_stored.2 ⟨rfl, ?_, ?_, hcount, ?_⟩⟩
    · rw [hdrawn.length entry hentry]
      omega
    · obtain ⟨e, he⟩ := List.exists_mem_of_length_pos (Nat.pos_of_ne_zero hcount.1)
      rw [hbase]
      exact (hall e (List.mem_flatMap.2 ⟨entry, hentry, he⟩)).2
    · exact fun e he => (hall e (List.mem_flatMap.2 ⟨entry, hentry, he⟩)).1

end Sealed

/-- A client with elements that its user has drawn. -/
def drawnClient (elements : List EditorElement) : Option (Client × List Note) :=
  run (fun _ => 100) lengthUuid
    (Client.restored ⟨OrderedMap.empty, 0, OrderedMap.empty⟩ OrderedMap.empty OrderedMap.empty [])
    [(.armLocalChanges, 0), (.editorChange elements, 0)]

/-- A browser whose stores work. -/
def working : Access := ⟨true, fun _ => true, fun _ => true, true⟩

def emptyBrowser : Browser := ⟨OrderedMap.empty, OrderedMap.empty⟩

def sampleUuid (n : Nat) : String := "00000000-0000-4000-8000-00000000000" ++ toString n

/-- What the client saves and what is loaded again. -/
def reload (c : Client) : List WhiteboardOutboxEntry × Bool × List WhiteboardOutboxEntry :=
  let entries := batches (fun _ => 100) sampleUuid 0 c
  let saved := saveWhiteboardOutbox id working "board-1" entries emptyBrowser
  (entries, saved.2, loadWhiteboardOutbox (fun _ => false) (fun _ => false) id working "board-1" saved.1)

def sampleEntry (elements : List ElementData) : WhiteboardOutboxEntry := ⟨sampleUuid 0, 0, elements, 0⟩

theorem drawn_sample {c : Client} {elements : List ElementData}
    (hentries : batches (fun _ => 100) sampleUuid 0 c = [sampleEntry elements]) :
    Drawn (fun _ => false) (fun _ => false) emptyBrowser (batches (fun _ => 100) sampleUuid 0 c) := by
  rw [hentries]
  refine ⟨List.nodup_singleton _, fun entry hentry => ?_, fun entry _ => ⟨fun record hrecord => ?_, fun value hvalue => ?_⟩⟩
  · rw [List.mem_singleton.1 hentry]
    change utf16Length (sampleUuid 0) = 36
    decide
  · cases hrecord
  · cases hvalue

theorem outbox_round_trip_rectangle : ∃ c notes, drawnClient [.allowed (revision 1)] = some (c, notes) ∧
    batches (fun _ => 100) sampleUuid 0 c = [sampleEntry [revision 1]] ∧
    ((∀ entry ∈ batches (fun _ => 100) sampleUuid 0 c,
      entry ∈ loadWhiteboardOutbox (fun _ => false) (fun _ => false) id working "board-1"
        (saveWhiteboardOutbox id working "board-1" (batches (fun _ => 100) sampleUuid 0 c) emptyBrowser).1) ↔
      (∀ entry ∈ batches (fun _ => 100) sampleUuid 0 c, Readable id working working "board-1" entry) ∧
        ∀ e ∈ c.pending.values, loadable (fun _ => false) (fun _ => false) e = true ∧
          c.pendingBase.getD c.stream.latestSequence ≤ maxSafeInteger) := by
  have hmap : (drawnClient [.allowed (revision 1)]).map (fun r => batches (fun _ => 100) sampleUuid 0 r.1) =
      some [sampleEntry [revision 1]] := by decide
  obtain ⟨⟨c, notes⟩, hrun, hentries⟩ := Option.map_eq_some_iff.1 hmap
  exact ⟨c, notes, hrun, hentries, outbox_round_trip (fun _ => false) (fun _ => false) id (fun _ => 100) sampleUuid 0 c
    "board-1" working working emptyBrowser (drawn_sample hentries)⟩

/-- An image that has been placed on a board. -/
def placedImage : ElementData := ⟨"element-2", .image, some 1, some 7, false, some "file-1", ""⟩

/-- A batch with an image is saved and does not come back, nor does the rectangle in it. -/
theorem image_batch_lost : ∃ c notes, drawnClient [.allowed (revision 1), .allowed placedImage] = some (c, notes) ∧
    notes = [.admitted (revision 1), .admitted placedImage] ∧
    reload c = ([sampleEntry [revision 1, placedImage]], true, []) := by
  have hmap : (drawnClient [.allowed (revision 1), .allowed placedImage]).map (fun r => (r.2, reload r.1)) =
      some ([.admitted (revision 1), .admitted placedImage], [sampleEntry [revision 1, placedImage]], true, []) := by
    decide
  obtain ⟨⟨c, notes⟩, hrun, hfacts⟩ := Option.map_eq_some_iff.1 hmap
  obtain ⟨hnotes, hreload⟩ := Prod.mk.inj hfacts
  exact ⟨c, notes, hrun, hnotes, hreload⟩

end KComms.Whiteboards.OutboxStore
