import Mathlib.Data.List.Nodup
import Mathlib.Data.List.Perm.Basic
import Mathlib.Data.List.Sort

/-!
# Maps that remember the order of insertion

A finite map kept as the list of its entries, in the order in which the keys were first set: the order in which a
JavaScript `Map` enumerates itself.  Setting a key that is present replaces its value and keeps its place; erasing a
key forgets the place.  The keys are distinct by construction (`OrderedMap.nodup`), so an entry is determined by its
key (`mem_entries`).

`Enumeration` is for maps whose language does not say in which order they are enumerated, only that equal maps are
enumerated alike.
-/

/-- A finite map with its entries in insertion order. -/
structure OrderedMap (κ α : Type) where
  entries : List (κ × α)
  nodup : (entries.map Prod.fst).Nodup
  deriving DecidableEq

namespace OrderedMap

variable {κ α : Type}

/-! ### The operations -/

/-- The map without entries. -/
def empty : OrderedMap κ α := ⟨[], List.nodup_nil⟩

/-- The keys in insertion order. -/
def keys (m : OrderedMap κ α) : List κ := m.entries.map Prod.fst

/-- The values in insertion order. -/
def values (m : OrderedMap κ α) : List α := m.entries.map Prod.snd

def size (m : OrderedMap κ α) : Nat := m.entries.length

variable {m : OrderedMap κ α} {k : κ} {l : List (κ × α)} {a : α}

@[simp] theorem keys_empty : (empty : OrderedMap κ α).keys = [] := rfl

@[simp] theorem size_empty : (empty : OrderedMap κ α).size = 0 := rfl

theorem keys_nodup (m : OrderedMap κ α) : m.keys.Nodup := m.nodup

theorem length_keys (m : OrderedMap κ α) : m.keys.length = m.size := List.length_map _

theorem length_values (m : OrderedMap κ α) : m.values.length = m.size := List.length_map _

theorem ext_entries {m' : OrderedMap κ α} (h : m.entries = m'.entries) : m = m' := by
  cases m; cases m'; cases h; rfl

/-- A key has one value. -/
theorem entries_unique {b : α} (ha : (k, a) ∈ m.entries) (hb : (k, b) ∈ m.entries) :
    a = b := by
  have := List.inj_on_of_nodup_map m.nodup ha hb rfl
  exact (Prod.mk.injEq .. ▸ this).2

variable [DecidableEq κ]

/-- Replace the value of `k` where it stands, or put `k` at the end. -/
def upsert (k : κ) (a : α) : List (κ × α) → List (κ × α)
  | [] => [(k, a)]
  | e :: l => if e.1 = k then (k, a) :: l else e :: upsert k a l

theorem map_fst_upsert (k : κ) (a : α) (l : List (κ × α)) :
    (upsert k a l).map Prod.fst = if k ∈ l.map Prod.fst then l.map Prod.fst else l.map Prod.fst ++ [k] := by
  induction l with
  | nil => simp [upsert]
  | cons e l ih =>
    unfold upsert
    by_cases h : e.1 = k
    · simp [h]
    · have hk : k ≠ e.1 := fun h' => h h'.symm
      rw [if_neg h, List.map_cons, ih]
      simp only [List.map_cons, List.mem_cons, hk, false_or]
      split <;> simp

private theorem nodup_upsert (h : (l.map Prod.fst).Nodup) :
    ((upsert k a l).map Prod.fst).Nodup := by
  rw [map_fst_upsert]
  split
  · exact h
  · rename_i hk
    exact List.nodup_append.2 ⟨h, List.nodup_singleton k, fun x hx y hy => by
      rintro rfl; exact hk ((List.mem_singleton.1 hy) ▸ hx)⟩

def has (m : OrderedMap κ α) (k : κ) : Bool := decide (k ∈ m.keys)

def get? (m : OrderedMap κ α) (k : κ) : Option α := (m.entries.find? (fun e => e.1 = k)).map Prod.snd

def set (m : OrderedMap κ α) (k : κ) (a : α) : OrderedMap κ α := ⟨upsert k a m.entries, nodup_upsert m.nodup⟩

/-- Rewrite the value of `k`, if there is one, where it stands. -/
def modify (m : OrderedMap κ α) (k : κ) (f : α → α) : OrderedMap κ α :=
  ⟨m.entries.map fun e => if e.1 = k then (e.1, f e.2) else e, by
    have : (m.entries.map fun e => if e.1 = k then (e.1, f e.2) else e).map Prod.fst = m.entries.map Prod.fst := by
      rw [List.map_map]
      apply List.map_congr_left
      intro e _
      simp only [Function.comp]
      split <;> rfl
    rw [this]; exact m.nodup⟩

def erase (m : OrderedMap κ α) (k : κ) : OrderedMap κ α :=
  ⟨m.entries.filter fun e => e.1 ≠ k, m.nodup.sublist (List.Sublist.map _ List.filter_sublist)⟩

/-- Rewrite all values where they stand. -/
def map {β : Type} (f : α → β) (m : OrderedMap κ α) : OrderedMap κ β :=
  ⟨m.entries.map fun e => (e.1, f e.2), by
    have : (m.entries.map fun e => (e.1, f e.2)).map Prod.fst = m.entries.map Prod.fst := by rw [List.map_map]; rfl
    rw [this]; exact m.nodup⟩

/-- Set the entries of a list one after the other. -/
def setAll (m : OrderedMap κ α) (l : List (κ × α)) : OrderedMap κ α := l.foldl (fun m e => m.set e.1 e.2) m

def ofList (l : List (κ × α)) : OrderedMap κ α := setAll empty l

/-! ### Keys and size -/

@[simp] theorem has_iff : m.has k = true ↔ k ∈ m.keys := decide_eq_true_iff

theorem keys_set (m : OrderedMap κ α) (k : κ) (a : α) :
    (m.set k a).keys = if k ∈ m.keys then m.keys else m.keys ++ [k] := map_fst_upsert k a m.entries

@[simp] theorem mem_keys_set {k' : κ} :
    k' ∈ (m.set k a).keys ↔ k' = k ∨ k' ∈ m.keys := by
  rw [keys_set]
  split
  · constructor
    · exact Or.inr
    · rintro (rfl | h) <;> assumption
  · simp [or_comm]

@[simp] theorem keys_modify (m : OrderedMap κ α) (k : κ) (f : α → α) : (m.modify k f).keys = m.keys := by
  unfold keys modify
  rw [List.map_map]
  apply List.map_congr_left
  intro e _
  simp only [Function.comp]
  split <;> rfl

omit [DecidableEq κ] in
theorem values_map {β : Type} (f : α → β) (m : OrderedMap κ α) : (m.map f).values = m.values.map f := by
  unfold values map
  rw [List.map_map, List.map_map]
  rfl

theorem mem_keys_erase {k' : κ} : k' ∈ (m.erase k).keys ↔ k' ∈ m.keys ∧ k' ≠ k := by
  unfold keys erase
  simp only [List.mem_map, List.mem_filter, decide_eq_true_eq]
  constructor
  · rintro ⟨e, ⟨he, hk⟩, rfl⟩
    exact ⟨⟨e, he, rfl⟩, hk⟩
  · rintro ⟨⟨e, he, rfl⟩, hk⟩
    exact ⟨e, ⟨he, hk⟩, rfl⟩

theorem size_erase_le (m : OrderedMap κ α) (k : κ) : (m.erase k).size ≤ m.size := List.length_filter_le ..

theorem size_erase_lt (h : k ∈ m.keys) : (m.erase k).size < m.size := by
  obtain ⟨e, he, rfl⟩ := List.mem_map.1 h
  exact List.length_filter_lt_length_iff_exists.2 ⟨e, he, by simp⟩

theorem size_set (m : OrderedMap κ α) (k : κ) (a : α) :
    (m.set k a).size = if k ∈ m.keys then m.size else m.size + 1 := by
  rw [← length_keys, keys_set]
  split <;> simp [length_keys]

/-! ### Entries and look-up -/

theorem mem_entries : (k, a) ∈ m.entries ↔ m.get? k = some a := by
  unfold get?
  rw [Option.map_eq_some_iff]
  constructor
  · intro h
    obtain ⟨e, he⟩ : ∃ e, m.entries.find? (fun e => e.1 = k) = some e := by
      rw [← Option.isSome_iff_exists, List.find?_isSome]
      exact ⟨(k, a), h, by simp⟩
    refine ⟨e, he, ?_⟩
    have hk : e.1 = k := by simpa using List.find?_some he
    have hm := List.mem_of_find?_eq_some he
    obtain ⟨k', b⟩ := e
    subst hk
    exact entries_unique hm h
  · rintro ⟨⟨k', b⟩, he, rfl⟩
    have hk : k' = k := by simpa using List.find?_some he
    exact hk ▸ List.mem_of_find?_eq_some he

theorem mem_keys_iff : k ∈ m.keys ↔ ∃ a, m.get? k = some a := by
  unfold keys
  simp only [List.mem_map, ← mem_entries]
  constructor
  · rintro ⟨⟨k', a⟩, h, rfl⟩; exact ⟨a, h⟩
  · rintro ⟨a, h⟩; exact ⟨(k, a), h, rfl⟩

theorem get?_eq_none : m.get? k = none ↔ k ∉ m.keys := by
  rw [mem_keys_iff, ← Option.not_isSome_iff_eq_none, Option.isSome_iff_exists]

theorem not_has_iff : (!m.has k) = true ↔ m.get? k = none := by
  rw [get?_eq_none, ← has_iff, Bool.not_eq_true', Bool.not_eq_true]

theorem mem_values : a ∈ m.values ↔ ∃ k, m.get? k = some a := by
  unfold values
  simp only [List.mem_map, ← mem_entries]
  constructor
  · rintro ⟨⟨k, b⟩, h, rfl⟩; exact ⟨k, h⟩
  · rintro ⟨k, h⟩; exact ⟨(k, a), h, rfl⟩

@[simp] theorem get?_empty (k : κ) : (empty : OrderedMap κ α).get? k = none := rfl

private theorem find?_upsert (k k' : κ) (a : α) (l : List (κ × α)) :
    ((upsert k a l).find? (fun e => e.1 = k')).map Prod.snd =
      if k = k' then some a else (l.find? (fun e => e.1 = k')).map Prod.snd := by
  induction l with
  | nil => by_cases h : k = k' <;> simp [upsert, h]
  | cons e l ih =>
    unfold upsert
    by_cases he : e.1 = k
    · rw [if_pos he]
      by_cases h : k = k'
      · simp [h]
      · have : e.1 ≠ k' := fun h' => h (he.symm.trans h')
        simp [h, this]
    · rw [if_neg he]
      by_cases h' : e.1 = k'
      · have : k ≠ k' := fun h => he (h'.trans h.symm)
        simp [h', this]
      · simp only [List.find?_cons, h', decide_false]
        exact ih

@[simp] theorem get?_set (m : OrderedMap κ α) (k k' : κ) (a : α) :
    (m.set k a).get? k' = if k = k' then some a else m.get? k' := find?_upsert k k' a m.entries

@[simp] theorem get?_erase (m : OrderedMap κ α) (k k' : κ) :
    (m.erase k).get? k' = if k = k' then none else m.get? k' := by
  by_cases h : k = k'
  · subst h
    rw [if_pos rfl, get?_eq_none, mem_keys_erase]
    exact fun hk => hk.2 rfl
  · rw [if_neg h]
    ext a
    rw [← mem_entries, ← mem_entries]
    simp only [erase, List.mem_filter, decide_eq_true_eq, and_iff_left_iff_imp]
    exact fun _ hk => h hk.symm

@[simp] theorem get?_map {β : Type} (f : α → β) (m : OrderedMap κ α) (k : κ) :
    (m.map f).get? k = (m.get? k).map f := by
  unfold get? map
  rw [List.find?_map, Option.map_map, Option.map_map]
  rfl

theorem map_set {β : Type} (f : α → β) (m : OrderedMap κ α) (k : κ) (a : α) :
    (m.set k a).map f = (m.map f).set k (f a) := by
  apply ext_entries
  have key : ∀ l : List (κ × α), (upsert k a l).map (fun e => (e.1, f e.2)) =
      upsert k (f a) (l.map fun e => (e.1, f e.2)) := by
    intro l
    induction l with
    | nil => rfl
    | cons e l ih =>
      by_cases h : e.1 = k
      · simp [upsert, h]
      · simp [upsert, h, ih]
  exact key m.entries

/-- A new key goes to the end. -/
theorem entries_set_of_not_mem (h : k ∉ m.keys) (a : α) :
    (m.set k a).entries = m.entries ++ [(k, a)] := by
  have key : ∀ l : List (κ × α), k ∉ l.map Prod.fst → upsert k a l = l ++ [(k, a)] := by
    intro l
    induction l with
    | nil => intro _; rfl
    | cons e l ih =>
      intro hl
      simp only [List.map_cons, List.mem_cons, not_or] at hl
      rw [upsert, if_neg (fun he => hl.1 he.symm), ih hl.2]
      rfl
  exact key m.entries h

theorem values_set_of_not_mem (h : k ∉ m.keys) (a : α) :
    (m.set k a).values = m.values ++ [a] := by
  unfold values
  rw [entries_set_of_not_mem h, List.map_append]
  rfl

/-- Setting a key that is present replaces its value where it stands. -/
theorem values_set_of_get? (h : m.get? k = some a) :
    ∃ l l', m.values = l ++ a :: l' ∧ ∀ b, (m.set k b).values = l ++ b :: l' := by
  have key : ∀ l : List (κ × α), (l.map Prod.fst).Nodup → (k, a) ∈ l → ∃ l₁ l₂, l = l₁ ++ (k, a) :: l₂ ∧
      ∀ b, upsert k b l = l₁ ++ (k, b) :: l₂ := by
    intro l
    induction l with
    | nil => intro _ hm; cases hm
    | cons e l ih =>
      intro hnd hm
      rw [List.map_cons, List.nodup_cons] at hnd
      rcases List.mem_cons.1 hm with rfl | hm
      · exact ⟨[], l, rfl, fun b => by simp [upsert]⟩
      · have hne : e.1 ≠ k := fun he => hnd.1 (he ▸ List.mem_map_of_mem (f := Prod.fst) hm)
        obtain ⟨l₁, l₂, rfl, hset⟩ := ih hnd.2 hm
        exact ⟨e :: l₁, l₂, rfl, fun b => by rw [upsert, if_neg hne, hset]; rfl⟩
  obtain ⟨l₁, l₂, hl, hset⟩ := key m.entries m.nodup (mem_entries.2 h)
  refine ⟨l₁.map Prod.snd, l₂.map Prod.snd, ?_, fun b => ?_⟩
  · rw [values, hl, List.map_append]
    rfl
  · change (upsert k b m.entries).map Prod.snd = _
    rw [hset, List.map_append]
    rfl

/-- Setting new, distinct keys appends them. -/
theorem entries_setAll : ∀ {m : OrderedMap κ α}, (l.map Prod.fst).Nodup →
    (∀ k ∈ l.map Prod.fst, k ∉ m.keys) → (m.setAll l).entries = m.entries ++ l := by
  induction l with
  | nil => intro m _ _; exact (List.append_nil _).symm
  | cons e l ih =>
    intro m hnd hnew
    rw [List.map_cons, List.nodup_cons] at hnd
    have he : e.1 ∉ m.keys := hnew e.1 (by simp)
    show ((m.set e.1 e.2).setAll l).entries = m.entries ++ e :: l
    rw [ih hnd.2, entries_set_of_not_mem he]
    · simp
    · intro k hk
      rw [mem_keys_set, not_or]
      exact ⟨fun h => hnd.1 (h ▸ hk), hnew k (List.mem_cons_of_mem _ hk)⟩

theorem entries_ofList (h : (l.map Prod.fst).Nodup) : (ofList l).entries = l := by
  rw [ofList, entries_setAll h (fun k _ => by simp)]
  rfl

theorem keys_setAll (h : (m.keys ++ l.map Prod.fst).Nodup) :
    (m.setAll l).keys = m.keys ++ l.map Prod.fst := by
  rw [List.nodup_append] at h
  unfold keys
  rw [entries_setAll h.2.1 (fun k hk hm => h.2.2 k hm k hk rfl), List.map_append]

theorem mem_keys_setAll : ∀ {m : OrderedMap κ α} {k : κ},
    k ∈ (m.setAll l).keys ↔ k ∈ m.keys ∨ k ∈ l.map Prod.fst := by
  induction l with
  | nil => intro m k; simp [setAll]
  | cons e l ih =>
    intro m k
    show k ∈ ((m.set e.1 e.2).setAll l).keys ↔ _
    rw [ih, mem_keys_set, List.map_cons, List.mem_cons, or_comm (a := k = e.1), or_assoc]

/-- The last of the entries that are set counts. -/
theorem get?_setAll : ∀ {m : OrderedMap κ α} {k : κ},
    (m.setAll l).get? k = ((l.reverse.find? fun e => e.1 = k).map Prod.snd).or (m.get? k) := by
  induction l with
  | nil => intro m k; rfl
  | cons e l ih =>
    intro m k
    show ((m.set e.1 e.2).setAll l).get? k = _
    rw [ih, List.reverse_cons, List.find?_append, get?_set]
    cases l.reverse.find? fun e => e.1 = k with
    | some e' => rfl
    | none =>
      by_cases hk : e.1 = k
      · simp [hk]
      · simp [hk]

theorem mem_of_get?_setAll (h : (m.setAll l).get? k = some a) :
    (k, a) ∈ l ∨ m.get? k = some a := by
  rw [get?_setAll] at h
  cases hfind : l.reverse.find? fun e => e.1 = k with
  | none =>
    rw [hfind] at h
    exact Or.inr h
  | some e =>
    rw [hfind] at h
    obtain rfl := Option.some.inj h
    have hmem := List.mem_of_find?_eq_some hfind
    have hkey := List.find?_some hfind
    rw [List.mem_reverse] at hmem
    obtain rfl : e.1 = k := of_decide_eq_true hkey
    exact Or.inl hmem

/-- What is set under distinct keys is there. -/
theorem get?_setAll_of_mem (hl : (l.map Prod.fst).Nodup) (h : (k, a) ∈ l) : (m.setAll l).get? k = some a := by
  rw [get?_setAll]
  cases hfind : l.reverse.find? fun e => e.1 = k with
  | none =>
    have hnone := List.find?_eq_none.1 hfind (k, a) (List.mem_reverse.2 h)
    simp at hnone
  | some e =>
    have hmem := List.mem_of_find?_eq_some hfind
    have hkey := List.find?_some hfind
    rw [List.mem_reverse] at hmem
    obtain rfl : e = (k, a) := List.inj_on_of_nodup_map hl hmem h (of_decide_eq_true hkey)
    rfl

theorem size_setAll_le (l : List (κ × α)) : ∀ m : OrderedMap κ α, (m.setAll l).size ≤ m.size + l.length := by
  induction l with
  | nil => intro m; exact Nat.le_refl _
  | cons e l ih =>
    intro m
    have h := ih (m.set e.1 e.2)
    have hs := size_set m e.1 e.2
    rw [List.length_cons]
    show ((m.set e.1 e.2).setAll l).size ≤ _
    split at hs <;> omega

/-- Only new, distinct keys make a map grow by as many entries as are set. -/
theorem nodup_of_size_setAll : ∀ {m : OrderedMap κ α},
    (m.setAll l).size = m.size + l.length → (m.keys ++ l.map Prod.fst).Nodup := by
  induction l with
  | nil => intro m _; simpa using m.keys_nodup
  | cons e l ih =>
    intro m h
    have hle := size_setAll_le l (m.set e.1 e.2)
    have hs := size_set m e.1 e.2
    rw [List.length_cons] at h
    change ((m.set e.1 e.2).setAll l).size = m.size + (l.length + 1) at h
    have he : e.1 ∉ m.keys := by
      intro hk
      rw [if_pos hk] at hs
      omega
    rw [if_neg he] at hs
    have hk := ih (m := m.set e.1 e.2) (by omega)
    rw [keys_set, if_neg he] at hk
    simpa using hk

end OrderedMap

/-- An enumeration of map entries that depends only on which entries there are: all that is known of the order of a
map whose language leaves it open. -/
structure Enumeration (κ α : Type) where
  enumerate : List (κ × α) → List (κ × α)
  perm : ∀ l, (enumerate l).Perm l
  congr : ∀ {l l'}, (l.map Prod.fst).Nodup → l.Perm l' → enumerate l = enumerate l'

/-- The enumeration in ascending order of the keys. -/
def Enumeration.byKey (κ α : Type) [LinearOrder κ] : Enumeration κ α where
  enumerate l := l.insertionSort fun e e' => e.1 ≤ e'.1
  perm l := List.perm_insertionSort _ l
  congr {l l'} hnd hp := by
    let r : κ × α → κ × α → Prop := fun e e' => e.1 ≤ e'.1
    have : Std.Total r := ⟨fun e e' => le_total e.1 e'.1⟩
    have : IsTrans (κ × α) r := ⟨fun _ _ _ h h' => le_trans h h'⟩
    have hperm := (List.perm_insertionSort r l).trans (hp.trans (List.perm_insertionSort r l').symm)
    refine hperm.eq_of_pairwise ?_ (List.pairwise_insertionSort r l) (List.pairwise_insertionSort r l')
    intro e e' he he' h h'
    exact List.inj_on_of_nodup_map hnd ((List.perm_insertionSort r l).mem_iff.1 he)
      ((List.perm_insertionSort r l).mem_iff.1 (hperm.mem_iff.2 he')) (le_antisymm h h')

