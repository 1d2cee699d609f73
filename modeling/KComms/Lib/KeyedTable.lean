import Mathlib.Data.List.Nodup

/-!
# Tables with a primary key

A table is a list of rows in which no two rows have the same key.  `modify` and `delete` act on all rows of a
condition, `update` on the row of a key; `insert` refuses a key that is taken.
-/

structure KeyedTable {Row κ : Type} (key : Row → κ) where
  rows : List Row
  unique : (rows.map key).Nodup

namespace KeyedTable

variable {Row κ : Type} {key : Row → κ}

/-! ### The operations -/

def empty : KeyedTable key := ⟨[], List.nodup_nil⟩

/-- Changes all rows of a condition, and not their keys. -/
def modify (table : KeyedTable key) (condition : Row → Bool) (change : Row → Row)
    (keeps : ∀ row, key (change row) = key row) : KeyedTable key where
  rows := table.rows.map fun row => if condition row then change row else row
  unique := by
    have hkeys : (table.rows.map fun row => if condition row then change row else row).map key =
        table.rows.map key := by
      rw [List.map_map]
      refine List.map_congr_left fun row _ => ?_
      rw [Function.comp_apply]
      split
      · exact keeps row
      · rfl
    rw [hkeys]
    exact table.unique

/-- Removes all rows of a condition. -/
def delete (table : KeyedTable key) (condition : Row → Bool) : KeyedTable key where
  rows := table.rows.filter fun row => !condition row
  unique := (List.filter_sublist.map key).nodup table.unique

section

variable [DecidableEq κ]

def find (table : KeyedTable key) (id : κ) : Option Row := table.rows.find? fun row => key row = id

def update (table : KeyedTable key) (id : κ) (change : Row → Row) (keeps : ∀ row, key (change row) = key row) :
    KeyedTable key :=
  table.modify (fun row => key row = id) change keeps

def insert (table : KeyedTable key) (row : Row) : Option (KeyedTable key) :=
  if taken : key row ∈ table.rows.map key then none
  else some ⟨row :: table.rows, List.nodup_cons.mpr ⟨taken, table.unique⟩⟩

/-- Appends rows, all of them or none. -/
def insertAll (table : KeyedTable key) (rows : List Row) : Option (KeyedTable key) :=
  if unique : ((table.rows ++ rows).map key).Nodup then some ⟨table.rows ++ rows, unique⟩ else none

end

/-! ### Rows -/

variable {table table' : KeyedTable key} {row other : Row} {id : κ} {condition : Row → Bool} {change : Row → Row}
  {keeps : ∀ row, key (change row) = key row} {R S : Row → Row → Prop} {New : Row → Prop}

theorem ext_rows (h : table.rows = table'.rows) : table = table' := by
  cases table; cases table'; cases h; rfl

theorem eq_of_key (hrow : row ∈ table.rows) (hother : other ∈ table.rows) (h : key row = key other) : row = other :=
  List.inj_on_of_nodup_map table.unique hrow hother h

theorem mem_modify : row ∈ (table.modify condition change keeps).rows ↔
    (row ∈ table.rows ∧ condition row = false) ∨ ∃ old ∈ table.rows, condition old = true ∧ row = change old := by
  unfold modify
  rw [List.mem_map]
  constructor
  · rintro ⟨old, hold, rfl⟩
    cases hcondition : condition old with
    | true => exact .inr ⟨old, hold, hcondition, if_pos rfl⟩
    | false => exact .inl ⟨hold, hcondition⟩
  · rintro (⟨hrow, hcondition⟩ | ⟨old, hold, hcondition, rfl⟩)
    · refine ⟨row, hrow, if_neg ?_⟩
      rw [hcondition]
      exact Bool.false_ne_true
    · exact ⟨old, hold, if_pos hcondition⟩

/-- A row outside of the condition stays. -/
theorem mem_modify_of_not (change : Row → Row) (keeps : ∀ row, key (change row) = key row) (hrow : row ∈ table.rows)
    (hcondition : condition row = false) : row ∈ (table.modify condition change keeps).rows :=
  mem_modify.mpr (.inl ⟨hrow, hcondition⟩)

/-- What a change leaves alone is the same in all rows. -/
theorem map_modify {β : Type} {f : Row → β} (change : Row → Row) (keeps : ∀ row, key (change row) = key row)
    (hchange : ∀ row, f (change row) = f row) :
    (table.modify condition change keeps).rows.map f = table.rows.map f := by
  unfold modify
  rw [List.map_map]
  refine List.map_congr_left fun row _ => ?_
  rw [Function.comp_apply]
  split
  · exact hchange row
  · rfl

/-- A change that makes no row count counts no more rows. -/
theorem countP_modify_le {p : Row → Bool} (change : Row → Row) (keeps : ∀ row, key (change row) = key row)
    (hchange : ∀ row ∈ table.rows, condition row = true → p (change row) = true → p row = true) :
    (table.modify condition change keeps).rows.countP p ≤ table.rows.countP p := by
  unfold modify
  rw [List.countP_map]
  refine List.countP_mono_left fun row hrow hcount => ?_
  rw [Function.comp_apply] at hcount
  split at hcount
  · rename_i hcondition
    exact hchange row hrow hcondition hcount
  · exact hcount

/-- A change of the row of one key counts at most one row more. -/
theorem countP_update_le_succ [DecidableEq κ] {p : Row → Bool} (id : κ) (change : Row → Row)
    (keeps : ∀ row, key (change row) = key row) :
    (table.update id change keeps).rows.countP p ≤ table.rows.countP p + 1 := by
  have hone : table.rows.countP (fun row => key row = id) ≤ 1 := by
    have hcount := List.nodup_iff_count_le_one.mp table.unique id
    rw [List.count, List.countP_map] at hcount
    refine Nat.le_trans (List.countP_mono_left fun row _ h => ?_) hcount
    simpa using h
  have hle : ∀ rows : List Row, (rows.map fun row => if key row = id then change row else row).countP p ≤
      rows.countP p + rows.countP fun row => key row = id := by
    intro rows
    induction rows with
    | nil => exact Nat.le_refl _
    | cons row rows ih =>
      rw [List.map_cons, List.countP_cons, List.countP_cons, List.countP_cons]
      by_cases hkey : key row = id
      · simp only [hkey, if_true, decide_true]
        split <;> omega
      · simp only [hkey, if_false, decide_false]
        simp only [Bool.false_eq_true, if_false]
        omega
  have hrows := hle table.rows
  have hsame : (table.update id change keeps).rows = table.rows.map fun row => if key row = id then change row else row := by
    unfold update modify
    simp only [decide_eq_true_eq]
  rw [hsame]
  omega

/-- Each row of one table has a row of the other in the relation, and the other way around. -/
def Related (R : Row → Row → Prop) (table table' : KeyedTable key) : Prop :=
  (∀ row ∈ table.rows, ∃ row' ∈ table'.rows, R row row') ∧ ∀ row' ∈ table'.rows, ∃ row ∈ table.rows, R row row'

theorem related_modify (change : Row → Row) (keeps : ∀ row, key (change row) = key row) (hsame : ∀ row, R row row)
    (hchange : ∀ row ∈ table.rows, condition row = true → R row (change row)) :
    Related R table (table.modify condition change keeps) := by
  constructor
  · intro row hrow
    cases hcondition : condition row with
    | true => exact ⟨change row, mem_modify.mpr (.inr ⟨row, hrow, hcondition, rfl⟩), hchange row hrow hcondition⟩
    | false => exact ⟨row, mem_modify_of_not change keeps hrow hcondition, hsame row⟩
  · intro row' hrow'
    rcases mem_modify.mp hrow' with ⟨hrow, -⟩ | ⟨row, hrow, hcondition, rfl⟩
    · exact ⟨row', hrow, hsame row'⟩
    · exact ⟨row, hrow, hchange row hrow hcondition⟩

theorem related_refl (hsame : ∀ row, R row row) : Related R table table :=
  ⟨fun row hrow => ⟨row, hrow, hsame row⟩, fun row hrow => ⟨row, hrow, hsame row⟩⟩

theorem Related.trans {Q : Row → Row → Prop} {table'' : KeyedTable key} (h : Related R table table')
    (h' : Related S table' table'') (hQ : ∀ a b c, R a b → S b c → Q a c) : Related Q table table'' := by
  constructor
  · intro a ha
    obtain ⟨b, hb, hab⟩ := h.1 a ha
    obtain ⟨c, hc, hbc⟩ := h'.1 b hb
    exact ⟨c, hc, hQ a b c hab hbc⟩
  · intro c hc
    obtain ⟨b, hb, hbc⟩ := h'.2 c hc
    obtain ⟨a, ha, hab⟩ := h.2 b hb
    exact ⟨a, ha, hQ a b c hab hbc⟩

theorem Related.mono (h : Related R table table') (hS : ∀ a b, R a b → S a b) :
    Related S table table' := by
  constructor
  · intro a ha
    obtain ⟨b, hb, hab⟩ := h.1 a ha
    exact ⟨b, hb, hS a b hab⟩
  · intro b hb
    obtain ⟨a, ha, hab⟩ := h.2 b hb
    exact ⟨a, ha, hS a b hab⟩

/-- Each row has a row of the other table in the relation, and the other rows of that table are new ones. -/
def Grows (R : Row → Row → Prop) (New : Row → Prop) (table table' : KeyedTable key) : Prop :=
  (∀ row ∈ table.rows, ∃ row' ∈ table'.rows, R row row') ∧
    ∀ row' ∈ table'.rows, (∃ row ∈ table.rows, R row row') ∨ New row'

theorem Related.grows (h : Related R table table') :
    Grows R New table table' :=
  ⟨h.1, fun row' hrow' => .inl (h.2 row' hrow')⟩

theorem grows_refl (hsame : ∀ row, R row row) : Grows R New table table :=
  (related_refl hsame).grows

theorem Grows.trans {table'' : KeyedTable key} (h : Grows R New table table') (h' : Grows R New table' table'')
    (hR : ∀ a b c, R a b → R b c → R a c) (hNew : ∀ a b, New a → R a b → New b) :
    Grows R New table table'' := by
  constructor
  · intro a ha
    obtain ⟨b, hb, hab⟩ := h.1 a ha
    obtain ⟨c, hc, hbc⟩ := h'.1 b hb
    exact ⟨c, hc, hR a b c hab hbc⟩
  · intro c hc
    rcases h'.2 c hc with ⟨b, hb, hbc⟩ | hnew
    · rcases h.2 b hb with ⟨a, ha, hab⟩ | hnew
      · exact .inl ⟨a, ha, hR a b c hab hbc⟩
      · exact .inr (hNew b c hnew hbc)
    · exact .inr hnew

theorem Grows.mono (h : Grows R New table table') (hS : ∀ a b, R a b → S a b) : Grows S New table table' := by
  constructor
  · intro a ha
    obtain ⟨b, hb, hab⟩ := h.1 a ha
    exact ⟨b, hb, hS a b hab⟩
  · intro b hb
    rcases h.2 b hb with ⟨a, ha, hab⟩ | hnew
    · exact .inl ⟨a, ha, hS a b hab⟩
    · exact .inr hnew

section

variable [DecidableEq κ]

theorem find_eq_some : table.find id = some row ↔ row ∈ table.rows ∧ key row = id := by
  unfold find
  constructor
  · intro h
    have hkey := List.find?_some h
    rw [decide_eq_true_eq] at hkey
    exact ⟨List.mem_of_find?_eq_some h, hkey⟩
  · rintro ⟨hrow, rfl⟩
    cases hfound : table.rows.find? fun other => key other = key row with
    | none =>
      rw [List.find?_eq_none] at hfound
      exact absurd (decide_eq_true rfl) (hfound row hrow)
    | some other =>
      have hkey := List.find?_some hfound
      rw [decide_eq_true_eq] at hkey
      rw [eq_of_key (List.mem_of_find?_eq_some hfound) hrow hkey]

/-- The row that was found is the one with the key. -/
theorem eq_of_find (h : table.find id = some row) (hother : other ∈ table.rows) (hid : key other = id) :
    other = row := by
  obtain ⟨hrow, hkey⟩ := find_eq_some.mp h
  exact eq_of_key hother hrow (hid.trans hkey.symm)

theorem mem_update : row ∈ (table.update id change keeps).rows ↔
    (row ∈ table.rows ∧ key row ≠ id) ∨ ∃ old ∈ table.rows, key old = id ∧ row = change old := by
  unfold update
  simp [mem_modify]

theorem mem_update_of_ne (hrow : row ∈ table.rows) (hid : key row ≠ id) :
    row ∈ (table.update id change keeps).rows :=
  mem_update.mpr (.inl ⟨hrow, hid⟩)

theorem related_update (change : Row → Row) (keeps : ∀ row, key (change row) = key row) (hsame : ∀ row, R row row)
    (hrow : row ∈ table.rows) (hchange : R row (change row)) :
    Related R table (table.update (key row) change keeps) := by
  refine related_modify change keeps hsame fun old hold hkey => ?_
  rw [decide_eq_true_eq] at hkey
  rw [eq_of_key hold hrow hkey]
  exact hchange

/-- Every row is still there, as it was or changed. -/
theorem exists_mem_update (id : κ) (change : Row → Row) (keeps : ∀ row, key (change row) = key row)
    (hrow : row ∈ table.rows) : ∃ row' ∈ (table.update id change keeps).rows, row' = row ∨ row' = change row := by
  by_cases hid : key row = id
  · exact ⟨change row, mem_update.mpr (.inr ⟨row, hrow, hid, rfl⟩), .inr rfl⟩
  · exact ⟨row, mem_update_of_ne hrow hid, .inl rfl⟩

/-- The row that was found is the one that is changed. -/
theorem mem_update_of_find (h : table.find id = some other) :
    row ∈ (table.update id change keeps).rows ↔ (row ∈ table.rows ∧ key row ≠ id) ∨ row = change other := by
  rw [mem_update]
  refine or_congr Iff.rfl ⟨?_, ?_⟩
  · rintro ⟨old, hold, hid, rfl⟩
    rw [eq_of_find h hold hid]
  · rintro rfl
    obtain ⟨hother, hid⟩ := find_eq_some.mp h
    exact ⟨other, hother, hid, rfl⟩

theorem find_update_self (h : table.find id = some row) :
    (table.update id change keeps).find id = some (change row) := by
  rw [find_eq_some, mem_update_of_find h]
  exact ⟨.inr rfl, (keeps row).trans (find_eq_some.mp h).2⟩

theorem find_update_of_ne {id' : κ} (hne : id' ≠ id) : (table.update id change keeps).find id' = table.find id' := by
  refine Option.ext fun row => ?_
  rw [find_eq_some, find_eq_some, mem_update]
  constructor
  · rintro ⟨⟨hrow, -⟩ | ⟨old, -, hold, rfl⟩, hkey⟩
    · exact ⟨hrow, hkey⟩
    · exact absurd (hkey.symm.trans ((keeps old).trans hold)) hne
  · rintro ⟨hrow, rfl⟩
    exact ⟨.inl ⟨hrow, hne⟩, rfl⟩

theorem insert_eq_some : table.insert row = some table' ↔
    table'.rows = row :: table.rows ∧ key row ∉ table.rows.map key := by
  unfold insert
  split
  · rename_i htaken
    simp [htaken]
  · rename_i hfree
    constructor
    · intro h
      cases h
      exact ⟨rfl, hfree⟩
    · rintro ⟨hrows, -⟩
      rw [Option.some_inj]
      exact ext_rows hrows.symm

theorem mem_insert (h : table.insert row = some table') : other ∈ table'.rows ↔ other = row ∨ other ∈ table.rows := by
  rw [(insert_eq_some.mp h).1, List.mem_cons]

theorem grows_insert (hsame : ∀ row, R row row) (hnew : New row)
    (h : table.insert row = some table') : Grows R New table table' := by
  constructor
  · exact fun other hother => ⟨other, (mem_insert h).mpr (.inr hother), hsame other⟩
  · intro other hother
    rcases (mem_insert h).mp hother with rfl | hother
    · exact .inr hnew
    · exact .inl ⟨other, hother, hsame other⟩

theorem insertAll_eq_some {rows : List Row} : table.insertAll rows = some table' ↔ table'.rows = table.rows ++ rows := by
  unfold insertAll
  split
  · rename_i hunique
    rw [Option.some.injEq]
    constructor
    · rintro rfl
      rfl
    · intro hrows
      exact ext_rows hrows.symm
  · rename_i hunique
    refine ⟨fun h => (by cases h), fun hrows => ?_⟩
    rw [← hrows] at hunique
    exact absurd table'.unique hunique

theorem find_insert_self (h : table.insert row = some table') : table'.find (key row) = some row :=
  find_eq_some.mpr ⟨(mem_insert h).mpr (.inl rfl), rfl⟩

theorem find_insert_of_ne (h : table.insert row = some table') (hne : id ≠ key row) : table'.find id = table.find id := by
  refine Option.ext fun found => ?_
  rw [find_eq_some, find_eq_some, mem_insert h]
  constructor
  · rintro ⟨rfl | hfound, hkey⟩
    · exact absurd hkey.symm hne
    · exact ⟨hfound, hkey⟩
  · rintro ⟨hfound, hkey⟩
    exact ⟨.inr hfound, hkey⟩

end

end KeyedTable
