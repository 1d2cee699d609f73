import Mathlib.Data.List.Basic

/-!
# Rows that hold keys exclusively

A table is a list of rows, and a row may hold a key (`holder`).  `Exclusive` says that no two rows hold the same key.
A new row or a changed row keeps it, if it takes only a key that it has or that is `Free`.
-/

namespace KComms

variable {α β ι κ : Type}

/-- No row holds the key. -/
def Free (holder : α → Option κ) (rows : List α) (key : κ) : Prop := ∀ row ∈ rows, holder row ≠ some key

def Exclusive (holder : α → Option κ) (rows : List α) : Prop :=
  rows.Pairwise fun row row' => ∀ key, holder row = some key → holder row' ≠ some key

/-- Changes the first row with the id, with a result; `none` if there is no such row, or if the change is refused. -/
def updateRow [DecidableEq ι] (idOf : α → ι) (id : ι) (change : α → Option (α × β)) : List α → Option (List α × β)
  | [] => none
  | row :: rows =>
    if idOf row = id then (change row).map fun changed => (changed.1 :: rows, changed.2)
    else (updateRow idOf id change rows).map fun changed => (row :: changed.1, changed.2)

theorem updateRow_eq_some [DecidableEq ι] {idOf : α → ι} {id : ι} {change : α → Option (α × β)}
    {rows rows' : List α} {result : β} (h : updateRow idOf id change rows = some (rows', result)) :
    ∃ before row row' after, rows = before ++ row :: after ∧ idOf row = id ∧ change row = some (row', result) ∧
      rows' = before ++ row' :: after := by
  induction rows generalizing rows' with
  | nil => cases h
  | cons row rows ih =>
    unfold updateRow at h
    split at h
    · rw [Option.map_eq_some_iff] at h
      obtain ⟨changed, hchanged, hresult⟩ := h
      cases hresult
      exact ⟨[], row, changed.1, rows, rfl, ‹_›, hchanged, rfl⟩
    · rw [Option.map_eq_some_iff] at h
      obtain ⟨rest, hrest, hresult⟩ := h
      cases hresult
      obtain ⟨before, changed, changed', after, rfl, hid, hchanged, hrows⟩ := ih hrest
      refine ⟨row :: before, changed, changed', after, rfl, hid, hchanged, ?_⟩
      rw [hrows, List.cons_append]

section

variable {holder : α → Option κ} {rows before after : List α} {row row' : α}

theorem Exclusive.insert (h : Exclusive holder rows) (hrow : ∀ key, holder row = some key → Free holder rows key) :
    Exclusive holder (row :: rows) := by
  unfold Exclusive
  rw [List.pairwise_cons]
  refine ⟨?_, h⟩
  intro other hother key hkey
  exact hrow key hkey other hother

private theorem exclusive_middle :
    Exclusive holder (before ++ row :: after) ↔ Exclusive holder (row :: (before ++ after)) := by
  refine List.pairwise_middle fun {a b} hab key hb ha => ?_
  exact hab key ha hb

theorem Exclusive.replace (h : Exclusive holder (before ++ row :: after))
    (hrow : ∀ key, holder row' = some key → holder row = some key ∨ Free holder (before ++ row :: after) key) :
    Exclusive holder (before ++ row' :: after) := by
  rw [exclusive_middle] at h ⊢
  unfold Exclusive at h
  rw [List.pairwise_cons] at h
  refine Exclusive.insert h.2 fun key hkey other hother => ?_
  rcases hrow key hkey with hsame | hfree
  · exact h.1 other hother key hsame
  · refine hfree other ?_
    rw [List.mem_append] at hother
    rcases hother with hother | hother
    · exact List.mem_append_left _ hother
    · exact List.mem_append_right _ (List.mem_cons_of_mem row hother)

/-- What holds of every other row and of the changed one holds of every row. -/
theorem forall_mem_replace {P : α → Prop} (h : ∀ other ∈ before ++ row :: after, P other) (hrow : P row') :
    ∀ other ∈ before ++ row' :: after, P other := by
  intro other hother
  rw [List.mem_append, List.mem_cons] at hother
  rcases hother with hother | rfl | hother
  · exact h other (List.mem_append_left _ hother)
  · exact hrow
  · exact h other (List.mem_append_right _ (List.mem_cons_of_mem row hother))

end

end KComms
