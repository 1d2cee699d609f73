import Mathlib.Data.List.Nodup

/-!
# One row for each key

`distinctOn` keeps the first row of each key, in the order of the rows.
-/

namespace KComms

variable {Row κ : Type} [DecidableEq κ] {key : Row → κ} {rows : List Row} {row : Row}

def distinctOn (key : Row → κ) : List Row → List Row
  | [] => []
  | row :: rows => row :: (distinctOn key rows).filter fun other => key other ≠ key row

theorem mem_of_mem_distinctOn (h : row ∈ distinctOn key rows) : row ∈ rows := by
  induction rows with
  | nil => cases h
  | cons first rows ih =>
    unfold distinctOn at h
    rcases List.mem_cons.mp h with rfl | h
    · exact List.mem_cons_self
    · exact List.mem_cons_of_mem first (ih (List.mem_of_mem_filter h))

/-- Every key is kept. -/
theorem exists_mem_distinctOn (h : row ∈ rows) : ∃ kept ∈ distinctOn key rows, key kept = key row := by
  induction rows with
  | nil => cases h
  | cons first rows ih =>
    unfold distinctOn
    by_cases hkey : key row = key first
    · exact ⟨first, List.mem_cons_self, hkey.symm⟩
    · rcases List.mem_cons.mp h with rfl | h
      · exact absurd rfl hkey
      · obtain ⟨kept, hkept, hsame⟩ := ih h
        refine ⟨kept, List.mem_cons_of_mem first (List.mem_filter.mpr ⟨hkept, ?_⟩), hsame⟩
        rw [decide_eq_true_eq, hsame]
        exact hkey

/-- When the rows of each key are in an order, what is kept comes before all rows of its key. -/
theorem distinctOn_first {R : Row → Row → Prop} (hrefl : ∀ row, R row row)
    (hsorted : rows.Pairwise fun first other => key first = key other → R first other)
    (h : row ∈ distinctOn key rows) {other : Row} (hother : other ∈ rows) (hkey : key other = key row) : R row other := by
  induction rows with
  | nil => cases h
  | cons first rows ih =>
    obtain ⟨hfirst, hrest⟩ := List.pairwise_cons.mp hsorted
    unfold distinctOn at h
    rcases List.mem_cons.mp h with rfl | h
    · rcases List.mem_cons.mp hother with rfl | hother
      · exact hrefl _
      · exact hfirst other hother hkey.symm
    · obtain ⟨h, hne⟩ := List.mem_filter.mp h
      rcases List.mem_cons.mp hother with rfl | hother
      · exact absurd hkey.symm (of_decide_eq_true hne)
      · exact ih hrest h hother

theorem distinctOn_concat (rows : List Row) (row : Row) :
    distinctOn key (rows ++ [row]) = distinctOn key rows ++ if key row ∈ rows.map key then [] else [row] := by
  induction rows with
  | nil => rfl
  | cons first rows ih =>
    rw [List.cons_append, distinctOn, distinctOn, ih, List.filter_append, List.cons_append, List.map_cons]
    congr 2
    by_cases hfirst : key row = key first
    · have hmem : key row ∈ key first :: rows.map key := by
        rw [hfirst]
        exact List.mem_cons_self
      rw [if_pos hmem]
      split
      · rfl
      · simp [hfirst]
    · simp only [List.mem_cons, hfirst, false_or]
      split
      · rfl
      · simp [hfirst]

theorem nodup_distinctOn : ((distinctOn key rows).map key).Nodup := by
  induction rows with
  | nil => exact List.nodup_nil
  | cons first rows ih =>
    unfold distinctOn
    rw [List.map_cons, List.nodup_cons]
    constructor
    · intro hmem
      obtain ⟨other, hother, hkey⟩ := List.mem_map.mp hmem
      exact of_decide_eq_true (List.mem_filter.mp hother).2 hkey
    · exact (List.filter_sublist.map key).nodup ih

end KComms
