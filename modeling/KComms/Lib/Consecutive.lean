import Mathlib.Data.List.Sort

/-!
# Lists numbered without a gap

A list whose elements carry consecutive numbers, from some number on.  To select the elements by their numbers is to
take and to drop (`filter_gt`, `filter_le`), and to sort them changes nothing (`sort_eq`).
-/

namespace Consecutive

variable {α : Type} {number : α → Nat} {l : List α}

/-- The numbers from `start` on. -/
def Numbered (number : α → Nat) (start : Nat) (l : List α) : Prop := l.map number = List.range' start l.length

variable {start : Nat}

theorem numbered_of_eq {n : Nat} (h : l.map number = List.range' start n) : Numbered number start l := by
  have hlen := congrArg List.length h
  rw [List.length_map, List.length_range'] at hlen
  unfold Numbered
  rw [h, hlen]

theorem numbered_nil (start : Nat) : Numbered number start [] := rfl

theorem numbered_cons {a : α} :
    Numbered number start (a :: l) ↔ number a = start ∧ Numbered number (start + 1) l := by
  unfold Numbered
  rw [List.map_cons, List.length_cons, List.range'_succ, List.cons.injEq]

theorem numbered_append {l' : List α} :
    Numbered number start (l ++ l') ↔ Numbered number start l ∧ Numbered number (start + l.length) l' := by
  induction l generalizing start with
  | nil => simp [numbered_nil]
  | cons a l ih =>
    rw [List.cons_append, numbered_cons, numbered_cons, ih, List.length_cons, and_assoc,
      show start + 1 + l.length = start + (l.length + 1) by omega]

namespace Numbered

theorem take (h : Numbered number start l) (k : Nat) : Numbered number start (l.take k) := by
  rw [← List.take_append_drop k l] at h
  exact (numbered_append.1 h).1

theorem drop (h : Numbered number start l) (k : Nat) (hk : k ≤ l.length) :
    Numbered number (start + k) (l.drop k) := by
  rw [← List.take_append_drop k l] at h
  have := (numbered_append.1 h).2
  rwa [List.length_take, Nat.min_eq_left hk] at this

theorem bounds (h : Numbered number start l) {a : α} (ha : a ∈ l) :
    start ≤ number a ∧ number a < start + l.length := by
  have hm : number a ∈ l.map number := List.mem_map_of_mem ha
  rw [h, List.mem_range'_1] at hm
  exact hm

theorem nodup (h : Numbered number start l) : (l.map number).Nodup := by
  rw [h]
  exact List.nodup_range'

/-- The element of a number. -/
theorem exists_of_mem (h : Numbered number start l) {n : Nat} (hn : start ≤ n)
    (hn' : n < start + l.length) : ∃ a ∈ l, number a = n := by
  have hm : n ∈ l.map number := by
    rw [h, List.mem_range'_1]
    exact ⟨hn, hn'⟩
  obtain ⟨a, ha, heq⟩ := List.mem_map.1 hm
  exact ⟨a, ha, heq⟩

/-- The list up to one of its elements. -/
theorem take_of_mem (h : Numbered number start l) {a : α} (ha : a ∈ l) :
    l.take (number a - start + 1) = l.take (number a - start) ++ [a] := by
  obtain ⟨i, hi, hget⟩ := List.getElem_of_mem ha
  have hnum : number a = start + i := by
    have := List.getElem_map number (l := l) (i := i) (h := by simpa using hi)
    rw [hget] at this
    rw [← this]
    simp [show l.map number = List.range' start l.length from h]
  have hi' : number a - start = i := by omega
  rw [hi', List.take_add_one, List.getElem?_eq_getElem hi, hget]
  rfl

theorem filter_gt (h : Numbered number start l) {k : Nat} (hk : start ≤ k + 1) :
    (l.filter fun a => k < number a) = l.drop (k + 1 - start) := by
  induction l generalizing start with
  | nil => simp
  | cons a l ih =>
    obtain ⟨ha, hl⟩ := numbered_cons.1 h
    by_cases hlt : k < number a
    · have heq : k + 1 - start = 0 := by omega
      rw [heq, List.drop_zero]
      apply List.filter_eq_self.2
      intro b hb
      have := h.bounds hb
      simp only [decide_eq_true_eq]
      omega
    · have heq : k + 1 - start = (k + 1 - (start + 1)) + 1 := by omega
      rw [List.filter_cons_of_neg (by simpa using hlt), ih hl (by omega), heq, List.drop_succ_cons]

theorem filter_le (h : Numbered number start l) {k : Nat} (hk : start ≤ k + 1) :
    (l.filter fun a => number a ≤ k) = l.take (k + 1 - start) := by
  induction l generalizing start with
  | nil => simp
  | cons a l ih =>
    obtain ⟨ha, hl⟩ := numbered_cons.1 h
    by_cases hle : number a ≤ k
    · have heq : k + 1 - start = (k + 1 - (start + 1)) + 1 := by omega
      rw [List.filter_cons_of_pos (by simpa using hle), ih hl (by omega), heq, List.take_succ_cons]
    · have heq : k + 1 - start = 0 := by omega
      rw [heq, List.take_zero, List.filter_eq_nil_iff]
      intro b hb
      have := h.bounds hb
      simp only [decide_eq_true_eq]
      omega

theorem mem_take (h : Numbered number start l) {n : Nat} {a : α} :
    a ∈ l.take n ↔ a ∈ l ∧ number a < start + n := by
  cases n with
  | zero =>
    rw [List.take_zero]
    constructor
    · intro ha
      cases ha
    · rintro ⟨ha, hlt⟩
      have := (h.bounds ha).1
      omega
  | succ n =>
    have hfilter := h.filter_le (k := start + n) (by omega)
    rw [show start + n + 1 - start = n + 1 by omega] at hfilter
    rw [← hfilter, List.mem_filter, decide_eq_true_eq]
    apply and_congr_right
    intro _
    omega

theorem filter_between (h : Numbered number start l) {k m : Nat} (hk : start ≤ k + 1) (hkm : k ≤ m) :
    (l.filter fun a => k < number a ∧ number a ≤ m) = (l.take (m + 1 - start)).drop (k + 1 - start) := by
  rw [← (h.take _).filter_gt hk, ← h.filter_le (by omega), List.filter_filter]
  simp only [Bool.decide_and]

theorem sort_eq (h : Numbered number start l) :
    (l.insertionSort fun a b => number a ≤ number b) = l := by
  apply List.Pairwise.insertionSort_eq
  rw [← List.pairwise_map (f := number) (R := (· ≤ ·)), h]
  exact List.pairwise_le_range'

/-- Sorting some of the elements leaves them as they stand in the list. -/
theorem sort_of_subset [DecidableEq α] (h : Numbered number start l) {l' : List α} (hnodup : l'.Nodup)
    (hsub : ∀ a ∈ l', a ∈ l) :
    (l'.insertionSort fun a b => number a ≤ number b) = l.filter fun a => a ∈ l' := by
  have hmap : (l.map number).Nodup := h.nodup
  have hperm : (l'.insertionSort fun a b => number a ≤ number b).Perm (l.filter fun a => a ∈ l') := by
    refine (List.perm_insertionSort _ _).trans ((List.perm_ext_iff_of_nodup hnodup ?_).2 fun a => ?_)
    · exact (List.Nodup.of_map _ hmap).filter _
    · rw [List.mem_filter, decide_eq_true_eq]
      exact ⟨fun ha => ⟨hsub a ha, ha⟩, fun ha => ha.2⟩
  have : Std.Total fun a b : α => number a ≤ number b := ⟨fun a b => le_total (number a) (number b)⟩
  have : IsTrans α fun a b => number a ≤ number b := ⟨fun _ _ _ => le_trans⟩
  have hsorted : l.Pairwise fun a b => number a ≤ number b := by
    rw [← List.pairwise_map (f := number) (R := (· ≤ ·)), h]
    exact List.pairwise_le_range'
  refine hperm.eq_of_pairwise (fun a b ha hb hle hle' => ?_) (List.pairwise_insertionSort _ _) (hsorted.filter _)
  have ha' : a ∈ l := List.mem_of_mem_filter (hperm.mem_iff.1 ha)
  have hb' : b ∈ l := List.mem_of_mem_filter hb
  exact List.inj_on_of_nodup_map hmap ha' hb' (le_antisymm hle hle')

end Numbered

end Consecutive
