import Mathlib.Data.List.Basic

/-!
# Reading a list by keys

A list in ascending order of its keys is read in pages: each page starts after the greatest key of the one before.
The list may grow at its end between two pages.  What was read and what is still after the cursor make up the list
(`after_grown`).
-/

namespace KeysetPages

variable {α : Type} (key : α → Int)

def Ascending (l : List α) : Prop := l.Pairwise fun a b => key a < key b

/-- What a query after `cursor` finds. -/
def after (cursor : Int) (l : List α) : List α := l.filter fun a => cursor < key a

variable {key} {l l' : List α} {cursor cursor' : Int}

theorem mem_after {a : α} : a ∈ after key cursor l ↔ a ∈ l ∧ cursor < key a := by
  unfold after
  rw [List.mem_filter, decide_eq_true_eq]

theorem Ascending.after (h : Ascending key l) (cursor : Int) : Ascending key (after key cursor l) :=
  h.sublist List.filter_sublist

theorem after_after (hle : cursor ≤ cursor') : after key cursor' (after key cursor l) = after key cursor' l := by
  unfold KeysetPages.after
  rw [List.filter_filter]
  apply List.filter_congr
  intro a _
  simp only [Bool.and_eq_decide, decide_eq_true_eq, decide_eq_decide]
  omega

/-- After the greatest key of a beginning comes the rest. -/
theorem Ascending.after_last (h : Ascending key l) {page rest : List α} (hl : l = page ++ rest) {a : α}
    (hlast : page.getLast? = some a) : KeysetPages.after key (key a) l = rest := by
  obtain ⟨init, rfl⟩ := List.getLast?_eq_some_iff.1 hlast
  subst hl
  have hpairwise := List.pairwise_append.1 h
  have hinit := List.pairwise_append.1 hpairwise.1
  unfold KeysetPages.after
  rw [List.filter_append, List.filter_eq_nil_iff.2, List.filter_eq_self.2, List.nil_append]
  · intro b hb
    have := hpairwise.2.2 a (by simp) b hb
    simpa using this
  · intro b hb
    rw [decide_eq_true_eq]
    rcases List.mem_append.1 hb with hb | hb
    · have := hinit.2.2 b hb a (by simp)
      omega
    · rw [List.mem_singleton.1 hb]
      omega

theorem after_isPrefix (hgrow : l <+: l') (cursor : Int) : after key cursor l <+: after key cursor l' :=
  hgrow.filter _

/-- One page of a list and what the grown list has after the page. -/
theorem after_grown (hl' : Ascending key l') (hgrow : l <+: l') {limit : Nat} {a : α}
    (hlast : ((after key cursor l).take limit).getLast? = some a) :
    after key cursor l' = (after key cursor l).take limit ++ after key (key a) l' := by
  have hstart : (after key cursor l).take limit <+: after key cursor l' :=
    (List.take_prefix _ _).trans (after_isPrefix hgrow cursor)
  obtain ⟨rest, hrest⟩ := hstart
  have hmem : a ∈ after key cursor l := List.mem_of_mem_take (List.mem_of_getLast? hlast)
  have hcursor : cursor ≤ key a := Int.le_of_lt (mem_after.1 hmem).2
  have hafter := (hl'.after cursor).after_last hrest.symm hlast
  rw [after_after hcursor] at hafter
  rw [hafter, hrest]

end KeysetPages
