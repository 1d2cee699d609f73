import Mathlib.Data.Finset.Card
import Mathlib.Order.Bounds.Defs

/-!
# The contiguous prefix of what was received

Numbers arrive in any order and more than once.  A receiver keeps the number up to which it has all of them, and the
set of those that are further ahead.  `drain` moves the number over the set; `Tracks` says that both are exact, and
`Tracks.absorb` that receiving more numbers and draining keeps them so.
-/

namespace ContiguousPrefix

/-- Take the successors of `next` out of the set while there are any. -/
def drain (next : Nat) (future : Finset Nat) : Nat × Finset Nat :=
  if next + 1 ∈ future then drain (next + 1) (future.erase (next + 1)) else (next, future)
termination_by future.card
decreasing_by exact Finset.card_erase_lt_of_mem ‹_›

/-- `next` and `future` describe what was received after `start`. -/
structure Tracks (start : Nat) (received : Set Nat) (next : Nat) (future : Finset Nat) : Prop where
  start_le : start ≤ next
  mem_of_le : ∀ k, start < k → k ≤ next → k ∈ received
  succ_notMem : next + 1 ∉ received
  mem_future : ∀ k, k ∈ future ↔ k ∈ received ∧ next < k

variable {start next : Nat} {received : Set Nat} {future : Finset Nat}

theorem tracks_start (start : Nat) : Tracks start ∅ start ∅ where
  start_le := Nat.le_refl start
  mem_of_le k hk hk' := by omega
  succ_notMem := Set.notMem_empty _
  mem_future k := by simp

/-- The number is the greatest up to which everything was received. -/
theorem Tracks.isGreatest (h : Tracks start received next future) :
    IsGreatest {n | start ≤ n ∧ ∀ k, start < k → k ≤ n → k ∈ received} next := by
  refine ⟨⟨h.start_le, h.mem_of_le⟩, ?_⟩
  rintro n ⟨hstart, hn⟩
  by_contra hlt
  have hstart' := h.start_le
  exact h.succ_notMem (hn (next + 1) (by omega) (by omega))

theorem Tracks.le_of_forall_mem (h : Tracks start received next future) {n : Nat}
    (hn : ∀ k, start < k → k ≤ n → k ∈ received) : n ≤ next := by
  rcases Nat.lt_or_ge n start with hlt | hge
  · have := h.start_le
    omega
  · exact h.isGreatest.2 ⟨hge, hn⟩

/-- Draining ends at the first number that was not received. -/
theorem tracks_drain (hstart : start ≤ next) (hle : ∀ k, start < k → k ≤ next → k ∈ received)
    (hfuture : ∀ k, k ∈ future ↔ k ∈ received ∧ next < k) :
    Tracks start received (drain next future).1 (drain next future).2 := by
  fun_induction drain next future with
  | case1 next future hmem ih =>
    have hreceived := ((hfuture (next + 1)).1 hmem).1
    apply ih
    · omega
    · intro k hk hk'
      rcases Nat.lt_or_ge next k with hlt | hge
      · have : k = next + 1 := by omega
        exact this ▸ hreceived
      · exact hle k hk hge
    · intro k
      rw [Finset.mem_erase, hfuture]
      constructor
      · rintro ⟨hne, hk, hlt⟩
        exact ⟨hk, by omega⟩
      · rintro ⟨hk, hlt⟩
        exact ⟨by omega, hk, by omega⟩
  | case2 next future hmem =>
    refine ⟨hstart, hle, ?_, hfuture⟩
    intro hreceived
    exact hmem ((hfuture (next + 1)).2 ⟨hreceived, by omega⟩)

/-- What arrives at or before the number is dropped, the rest is kept and the number moves on. -/
theorem Tracks.absorb (h : Tracks start received next future) {future' : Finset Nat} {incoming : Set Nat}
    (hfuture : ∀ k, k ∈ future' ↔ k ∈ future ∨ k ∈ incoming ∧ next < k) :
    Tracks start (received ∪ incoming) (drain next future').1 (drain next future').2 := by
  apply tracks_drain h.start_le
  · exact fun k hk hk' => Or.inl (h.mem_of_le k hk hk')
  · intro k
    rw [hfuture, h.mem_future, Set.mem_union, or_and_right]

end ContiguousPrefix
