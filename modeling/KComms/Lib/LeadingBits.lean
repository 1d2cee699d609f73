import Mathlib.Data.Nat.Bitwise

/-!
# Leading bits

The bits of a number of a given width, the most significant one first.  A shift to the right compares leading bits
(`shiftRight_eq_iff`), and the bits of a number that is put together of segments are those of its segments
(`leadingBits_foldl`).
-/

namespace LeadingBits

def leadingBits (width value : Nat) : List Bool := (List.range width).map fun i => value.testBit (width - 1 - i)

@[simp] theorem length_leadingBits (width value : Nat) : (leadingBits width value).length = width := by
  simp [leadingBits]

theorem shiftRight_eq_iff {width x y n : Nat} (hx : x < 2 ^ width) (hy : y < 2 ^ width) (hn : n ≤ width) :
    x >>> (width - n) = y >>> (width - n) ↔ (leadingBits width x).take n = (leadingBits width y).take n := by
  have htake : ∀ value : Nat, (leadingBits width value).take n =
      (List.range n).map fun i => value.testBit (width - 1 - i) := by
    intro value
    rw [leadingBits, ← List.map_take, List.take_range, Nat.min_eq_left hn]
  rw [htake, htake]
  constructor
  · intro h
    refine List.map_congr_left fun i hi => ?_
    rw [List.mem_range] at hi
    have hbit := congrArg (fun value => value.testBit (n - 1 - i)) h
    simp only [Nat.testBit_shiftRight] at hbit
    rwa [show width - n + (n - 1 - i) = width - 1 - i by omega] at hbit
  · intro h
    refine Nat.eq_of_testBit_eq fun i => ?_
    rw [Nat.testBit_shiftRight, Nat.testBit_shiftRight]
    by_cases hi : i < n
    · have hbit := List.map_inj_left.1 h (n - 1 - i) (List.mem_range.2 (by omega))
      rwa [show width - 1 - (n - 1 - i) = width - n + i by omega] at hbit
    · -- both numbers have no more than `width` bits
      have hhigh : 2 ^ width ≤ 2 ^ (width - n + i) := Nat.pow_le_pow_right (by omega) (by omega)
      rw [Nat.testBit_lt_two_pow (Nat.lt_of_lt_of_le hx hhigh), Nat.testBit_lt_two_pow (Nat.lt_of_lt_of_le hy hhigh)]

theorem leadingBits_add (m : Nat) {n a b : Nat} (hb : b < 2 ^ n) :
    leadingBits (m + n) (2 ^ n * a + b) = leadingBits m a ++ leadingBits n b := by
  unfold leadingBits
  rw [List.range_add, List.map_append, List.map_map]
  congr 1
  · refine List.map_congr_left fun i hi => ?_
    rw [List.mem_range] at hi
    rw [Nat.testBit_two_pow_mul_add _ hb, if_neg (by omega), show m + n - 1 - i - n = m - 1 - i by omega]
  · refine List.map_congr_left fun i hi => ?_
    rw [List.mem_range] at hi
    rw [Function.comp_apply, Nat.testBit_two_pow_mul_add _ hb, if_pos (by omega),
      show m + n - 1 - (m + i) = n - 1 - i by omega]

/-- The number of some segments. -/
theorem leadingBits_foldl {w : Nat} {segments : List Nat} (h : ∀ segment ∈ segments, segment < 2 ^ w) :
    ∀ {m value : Nat}, value < 2 ^ m →
      leadingBits (m + segments.length * w) (segments.foldl (fun value segment => value <<< w + segment) value) =
        leadingBits m value ++ segments.flatMap (leadingBits w) ∧
      segments.foldl (fun value segment => value <<< w + segment) value < 2 ^ (m + segments.length * w) := by
  induction segments with
  | nil =>
    intro m value hvalue
    simpa using hvalue
  | cons segment segments ih =>
    intro m value hvalue
    have hsegment := h segment List.mem_cons_self
    have hshift : value <<< w + segment = 2 ^ w * value + segment := by rw [Nat.shiftLeft_eq, Nat.mul_comm]
    have hbound : 2 ^ w * value + segment < 2 ^ (m + w) := by
      have hmul : 2 ^ w * (value + 1) ≤ 2 ^ w * 2 ^ m := Nat.mul_le_mul_left _ hvalue
      rw [Nat.pow_add, Nat.mul_comm (2 ^ m)]
      rw [Nat.mul_add, Nat.mul_one] at hmul
      omega
    obtain ⟨hbits, hlt⟩ := ih (fun s hs => h s (List.mem_cons_of_mem _ hs)) hbound
    have hwidth : m + (segment :: segments).length * w = m + w + segments.length * w := by
      rw [List.length_cons, Nat.add_mul]
      omega
    rw [hwidth, List.foldl_cons, hshift, List.flatMap_cons, ← List.append_assoc, ← leadingBits_add m hsegment]
    exact ⟨hbits, hlt⟩

end LeadingBits
