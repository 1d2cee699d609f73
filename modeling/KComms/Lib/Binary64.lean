import Mathlib.Data.Nat.Log
import Mathlib.Tactic.Ring
import Mathlib.Tactic.Linarith

/-!
# Integers as 64-bit floating-point numbers

The value of the double that is nearest to an integer, with ties to even.  An infinite double stands as the power of two
at which the finite ones end.  Rounding keeps the order (`ofInt_le`) and every integer up to `2^53` in size
(`ofInt_eq`).
-/

namespace Binary64

/-- The multiple of `2 ^ k` nearest to `n`, the even one of two. -/
def roundAt (k n : Nat) : Nat :=
  if 2 * (n % 2 ^ k) < 2 ^ k ∨ (2 * (n % 2 ^ k) = 2 ^ k ∧ n / 2 ^ k % 2 = 0) then n / 2 ^ k * 2 ^ k
  else (n / 2 ^ k + 1) * 2 ^ k

/-- The exponent of the last of 53 digits. -/
def unit (n : Nat) : Nat := n.log2 - 52

def round (n : Nat) : Nat := roundAt (unit n) n

/-- The exponent at which the finite doubles end. -/
def maxExponent : Nat := 1024

def infinity : Nat := 2 ^ maxExponent

def ofInt (n : Int) : Int :=
  let magnitude : Int := round n.natAbs
  max (-(infinity : Int)) (min (infinity : Int) (if n < 0 then -magnitude else magnitude))

theorem roundAt_mul (k c : Nat) : roundAt k (c * 2 ^ k) = c * 2 ^ k := by
  have hpos : 0 < 2 ^ k := Nat.two_pow_pos k
  unfold roundAt
  rw [Nat.mul_mod_left, Nat.mul_div_cancel _ hpos, if_pos (Or.inl (by omega))]

theorem roundAt_mono (k : Nat) {n m : Nat} (h : n ≤ m) : roundAt k n ≤ roundAt k m := by
  have hpos : 0 < 2 ^ k := Nat.two_pow_pos k
  have hq : n / 2 ^ k ≤ m / 2 ^ k := Nat.div_le_div_right h
  have hn := Nat.div_add_mod n (2 ^ k)
  have hm := Nat.div_add_mod m (2 ^ k)
  by_cases heq : n / 2 ^ k = m / 2 ^ k
  · -- the quotients agree, so the remainders are in order
    have hr : n % 2 ^ k ≤ m % 2 ^ k := by
      rw [heq] at hn
      omega
    unfold roundAt
    rw [heq]
    have hle : m / 2 ^ k * 2 ^ k ≤ (m / 2 ^ k + 1) * 2 ^ k := Nat.mul_le_mul_right _ (by omega)
    split
    · split
      · exact le_refl _
      · exact hle
    · rename_i hup
      rw [if_neg (by omega)]
  · have hlow : m / 2 ^ k * 2 ^ k ≤ roundAt k m := by
      unfold roundAt
      split
      · exact le_refl _
      · exact Nat.mul_le_mul_right _ (by omega)
    have hhigh : roundAt k n ≤ (n / 2 ^ k + 1) * 2 ^ k := by
      unfold roundAt
      split
      · exact Nat.mul_le_mul_right _ (by omega)
      · exact le_refl _
    have hmid : (n / 2 ^ k + 1) * 2 ^ k ≤ m / 2 ^ k * 2 ^ k := Nat.mul_le_mul_right _ (by omega)
    omega

/-- A power of two is a multiple of a smaller one. -/
private theorem roundAt_two_pow {k e : Nat} (h : k ≤ e) : roundAt k (2 ^ e) = 2 ^ e := by
  have hsplit : 2 ^ e = 2 ^ (e - k) * 2 ^ k := by
    rw [← Nat.pow_add, show e - k + k = e by omega]
  rw [hsplit]
  exact roundAt_mul k _

theorem round_mono {n m : Nat} (h : n ≤ m) : round n ≤ round m := by
  have hlog : n.log2 ≤ m.log2 := by
    rw [Nat.log2_eq_log_two, Nat.log2_eq_log_two]
    exact Nat.log_mono_right h
  unfold round
  by_cases heq : unit n = unit m
  · rw [heq]
    exact roundAt_mono _ h
  · -- a power of two lies between the two
    have hlt : n.log2 < m.log2 := by
      unfold unit at heq
      omega
    have hm0 : m ≠ 0 := by
      rintro rfl
      simp at hlt
    have hn : n ≤ 2 ^ (n.log2 + 1) := le_of_lt Nat.lt_log2_self
    have hm : 2 ^ m.log2 ≤ m := Nat.log2_self_le hm0
    have hup : roundAt (unit n) n ≤ 2 ^ (n.log2 + 1) := by
      have := roundAt_mono (unit n) hn
      rwa [roundAt_two_pow (by unfold unit; omega)] at this
    have hdown : 2 ^ m.log2 ≤ roundAt (unit m) m := by
      have := roundAt_mono (unit m) hm
      rwa [roundAt_two_pow (by unfold unit; omega)] at this
    have hmid : 2 ^ (n.log2 + 1) ≤ 2 ^ m.log2 := Nat.pow_le_pow_right (by omega) (by omega)
    omega

theorem round_eq {n : Nat} (h : n ≤ 2 ^ 53) : round n = n := by
  rcases Nat.lt_or_ge n (2 ^ 53) with hlt | hge
  · have hlog : n.log2 < 53 := by
      rw [Nat.log2_eq_log_two]
      exact Nat.log_lt_of_lt_pow' (by omega) hlt
    unfold round
    rw [show unit n = 0 by unfold unit; omega]
    have := roundAt_mul 0 n
    simpa using this
  · obtain rfl : n = 2 ^ 53 := by omega
    unfold round
    exact roundAt_two_pow (by unfold unit; rw [Nat.log2_two_pow]; omega)

theorem ofInt_le {n m : Int} (h : n ≤ m) : ofInt n ≤ ofInt m := by
  have hmag : (if n < 0 then -(round n.natAbs : Int) else (round n.natAbs : Int)) ≤
      if m < 0 then -(round m.natAbs : Int) else (round m.natAbs : Int) := by
    split
    · split
      · have := round_mono (show m.natAbs ≤ n.natAbs by omega)
        omega
      · omega
    · rw [if_neg (by omega)]
      have := round_mono (show n.natAbs ≤ m.natAbs by omega)
      omega
  unfold ofInt
  dsimp only
  omega

private theorem two_pow_le_infinity {e : Nat} (h : e ≤ maxExponent) : 2 ^ e ≤ infinity := by
  rw [infinity]
  exact Nat.pow_le_pow_right Nat.two_pos h

theorem ofInt_eq {n : Int} (h : n.natAbs ≤ 2 ^ 53) : ofInt n = n := by
  have hround := round_eq h
  have hsize : (n.natAbs : Int) ≤ (infinity : Int) := Int.ofNat_le.2 (h.trans (two_pow_le_infinity (by decide)))
  unfold ofInt
  dsimp only
  rw [hround]
  split <;> omega

end Binary64
