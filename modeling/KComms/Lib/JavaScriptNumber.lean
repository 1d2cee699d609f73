import KComms.Lib.Binary64

/-!
# The 32-bit operators of JavaScript

A number that is an integer is an `Int`.  The bitwise operators read the last 32 bits of it, `>>>` gives an unsigned number
and the others a signed one; a sum is the double nearest to it.
-/

namespace JavaScriptNumber

/-- `ToInt32` and `ToUint32`, as bits. -/
def bits (x : Int) : BitVec 32 := BitVec.ofInt 32 x

def add (x y : Int) : Int := Binary64.ofInt (x + y)

/-- `x >>> count` -/
def unsignedShiftRight (x : Int) (count : Nat) : Int := (bits x >>> (count % 32)).toNat

/-- `x << count` -/
def shiftLeft (x : Int) (count : Nat) : Int := (bits x <<< (count % 32)).toInt

/-- `x | y` -/
def bitOr (x y : Int) : Int := (bits x ||| bits y).toInt

/-- `x & y` -/
def bitAnd (x y : Int) : Int := (bits x &&& bits y).toInt

/-- `x ^ y` -/
def bitXor (x y : Int) : Int := (bits x ^^^ bits y).toInt

/-- `~x` -/
def bitNot (x : Int) : Int := (~~~bits x).toInt

@[simp] theorem bits_toNat (w : BitVec 32) : bits (w.toNat : Int) = w := by
  unfold bits
  rw [BitVec.ofInt_natCast, BitVec.ofNat_toNat, BitVec.setWidth_eq]

@[simp] theorem bits_toInt (w : BitVec 32) : bits w.toInt = w := by
  unfold bits
  rw [BitVec.ofInt_toInt]

theorem bits_natCast (n : Nat) : bits (n : Int) = BitVec.ofNat 32 n := BitVec.ofInt_natCast ..

@[simp] theorem bits_unsignedShiftRight (x : Int) (count : Nat) :
    bits (unsignedShiftRight x count) = bits x >>> (count % 32) := bits_toNat _

@[simp] theorem bits_shiftLeft (x : Int) (count : Nat) : bits (shiftLeft x count) = bits x <<< (count % 32) :=
  bits_toInt _

@[simp] theorem bits_bitOr (x y : Int) : bits (bitOr x y) = bits x ||| bits y := bits_toInt _

@[simp] theorem bits_bitAnd (x y : Int) : bits (bitAnd x y) = bits x &&& bits y := bits_toInt _

@[simp] theorem bits_bitXor (x y : Int) : bits (bitXor x y) = bits x ^^^ bits y := bits_toInt _

@[simp] theorem bits_bitNot (x : Int) : bits (bitNot x) = ~~~bits x := bits_toInt _

/-- `x >>> 0` is the unsigned number of the bits. -/
theorem unsignedShiftRight_zero (x : Int) : unsignedShiftRight x 0 = (bits x).toNat := by
  unfold unsignedShiftRight
  simp

theorem add_eq {x y : Int} (h : (x + y).natAbs ≤ 2 ^ 53) : add x y = x + y := Binary64.ofInt_eq h

/-- Sums of words that are small enough are exact. -/
theorem add_natCast {m n : Nat} (h : m + n ≤ 2 ^ 53) : add (m : Int) (n : Int) = ((m + n : Nat) : Int) := by
  rw [add_eq (by omega)]
  omega

end JavaScriptNumber
