import Mathlib.Algebra.Ring.Nat
import Mathlib.Data.List.Basic

/-!
# SHA-256 (FIPS 180-4)

The hash of a message of octets, as the standard defines it: the padded message is parsed into blocks of 64 octets, each of
which changes the eight words of the hash value.  `absorb` takes all blocks of a list in and leaves what is shorter than a
block; it can be done in any parts (`absorb_append`), as long as what is left of one goes before the next.
-/

/-! ### Blocks -/

namespace Blocks

variable {σ α : Type}

private theorem drop_lt {n : Nat} (hn : 0 < n) {l : List α} (h : ¬ l.length < n) : (l.drop n).length < l.length := by
  rw [List.length_drop]
  omega

/-- All blocks of `n` elements, from the first one on. -/
def absorb {n : Nat} (hn : 0 < n) (f : σ → List α → σ) (s : σ) (l : List α) : σ :=
  if h : l.length < n then s else absorb hn f (f s (l.take n)) (l.drop n)
termination_by l.length
decreasing_by exact drop_lt hn h

/-- What is left behind the blocks. -/
def rest (n : Nat) (l : List α) : List α := l.drop (l.length / n * n)

variable {n : Nat} (hn : 0 < n) (f : σ → List α → σ)

theorem absorb_short {l : List α} (h : l.length < n) (s : σ) : absorb hn f s l = s := by
  rw [absorb, dif_pos h]

theorem absorb_block {block : List α} (hblock : block.length = n) (s : σ) (l : List α) :
    absorb hn f s (block ++ l) = absorb hn f (f s block) l := by
  have hlong : ¬ (block ++ l).length < n := by
    rw [List.length_append]
    omega
  rw [absorb, dif_neg hlong, List.take_left' hblock, List.drop_left' hblock]

theorem length_rest (n : Nat) (l : List α) : (rest n l).length = l.length % n := by
  have hdiv := Nat.div_add_mod l.length n
  rw [Nat.mul_comm] at hdiv
  rw [rest, List.length_drop]
  omega

theorem rest_short {l : List α} (h : l.length < n) : rest n l = l := by
  rw [rest, Nat.div_eq_of_lt h, Nat.zero_mul, List.drop_zero]

include hn in
theorem rest_block {block : List α} (hblock : block.length = n) (l : List α) : rest n (block ++ l) = rest n l := by
  have hlength : (block ++ l).length / n = l.length / n + 1 := by
    rw [List.length_append, hblock, Nat.add_comm, Nat.add_div_right _ hn]
  rw [rest, hlength, Nat.add_mul, Nat.one_mul, List.drop_append, hblock, List.drop_eq_nil_of_le (by omega),
    List.nil_append, Nat.add_sub_cancel]
  rfl

/-- By induction on the blocks of the first list. -/
theorem absorb_append (s : σ) (l l' : List α) :
    absorb hn f s (l ++ l') = absorb hn f (absorb hn f s l) (rest n l ++ l') ∧
      rest n (l ++ l') = rest n (rest n l ++ l') := by
  induction hlength : l.length using Nat.strongRecOn generalizing s l with
  | ind k ih =>
    by_cases h : l.length < n
    · rw [absorb_short hn f h, rest_short h]
      exact ⟨rfl, rfl⟩
    · obtain ⟨block, tail, rfl, hblock⟩ : ∃ block tail, l = block ++ tail ∧ block.length = n :=
        ⟨l.take n, l.drop n, (List.take_append_drop n l).symm, by rw [List.length_take]; omega⟩
      rw [List.length_append] at hlength
      have htail := ih tail.length (by omega) (f s block) tail rfl
      rw [List.append_assoc, absorb_block hn f hblock, absorb_block hn f hblock, rest_block hn hblock,
        rest_block hn hblock]
      exact htail

end Blocks

namespace Sha256

abbrev Word := BitVec 32

/-- The eight working variables, and the eight words of a hash value. -/
structure Work where
  a : Word
  b : Word
  c : Word
  d : Word
  e : Word
  f : Word
  g : Word
  h : Word
  deriving DecidableEq, Repr

/-! ### Functions and constants -/

def Ch (x y z : Word) : Word := (x &&& y) ^^^ (~~~x &&& z)
def Maj (x y z : Word) : Word := (x &&& y) ^^^ (x &&& z) ^^^ (y &&& z)
def bigSigma0 (x : Word) : Word := x.rotateRight 2 ^^^ x.rotateRight 13 ^^^ x.rotateRight 22
def bigSigma1 (x : Word) : Word := x.rotateRight 6 ^^^ x.rotateRight 11 ^^^ x.rotateRight 25
def smallSigma0 (x : Word) : Word := x.rotateRight 7 ^^^ x.rotateRight 18 ^^^ x >>> 3
def smallSigma1 (x : Word) : Word := x.rotateRight 17 ^^^ x.rotateRight 19 ^^^ x >>> 10

def K : List Word :=
  [0x428a2f98, 0x71374491, 0xb5c0fbcf, 0xe9b5dba5, 0x3956c25b, 0x59f111f1, 0x923f82a4, 0xab1c5ed5,
    0xd807aa98, 0x12835b01, 0x243185be, 0x550c7dc3, 0x72be5d74, 0x80deb1fe, 0x9bdc06a7, 0xc19bf174,
    0xe49b69c1, 0xefbe4786, 0x0fc19dc6, 0x240ca1cc, 0x2de92c6f, 0x4a7484aa, 0x5cb0a9dc, 0x76f988da,
    0x983e5152, 0xa831c66d, 0xb00327c8, 0xbf597fc7, 0xc6e00bf3, 0xd5a79147, 0x06ca6351, 0x14292967,
    0x27b70a85, 0x2e1b2138, 0x4d2c6dfc, 0x53380d13, 0x650a7354, 0x766a0abb, 0x81c2c92e, 0x92722c85,
    0xa2bfe8a1, 0xa81a664b, 0xc24b8b70, 0xc76c51a3, 0xd192e819, 0xd6990624, 0xf40e3585, 0x106aa070,
    0x19a4c116, 0x1e376c08, 0x2748774c, 0x34b0bcb5, 0x391c0cb3, 0x4ed8aa4a, 0x5b9cca4f, 0x682e6ff3,
    0x748f82ee, 0x78a5636f, 0x84c87814, 0x8cc70208, 0x90befffa, 0xa4506ceb, 0xbef9a3f7, 0xc67178f2]

def initialHash : Work where
  a := 0x6a09e667
  b := 0xbb67ae85
  c := 0x3c6ef372
  d := 0xa54ff53a
  e := 0x510e527f
  f := 0x9b05688c
  g := 0x1f83d9ab
  h := 0x5be0cd19

/-! ### Padding -/

/-- The octets of a number, most significant first. -/
def bigEndian : Nat → Nat → List UInt8
  | 0, _ => []
  | size + 1, value => UInt8.ofNat (value / 256 ^ size) :: bigEndian size value

theorem length_bigEndian (size value : Nat) : (bigEndian size value).length = size := by
  induction size with
  | zero => rfl
  | succ size ih => rw [bigEndian, List.length_cons, ih]

/-- The octets read no digits in front of them. -/
theorem bigEndian_mod (size value k : Nat) : bigEndian size (value % 256 ^ (size + k)) = bigEndian size value := by
  induction size generalizing k with
  | zero => rfl
  | succ size ih =>
    rw [bigEndian, bigEndian, show size + 1 + k = size + (k + 1) by omega, ih (k + 1)]
    congr 1
    rw [Nat.pow_add, Nat.mod_mul_right_div_self]
    apply UInt8.toNat_inj.mp
    rw [UInt8.toNat_ofNat', UInt8.toNat_ofNat', Nat.pow_succ]
    exact Nat.mod_mul_left_mod ..

theorem bigEndian_append (size size' value : Nat) :
    bigEndian (size + size') value = bigEndian size (value / 256 ^ size') ++ bigEndian size' value := by
  induction size with
  | zero =>
    rw [Nat.zero_add]
    rfl
  | succ size ih =>
    rw [Nat.add_right_comm, bigEndian, bigEndian, ih, Nat.div_div_eq_div_mul, ← Nat.pow_add, Nat.add_comm size' size]
    rfl

/-- The fewest zero octets with which the length ends a block. -/
def paddingZeros (length : Nat) : Nat := (119 - length % 64) % 64

def pad (message : List UInt8) : List UInt8 :=
  message ++ 0x80 :: (List.replicate (paddingZeros message.length) 0 ++ bigEndian 8 (8 * message.length))

/-! ### Computation -/

/-- `M_t` of a block. -/
def messageWord (block : List UInt8) (t : Nat) : Word :=
  let octet (i : Nat) : Nat := (block.getD (4 * t + i) 0).toNat
  BitVec.ofNat 32 (octet 0 * 2 ^ 24 + octet 1 * 2 ^ 16 + octet 2 * 2 ^ 8 + octet 3)

/-- `W_t` of a block. -/
def schedule (block : List UInt8) (t : Nat) : Word :=
  if t < 16 then messageWord block t
  else
    smallSigma1 (schedule block (t - 2)) + schedule block (t - 7) + smallSigma0 (schedule block (t - 15)) +
      schedule block (t - 16)

def round (W : Nat → Word) (work : Work) (t : Nat) : Work :=
  let T1 := work.h + bigSigma1 work.e + Ch work.e work.f work.g + K.getD t 0 + W t
  let T2 := bigSigma0 work.a + Maj work.a work.b work.c
  { a := T1 + T2, b := work.a, c := work.b, d := work.c, e := work.d + T1, f := work.e, g := work.f, h := work.g }

def compress (hash : Work) (block : List UInt8) : Work :=
  let work := (List.range 64).foldl (round (schedule block)) hash
  { a := work.a + hash.a, b := work.b + hash.b, c := work.c + hash.c, d := work.d + hash.d, e := work.e + hash.e,
    f := work.f + hash.f, g := work.g + hash.g, h := work.h + hash.h }

def words (hash : Work) : List Word := [hash.a, hash.b, hash.c, hash.d, hash.e, hash.f, hash.g, hash.h]

theorem block_pos : 0 < 64 := by decide

/-- The blocks of a message and the hash value they give. -/
def absorb (message : List UInt8) : Work := Blocks.absorb block_pos compress initialHash message

def hash (message : List UInt8) : List UInt8 := (words (absorb (pad message))).flatMap fun word => bigEndian 4 word.toNat

/-! ### The parts of a message -/

/-- Octets that complete a block. -/
theorem absorb_full {message octets : List UInt8} (h : (Blocks.rest 64 message ++ octets).length = 64) :
    absorb (message ++ octets) = compress (absorb message) (Blocks.rest 64 message ++ octets) ∧
      Blocks.rest 64 (message ++ octets) = [] := by
  obtain ⟨habsorb, hrest⟩ := Blocks.absorb_append block_pos compress initialHash message octets
  have hblock := Blocks.absorb_block block_pos compress h (absorb message) []
  have hnil := Blocks.rest_block block_pos h []
  have hshort : ([] : List UInt8).length < 64 := by decide
  rw [List.append_nil, Blocks.absorb_short block_pos _ hshort] at hblock
  rw [List.append_nil, Blocks.rest_short hshort] at hnil
  exact ⟨habsorb.trans hblock, hrest.trans hnil⟩

/-- Octets that complete no block. -/
theorem absorb_part {message octets : List UInt8} (h : (Blocks.rest 64 message ++ octets).length < 64) :
    absorb (message ++ octets) = absorb message ∧
      Blocks.rest 64 (message ++ octets) = Blocks.rest 64 message ++ octets := by
  obtain ⟨habsorb, hrest⟩ := Blocks.absorb_append block_pos compress initialHash message octets
  exact ⟨habsorb.trans (Blocks.absorb_short block_pos _ h _), hrest.trans (Blocks.rest_short h)⟩

/-- Where the length has its place behind the message, the padding ends the last block. -/
theorem absorb_pad_one {message : List UInt8} (h : message.length % 64 < 56) :
    absorb (pad message) = compress (absorb message)
      (Blocks.rest 64 message ++ 0x80 ::
        (List.replicate (55 - message.length % 64) 0 ++ bigEndian 8 (8 * message.length))) := by
  have hrest := Blocks.length_rest 64 message
  have hzeros : paddingZeros message.length = 55 - message.length % 64 := by
    unfold paddingZeros
    omega
  have hfull : (Blocks.rest 64 message ++ 0x80 ::
      (List.replicate (55 - message.length % 64) 0 ++ bigEndian 8 (8 * message.length))).length = 64 := by
    rw [List.length_append, List.length_cons, List.length_append, List.length_replicate, length_bigEndian]
    omega
  unfold pad
  rw [hzeros]
  exact (absorb_full hfull).1

/-- Where it has none, it ends a block more. -/
theorem absorb_pad_two {message : List UInt8} (h : 56 ≤ message.length % 64) :
    absorb (pad message) = compress
      (compress (absorb message)
        (Blocks.rest 64 message ++ 0x80 :: List.replicate (63 - message.length % 64) 0))
      (List.replicate 56 0 ++ bigEndian 8 (8 * message.length)) := by
  have hrest := Blocks.length_rest 64 message
  have hlt : message.length % 64 < 64 := Nat.mod_lt _ block_pos
  have hzeros : paddingZeros message.length = (63 - message.length % 64) + 56 := by
    unfold paddingZeros
    omega
  have hfirst : (Blocks.rest 64 message ++ 0x80 :: List.replicate (63 - message.length % 64) 0).length = 64 := by
    rw [List.length_append, List.length_cons, List.length_replicate]
    omega
  obtain ⟨habsorb, hnil⟩ := absorb_full hfirst
  have hsecond : (Blocks.rest 64 (message ++ 0x80 :: List.replicate (63 - message.length % 64) 0) ++
      (List.replicate 56 0 ++ bigEndian 8 (8 * message.length))).length = 64 := by
    rw [hnil, List.nil_append, List.length_append, List.length_replicate, length_bigEndian]
  have hlast := (absorb_full hsecond).1
  rw [hnil, List.nil_append, habsorb] at hlast
  rw [← hlast]
  unfold pad
  rw [hzeros, List.replicate_add, List.append_assoc, List.append_assoc, List.cons_append]

end Sha256
