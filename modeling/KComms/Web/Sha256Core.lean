import KComms.Lib.JavaScriptNumber
import KComms.Lib.Sha256

/-!
# The incremental hash of the web client (`sha256Core`)

`Sha256State` keeps what is shorter than a block until more octets come.  However a message is split into updates, the
digest is its SHA-256 (`digest_updates`), and so the hashes of bytes and blobs do not depend on the size of their chunks.
The buffer keeps the octets of earlier blocks behind `blockLength`, and the schedule those of the last one.
-/

namespace KComms.Web.Sha256Core

open JavaScriptNumber
open Sha256 (Word Work words)

def roundConstants : List Word :=
  [0x428a2f98, 0x71374491, 0xb5c0fbcf, 0xe9b5dba5,
    0x3956c25b, 0x59f111f1, 0x923f82a4, 0xab1c5ed5,
    0xd807aa98, 0x12835b01, 0x243185be, 0x550c7dc3,
    0x72be5d74, 0x80deb1fe, 0x9bdc06a7, 0xc19bf174,
    0xe49b69c1, 0xefbe4786, 0x0fc19dc6, 0x240ca1cc,
    0x2de92c6f, 0x4a7484aa, 0x5cb0a9dc, 0x76f988da,
    0x983e5152, 0xa831c66d, 0xb00327c8, 0xbf597fc7,
    0xc6e00bf3, 0xd5a79147, 0x06ca6351, 0x14292967,
    0x27b70a85, 0x2e1b2138, 0x4d2c6dfc, 0x53380d13,
    0x650a7354, 0x766a0abb, 0x81c2c92e, 0x92722c85,
    0xa2bfe8a1, 0xa81a664b, 0xc24b8b70, 0xc76c51a3,
    0xd192e819, 0xd6990624, 0xf40e3585, 0x106aa070,
    0x19a4c116, 0x1e376c08, 0x2748774c, 0x34b0bcb5,
    0x391c0cb3, 0x4ed8aa4a, 0x5b9cca4f, 0x682e6ff3,
    0x748f82ee, 0x78a5636f, 0x84c87814, 0x8cc70208,
    0x90befffa, 0xa4506ceb, 0xbef9a3f7, 0xc67178f2]

/-! ### Typed arrays -/

def readWord (array : List Word) (index : Nat) : Int := (array.getD index 0).toNat

def writeWord (array : List Word) (index : Nat) (value : Int) : List Word := array.set index (bits value)

def readByte (array : List UInt8) (index : Nat) : Int := (array.getD index 0).toNat

/-- `array.set(items, offset)` -/
def setBytes (array items : List UInt8) (offset : Nat) : List UInt8 :=
  array.take offset ++ items ++ array.drop (offset + items.length)

/-- `array.fill(0, start, end)` -/
def fillZero (array : List UInt8) (start stop : Nat) : List UInt8 :=
  array.take start ++ List.replicate (stop - start) 0 ++ array.drop (max start stop)

/-- `setUint32`: the octets of the bits, most significant first. -/
def setUint32 (array : List UInt8) (offset : Nat) (value : Int) : List UInt8 :=
  setBytes array (Sha256.bigEndian 4 (bits value).toNat) offset

/-! ### `compress` -/

def rotateRight (value : Int) (count : Nat) : Int :=
  bitOr (unsignedShiftRight value count) (shiftLeft value (32 - count))

def loadWord (bytes : List UInt8) (offset : Nat) (schedule : List Word) (index : Nat) : List Word :=
  let wordOffset := offset + index * 4
  writeWord schedule index
    (unsignedShiftRight
      (bitOr
        (bitOr
          (bitOr (shiftLeft (readByte bytes wordOffset) 24) (shiftLeft (readByte bytes (wordOffset + 1)) 16))
          (shiftLeft (readByte bytes (wordOffset + 2)) 8))
        (readByte bytes (wordOffset + 3)))
      0)

def extendSchedule (schedule : List Word) (index : Nat) : List Word :=
  let previous15 := readWord schedule (index - 15)
  let previous2 := readWord schedule (index - 2)
  let sigma0 := unsignedShiftRight
    (bitXor (bitXor (rotateRight previous15 7) (rotateRight previous15 18)) (unsignedShiftRight previous15 3)) 0
  let sigma1 := unsignedShiftRight
    (bitXor (bitXor (rotateRight previous2 17) (rotateRight previous2 19)) (unsignedShiftRight previous2 10)) 0
  writeWord schedule index
    (unsignedShiftRight
      (add (add (add (readWord schedule (index - 16)) sigma0) (readWord schedule (index - 7))) sigma1) 0)

/-- The local variables of `compress`. -/
structure Registers where
  a : Int
  b : Int
  c : Int
  d : Int
  e : Int
  f : Int
  g : Int
  h : Int
  deriving DecidableEq, Repr

def roundStep (schedule : List Word) (registers : Registers) (index : Nat) : Registers :=
  let ⟨a, b, c, d, e, f, g, h⟩ := registers
  let sum1 := unsignedShiftRight (bitXor (bitXor (rotateRight e 6) (rotateRight e 11)) (rotateRight e 25)) 0
  let choice := unsignedShiftRight (bitXor (bitAnd e f) (bitAnd (bitNot e) g)) 0
  let first := unsignedShiftRight
    (add (add (add (add h sum1) choice) (readWord roundConstants index)) (readWord schedule index)) 0
  let sum0 := unsignedShiftRight (bitXor (bitXor (rotateRight a 2) (rotateRight a 13)) (rotateRight a 22)) 0
  let majority := unsignedShiftRight (bitXor (bitXor (bitAnd a b) (bitAnd a c)) (bitAnd b c)) 0
  let second := unsignedShiftRight (add sum0 majority) 0
  { a := unsignedShiftRight (add first second) 0, b := a, c := b, d := c,
    e := unsignedShiftRight (add d first) 0, f := e, g := f, h := g }

structure Sha256State where
  hash : List Word
  block : List UInt8
  schedule : List Word
  blockLength : Nat
  bytesHashed : Int
  deriving DecidableEq, Repr

namespace Sha256State

def initial : Sha256State where
  hash := [0x6a09e667, 0xbb67ae85, 0x3c6ef372, 0xa54ff53a, 0x510e527f, 0x9b05688c, 0x1f83d9ab, 0x5be0cd19]
  block := List.replicate 64 0
  schedule := List.replicate 64 0
  blockLength := 0
  bytesHashed := 0

/-- `this.hash[index] = (this.hash[index] + value) >>> 0` -/
def addWord (hash : List Word) (index : Nat) (value : Int) : List Word :=
  writeWord hash index (unsignedShiftRight (add (readWord hash index) value) 0)

def compress (state : Sha256State) (bytes : List UInt8) (offset : Nat) : Sha256State :=
  let loaded := (List.range' 0 16).foldl (loadWord bytes offset) state.schedule
  let schedule := (List.range' 16 48).foldl extendSchedule loaded
  let hash := state.hash
  let ⟨a, b, c, d, e, f, g, h⟩ := (List.range 64).foldl (roundStep schedule)
    { a := readWord hash 0, b := readWord hash 1, c := readWord hash 2, d := readWord hash 3,
      e := readWord hash 4, f := readWord hash 5, g := readWord hash 6, h := readWord hash 7 }
  { state with
    schedule := schedule
    hash := addWord (addWord (addWord (addWord (addWord (addWord (addWord (addWord hash 0 a) 1 b) 2 c) 3 d) 4 e) 5 f) 6 g)
      7 h }

/-- The part of `update` for a block that was begun; with it the offset of what is left. -/
def continueBlock (state : Sha256State) (bytes : List UInt8) : Sha256State × Nat :=
  if 0 < state.blockLength then
    let available := 64 - state.blockLength
    let copied := min available bytes.length
    let state := { state with
      block := setBytes state.block (bytes.take copied) state.blockLength
      blockLength := state.blockLength + copied }
    if state.blockLength = 64 then ({ state.compress state.block 0 with blockLength := 0 }, copied)
    else (state, copied)
  else (state, 0)

/-- `while (offset + 64 <= bytes.byteLength)` -/
def compressBlocks (state : Sha256State) (bytes : List UInt8) (offset : Nat) : Sha256State × Nat :=
  if offset + 64 ≤ bytes.length then compressBlocks (state.compress bytes offset) bytes (offset + 64)
  else (state, offset)
termination_by bytes.length - offset

def update (state : Sha256State) (bytes : List UInt8) : Sha256State :=
  let state := { state with bytesHashed := add state.bytesHashed bytes.length }
  let (state, offset) := state.continueBlock bytes
  let (state, offset) := state.compressBlocks bytes offset
  if offset < bytes.length then
    let remainder := bytes.drop offset
    { state with block := setBytes state.block remainder 0, blockLength := remainder.length }
  else state

/-- `digest`; a quotient by a power of two is exact. -/
def digest (state : Sha256State) : List UInt8 :=
  let bitLengthHigh := unsignedShiftRight (state.bytesHashed / 0x20000000) 0
  let bitLengthLow := unsignedShiftRight (shiftLeft state.bytesHashed 3) 0
  let state := { state with block := state.block.set state.blockLength 0x80, blockLength := state.blockLength + 1 }
  let state :=
    if 56 < state.blockLength then
      let block := fillZero state.block state.blockLength 64
      { { state with block := block }.compress block 0 with blockLength := 0 }
    else state
  let block := fillZero state.block state.blockLength 56
  let block := setUint32 block 56 bitLengthHigh
  let block := setUint32 block 60 bitLengthLow
  let state := { state with block := block }.compress block 0
  (List.range 8).foldl (fun output index => setUint32 output (index * 4) (readWord state.hash index))
    (List.replicate 32 0)

end Sha256State

/-! ### Hashes in chunks -/

/-- The loop over the chunks of `hashBytesIncrementally` and `hashBlobIncrementally`. -/
def hashChunks (chunkBytes : Nat) (bytes : List UInt8) (state : Sha256State) (offset : Nat) : Sha256State :=
  if offset < bytes.length ∧ 0 < chunkBytes then
    let stop := min (offset + chunkBytes) bytes.length
    hashChunks chunkBytes bytes (state.update ((bytes.take stop).drop offset)) (offset + chunkBytes)
  else state
termination_by bytes.length - offset

def fallbackChunkBytes : Nat := 1024 * 1024
def blobHashChunkBytes : Nat := 1024 * 1024

def hashBytesIncrementally (bytes : List UInt8) : List UInt8 :=
  (hashChunks fallbackChunkBytes bytes .initial 0).digest

/-- The slices of a blob are those of its bytes. -/
def hashBlobIncrementally (blob : List UInt8) : List UInt8 := (hashChunks blobHashChunkBytes blob .initial 0).digest

/-! ### Words -/

variable {message array bytes octets items : List UInt8} {state : Sha256State} {offset start : Nat} {W : Nat → Word}

theorem roundConstants_eq : roundConstants = Sha256.K := by decide

/-- The number of a word. -/
def number (w : Word) : Int := w.toNat

@[simp] theorem bits_number (w : Word) : bits (number w) = w := bits_toNat w

theorem unsignedShiftRight_eq (x : Int) : unsignedShiftRight x 0 = number (bits x) := unsignedShiftRight_zero x

theorem readWord_eq (array : List Word) (index : Nat) : readWord array index = number (array.getD index 0) := rfl

@[simp] theorem bits_rotateRight (w : Word) (count : Nat) (h : 1 ≤ count ∧ count ≤ 31) :
    bits (rotateRight (number w) count) = w.rotateRight count := by
  unfold rotateRight
  rw [bits_bitOr, bits_unsignedShiftRight, bits_shiftLeft, bits_number, Nat.mod_eq_of_lt (by omega),
    Nat.mod_eq_of_lt (by omega), BitVec.rotateRight, Nat.mod_eq_of_lt (by omega), BitVec.rotateRightAux]

/-- Sums of two words that are numbers of words are exact. -/
theorem add_number (v w : Word) : unsignedShiftRight (add (number v) (number w)) 0 = number (v + w) := by
  have hv := v.isLt
  have hw := w.isLt
  show unsignedShiftRight (add (v.toNat : Int) (w.toNat : Int)) 0 = _
  rw [unsignedShiftRight_eq, add_natCast (by omega), bits_natCast]
  congr 1

theorem add_number₄ (u v w x : Word) :
    unsignedShiftRight (add (add (add (number u) (number v)) (number w)) (number x)) 0 = number (u + v + w + x) := by
  have := u.isLt
  have := v.isLt
  have := w.isLt
  have := x.isLt
  show unsignedShiftRight (add (add (add (u.toNat : Int) (v.toNat : Int)) (w.toNat : Int)) (x.toNat : Int)) 0 = _
  rw [unsignedShiftRight_eq, add_natCast (by omega), add_natCast (by omega), add_natCast (by omega), bits_natCast]
  congr 1
  apply BitVec.eq_of_toNat_eq
  simp only [BitVec.toNat_ofNat, BitVec.toNat_add]
  omega

theorem add_number₅ (u v w x y : Word) :
    unsignedShiftRight (add (add (add (add (number u) (number v)) (number w)) (number x)) (number y)) 0 =
      number (u + v + w + x + y) := by
  have := u.isLt
  have := v.isLt
  have := w.isLt
  have := x.isLt
  have := y.isLt
  show unsignedShiftRight
    (add (add (add (add (u.toNat : Int) (v.toNat : Int)) (w.toNat : Int)) (x.toNat : Int)) (y.toNat : Int)) 0 = _
  rw [unsignedShiftRight_eq, add_natCast (by omega), add_natCast (by omega), add_natCast (by omega),
    add_natCast (by omega), bits_natCast]
  congr 1
  apply BitVec.eq_of_toNat_eq
  simp only [BitVec.toNat_ofNat, BitVec.toNat_add]
  omega

/-- Octets that are shifted apart are the digits of a number. -/
private theorem or_octets {a b c d : Nat} (ha : a < 256) (hb : b < 256) (hc : c < 256) (hd : d < 256) :
    BitVec.ofNat 32 a <<< 24 ||| BitVec.ofNat 32 b <<< 16 ||| BitVec.ofNat 32 c <<< 8 ||| BitVec.ofNat 32 d =
      BitVec.ofNat 32 (a * 2 ^ 24 + b * 2 ^ 16 + c * 2 ^ 8 + d) := by
  have hab : a <<< 24 ||| b <<< 16 = (a * 2 ^ 8 + b) <<< 16 := by
    rw [← Nat.shiftLeft_add_eq_or_of_lt (by rw [Nat.shiftLeft_eq]; omega)]
    simp only [Nat.shiftLeft_eq]
    omega
  have habc : (a * 2 ^ 8 + b) <<< 16 ||| c <<< 8 = (a * 2 ^ 16 + b * 2 ^ 8 + c) <<< 8 := by
    rw [← Nat.shiftLeft_add_eq_or_of_lt (by rw [Nat.shiftLeft_eq]; omega)]
    simp only [Nat.shiftLeft_eq]
    omega
  have habcd : (a * 2 ^ 16 + b * 2 ^ 8 + c) <<< 8 ||| d = a * 2 ^ 24 + b * 2 ^ 16 + c * 2 ^ 8 + d := by
    rw [← Nat.shiftLeft_add_eq_or_of_lt (by omega)]
    simp only [Nat.shiftLeft_eq]
    omega
  rw [← habcd, ← habc, ← hab]
  apply BitVec.eq_of_toNat_eq
  simp only [BitVec.toNat_or, BitVec.toNat_shiftLeft, BitVec.toNat_ofNat, Nat.or_mod_two_pow]
  simp only [Nat.shiftLeft_eq]
  rw [Nat.mod_eq_of_lt (show a < 2 ^ 32 by omega), Nat.mod_eq_of_lt (show b < 2 ^ 32 by omega),
    Nat.mod_eq_of_lt (show c < 2 ^ 32 by omega)]

theorem loadWord_eq (bytes : List UInt8) (offset : Nat) (schedule : List Word) {index : Nat} (hindex : index < 16) :
    loadWord bytes offset schedule index =
      schedule.set index (Sha256.messageWord ((bytes.drop offset).take 64) index) := by
  have hoctet : ∀ i < 4, ((bytes.drop offset).take 64).getD (4 * index + i) 0 = bytes.getD (offset + index * 4 + i) 0 := by
    intro i hi
    simp only [List.getD_eq_getElem?_getD]
    rw [List.getElem?_take_of_lt (by omega), List.getElem?_drop, show offset + (4 * index + i) = offset + index * 4 + i by omega]
  unfold loadWord writeWord Sha256.messageWord
  dsimp only
  rw [unsignedShiftRight_eq, bits_number]
  congr 1
  simp only [bits_bitOr, bits_shiftLeft, readByte, bits_natCast]
  rw [hoctet 0 (by omega), hoctet 1 (by omega), hoctet 2 (by omega), hoctet 3 (by omega)]
  exact or_octets (UInt8.toNat_lt _) (UInt8.toNat_lt _) (UInt8.toNat_lt _) (UInt8.toNat_lt _)

/-! ### Rounds -/

def registersOf (work : Work) : Registers where
  a := number work.a
  b := number work.b
  c := number work.c
  d := number work.d
  e := number work.e
  f := number work.f
  g := number work.g
  h := number work.h

theorem roundStep_registersOf (schedule : List Word) (work : Work) (index : Nat) :
    roundStep schedule (registersOf work) index =
      registersOf (Sha256.round (fun t => schedule.getD t 0) work index) := by
  simp only [roundStep, registersOf, Sha256.round]
  have hsum1 : unsignedShiftRight (bitXor (bitXor (rotateRight (number work.e) 6) (rotateRight (number work.e) 11))
      (rotateRight (number work.e) 25)) 0 = number (Sha256.bigSigma1 work.e) := by
    rw [unsignedShiftRight_eq]
    simp [Sha256.bigSigma1]
  have hchoice : unsignedShiftRight (bitXor (bitAnd (number work.e) (number work.f))
      (bitAnd (bitNot (number work.e)) (number work.g))) 0 = number (Sha256.Ch work.e work.f work.g) := by
    rw [unsignedShiftRight_eq]
    simp [Sha256.Ch]
  have hsum0 : unsignedShiftRight (bitXor (bitXor (rotateRight (number work.a) 2) (rotateRight (number work.a) 13))
      (rotateRight (number work.a) 22)) 0 = number (Sha256.bigSigma0 work.a) := by
    rw [unsignedShiftRight_eq]
    simp [Sha256.bigSigma0]
  have hmajority : unsignedShiftRight (bitXor (bitXor (bitAnd (number work.a) (number work.b))
      (bitAnd (number work.a) (number work.c))) (bitAnd (number work.b) (number work.c))) 0 =
        number (Sha256.Maj work.a work.b work.c) := by
    rw [unsignedShiftRight_eq]
    simp [Sha256.Maj]
  rw [hsum1, hchoice, hsum0, hmajority, readWord_eq, readWord_eq, roundConstants_eq, add_number₅, add_number, add_number,
    add_number]

/-! ### The schedule and the rounds -/

theorem extendSchedule_eq (schedule : List Word) (index : Nat) :
    extendSchedule schedule index = schedule.set index
      (Sha256.smallSigma1 (schedule.getD (index - 2) 0) + schedule.getD (index - 7) 0 +
        Sha256.smallSigma0 (schedule.getD (index - 15) 0) + schedule.getD (index - 16) 0) := by
  unfold extendSchedule writeWord
  dsimp only
  simp only [readWord_eq]
  generalize schedule.getD (index - 2) 0 = w2
  generalize schedule.getD (index - 7) 0 = w7
  generalize schedule.getD (index - 15) 0 = w15
  generalize schedule.getD (index - 16) 0 = w16
  have hsigma0 : unsignedShiftRight (bitXor (bitXor (rotateRight (number w15) 7) (rotateRight (number w15) 18))
      (unsignedShiftRight (number w15) 3)) 0 = number (Sha256.smallSigma0 w15) := by
    rw [unsignedShiftRight_eq]
    simp [Sha256.smallSigma0]
  have hsigma1 : unsignedShiftRight (bitXor (bitXor (rotateRight (number w2) 17) (rotateRight (number w2) 19))
      (unsignedShiftRight (number w2) 10)) 0 = number (Sha256.smallSigma1 w2) := by
    rw [unsignedShiftRight_eq]
    simp [Sha256.smallSigma1]
  rw [hsigma0, hsigma1, add_number₄, bits_number]
  congr 1
  -- the standard adds the same words in the opposite order
  rw [BitVec.add_comm _ (Sha256.smallSigma1 w2), BitVec.add_comm (w16 + _) w7, BitVec.add_comm w16,
    BitVec.add_assoc (Sha256.smallSigma1 w2), BitVec.add_assoc (Sha256.smallSigma1 w2), BitVec.add_assoc w7]

/-- The first `n` words of the schedule are there. -/
def Filled (W : Nat → Word) (n : Nat) (schedule : List Word) : Prop :=
  schedule.length = 64 ∧ ∀ t < n, schedule.getD t 0 = W t

theorem Filled.set {n : Nat} {schedule : List Word} (h : Filled W n schedule) (hn : n < 64) :
    Filled W (n + 1) (schedule.set n (W n)) := by
  obtain ⟨hlength, hwords⟩ := h
  refine ⟨by rw [List.length_set, hlength], ?_⟩
  intro t ht
  rw [List.getD_eq_getElem?_getD, List.getElem?_set]
  by_cases htn : n = t
  · subst htn
    rw [if_pos rfl, if_pos (by omega), Option.getD_some]
  · rw [if_neg htn, ← List.getD_eq_getElem?_getD]
    exact hwords t (by omega)

/-- By induction on the number of steps that fill a word each. -/
theorem Filled.foldl {step : List Word → Nat → List Word} (count : Nat) (hcount : start + count ≤ 64)
    (hstep : ∀ n, start ≤ n → n < start + count → ∀ schedule, Filled W n schedule → step schedule n = schedule.set n (W n))
    {schedule : List Word} (h : Filled W start schedule) :
    Filled W (start + count) ((List.range' start count).foldl step schedule) := by
  induction count with
  | zero => exact h
  | succ count ih =>
    have hfilled := ih (by omega) fun n hle hlt => hstep n hle (by omega)
    rw [List.range'_concat, List.foldl_append, Nat.one_mul]
    simp only [List.foldl_cons, List.foldl_nil]
    rw [hstep (start + count) (by omega) (by omega) _ hfilled]
    exact hfilled.set (by omega)

theorem filled_schedule (bytes : List UInt8) (offset : Nat) {schedule : List Word} (hschedule : schedule.length = 64) :
    Filled (Sha256.schedule ((bytes.drop offset).take 64)) 64
      ((List.range' 16 48).foldl extendSchedule ((List.range' 0 16).foldl (loadWord bytes offset) schedule)) := by
  generalize hblock : (bytes.drop offset).take 64 = block
  have hloaded : Filled (Sha256.schedule block) (0 + 16) ((List.range' 0 16).foldl (loadWord bytes offset) schedule) := by
    refine Filled.foldl 16 (by omega) ?_ ⟨hschedule, fun t ht => absurd ht (Nat.not_lt_zero t)⟩
    intro n _ hn schedule _
    rw [loadWord_eq bytes offset schedule (by omega), hblock, Sha256.schedule, if_pos (by omega)]
  refine Filled.foldl 48 (by omega) ?_ hloaded
  intro n hle _ schedule hfilled
  rw [extendSchedule_eq, hfilled.2 (n - 2) (by omega), hfilled.2 (n - 7) (by omega), hfilled.2 (n - 15) (by omega),
    hfilled.2 (n - 16) (by omega)]
  conv_rhs => rw [Sha256.schedule, if_neg (by omega)]

theorem rounds_registersOf {schedule : List Word} (h : Filled W 64 schedule) (work : Work) :
    (List.range 64).foldl (roundStep schedule) (registersOf work) =
      registersOf ((List.range 64).foldl (Sha256.round W) work) := by
  have hall : ∀ indices : List Nat, (∀ t ∈ indices, t < 64) → ∀ work, indices.foldl (roundStep schedule) (registersOf work) =
      registersOf (indices.foldl (Sha256.round W) work) := by
    intro indices hindices
    induction indices with
    | nil => exact fun work => rfl
    | cons index indices ih =>
      intro work
      have hround : Sha256.round (fun t => schedule.getD t 0) work index = Sha256.round W work index := by
        simp only [Sha256.round, h.2 index (hindices index List.mem_cons_self)]
      rw [List.foldl_cons, List.foldl_cons, roundStep_registersOf, hround]
      exact ih (fun t ht => hindices t (List.mem_cons_of_mem _ ht)) _
  exact hall _ (fun t ht => List.mem_range.mp ht) work

namespace Sha256State

/-- What `compress` changes: the schedule is that of the block, and the hash takes the block in. -/
theorem compress_eq (state : Sha256State) (bytes : List UInt8) (offset : Nat) {H : Work} (hhash : state.hash = words H)
    (hschedule : state.schedule.length = 64) :
    ∃ schedule, schedule.length = 64 ∧ state.compress bytes offset =
      { state with schedule := schedule, hash := words (Sha256.compress H ((bytes.drop offset).take 64)) } := by
  have hfilled := filled_schedule bytes offset hschedule
  have hregisters : Registers.mk (readWord state.hash 0) (readWord state.hash 1) (readWord state.hash 2)
      (readWord state.hash 3) (readWord state.hash 4) (readWord state.hash 5) (readWord state.hash 6)
      (readWord state.hash 7) = registersOf H := by
    rw [hhash]
    rfl
  refine ⟨_, hfilled.1, ?_⟩
  unfold compress
  dsimp only
  rw [hregisters, rounds_registersOf hfilled]
  unfold Sha256.compress
  generalize (List.range 64).foldl (Sha256.round _) H = work
  congr 1
  rw [hhash]
  simp only [registersOf, words, addWord, writeWord, readWord_eq, List.getD_cons_zero, List.getD_cons_succ, List.set_cons_zero,
    List.set_cons_succ, add_number, bits_number, BitVec.add_comm]

/-! ### Updates -/

open Sha256 (block_pos)

/-- The blocks of the message are in the hash, and what is left of it is in the buffer. -/
structure Absorbed (message : List UInt8) (state : Sha256State) : Prop where
  hash : state.hash = words (Sha256.absorb message)
  kept : state.block.take state.blockLength = Blocks.rest 64 message
  blockLength : state.blockLength = message.length % 64
  block : state.block.length = 64
  schedule : state.schedule.length = 64

theorem absorbed_initial : Absorbed [] initial where
  hash := by
    rw [Sha256.absorb, Blocks.absorb_short block_pos _ (by decide)]
    rfl
  kept := rfl
  blockLength := rfl
  block := rfl
  schedule := rfl

theorem Absorbed.rest_nil (h : Absorbed message state)
    (hempty : state.blockLength = 0) : Blocks.rest 64 message = [] := by
  rw [← h.kept, hempty, List.take_zero]

theorem Absorbed.blockLength_lt (h : Absorbed message state) :
    state.blockLength < 64 := by
  rw [h.blockLength]
  exact Nat.mod_lt _ block_pos

/-- A block is compressed that begins with what the message left. -/
theorem absorbed_compress (hhash : state.hash = words (Sha256.absorb message)) (hblock : state.block.length = 64)
    (hschedule : state.schedule.length = 64) (hbytes : (bytes.drop offset).take 64 = Blocks.rest 64 message ++ octets)
    (hfull : (Blocks.rest 64 message ++ octets).length = 64) :
    Absorbed (message ++ octets) { state.compress bytes offset with blockLength := 0 } ∧
      (state.compress bytes offset).blockLength = state.blockLength ∧
      (state.compress bytes offset).bytesHashed = state.bytesHashed := by
  obtain ⟨schedule, hlength, hcompress⟩ := compress_eq state bytes offset hhash hschedule
  obtain ⟨habsorb, hrest⟩ := Sha256.absorb_full hfull
  have hkept := Blocks.length_rest 64 message
  rw [List.length_append] at hfull
  rw [hcompress]
  refine ⟨{
    hash := by rw [habsorb, hbytes]
    kept := by rw [hrest, List.take_zero]
    blockLength := by
      show 0 = _
      rw [List.length_append]
      omega
    block := hblock
    schedule := hlength }, rfl, rfl⟩

theorem length_setBytes (h : offset + items.length ≤ array.length) :
    (setBytes array items offset).length = array.length := by
  unfold setBytes
  rw [List.length_append, List.length_append, List.length_take, List.length_drop]
  omega

theorem take_setBytes (h : offset + items.length ≤ array.length) :
    (setBytes array items offset).take (offset + items.length) = array.take offset ++ items := by
  have hlength : (array.take offset ++ items).length = offset + items.length := by
    rw [List.length_append, List.length_take]
    omega
  unfold setBytes
  exact List.take_left' hlength

/-- Octets are put behind those that were kept, and fill no block. -/
theorem Absorbed.keep (h : Absorbed message state) (hshort : state.blockLength + octets.length < 64) :
    Absorbed (message ++ octets)
      { state with block := setBytes state.block octets state.blockLength,
                   blockLength := state.blockLength + octets.length } := by
  have hlength : (Blocks.rest 64 message ++ octets).length = state.blockLength + octets.length := by
    rw [List.length_append, Blocks.length_rest, h.blockLength]
  have hblock := h.block
  obtain ⟨habsorb, hrest⟩ := Sha256.absorb_part (hlength ▸ hshort)
  refine {
    hash := by rw [habsorb]; exact h.hash
    kept := ?_
    blockLength := ?_
    block := by rw [length_setBytes (by omega)]; exact hblock
    schedule := h.schedule }
  · show (setBytes state.block octets state.blockLength).take (state.blockLength + octets.length) = _
    rw [take_setBytes (by omega), h.kept, hrest]
  · have hkept := h.blockLength
    show state.blockLength + octets.length = _
    rw [List.length_append]
    omega

/-- What the parts of `update` have taken of the bytes, so that a block is begun only at their end. -/
structure Taken (message bytes : List UInt8) (bytesHashed : Int) (taken : Sha256State × Nat) : Prop where
  absorbed : Absorbed (message ++ bytes.take taken.2) taken.1
  offset_le : taken.2 ≤ bytes.length
  empty : taken.2 < bytes.length → taken.1.blockLength = 0
  bytesHashed : taken.1.bytesHashed = bytesHashed

theorem continueBlock_taken (h : Absorbed message state) (bytes : List UInt8) :
    Taken message bytes state.bytesHashed (state.continueBlock bytes) := by
  have hblock := h.block
  have hlt := h.blockLength_lt
  unfold continueBlock
  by_cases hempty : 0 < state.blockLength
  · rw [if_pos hempty]
    dsimp only
    have hcopied : (bytes.take (min (64 - state.blockLength) bytes.length)).length =
        min (64 - state.blockLength) bytes.length := by
      rw [List.length_take]
      omega
    by_cases hfull : state.blockLength + min (64 - state.blockLength) bytes.length = 64
    · rw [if_pos hfull]
      generalize hoctets : bytes.take (min (64 - state.blockLength) bytes.length) = octets at hcopied ⊢
      have hset : setBytes state.block octets state.blockLength = Blocks.rest 64 message ++ octets := by
        have htake := @take_setBytes state.block octets state.blockLength (by omega)
        rwa [h.kept, List.take_of_length_le (by rw [length_setBytes (by omega)]; omega)] at htake
      have hlength : (Blocks.rest 64 message ++ octets).length = 64 := by
        rw [← hset, length_setBytes (by omega), hblock]
      have hbytes : ((setBytes state.block octets state.blockLength).drop 0).take 64 = Blocks.rest 64 message ++ octets := by
        rw [List.drop_zero, hset, List.take_of_length_le (by omega)]
      have hfilled : (setBytes state.block octets state.blockLength).length = 64 := by rw [hset, hlength]
      have hcompress := @absorbed_compress message _ octets { state with
        block := setBytes state.block octets state.blockLength
        blockLength := state.blockLength + min (64 - state.blockLength) bytes.length } _ h.hash hfilled h.schedule hbytes
          hlength
      obtain ⟨habsorbed, -, hhashed⟩ := hcompress
      exact ⟨hoctets ▸ habsorbed, by dsimp only; omega, fun _ => rfl, hhashed⟩
    · rw [if_neg hfull]
      have hkeep := @Absorbed.keep message (bytes.take (min (64 - state.blockLength) bytes.length)) state h (by omega)
      rw [hcopied] at hkeep
      refine ⟨hkeep, by dsimp only; omega, ?_, rfl⟩
      dsimp only
      omega
  · rw [if_neg hempty]
    refine ⟨?_, Nat.zero_le _, fun _ => by dsimp only; omega, rfl⟩
    rw [List.take_zero, List.append_nil]
    exact h

/-- By induction on the blocks that are left. -/
theorem compressBlocks_taken {bytesHashed : Int} (state : Sha256State) (offset : Nat)
    (h : Taken message bytes bytesHashed (state, offset)) :
    Taken message bytes bytesHashed (state.compressBlocks bytes offset) ∧
      bytes.length < (state.compressBlocks bytes offset).2 + 64 := by
  induction state, offset using compressBlocks.induct bytes with
  | case1 state offset hlong ih =>
    rw [compressBlocks, if_pos hlong]
    apply ih
    have hempty : state.blockLength = 0 := h.empty (by dsimp only; omega)
    have hrest := h.absorbed.rest_nil hempty
    have hlength : ((bytes.drop offset).take 64).length = 64 := by
      rw [List.length_take, List.length_drop]
      omega
    have hcompress := @absorbed_compress (message ++ bytes.take offset) bytes ((bytes.drop offset).take 64) state
      offset h.absorbed.hash h.absorbed.block h.absorbed.schedule (by rw [hrest, List.nil_append])
      (by rw [hrest, List.nil_append, hlength])
    rw [List.append_assoc, ← List.take_add, hempty] at hcompress
    generalize state.compress bytes offset = next at hcompress ⊢
    obtain ⟨habsorbed, hnext, hhashed⟩ := hcompress
    refine ⟨?_, by dsimp only; omega, fun _ => hnext, hhashed.trans h.bytesHashed⟩
    rw [← hnext] at habsorbed
    exact habsorbed
  | case2 state offset hshort =>
    rw [compressBlocks, if_neg hshort]
    exact ⟨h, by dsimp only; omega⟩

theorem update_absorbed (h : Absorbed message state) (hhashed : state.bytesHashed = message.length)
    (hbytes : message.length + bytes.length < 2 ^ 50) :
    Absorbed (message ++ bytes) (state.update bytes) ∧
      (state.update bytes).bytesHashed = ((message ++ bytes).length : Nat) := by
  have hadd : add state.bytesHashed bytes.length = ((message ++ bytes).length : Nat) := by
    rw [hhashed, add_natCast (by omega), List.length_append]
  have hcounted : Absorbed message { state with bytesHashed := add state.bytesHashed bytes.length } :=
    ⟨h.hash, h.kept, h.blockLength, h.block, h.schedule⟩
  have hbegun := continueBlock_taken hcounted bytes
  dsimp only at hbegun
  unfold update
  dsimp only
  generalize continueBlock _ bytes = begun at hbegun ⊢
  obtain ⟨first, start⟩ := begun
  obtain ⟨htaken, hfew⟩ := compressBlocks_taken first start hbegun
  dsimp only
  generalize first.compressBlocks bytes start = result at htaken hfew ⊢
  obtain ⟨last, offset⟩ := result
  obtain ⟨habsorbed, hle, hempty, hcount⟩ := htaken
  dsimp only at habsorbed hle hempty hcount hfew ⊢
  rw [hadd] at hcount
  by_cases hleft : offset < bytes.length
  · rw [if_pos hleft]
    have hremainder : (bytes.drop offset).length < 64 := by
      rw [List.length_drop]
      omega
    have hkeep := @Absorbed.keep _ (bytes.drop offset) _ habsorbed (by rw [hempty hleft]; omega)
    rw [hempty hleft, Nat.zero_add, List.append_assoc, List.take_append_drop] at hkeep
    exact ⟨hkeep, hcount⟩
  · rw [if_neg hleft]
    rw [List.take_of_length_le (by omega)] at habsorbed
    exact ⟨habsorbed, hcount⟩

/-! ### The digest -/

theorem fillZero_take {stop : Nat} (hle : start ≤ stop) (hstop : stop ≤ array.length) :
    (fillZero array start stop).take stop = array.take start ++ List.replicate (stop - start) 0 ∧
      (fillZero array start stop).length = array.length := by
  have hlength : (array.take start ++ List.replicate (stop - start) 0).length = stop := by
    rw [List.length_append, List.length_take, List.length_replicate]
    omega
  unfold fillZero
  refine ⟨List.take_left' hlength, ?_⟩
  rw [List.length_append, hlength, List.length_drop]
  omega

/-- The octets of the length, as its high and its low word. -/
theorem bitLength_octets (length : Nat) :
    Sha256.bigEndian 4 (bits (unsignedShiftRight ((length : Int) / 0x20000000) 0)).toNat ++
        Sha256.bigEndian 4 (bits (unsignedShiftRight (shiftLeft (length : Int) 3) 0)).toNat =
      Sha256.bigEndian 8 (8 * length) := by
  have hhigh : (bits (unsignedShiftRight ((length : Int) / 0x20000000) 0)).toNat =
      8 * length / 256 ^ 4 % 256 ^ (4 + 0) := by
    rw [unsignedShiftRight_eq, bits_number, show (length : Int) / 0x20000000 = ((length / 0x20000000 : Nat) : Int) by omega,
      bits_natCast, BitVec.toNat_ofNat]
    omega
  have hlow : (bits (unsignedShiftRight (shiftLeft (length : Int) 3) 0)).toNat = 8 * length % 256 ^ (4 + 0) := by
    rw [unsignedShiftRight_eq, bits_number, bits_shiftLeft, bits_natCast, BitVec.toNat_shiftLeft, BitVec.toNat_ofNat,
      Nat.shiftLeft_eq]
    show length % 2 ^ 32 * 8 % 2 ^ 32 = 8 * length % 2 ^ 32
    omega
  rw [hhigh, hlow, Sha256.bigEndian_mod, Sha256.bigEndian_mod]
  exact (Sha256.bigEndian_append 4 4 (8 * length)).symm

theorem setUint32_take (value : Int) (h : offset + 4 ≤ array.length) :
    (setUint32 array offset value).take (offset + 4) = array.take offset ++ Sha256.bigEndian 4 (bits value).toNat ∧
      (setUint32 array offset value).length = array.length := by
  have hlength := Sha256.length_bigEndian 4 (bits value).toNat
  unfold setUint32
  have htake := @take_setBytes array (Sha256.bigEndian 4 (bits value).toNat) offset (by omega)
  rw [hlength] at htake
  exact ⟨htake, length_setBytes (by omega)⟩

/-- The block that ends with the length. -/
theorem lengthBlock_eq (harray : array.length = 64) (hstart : start ≤ 56) (high low : Int) :
    setUint32 (setUint32 (fillZero array start 56) 56 high) 60 low =
      array.take start ++ (List.replicate (56 - start) 0 ++
        (Sha256.bigEndian 4 (bits high).toNat ++ Sha256.bigEndian 4 (bits low).toNat)) := by
  obtain ⟨hfill, hlength⟩ := @fillZero_take array start 56 hstart (by omega)
  obtain ⟨hhigh, hlength'⟩ := @setUint32_take (fillZero array start 56) 56 high (by omega)
  obtain ⟨hlow, hlength''⟩ := @setUint32_take (setUint32 (fillZero array start 56) 56 high) 60 low (by omega)
  rw [List.take_of_length_le (by omega)] at hlow
  rw [hlow, hhigh, hfill, List.append_assoc, List.append_assoc]

/-- By induction on the words that are written. -/
theorem output_eq (hash : List Word) (size count : Nat) (hcount : count ≤ hash.length) (hsize : count * 4 ≤ size) :
    ((List.range count).foldl (fun output index => setUint32 output (index * 4) (readWord hash index))
        (List.replicate size 0)).take (count * 4) =
      (hash.take count).flatMap (fun word => Sha256.bigEndian 4 word.toNat) ∧
    ((List.range count).foldl (fun output index => setUint32 output (index * 4) (readWord hash index))
        (List.replicate size 0)).length = size := by
  induction count with
  | zero => exact ⟨List.take_zero, List.length_replicate⟩
  | succ count ih =>
    obtain ⟨htake, hlength⟩ := ih (by omega) (by omega)
    rw [List.range_succ, List.foldl_append]
    simp only [List.foldl_cons, List.foldl_nil]
    obtain ⟨hset, hlength'⟩ := @setUint32_take _ (count * 4) (readWord hash count) (by rw [hlength]; omega)
    have hword : hash.take (count + 1) = hash.take count ++ [hash.getD count 0] := by
      rw [List.take_add_one, List.getD_eq_getElem?_getD, List.getElem?_eq_getElem (by omega)]
      rfl
    rw [show (count + 1) * 4 = count * 4 + 4 by omega, hset, htake, hword, List.flatMap_append, readWord_eq, bits_number]
    exact ⟨by simp, hlength'.trans hlength⟩

/-- The buffer after the mark behind the message. -/
theorem Absorbed.marked (h : Absorbed message state) :
    (state.block.set state.blockLength 0x80).take (state.blockLength + 1) = Blocks.rest 64 message ++ [0x80] := by
  have hblock := h.block
  have hlt := h.blockLength_lt
  rw [List.take_add_one, List.take_set_of_le (le_refl _), h.kept, List.getElem?_set_self (by omega)]
  rfl

theorem output_words (H : Work) :
    (List.range 8).foldl (fun output index => setUint32 output (index * 4) (readWord (words H) index))
        (List.replicate 32 0) = (words H).flatMap fun word => Sha256.bigEndian 4 word.toNat := by
  obtain ⟨htake, hsize⟩ := output_eq (words H) 32 8 (le_refl 8) (by omega)
  rw [List.take_of_length_le (by omega), List.take_of_length_le (le_refl 8)] at htake
  exact htake

/-- The output when the last block of the padded message is compressed. -/
theorem output_compress {H : Work} (hhash : state.hash = words H) (hschedule : state.schedule.length = 64)
    {block : List UInt8} (hblock : block.length = 64)
    (hlast : Sha256.absorb (Sha256.pad message) = Sha256.compress H block) :
    (List.range 8).foldl
        (fun output index => setUint32 output (index * 4) (readWord (state.compress block 0).hash index))
        (List.replicate 32 0) = Sha256.hash message := by
  obtain ⟨schedule, -, hcompress⟩ := compress_eq state block 0 hhash hschedule
  rw [List.drop_zero, List.take_of_length_le (by omega)] at hcompress
  rw [hcompress]
  dsimp only
  rw [output_words, ← hlast]
  rfl

/-- The last block, where the length has its place behind the mark. -/
theorem lastBlock_one (h : Absorbed message state) (hshort : message.length % 64 < 56) :
    setUint32 (setUint32 (fillZero (state.block.set state.blockLength 0x80) (state.blockLength + 1) 56) 56
        (unsignedShiftRight ((message.length : Int) / 0x20000000) 0)) 60
        (unsignedShiftRight (shiftLeft (message.length : Int) 3) 0) =
      Blocks.rest 64 message ++ 0x80 ::
        (List.replicate (55 - message.length % 64) 0 ++ Sha256.bigEndian 8 (8 * message.length)) := by
  have hkept := h.blockLength
  have hlength : (state.block.set state.blockLength 0x80).length = 64 := by rw [List.length_set, h.block]
  rw [lengthBlock_eq hlength (by omega), bitLength_octets, h.marked, List.append_assoc, hkept,
    show 56 - (message.length % 64 + 1) = 55 - message.length % 64 by omega]
  rfl

/-- The block before the last one, where it has none. -/
theorem filledBlock_two (h : Absorbed message state) :
    fillZero (state.block.set state.blockLength 0x80) (state.blockLength + 1) 64 =
      Blocks.rest 64 message ++ 0x80 :: List.replicate (63 - message.length % 64) 0 := by
  have hkept := h.blockLength
  have hlt := h.blockLength_lt
  have hlength : (state.block.set state.blockLength 0x80).length = 64 := by rw [List.length_set, h.block]
  obtain ⟨htake, hsize⟩ := @fillZero_take (state.block.set state.blockLength 0x80) (state.blockLength + 1) 64 (by omega)
    (by omega)
  rw [List.take_of_length_le (by omega), h.marked, hkept, List.append_assoc,
    show 64 - (message.length % 64 + 1) = 63 - message.length % 64 by omega] at htake
  rw [hkept, htake]
  rfl

theorem digest_eq (h : Absorbed message state)
    (hhashed : state.bytesHashed = message.length) : state.digest = Sha256.hash message := by
  have hkept := h.blockLength
  have hlt := h.blockLength_lt
  have hrest := Blocks.length_rest 64 message
  unfold digest
  dsimp only
  rw [hhashed]
  by_cases hlong : 56 < state.blockLength + 1
  · -- the length has its place in a second block
    have hfirst : (Blocks.rest 64 message ++ 0x80 :: List.replicate (63 - message.length % 64) 0 : List UInt8).length = 64 := by
      rw [List.length_append, List.length_cons, List.length_replicate]
      omega
    rw [if_pos hlong, filledBlock_two h]
    obtain ⟨schedule, hschedule, hcompress⟩ := compress_eq { state with
      block := Blocks.rest 64 message ++ 0x80 :: List.replicate (63 - message.length % 64) 0
      blockLength := state.blockLength + 1, bytesHashed := message.length }
      (Blocks.rest 64 message ++ 0x80 :: List.replicate (63 - message.length % 64) 0) 0 h.hash h.schedule
    rw [List.drop_zero, List.take_of_length_le (by omega)] at hcompress
    rw [hcompress]
    dsimp only
    rw [lengthBlock_eq hfirst (by omega), bitLength_octets, List.take_zero, List.nil_append]
    refine output_compress rfl hschedule ?_ (Sha256.absorb_pad_two (by omega))
    rw [List.length_append, List.length_replicate, Sha256.length_bigEndian]
  · rw [if_neg hlong, lastBlock_one h (by omega)]
    dsimp only
    refine output_compress ?_ ?_ ?_ (Sha256.absorb_pad_one (by omega))
    · exact h.hash
    · exact h.schedule
    · rw [List.length_append, List.length_cons, List.length_append, List.length_replicate, Sha256.length_bigEndian]
      omega

/-- By induction on the updates. -/
theorem updates_absorbed (chunks : List (List UInt8)) (h : Absorbed message state)
    (hhashed : state.bytesHashed = message.length) (hbytes : message.length + chunks.flatten.length < 2 ^ 50) :
    Absorbed (message ++ chunks.flatten) (chunks.foldl update state) ∧
      (chunks.foldl update state).bytesHashed = ((message ++ chunks.flatten).length : Nat) := by
  induction chunks generalizing message state with
  | nil =>
    rw [List.flatten_nil, List.append_nil]
    exact ⟨h, hhashed⟩
  | cons chunk chunks ih =>
    rw [List.flatten_cons, List.length_append] at hbytes
    obtain ⟨habsorbed, hcount⟩ := update_absorbed h hhashed (show message.length + chunk.length < 2 ^ 50 by omega)
    rw [List.flatten_cons, ← List.append_assoc]
    exact ih habsorbed hcount (by rw [List.length_append]; omega)

theorem digest_updates {chunks : List (List UInt8)} (hbytes : chunks.flatten.length < 2 ^ 50) :
    (chunks.foldl update initial).digest = Sha256.hash chunks.flatten := by
  obtain ⟨habsorbed, hhashed⟩ := updates_absorbed chunks absorbed_initial rfl (by rw [List.length_nil]; omega)
  exact digest_eq habsorbed hhashed

end Sha256State

/-! ### Chunks -/

/-- The chunks from an offset on. -/
def chunksFrom (chunkBytes : Nat) (bytes : List UInt8) (offset : Nat) : List (List UInt8) :=
  if offset < bytes.length ∧ 0 < chunkBytes then
    (bytes.take (min (offset + chunkBytes) bytes.length)).drop offset :: chunksFrom chunkBytes bytes (offset + chunkBytes)
  else []
termination_by bytes.length - offset

theorem hashChunks_eq (chunkBytes : Nat) (bytes : List UInt8) (state : Sha256State) (offset : Nat) :
    hashChunks chunkBytes bytes state offset = (chunksFrom chunkBytes bytes offset).foldl Sha256State.update state := by
  induction state, offset using hashChunks.induct chunkBytes bytes with
  | case1 state offset h stop ih =>
    rw [hashChunks, if_pos h, chunksFrom, if_pos h, List.foldl_cons]
    exact ih
  | case2 state offset h => rw [hashChunks, if_neg h, chunksFrom, if_neg h, List.foldl_nil]

theorem flatten_chunksFrom {chunkBytes : Nat} (hpos : 0 < chunkBytes) (bytes : List UInt8) (offset : Nat) :
    (chunksFrom chunkBytes bytes offset).flatten = bytes.drop offset := by
  induction offset using chunksFrom.induct chunkBytes bytes with
  | case1 offset h ih =>
    rw [chunksFrom, if_pos h, List.flatten_cons, ih]
    have htake : bytes.take (min (offset + chunkBytes) bytes.length) = bytes.take (offset + chunkBytes) := by
      rw [List.take_eq_take_iff]
      omega
    rw [htake, List.drop_take, Nat.add_sub_cancel_left, ← List.drop_drop, List.take_append_drop]
  | case2 offset h =>
    have hle : bytes.length ≤ offset := by
      by_contra hlt
      exact h ⟨by omega, hpos⟩
    rw [chunksFrom, if_neg h, List.drop_eq_nil_of_le hle]
    rfl

theorem hashChunks_digest {chunkBytes : Nat} (hpos : 0 < chunkBytes) (hbytes : bytes.length < 2 ^ 50) :
    (hashChunks chunkBytes bytes .initial 0).digest = Sha256.hash bytes := by
  have hflatten : (chunksFrom chunkBytes bytes 0).flatten = bytes := by rw [flatten_chunksFrom hpos, List.drop_zero]
  rw [hashChunks_eq, Sha256State.digest_updates (by rw [hflatten]; exact hbytes), hflatten]

theorem incremental_hash {message : List UInt8} (hbytes : message.length < 2 ^ 50) :
    (∀ chunks : List (List UInt8), chunks.flatten = message →
      (chunks.foldl Sha256State.update .initial).digest = Sha256.hash message) ∧
    (∀ chunkBytes, 0 < chunkBytes → (hashChunks chunkBytes message .initial 0).digest = Sha256.hash message) ∧
    hashBytesIncrementally message = Sha256.hash message ∧ hashBlobIncrementally message = Sha256.hash message := by
  have hchunks : ∀ chunkBytes, 0 < chunkBytes → (hashChunks chunkBytes message .initial 0).digest = Sha256.hash message :=
    fun _ hpos => hashChunks_digest hpos hbytes
  refine ⟨?_, hchunks, hchunks _ (by decide), hchunks _ (by decide)⟩
  rintro chunks rfl
  exact Sha256State.digest_updates hbytes

theorem incremental_hash_abc :
    ([[0x61], [], [0x62, 0x63]].foldl Sha256State.update .initial).digest = Sha256.hash [0x61, 0x62, 0x63] ∧
      hashBytesIncrementally [0x61, 0x62, 0x63] = Sha256.hash [0x61, 0x62, 0x63] :=
  have hmessage : [0x61, 0x62, 0x63].length < 2 ^ 50 := by decide
  ⟨(incremental_hash hmessage).1 [[0x61], [], [0x62, 0x63]] rfl, (incremental_hash hmessage).2.2.1⟩

example : Sha256State.initial.digest =
    [0xe3, 0xb0, 0xc4, 0x42, 0x98, 0xfc, 0x1c, 0x14, 0x9a, 0xfb, 0xf4, 0xc8, 0x99, 0x6f, 0xb9, 0x24,
      0x27, 0xae, 0x41, 0xe4, 0x64, 0x9b, 0x93, 0x4c, 0xa4, 0x95, 0x99, 0x1b, 0x78, 0x52, 0xb8, 0x55] := by
  decide +kernel

end KComms.Web.Sha256Core
