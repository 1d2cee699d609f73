import Mathlib.Algebra.Ring.Nat
import Mathlib.Data.List.Basic

/-!
# JSON values and their encoding

`encode` writes a value without blanks.  A number that is no integer is kept as the text of it; the members of an object
stand in the order in which they are encoded.  What is proved is how the size of an array comes from the sizes of its
elements (`size_encode_array`).
-/

inductive Json
  | null
  | bool (value : Bool)
  | int (value : Int)
  | float (text : String)
  | string (value : String)
  | array (elements : List Json)
  | object (members : List (String × Json))
  deriving Repr

namespace Json

def hexDigit (n : Nat) : Char := if n < 10 then Char.ofNat (48 + n) else Char.ofNat (55 + n)

/-- A character in a string. -/
def escapeChar (c : Char) : String :=
  if c = '"' then "\\\""
  else if c = '\\' then "\\\\"
  else if c = '\x08' then "\\b"
  else if c = '\t' then "\\t"
  else if c = '\n' then "\\n"
  else if c = '\x0c' then "\\f"
  else if c = '\r' then "\\r"
  else if c.toNat < 32 then "\\u00" ++ String.ofList [hexDigit (c.toNat / 16), hexDigit (c.toNat % 16)]
  else String.singleton c

def encodeString (value : String) : String := "\"" ++ String.join (value.toList.map escapeChar) ++ "\""

def commaSeparated : List String → String
  | [] => ""
  | [text] => text
  | text :: rest => text ++ "," ++ commaSeparated rest

mutual

def encode : Json → String
  | .null => "null"
  | .bool value => if value then "true" else "false"
  | .int value => toString value
  | .float text => text
  | .string value => encodeString value
  | .array elements => "[" ++ commaSeparated (encodeElements elements) ++ "]"
  | .object members => "\x7b" ++ commaSeparated (encodeMembers members) ++ "\x7d"

def encodeElements : List Json → List String
  | [] => []
  | element :: rest => encode element :: encodeElements rest

def encodeMembers : List (String × Json) → List String
  | [] => []
  | (name, value) :: rest => (encodeString name ++ ":" ++ encode value) :: encodeMembers rest

end

/-- `byte_size` of the encoding. -/
def size (value : Json) : Nat := (encode value).utf8ByteSize

/-- A member of an object. -/
def get? : Json → String → Option Json
  | .object members, name => (members.find? fun member => member.1 = name).map Prod.snd
  | _, _ => none

theorem encodeElements_eq (elements : List Json) : encodeElements elements = elements.map encode := by
  induction elements with
  | nil => rfl
  | cons element rest ih =>
    unfold encodeElements
    rw [ih, List.map_cons]

theorem utf8ByteSize_commaSeparated (texts : List String) :
    (commaSeparated texts).utf8ByteSize = (texts.map String.utf8ByteSize).sum + (texts.length - 1) := by
  induction texts with
  | nil => rfl
  | cons text rest ih =>
    cases rest with
    | nil => simp [commaSeparated]
    | cons next rest =>
      have hcomma : ",".utf8ByteSize = 1 := by decide
      have hsum : ((text :: next :: rest).map String.utf8ByteSize).sum =
          text.utf8ByteSize + ((next :: rest).map String.utf8ByteSize).sum := by rw [List.map_cons, List.sum_cons]
      have hlength : (text :: next :: rest).length = (next :: rest).length + 1 := rfl
      have hpositive : 0 < (next :: rest).length := Nat.succ_pos _
      rw [hsum, hlength, commaSeparated, String.utf8ByteSize_append, String.utf8ByteSize_append, ih, hcomma]
      · omega
      · simp

theorem size_encode_array (elements : List Json) :
    size (.array elements) = 2 + (elements.map size).sum + (elements.length - 1) := by
  have hopen : "[".utf8ByteSize = 1 := by decide
  have hclose : "]".utf8ByteSize = 1 := by decide
  have hsizes : (elements.map encode).map String.utf8ByteSize = elements.map size := List.map_map
  have hsize : size (.array elements) = ("[" ++ commaSeparated (encodeElements elements) ++ "]").utf8ByteSize := by
    unfold size
    rw [encode]
  rw [hsize, String.utf8ByteSize_append, String.utf8ByteSize_append, utf8ByteSize_commaSeparated, encodeElements_eq,
    hopen, hclose, hsizes, List.length_map]
  omega

/-- The size of an object with one member. -/
theorem size_encode_member (name : String) (value : Json) :
    size (.object [(name, value)]) = 3 + (encodeString name).utf8ByteSize + size value := by
  have hopen : "\x7b".utf8ByteSize = 1 := by decide
  have hclose : "\x7d".utf8ByteSize = 1 := by decide
  have hcolon : ":".utf8ByteSize = 1 := by decide
  unfold size
  rw [encode, encodeMembers, encodeMembers, commaSeparated]
  simp only [String.utf8ByteSize_append, hopen, hclose, hcolon]
  omega

end Json
