import Mathlib.Data.List.DropRight

/-!
# Strings of Elixir's standard library
-/

namespace ElixirString

/-- The code points that `String.trim` removes. -/
def isWhitespace (c : Char) : Bool :=
  let n := c.toNat
  (0x9 ≤ n && n ≤ 0xD) || n == 0x20 || n == 0x85 || n == 0xA0 || n == 0x1680 || (0x2000 ≤ n && n ≤ 0x200A) ||
    n == 0x2028 || n == 0x2029 || n == 0x202F || n == 0x205F || n == 0x3000

/-- `String.trim` -/
def trim (value : String) : String :=
  String.ofList ((value.toList.dropWhile isWhitespace).reverse.dropWhile isWhitespace).reverse

/-- The encodings of these code points. -/
def whitespaceOctets : List (List UInt8) :=
  ([0x9, 0xA, 0xB, 0xC, 0xD, 0x20, 0x85, 0xA0, 0x1680, 0x2000, 0x2001, 0x2002, 0x2003, 0x2004, 0x2005, 0x2006, 0x2007,
    0x2008, 0x2009, 0x200A, 0x2028, 0x2029, 0x202F, 0x205F, 0x3000] : List Nat).map
    fun n => String.utf8EncodeChar (Char.ofNat n)

/-- Takes encodings away from the front, as many as there are. -/
def trimLeading (encodings : List (List UInt8)) : Nat → List UInt8 → List UInt8
  | 0, value => value
  | n + 1, value =>
    match encodings.find? (·.isPrefixOf value) with
    | some encoding => trimLeading encodings n (value.drop encoding.length)
    | none => value

/-- `String.trim` of a binary, which need not be text. -/
def trimOctets (value : List UInt8) : List UInt8 :=
  let value := trimLeading whitespaceOctets value.length value
  (trimLeading (whitespaceOctets.map List.reverse) value.length value.reverse).reverse

private theorem dropWhile_initial (p : Char → Bool) {l l' : List Char} (hl : l.dropWhile p = l) (h : l' <+: l) :
    l'.dropWhile p = l' := by
  cases l' with
  | nil => rfl
  | cons c l' =>
    obtain ⟨t, rfl⟩ := h
    by_cases hc : p c = true
    · have hlen := congrArg List.length hl
      rw [List.cons_append, List.dropWhile_cons_of_pos hc] at hlen
      have := (List.dropWhile_sublist p (l := l' ++ t)).length_le
      simp only [List.length_cons] at hlen
      omega
    · rw [List.dropWhile_cons_of_neg hc]

theorem trim_trim (value : String) : trim (trim value) = trim value := by
  unfold trim
  rw [String.toList_ofList]
  have hfirst : (value.toList.dropWhile isWhitespace).dropWhile isWhitespace = value.toList.dropWhile isWhitespace :=
    List.dropWhile_idempotent ..
  generalize value.toList.dropWhile isWhitespace = l at hfirst ⊢
  have hstart : (l.reverse.dropWhile isWhitespace).reverse <+: l := by
    rw [← List.reverse_suffix, List.reverse_reverse]
    exact List.dropWhile_suffix _
  rw [dropWhile_initial isWhitespace hfirst hstart, List.reverse_reverse]
  congr 2
  exact List.dropWhile_idempotent ..

private theorem dropWhile_of_none {p : Char → Bool} {l : List Char} (h : ∀ c ∈ l, p c = false) : l.dropWhile p = l := by
  cases l with
  | nil => rfl
  | cons c l =>
    have hc : ¬ p c = true := by simp [h c List.mem_cons_self]
    exact List.dropWhile_cons_of_neg hc

theorem trim_of_no_whitespace {value : String} (h : ∀ c ∈ value.toList, isWhitespace c = false) : trim value = value := by
  have hreverse : ∀ c ∈ value.toList.reverse, isWhitespace c = false := fun c hc => h c (List.mem_reverse.1 hc)
  unfold trim
  rw [dropWhile_of_none h, dropWhile_of_none hreverse, List.reverse_reverse, String.ofList_toList]

/-! ### `String.replace` -/

/-- The text from a position on, some characters of which belong to the last occurrence. -/
def replaceFrom (pattern replacement : List Char) : List Char → Nat → List Char
  | [], _ => []
  | _ :: rest, skip + 1 => replaceFrom pattern replacement rest skip
  | c :: rest, 0 =>
    if pattern.isPrefixOf (c :: rest) then replacement ++ replaceFrom pattern replacement rest (pattern.length - 1)
    else c :: replaceFrom pattern replacement rest 0

/-- `String.replace` of all occurrences of a pattern that is not empty. -/
def replace (text pattern replacement : String) : String :=
  String.ofList (replaceFrom pattern.toList replacement.toList text.toList 0)

theorem replaceFrom_character (p : Char) (replacement l : List Char) :
    replaceFrom [p] replacement l 0 = l.flatMap fun c => if c = p then replacement else [c] := by
  induction l with
  | nil => rfl
  | cons c l ih =>
    rw [replaceFrom, List.flatMap_cons]
    by_cases hc : c = p
    · subst hc
      rw [if_pos (by simp), if_pos rfl, List.length_singleton, ih]
    · rw [if_neg (by simp [Ne.symm hc]), if_neg hc, ih]
      rfl

theorem replaceFrom_pair (p q : Char) (replacement l : List Char) :
    replaceFrom [p, q] replacement (p :: q :: l) 0 = replacement ++ replaceFrom [p, q] replacement l 0 := by
  rw [replaceFrom, if_pos (by simp)]
  rfl

theorem replaceFrom_pair_other {p q c : Char} {l : List Char} (h : c = p → l.head? ≠ some q) (replacement : List Char) :
    replaceFrom [p, q] replacement (c :: l) 0 = c :: replaceFrom [p, q] replacement l 0 := by
  have hnot : List.isPrefixOf [p, q] (c :: l) = false := by
    cases l with
    | nil => simp [List.isPrefixOf]
    | cons d l =>
      simp only [List.isPrefixOf, Bool.and_true, Bool.and_eq_false_iff, beq_eq_false_iff_ne]
      by_cases hc : c = p
      · exact Or.inr fun hd => h hc (by rw [← hd]; rfl)
      · exact Or.inl (Ne.symm hc)
  rw [replaceFrom, hnot]
  rfl

/-- Characters before the first occurrence stay. -/
theorem replaceFrom_pair_append {p q : Char} {l : List Char} (h : ∀ c ∈ l, c ≠ p) (replacement rest : List Char) :
    replaceFrom [p, q] replacement (l ++ rest) 0 = l ++ replaceFrom [p, q] replacement rest 0 := by
  induction l with
  | nil => rfl
  | cons c l ih =>
    obtain ⟨hc, hl⟩ := List.forall_mem_cons.1 h
    rw [List.cons_append, replaceFrom_pair_other fun heq => absurd heq hc, ih hl, List.cons_append]

/-- A character that the pattern and the replacement do not have stays. -/
theorem mem_replaceFrom_pair {p q c : Char} {replacement : List Char} (hp : c ≠ p) (hq : c ≠ q)
    (hreplacement : c ∉ replacement) : ∀ l : List Char, c ∈ replaceFrom [p, q] replacement l 0 ↔ c ∈ l
  | [] => Iff.rfl
  | d :: l => by
    by_cases hpair : d = p ∧ l.head? = some q
    · obtain ⟨rfl, hhead⟩ := hpair
      obtain ⟨rest, rfl⟩ := List.head?_eq_some_iff.1 hhead
      rw [replaceFrom_pair, List.mem_append, mem_replaceFrom_pair hp hq hreplacement rest]
      simp [hreplacement, hp, hq]
    · have hother : d = p → l.head? ≠ some q := fun hd hhead => hpair ⟨hd, hhead⟩
      rw [replaceFrom_pair_other hother, List.mem_cons, List.mem_cons, mem_replaceFrom_pair hp hq hreplacement l]

/-! ### `String.split` and `Integer.parse` -/

section Pieces

variable {α : Type} [DecidableEq α]

/-- The pieces between the separators. -/
def pieces (separator : α) : List α → List (List α)
  | [] => [[]]
  | c :: rest =>
    if c = separator then [] :: pieces separator rest
    else
      match pieces separator rest with
      | [] => [[c]]
      | piece :: others => (c :: piece) :: others

theorem pieces_ne_nil (separator : α) (l : List α) : pieces separator l ≠ [] := by
  cases l with
  | nil => simp [pieces]
  | cons c l =>
    rw [pieces]
    split
    · exact List.cons_ne_nil _ _
    · split <;> exact List.cons_ne_nil _ _

theorem pieces_append (separator : α) (l l' : List α) :
    pieces separator (l ++ separator :: l') = pieces separator l ++ pieces separator l' := by
  induction l with
  | nil =>
    have hfirst : pieces separator (separator :: l') = [] :: pieces separator l' := by rw [pieces, if_pos rfl]
    rw [List.nil_append, hfirst]
    rfl
  | cons c l ih =>
    rw [List.cons_append, pieces, pieces, ih]
    by_cases hc : c = separator
    · rw [if_pos hc, if_pos hc, List.cons_append]
    · rw [if_neg hc, if_neg hc]
      cases hl : pieces separator l with
      | nil => exact absurd hl (pieces_ne_nil separator l)
      | cons piece others => rfl

theorem pieces_of_no_separator {separator : α} {l : List α} (h : ∀ c ∈ l, c ≠ separator) :
    pieces separator l = [l] := by
  induction l with
  | nil => rfl
  | cons c l ih =>
    obtain ⟨hc, hl⟩ := List.forall_mem_cons.1 h
    rw [pieces, if_neg hc, ih hl]

/-- The pieces have every character that is no separator. -/
theorem mem_pieces {separator c : α} (hc : c ≠ separator) (l : List α) :
    (∃ piece ∈ pieces separator l, c ∈ piece) ↔ c ∈ l := by
  induction l with
  | nil => simp [pieces]
  | cons d l ih =>
    rw [pieces, List.mem_cons, ← ih]
    by_cases hd : d = separator
    · rw [if_pos hd]
      have hne : c ≠ d := fun h => hc (h.trans hd)
      simp [hne]
    · rw [if_neg hd]
      cases hl : pieces separator l with
      | nil => exact absurd hl (pieces_ne_nil separator l)
      | cons piece others => simp [or_assoc]

end Pieces

/-- `String.split(text, separator, trim: true)` -/
def splitTrim (text : String) (separator : Char) : List String :=
  ((pieces separator text.toList).filter fun piece => piece ≠ []).map String.ofList

theorem mem_splitTrim {separator c : Char} (hc : c ≠ separator) (text : String) :
    (∃ piece ∈ splitTrim text separator, c ∈ piece.toList) ↔ c ∈ text.toList := by
  rw [← mem_pieces hc]
  unfold splitTrim
  constructor
  · rintro ⟨_, hpiece, hmem⟩
    obtain ⟨piece, hfilter, rfl⟩ := List.mem_map.1 hpiece
    rw [String.toList_ofList] at hmem
    exact ⟨piece, (List.mem_filter.1 hfilter).1, hmem⟩
  · rintro ⟨piece, hpiece, hmem⟩
    have hne : piece ≠ [] := List.ne_nil_of_mem hmem
    refine ⟨String.ofList piece, List.mem_map_of_mem (List.mem_filter.2 ⟨hpiece, by simpa using hne⟩), ?_⟩
    rwa [String.toList_ofList]

/-- `String.split(text, separator, parts: 2)` -/
def splitOnce (text : String) (separator : Char) : String × Option String :=
  let first := text.toList.takeWhile fun c => c ≠ separator
  match text.toList.drop first.length with
  | [] => (String.ofList first, none)
  | _ :: rest => (String.ofList first, some (String.ofList rest))

/-- `Integer.parse` -/
def integerParse (text : String) : Option (Int × String) :=
  let unsigned (digits : List Char) : Option (Nat × String) :=
    match digits.takeWhile Char.isDigit with
    | [] => none
    | number => some (number.foldl (fun n c => 10 * n + (c.toNat - 48)) 0, String.ofList (digits.drop number.length))
  match text.toList with
  | '-' :: digits => (unsigned digits).map fun (n, rest) => (-n, rest)
  | '+' :: digits => (unsigned digits).map fun (n, rest) => (n, rest)
  | digits => (unsigned digits).map fun (n, rest) => (n, rest)

end ElixirString
