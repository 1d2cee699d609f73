import KComms.Lib.Utf8

/-!
# Patterns over the codes of a text

A pattern is matched against the codes of a text: octets, or UTF-16 units.  `rests` gives what a match may leave, so a
pattern that is anchored at both ends matches if it may leave nothing.  A pattern that only reads ASCII codes matches the
same texts in every encoding that leaves ASCII as it is (`isMatch_codes`).
-/

namespace CodePattern

inductive Pattern
  | literal (codes : List Nat)
  | code (accepts : Nat → Bool)
  | seq (first second : Pattern)
  | between (pattern : Pattern) (least most : Nat)
  | plus (pattern : Pattern)

def exactly (rests : List Nat → List (List Nat)) : Nat → List Nat → List (List Nat)
  | 0, l => [l]
  | n + 1, l => (rests l).flatMap (exactly rests n)

def upTo (rests : List Nat → List (List Nat)) : Nat → List Nat → List (List Nat)
  | 0, l => [l]
  | n + 1, l => l :: (rests l).flatMap (upTo rests n)

namespace Pattern

def rests : Pattern → List Nat → List (List Nat)
  | literal codes, l => if codes.isPrefixOf l then [l.drop codes.length] else []
  | code _, [] => []
  | code accepts, a :: l => if accepts a then [l] else []
  | seq first second, l => (first.rests l).flatMap second.rests
  | between pattern least most, l => (exactly pattern.rests least l).flatMap (upTo pattern.rests (most - least))
  | plus pattern, l => (pattern.rests l).flatMap fun rest => upTo pattern.rests rest.length rest

/-- `^pattern$` -/
def isMatch (pattern : Pattern) (l : List Nat) : Bool := (pattern.rests l).any List.isEmpty

/-- A code that the pattern may read. -/
def Reads : Pattern → Nat → Prop
  | literal codes, a => a ∈ codes
  | code accepts, a => accepts a = true
  | seq first second, a => first.Reads a ∨ second.Reads a
  | between pattern _ _, a => pattern.Reads a
  | plus pattern, a => pattern.Reads a

end Pattern

/-! ### What is read -/

section Read

variable {rests : List Nat → List (List Nat)} {P : Nat → Prop}

/-- What lies between a list and its rest. -/
private def Takes (P : Nat → Prop) (l rest : List Nat) : Prop := ∃ w, l = w ++ rest ∧ ∀ a ∈ w, P a

private theorem Takes.refl (P : Nat → Prop) (l : List Nat) : Takes P l l := ⟨[], rfl, fun a ha => by cases ha⟩

private theorem Takes.trans {l l' l'' : List Nat} (h : Takes P l l') (h' : Takes P l' l'') : Takes P l l'' := by
  obtain ⟨w, rfl, hw⟩ := h
  obtain ⟨w', rfl, hw'⟩ := h'
  refine ⟨w ++ w', (List.append_assoc ..).symm, fun a ha => ?_⟩
  exact (List.mem_append.1 ha).elim (hw a) (hw' a)

private theorem takes_exactly (h : ∀ l, ∀ rest ∈ rests l, Takes P l rest) (n : Nat) :
    ∀ l, ∀ rest ∈ exactly rests n l, Takes P l rest := by
  induction n with
  | zero =>
    intro l rest hrest
    rw [exactly, List.mem_singleton] at hrest
    rw [hrest]
    exact Takes.refl P l
  | succ n ih =>
    intro l rest hrest
    rw [exactly, List.mem_flatMap] at hrest
    obtain ⟨mid, hmid, hrest⟩ := hrest
    exact (h l mid hmid).trans (ih mid rest hrest)

private theorem takes_upTo (h : ∀ l, ∀ rest ∈ rests l, Takes P l rest) (n : Nat) :
    ∀ l, ∀ rest ∈ upTo rests n l, Takes P l rest := by
  induction n with
  | zero =>
    intro l rest hrest
    rw [upTo, List.mem_singleton] at hrest
    rw [hrest]
    exact Takes.refl P l
  | succ n ih =>
    intro l rest hrest
    rw [upTo, List.mem_cons, List.mem_flatMap] at hrest
    rcases hrest with rfl | ⟨mid, hmid, hrest⟩
    · exact Takes.refl P _
    · exact (h l mid hmid).trans (ih mid rest hrest)

private theorem Takes.mono {Q : Nat → Prop} (hPQ : ∀ a, P a → Q a) {l rest : List Nat} (h : Takes P l rest) :
    Takes Q l rest := by
  obtain ⟨w, hl, hw⟩ := h
  exact ⟨w, hl, fun a ha => hPQ a (hw a ha)⟩

private theorem takes_rests (pattern : Pattern) : ∀ l, ∀ rest ∈ pattern.rests l, Takes pattern.Reads l rest := by
  induction pattern with
  | literal codes =>
    intro l rest hrest
    rw [Pattern.rests] at hrest
    split at hrest
    · rename_i hstart
      obtain ⟨tail, rfl⟩ := List.isPrefixOf_iff_prefix.1 hstart
      rw [List.mem_singleton, List.drop_left] at hrest
      rw [hrest]
      exact ⟨codes, rfl, fun a ha => ha⟩
    · cases hrest
  | code accepts =>
    intro l rest hrest
    cases l with
    | nil => cases hrest
    | cons a l =>
      rw [Pattern.rests] at hrest
      split at hrest
      · rename_i ha
        rw [List.mem_singleton] at hrest
        rw [hrest]
        exact ⟨[a], rfl, fun b hb => by rw [List.mem_singleton.1 hb]; exact ha⟩
      · cases hrest
  | seq first second ih ih' =>
    intro l rest hrest
    rw [Pattern.rests, List.mem_flatMap] at hrest
    obtain ⟨mid, hmid, hrest⟩ := hrest
    exact ((ih l mid hmid).mono fun _ => Or.inl).trans ((ih' mid rest hrest).mono fun _ => Or.inr)
  | between pattern least most ih =>
    intro l rest hrest
    rw [Pattern.rests, List.mem_flatMap] at hrest
    obtain ⟨mid, hmid, hrest⟩ := hrest
    exact (takes_exactly ih least l mid hmid).trans (takes_upTo ih _ mid rest hrest)
  | plus pattern ih =>
    intro l rest hrest
    rw [Pattern.rests, List.mem_flatMap] at hrest
    obtain ⟨mid, hmid, hrest⟩ := hrest
    exact (ih l mid hmid).trans (takes_upTo ih _ mid rest hrest)

/-- All codes of a match are ones that the pattern reads. -/
theorem reads_of_isMatch {pattern : Pattern} {l : List Nat} (h : pattern.isMatch l = true) :
    ∀ a ∈ l, pattern.Reads a := by
  obtain ⟨rest, hrest, hempty⟩ := List.any_eq_true.1 h
  obtain ⟨w, rfl, hw⟩ := takes_rests pattern l rest hrest
  rw [List.isEmpty_iff.1 hempty, List.append_nil]
  exact hw

end Read

/-! ### A name and a number of codes -/

section Value

variable {accepts : Nat → Bool}

private theorem mem_exactly_code (n : Nat) : ∀ {l rest : List Nat},
    rest ∈ exactly (Pattern.code accepts).rests n l ↔
      ∃ w, l = w ++ rest ∧ w.length = n ∧ ∀ a ∈ w, accepts a = true := by
  induction n with
  | zero =>
    intro l rest
    rw [exactly, List.mem_singleton]
    constructor
    · rintro rfl
      exact ⟨[], rfl, rfl, fun a ha => by cases ha⟩
    · rintro ⟨w, rfl, hlength, -⟩
      rw [List.length_eq_zero_iff.1 hlength, List.nil_append]
  | succ n ih =>
    intro l rest
    rw [exactly, List.mem_flatMap]
    constructor
    · rintro ⟨mid, hmid, hrest⟩
      cases l with
      | nil => cases hmid
      | cons a l =>
        rw [Pattern.rests] at hmid
        split at hmid
        · rename_i ha
          rw [List.mem_singleton.1 hmid] at hrest
          obtain ⟨w, rfl, hlength, hw⟩ := ih.1 hrest
          exact ⟨a :: w, rfl, by rw [List.length_cons, hlength], List.forall_mem_cons.2 ⟨ha, hw⟩⟩
        · cases hmid
    · rintro ⟨w, rfl, hlength, hw⟩
      cases w with
      | nil => cases hlength
      | cons a w =>
        obtain ⟨ha, hw⟩ := List.forall_mem_cons.1 hw
        refine ⟨w ++ rest, ?_, ih.2 ⟨w, rfl, by simpa using hlength, hw⟩⟩
        rw [List.cons_append, Pattern.rests, if_pos ha]
        exact List.mem_singleton_self _

private theorem mem_upTo_code (n : Nat) : ∀ {l rest : List Nat},
    rest ∈ upTo (Pattern.code accepts).rests n l ↔
      ∃ w, l = w ++ rest ∧ w.length ≤ n ∧ ∀ a ∈ w, accepts a = true := by
  induction n with
  | zero =>
    intro l rest
    rw [upTo, List.mem_singleton]
    constructor
    · rintro rfl
      exact ⟨[], rfl, Nat.le_refl _, fun a ha => by cases ha⟩
    · rintro ⟨w, rfl, hlength, -⟩
      rw [List.length_eq_zero_iff.1 (Nat.le_zero.1 hlength), List.nil_append]
  | succ n ih =>
    intro l rest
    rw [upTo, List.mem_cons, List.mem_flatMap]
    constructor
    · rintro (rfl | ⟨mid, hmid, hrest⟩)
      · exact ⟨[], rfl, Nat.zero_le _, fun a ha => by cases ha⟩
      · cases l with
        | nil => cases hmid
        | cons a l =>
          rw [Pattern.rests] at hmid
          split at hmid
          · rename_i ha
            rw [List.mem_singleton.1 hmid] at hrest
            obtain ⟨w, rfl, hlength, hw⟩ := ih.1 hrest
            refine ⟨a :: w, rfl, ?_, List.forall_mem_cons.2 ⟨ha, hw⟩⟩
            rw [List.length_cons]
            omega
          · cases hmid
    · rintro ⟨w, rfl, hlength, hw⟩
      cases w with
      | nil => exact Or.inl rfl
      | cons a w =>
        obtain ⟨ha, hw⟩ := List.forall_mem_cons.1 hw
        rw [List.length_cons] at hlength
        refine Or.inr ⟨w ++ rest, ?_, ih.2 ⟨w, rfl, by omega, hw⟩⟩
        rw [List.cons_append, Pattern.rests, if_pos ha]
        exact List.mem_singleton_self _

/-- `^name[...]{least,most}$` -/
theorem isMatch_value {name l : List Nat} {least most : Nat} (hle : least ≤ most) :
    (Pattern.seq (.literal name) (.between (.code accepts) least most)).isMatch l = true ↔
      ∃ value, l = name ++ value ∧ (least ≤ value.length ∧ value.length ≤ most) ∧ ∀ a ∈ value, accepts a = true := by
  unfold Pattern.isMatch
  rw [List.any_eq_true]
  constructor
  · rintro ⟨rest, hrest, hempty⟩
    rw [List.isEmpty_iff] at hempty
    subst hempty
    rw [Pattern.rests, List.mem_flatMap] at hrest
    obtain ⟨mid, hmid, hrest⟩ := hrest
    rw [Pattern.rests] at hmid
    split at hmid
    · rename_i hstart
      obtain ⟨tail, rfl⟩ := List.isPrefixOf_iff_prefix.1 hstart
      rw [List.mem_singleton, List.drop_left] at hmid
      subst hmid
      rw [Pattern.rests, List.mem_flatMap] at hrest
      obtain ⟨mid, hmid, hrest⟩ := hrest
      obtain ⟨w, rfl, hlength, hw⟩ := (mem_exactly_code least).1 hmid
      obtain ⟨w', rfl, hlength', hw'⟩ := (mem_upTo_code _).1 hrest
      rw [List.append_nil]
      refine ⟨w ++ w', rfl, ?_, fun a ha => (List.mem_append.1 ha).elim (hw a) (hw' a)⟩
      rw [List.length_append]
      omega
    · cases hmid
  · rintro ⟨value, rfl, ⟨hleast, hmost⟩, hvalue⟩
    refine ⟨[], ?_, rfl⟩
    rw [Pattern.rests, List.mem_flatMap]
    refine ⟨value, ?_, ?_⟩
    · rw [Pattern.rests, if_pos (List.isPrefixOf_iff_prefix.2 (List.prefix_append _ _)), List.drop_left]
      exact List.mem_singleton_self _
    · rw [Pattern.rests, List.mem_flatMap]
      refine ⟨value.drop least, (mem_exactly_code least).2 ⟨value.take least, ?_, ?_, fun a ha => ?_⟩,
        (mem_upTo_code _).2 ⟨value.drop least, ?_, ?_, fun a ha => ?_⟩⟩
      · exact (List.take_append_drop least value).symm
      · rw [List.length_take]
        omega
      · exact hvalue a (List.mem_of_mem_take ha)
      · rw [List.append_nil]
      · rw [List.length_drop]
        omega
      · exact hvalue a (List.mem_of_mem_drop ha)

end Value

/-! ### Encodings that leave ASCII as it is -/

structure Transparent (encode : Char → List Nat) : Prop where
  ascii : ∀ c : Char, c.toNat < 128 → encode c = [c.toNat]
  nonempty : ∀ c : Char, encode c ≠ []
  high : ∀ c : Char, 128 ≤ c.toNat → ∀ a ∈ encode c, 128 ≤ a

def codes (encode : Char → List Nat) (text : String) : List Nat := text.toList.flatMap encode

def utf8 (c : Char) : List Nat := (String.utf8EncodeChar c).map UInt8.toNat

def utf16 (c : Char) : List Nat :=
  if 0x10000 ≤ c.toNat then [0xD800 + (c.toNat - 0x10000) / 0x400, 0xDC00 + (c.toNat - 0x10000) % 0x400]
  else [c.toNat]

theorem utf8_transparent : Transparent utf8 where
  ascii := by
    intro c hc
    have hv : c.val.toNat = c.toNat := rfl
    unfold utf8 String.utf8EncodeChar
    dsimp only
    rw [if_pos (by omega), List.map_singleton, hv]
    congr 1
    rw [UInt8.toNat_ofNat']
    omega
  nonempty := fun c => by
    unfold utf8
    rw [ne_eq, List.map_eq_nil_iff]
    exact String.utf8EncodeChar_ne_nil
  high := by
    intro c hc a ha
    obtain ⟨b, hb, rfl⟩ := List.mem_map.1 ha
    by_contra hlow
    have := Utf8.utf8EncodeChar_ascii hb (by omega)
    omega

theorem utf16_transparent : Transparent utf16 where
  ascii := fun c hc => if_neg (by omega)
  nonempty := fun c => by
    unfold utf16
    split <;> exact List.cons_ne_nil _ _
  high := by
    intro c hc a ha
    unfold utf16 at ha
    split at ha
    · simp only [List.mem_cons, List.not_mem_nil, or_false] at ha
      omega
    · rw [List.mem_singleton] at ha
      omega

section Encoding

variable {encode : Char → List Nat}

theorem codes_ascii (he : Transparent encode) {l : List Char} (hl : ∀ c ∈ l, c.toNat < 128) :
    l.flatMap encode = l.map Char.toNat := by
  induction l with
  | nil => rfl
  | cons c l ih =>
    obtain ⟨hc, hl⟩ := List.forall_mem_cons.1 hl
    rw [List.flatMap_cons, he.ascii c hc, ih hl]
    rfl

/-- Low codes stand for ASCII characters. -/
theorem ascii_of_codes (he : Transparent encode) {l : List Char} (hl : ∀ a ∈ l.flatMap encode, a < 128) :
    ∀ c ∈ l, c.toNat < 128 := by
  intro c hc
  by_contra hhigh
  obtain ⟨a, ha⟩ := List.exists_mem_of_ne_nil _ (he.nonempty c)
  have hlow := hl a (List.mem_flatMap.2 ⟨c, hc, ha⟩)
  have := he.high c (by omega) a ha
  omega

theorem isMatch_codes (he : Transparent encode) {pattern : Pattern} (hp : ∀ a, pattern.Reads a → a < 128)
    (text : String) : pattern.isMatch (codes encode text) = pattern.isMatch (text.toList.map Char.toNat) := by
  rw [Bool.eq_iff_iff]
  constructor
  · intro h
    have hlow := ascii_of_codes he fun a ha => hp a (reads_of_isMatch h a ha)
    rwa [codes, codes_ascii he hlow] at h
  · intro h
    have hlow : ∀ c ∈ text.toList, c.toNat < 128 := fun c hc =>
      hp _ (reads_of_isMatch h _ (List.mem_map_of_mem hc))
    rwa [codes, codes_ascii he hlow]

/-- What stands behind an ASCII name stands behind its codes. -/
theorem codes_eq_append (he : Transparent encode) {name : List Char} (hname : ∀ c ∈ name, c.toNat < 128)
    {l : List Char} {w : List Nat} :
    l.flatMap encode = name.map Char.toNat ++ w ↔ ∃ value, l = name ++ value ∧ value.flatMap encode = w := by
  constructor
  · intro h
    induction name generalizing l with
    | nil => exact ⟨l, rfl, h⟩
    | cons n name ih =>
      obtain ⟨hn, hname⟩ := List.forall_mem_cons.1 hname
      cases l with
      | nil => cases h
      | cons c l =>
        rw [List.flatMap_cons, List.map_cons, List.cons_append] at h
        by_cases hc : c.toNat < 128
        · rw [he.ascii c hc, List.singleton_append, List.cons.injEq] at h
          obtain ⟨value, rfl, hvalue⟩ := ih hname h.2
          refine ⟨value, ?_, hvalue⟩
          rw [Char.toNat_inj.1 h.1]
          rfl
        · exfalso
          obtain ⟨a, rest, hcode⟩ := List.exists_cons_of_ne_nil (he.nonempty c)
          rw [hcode, List.cons_append, List.cons.injEq] at h
          have := he.high c (by omega) a (by rw [hcode]; exact List.mem_cons_self)
          omega
  · rintro ⟨value, rfl, rfl⟩
    rw [List.flatMap_append, codes_ascii he hname]

end Encoding

end CodePattern
