import Mathlib.Algebra.Ring.Nat
import Mathlib.Data.List.Basic
import Mathlib.Data.String.Basic

/-!
# The octets of a text

The UTF-8 encoding of a text as a list.  An octet below 128 is the encoding of the character with that code, and no part
of another one (`mem_octets_ascii`).
-/

namespace Utf8

/-- What is said of all characters of a list is decided along the list, not for all characters there are. -/
instance (priority := high) decidableForallMem {p : Char → Prop} [DecidablePred p] (l : List Char) :
    Decidable (∀ c ∈ l, p c) := List.decidableBAll p l

def octets (text : String) : List UInt8 := text.toList.flatMap String.utf8EncodeChar

@[simp] theorem octets_append (s t : String) : octets (s ++ t) = octets s ++ octets t := by
  unfold octets
  rw [String.toList_append, List.flatMap_append]

@[simp] theorem octets_singleton (c : Char) : octets (String.singleton c) = String.utf8EncodeChar c := by
  unfold octets
  rw [String.toList_singleton, List.flatMap_singleton]

/-- The octets of a longer sequence lie at or above 128. -/
theorem utf8EncodeChar_ascii {c : Char} {b : UInt8} (hb : b ∈ String.utf8EncodeChar c) (hlow : b.toNat < 128) :
    c.toNat = b.toNat := by
  have hv : c.val.toNat = c.toNat := rfl
  have hmod : ∀ n : Nat, (UInt8.ofNat n).toNat = n % 256 := fun n => UInt8.toNat_ofNat'
  unfold String.utf8EncodeChar at hb
  dsimp only at hb
  rw [hv] at hb
  split at hb
  · rw [List.mem_singleton] at hb
    rw [hb, hmod]
    omega
  · exfalso
    split at hb
    · simp only [List.mem_cons, List.not_mem_nil, or_false] at hb
      rcases hb with rfl | rfl <;> rw [hmod] at hlow <;> omega
    · split at hb
      · simp only [List.mem_cons, List.not_mem_nil, or_false] at hb
        rcases hb with rfl | rfl | rfl <;> rw [hmod] at hlow <;> omega
      · simp only [List.mem_cons, List.not_mem_nil, or_false] at hb
        rcases hb with rfl | rfl | rfl | rfl <;> rw [hmod] at hlow <;> omega

theorem utf8EncodeChar_low {c : Char} (hc : c.toNat < 128) : String.utf8EncodeChar c = [UInt8.ofNat c.toNat] := by
  have hv : c.val.toNat = c.toNat := rfl
  unfold String.utf8EncodeChar
  dsimp only
  rw [if_pos (by omega), hv]

/-- The octets of an ASCII text are the codes of its characters. -/
theorem octets_ascii {text : String} (h : ∀ c ∈ text.toList, c.toNat < 128) :
    octets text = text.toList.map fun c => UInt8.ofNat c.toNat := by
  unfold octets
  generalize text.toList = l at h ⊢
  induction l with
  | nil => rfl
  | cons c l ih =>
    obtain ⟨hc, hl⟩ := List.forall_mem_cons.1 h
    rw [List.flatMap_cons, utf8EncodeChar_low hc, ih hl]
    rfl

theorem octets_nonempty {text : String} (h : text ≠ "") : octets text ≠ [] := by
  unfold octets
  cases htext : text.toList with
  | nil => exact absurd (String.toList_eq_nil_iff.1 htext) h
  | cons c l =>
    rw [List.flatMap_cons]
    intro hnil
    exact String.utf8EncodeChar_ne_nil (List.append_eq_nil_iff.1 hnil).1

/-- An ASCII text is the only one with its octets. -/
theorem octets_inj_ascii {s t : String} (h : ∀ c ∈ s.toList, c.toNat < 128) (heq : octets s = octets t) : s = t := by
  have hlow : ∀ c ∈ t.toList, c.toNat < 128 := by
    intro c hc
    obtain ⟨b, hb⟩ := List.exists_mem_of_ne_nil _ (String.utf8EncodeChar_ne_nil (c := c))
    have hmem : b ∈ octets s := by
      rw [heq]
      exact List.mem_flatMap.2 ⟨c, hc, hb⟩
    rw [octets_ascii h] at hmem
    obtain ⟨d, hd, rfl⟩ := List.mem_map.1 hmem
    have hdlow := h d hd
    have hcode : (UInt8.ofNat d.toNat).toNat = d.toNat := by
      rw [UInt8.toNat_ofNat']
      omega
    have := utf8EncodeChar_ascii hb (by omega)
    omega
  rw [octets_ascii h, octets_ascii hlow] at heq
  have hinj : ∀ c ∈ s.toList, ∀ d ∈ t.toList, UInt8.ofNat c.toNat = UInt8.ofNat d.toNat → c = d := by
    intro c hc d hd hcd
    have hnat := congrArg UInt8.toNat hcd
    rw [UInt8.toNat_ofNat', UInt8.toNat_ofNat'] at hnat
    have := h c hc
    have := hlow d hd
    exact Char.toNat_inj.1 (by omega)
  rw [← String.toList_inj]
  generalize s.toList = l at heq hinj
  generalize t.toList = l' at heq hinj
  induction l generalizing l' with
  | nil =>
    rw [List.map_nil, eq_comm, List.map_eq_nil_iff] at heq
    exact heq.symm
  | cons c l ih =>
    cases l' with
    | nil => cases heq
    | cons d l' =>
      rw [List.map_cons, List.map_cons, List.cons.injEq] at heq
      rw [hinj c List.mem_cons_self d List.mem_cons_self heq.1]
      congr 1
      exact ih _ heq.2 fun c hc d hd => hinj c (List.mem_cons_of_mem _ hc) d (List.mem_cons_of_mem _ hd)

theorem mem_octets_ascii {text : String} {b : UInt8} (hb : b ∈ octets text) (hlow : b.toNat < 128) :
    ∃ c ∈ text.toList, c.toNat = b.toNat := by
  obtain ⟨c, hc, hbc⟩ := List.mem_flatMap.1 hb
  exact ⟨c, hc, utf8EncodeChar_ascii hbc hlow⟩

theorem octets_intercalate (separator : String) (l : List String) :
    octets (separator.intercalate l) = (octets separator).intercalate (l.map octets) := by
  induction l with
  | nil => rfl
  | cons s l ih =>
    cases l with
    | nil => simp [List.intercalate]
    | cons t l =>
      rw [String.intercalate_cons_cons, octets_append, octets_append, ih]
      simp [List.intercalate]

/-- The first octet of a text that starts with another character. -/
theorem head?_octets_ne {text : String} {c : Char} (hc : text.toList.head? = some c) {b : UInt8} (hlow : b.toNat < 128)
    (hne : c.toNat ≠ b.toNat) : ∃ a rest, octets text = a :: rest ∧ a ≠ b := by
  obtain ⟨tail, htail⟩ := List.head?_eq_some_iff.1 hc
  have hoctets : octets text = String.utf8EncodeChar c ++ tail.flatMap String.utf8EncodeChar := by
    unfold octets
    rw [htail, List.flatMap_cons]
  cases hchar : String.utf8EncodeChar c with
  | nil => exact absurd hchar String.utf8EncodeChar_ne_nil
  | cons a rest =>
    refine ⟨a, rest ++ tail.flatMap String.utf8EncodeChar, by rw [hoctets, hchar]; rfl, ?_⟩
    rintro rfl
    exact hne (utf8EncodeChar_ascii (by rw [hchar]; exact List.mem_cons_self) hlow)

end Utf8
