import KComms.Documents.DocumentModel
import Mathlib.Data.List.Chain

/-!
# From the positions of the editor to atoms

The editor reports its changes in UTF-16 positions.  On atom boundaries a position splits the visible atoms in one way
only, and `textChanges` names the atom before the range and the atoms in it (`Splits`).
-/

namespace KComms.Documents.Model

open FallibleLoop (bind_ok foldlM_cons_ok)

/-! ### UTF-16 -/

/-- The UTF-16 code units of a text. -/
def utf16 (text : String) : List Nat :=
  text.toList.flatMap fun c =>
    if 0x10000 ≤ c.toNat then [0xD800 + (c.toNat - 0x10000) / 0x400, 0xDC00 + (c.toNat - 0x10000) % 0x400]
    else [c.toNat]

variable {visible before after : List Atom} {position : Nat} {changes : List TextChange} {result : List Change}

theorem utf16_append (a b : String) : utf16 (a ++ b) = utf16 a ++ utf16 b := by
  unfold utf16
  rw [String.toList_append, List.flatMap_append]

theorem length_utf16 (text : String) : (utf16 text).length = utf16Length text := by
  unfold utf16 utf16Length
  rw [List.length_flatMap]
  congr 1
  refine List.map_congr_left fun c _ => ?_
  split <;> rfl

/-- The units from a position on, with every range replaced by its insertion. -/
def replaced : Nat → List Nat → List TextChange → List Nat
  | _, units, [] => units
  | position, units, change :: changes =>
    units.take (change.start - position) ++ utf16 change.insert ++
      replaced change.stop (units.drop (change.stop - position)) changes

/-! ### Positions between atoms -/

/-- The number of code units of some atoms. -/
def width (atoms : List Atom) : Nat := (atoms.map fun atom => utf16Length atom.text).sum

@[simp] theorem width_nil : width [] = 0 := rfl

@[simp] theorem width_append (a b : List Atom) : width (a ++ b) = width a + width b := by
  simp [width]

theorem utf16_text (atoms : List Atom) : (utf16 (String.join (atoms.map Atom.text))).length = width atoms := by
  induction atoms with
  | nil => rfl
  | cons a atoms ih =>
    rw [List.map_cons, String.join_cons, utf16_append, List.length_append, ih, length_utf16]
    simp [width]

/-- Every atom takes some room. -/
def Wide (atoms : List Atom) : Prop := ∀ a ∈ atoms, 0 < utf16Length a.text

theorem wide_of_single {atoms : List Atom} (h : ∀ a ∈ atoms, (codepoints a.text).length = 1) : Wide atoms := by
  intro a ha
  have hlength := h a ha
  unfold codepoints at hlength
  unfold utf16Length
  cases htext : a.text.toList with
  | nil =>
    rw [htext] at hlength
    cases hlength
  | cons c rest =>
    rw [List.map_cons, List.sum_cons]
    split <;> omega

theorem Wide.width_pos {atoms : List Atom} (h : Wide atoms) (hne : atoms ≠ []) : 0 < width atoms := by
  cases atoms with
  | nil => exact absurd rfl hne
  | cons a atoms =>
    have ha := h a List.mem_cons_self
    simp only [width, List.map_cons, List.sum_cons]
    omega

private theorem boundaries_snoc (visible : List Atom) (a : Atom) :
    boundaries (visible ++ [a]) =
      boundaries visible ++ [(boundaries visible).getLast?.getD 0 + utf16Length a.text] := by
  unfold boundaries
  rw [List.foldl_append]
  rfl

/-- The boundaries are the widths of the prefixes. -/
theorem boundaries_eq (visible : List Atom) :
    boundaries visible = (List.range (visible.length + 1)).map fun i => width (visible.take i) := by
  induction visible using List.reverseRecOn with
  | nil => rfl
  | append_singleton visible a ih =>
    have hprefixes : ((List.range (visible.length + 1)).map fun i => width ((visible ++ [a]).take i)) =
        (List.range (visible.length + 1)).map fun i => width (visible.take i) := by
      refine List.map_congr_left fun i hi => ?_
      rw [List.mem_range] at hi
      rw [List.take_append_of_le_length (by omega)]
    have hlast : (boundaries visible).getLast?.getD 0 = width visible := by
      rw [ih, List.range_succ, List.map_append]
      simp
    rw [boundaries_snoc, hlast, ih, List.length_append, List.length_singleton,
      List.range_succ (n := visible.length + 1), List.map_append, hprefixes, List.map_singleton, List.take_of_length_le (by simp), width_append]
    rfl

theorem mem_boundaries : position ∈ boundaries visible ↔
    ∃ before after, visible = before ++ after ∧ width before = position := by
  rw [boundaries_eq, List.mem_map]
  constructor
  · rintro ⟨i, -, rfl⟩
    exact ⟨visible.take i, visible.drop i, (List.take_append_drop i visible).symm, rfl⟩
  · rintro ⟨before, after, rfl, rfl⟩
    refine ⟨before.length, ?_, by simp⟩
    rw [List.mem_range, List.length_append]
    omega

/-- Two prefixes are compared by their widths. -/
theorem append_of_width_le {before' after' : List Atom} (h : Wide (before ++ after))
    (heq : before ++ after = before' ++ after') (hle : width before ≤ width before') :
    ∃ between, before' = before ++ between ∧ after = between ++ after' := by
  rcases List.append_eq_append_iff.1 heq with ⟨between, rfl, rfl⟩ | ⟨between, rfl, rfl⟩
  · exact ⟨between, rfl, rfl⟩
  · cases between with
    | nil => exact ⟨[], by simp, by simp⟩
    | cons a between =>
      have hpos : 0 < width (a :: between) :=
        Wide.width_pos (fun b hb => h b (by simp only [List.mem_append]; exact .inl (.inr hb))) (by simp)
      rw [width_append] at hle
      omega

theorem idxOf_boundaries (h : Wide (before ++ after)) :
    (boundaries (before ++ after)).idxOf? (width before) = some before.length := by
  rw [List.idxOf?_eq_some_iff]
  have hlength : before.length < (boundaries (before ++ after)).length := by
    rw [boundaries_eq, List.length_map, List.length_range, List.length_append]
    omega
  refine ⟨hlength, ?_, fun j hj => ?_⟩
  · simp [boundaries_eq]
  · -- a shorter prefix is narrower
    have hsplit : before = before.take j ++ before.drop j := (List.take_append_drop j before).symm
    have hdrop : before.drop j ≠ [] := by
      rw [ne_eq, List.drop_eq_nil_iff]
      omega
    have hwide : Wide (before.drop j) := fun a ha => h a (List.mem_append_left _ (List.mem_of_mem_drop ha))
    have hpos := hwide.width_pos hdrop
    have hsum : width before = width (before.take j) + width (before.drop j) := by
      rw [← width_append, ← hsplit]
    have hget : (boundaries (before ++ after))[j] = width (before.take j) := by
      simp [boundaries_eq, List.take_append_of_le_length (by omega : j ≤ before.length)]
    rw [hget]
    omega

/-! ### The changes -/

/-- The changes of the editor, from a position on, and the changes of the edit: each range is cut out of the visible
atoms behind the range before it.  Only the first one may begin where these atoms begin. -/
inductive Splits : Bool → Nat → List Atom → List TextChange → List Change → Prop
  | nil {first : Bool} {position : Nat} {visible : List Atom} : Splits first position visible [] []
  | cons {first : Bool} {position : Nat} {before range after : List Atom} {change : TextChange}
      {changes : List TextChange} {result : List Change} (anchored : first = true ∨ before ≠ [])
      (start : change.start = position + width before) (stop : change.stop = change.start + width range)
      (rest : Splits false change.stop after changes result) :
      Splits first position (before ++ range ++ after) (change :: changes)
        (⟨before.getLast?.map Atom.id, range.map Atom.id, change.insert⟩ :: result)

theorem textChange_split {range : List Atom} (h : Wide (before ++ range ++ after)) {change : TextChange}
    (hstart : change.start = width before) (hstop : change.stop = width (before ++ range)) {state : Int × List Change}
    (hprevious : state.1 ≤ change.start) (hnul : '\x00' ∉ change.insert.toList) :
    textChange (before ++ range ++ after) state change =
      .ok (change.stop, state.2 ++ [⟨before.getLast?.map Atom.id, range.map Atom.id, change.insert⟩]) := by
  have hfirst : (boundaries (before ++ range ++ after)).idxOf? change.start = some before.length := by
    rw [hstart, List.append_assoc]
    exact idxOf_boundaries (by rwa [← List.append_assoc])
  have hsecond : (boundaries (before ++ range ++ after)).idxOf? change.stop = some (before ++ range).length := by
    rw [hstop]
    exact idxOf_boundaries h
  unfold textChange
  rw [hfirst, hsecond]
  have hguard : ¬ ((before ++ range).length < before.length ∨ (change.start : Int) < state.1 ∨
      '\x00' ∈ change.insert.toList) := by
    rw [List.length_append]
    rintro (hlt | hlt | hmem)
    · omega
    · omega
    · exact hnul hmem
  simp only [if_neg hguard]
  have hanchor : (if before.length = 0 then none
      else (before ++ range ++ after)[before.length - 1]?.map Atom.id) = before.getLast?.map Atom.id := by
    cases hbefore : before.length with
    | zero =>
      rw [List.length_eq_zero_iff.1 hbefore]
      rfl
    | succ n =>
      rw [if_neg (by omega), List.append_assoc, List.getElem?_append_left (by omega), List.getLast?_eq_getElem?,
        hbefore]
  have hrange : ((before ++ range ++ after).drop before.length).take ((before ++ range).length - before.length) =
      range := by
    rw [List.append_assoc, List.drop_left, List.length_append, Nat.add_sub_cancel_left, List.take_left]
  rw [hanchor, hrange]

/-- The number of atoms between the ends of a change. -/
def covered (visible : List Atom) (change : TextChange) : Nat :=
  ((boundaries visible).idxOf? change.stop).getD 0 - ((boundaries visible).idxOf? change.start).getD 0

theorem covered_split {range : List Atom} (h : Wide (before ++ range ++ after)) {change : TextChange}
    (hstart : change.start = width before) (hstop : change.stop = width (before ++ range)) :
    covered (before ++ range ++ after) change = range.length := by
  have hfirst : (boundaries (before ++ range ++ after)).idxOf? change.start = some before.length := by
    rw [hstart, List.append_assoc]
    exact idxOf_boundaries (by rwa [← List.append_assoc])
  have hsecond : (boundaries (before ++ range ++ after)).idxOf? change.stop = some (before ++ range).length := by
    rw [hstop]
    exact idxOf_boundaries h
  unfold covered
  rw [hfirst, hsecond, List.length_append]
  simp

/-- What the editor reports: ranges between atoms, each behind the one before it and not touching it. -/
structure Reported (visible : List Atom) (changes : List TextChange) : Prop where
  starts : ∀ change ∈ changes, change.start ∈ boundaries visible
  stops : ∀ change ∈ changes, change.stop ∈ boundaries visible
  ranges : ∀ change ∈ changes, change.start ≤ change.stop
  apart : changes.IsChain fun a b => a.stop < b.start

theorem foldlM_textChange : ∀ {first : Bool} {done visible : List Atom}
    {state : Int × List Change}, Wide (done ++ visible) → Reported (done ++ visible) changes →
    (∀ change ∈ changes, '\x00' ∉ change.insert.toList) → (first = true → done = []) →
    (first = false → ∀ change ∈ changes.head?, width done < change.start) → state.1 ≤ width done →
    ∃ last result, changes.foldlM (textChange (done ++ visible)) state = .ok (last, state.2 ++ result) ∧
      Splits first (width done) visible changes result ∧
      (result.map fun change => change.deleteIds.length) = changes.map (covered (done ++ visible)) := by
  induction changes with
  | nil =>
    intro first done visible state _ _ _ _ _ _
    exact ⟨state.1, [], by simp; rfl, .nil, rfl⟩
  | cons change changes ih =>
    intro first done visible state hwide hreported hnul hfirst hnext hstate
    obtain ⟨hstarts, hstops, hranges, hapart⟩ := hreported
    have hle : width done ≤ change.start := by
      cases first with
      | true => simp [hfirst rfl]
      | false => exact (hnext rfl change rfl).le
    -- the range begins and ends behind what is done
    obtain ⟨before', after', heq, hbefore'⟩ := mem_boundaries.1 (hstarts change List.mem_cons_self)
    obtain ⟨before, rfl, rfl⟩ := append_of_width_le hwide heq (by rw [hbefore']; exact hle)
    obtain ⟨through, rest, heq', hthrough⟩ := mem_boundaries.1 (hstops change List.mem_cons_self)
    have hrange := hranges change List.mem_cons_self
    have hwide' : Wide ((done ++ before) ++ after') := by rwa [List.append_assoc]
    obtain ⟨range, rfl, rfl⟩ := append_of_width_le hwide' ((List.append_assoc _ _ _).trans heq')
      (by rw [hbefore', hthrough]; exact hrange)
    have hlist : done ++ (before ++ (range ++ rest)) = (done ++ before) ++ range ++ rest := by simp
    have hstep := textChange_split (by rwa [← hlist]) hbefore'.symm hthrough.symm
      (by omega : state.1 ≤ change.start) (hnul change List.mem_cons_self)
    have hlist' : done ++ (before ++ (range ++ rest)) = (done ++ before ++ range) ++ rest := by simp
    rw [List.isChain_cons] at hapart
    have hreported' : Reported ((done ++ before ++ range) ++ rest) changes := by
      rw [← hlist']
      exact ⟨fun c hc => hstarts c (List.mem_cons_of_mem _ hc), fun c hc => hstops c (List.mem_cons_of_mem _ hc),
        fun c hc => hranges c (List.mem_cons_of_mem _ hc), hapart.2⟩
    have hlater : width (done ++ before ++ range) = change.stop := hthrough
    obtain ⟨last, result, hrest, hsplits, hcovered⟩ := @ih false (done ++ before ++ range) rest
      (change.stop, state.2 ++ [⟨(done ++ before).getLast?.map Atom.id, range.map Atom.id, change.insert⟩])
      (by rwa [← hlist']) hreported' (fun c hc => hnul c (List.mem_cons_of_mem _ hc)) (by simp)
      (fun _ c hc => by rw [hlater]; exact hapart.1 c hc) (by rw [hlater])
    -- only the first change may be anchored before all that is left
    have hanchored : first = true ∨ before ≠ [] := by
      cases first with
      | true => exact .inl rfl
      | false =>
        refine .inr fun hempty => ?_
        have hlt := hnext rfl change rfl
        rw [hempty, List.append_nil] at hbefore'
        omega
    have hlast : (done ++ before).getLast? = before.getLast? := by
      rcases hanchored with hone | hne
      · rw [hfirst hone, List.nil_append]
      · rw [List.getLast?_append_of_ne_nil _ hne]
    rw [hlast] at hstep hrest
    refine ⟨last, ⟨before.getLast?.map Atom.id, range.map Atom.id, change.insert⟩ :: result, ?_, ?_, ?_⟩
    · rw [hlist]
      refine foldlM_cons_ok.2 ⟨_, hstep, ?_⟩
      rw [← hlist, hlist', hrest, List.append_assoc]
      rfl
    · rw [← List.append_assoc before range rest]
      have hrangeWidth : width (done ++ before) + width range = change.stop := by
        rw [← width_append]
        exact hlater
      rw [hlater] at hsplits
      exact .cons hanchored (by rw [← hbefore', width_append]) (by omega) hsplits
    · have hcount := covered_split (by rwa [← hlist]) hbefore'.symm hthrough.symm
      rw [← hlist] at hcount
      rw [← hlist'] at hcovered
      rw [List.map_cons, List.map_cons, hcovered, hcount, List.length_map]

theorem Splits.inserts {first : Bool} (h : Splits first position visible changes result) :
    result.map Change.insert = changes.map TextChange.insert := by
  induction h with
  | nil => rfl
  | cons _ _ _ _ ih => rw [List.map_cons, List.map_cons, ih]

/-- The atoms that a change names are visible ones. -/
theorem Splits.references {first : Bool} (h : Splits first position visible changes result) : ∀ change ∈ result,
    (∀ q, change.afterId = some q → q ∈ visible.map Atom.id) ∧ ∀ id ∈ change.deleteIds, id ∈ visible.map Atom.id := by
  induction h with
  | nil => intro change hc; cases hc
  | @cons _ _ before range after _ _ _ _ _ _ _ ih =>
    have hafter : ∀ id ∈ after.map Atom.id, id ∈ (before ++ range ++ after).map Atom.id := by
      intro id hid
      rw [List.map_append]
      exact List.mem_append_right _ hid
    intro change hc
    rcases List.mem_cons.1 hc with rfl | hc
    · constructor
      · intro q hq
        obtain ⟨a, ha, rfl⟩ := Option.map_eq_some_iff.1 hq
        have hmem := List.mem_of_getLast? ha
        exact List.mem_map_of_mem (List.mem_append_left _ (List.mem_append_left _ hmem))
      · intro id hid
        rw [List.map_append, List.map_append]
        exact List.mem_append_left _ (List.mem_append_right _ hid)
    · obtain ⟨hanchor, hdelete⟩ := ih change hc
      exact ⟨fun q hq => hafter q (hanchor q hq), fun id hid => hafter id (hdelete id hid)⟩

/-- Behind the first change every change has an anchor. -/
theorem Splits.anchors
    (h : Splits false position visible changes result) : ∀ change ∈ result, change.afterId ≠ none := by
  generalize hfirst : false = first at h
  induction h with
  | nil => intro change hc; cases hc
  | cons anchored _ _ _ ih =>
    intro change hc
    rcases List.mem_cons.1 hc with rfl | hc
    · intro hnone
      rcases anchored with hone | hne
      · rw [← hfirst] at hone
        cases hone
      · exact hne (List.getLast?_eq_none_iff.1 (Option.map_eq_none_iff.1 hnone))
    · exact ih rfl change hc

end KComms.Documents.Model
