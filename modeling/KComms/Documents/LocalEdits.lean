import KComms.Documents.Agreement
import KComms.Documents.Convergence
import KComms.Documents.Stability
import KComms.Documents.TextChanges
import KComms.Documents.Lineage

/-!
# Local edits mean what the editor showed

The chains of a local edit have keys above all older ones, so in the linearisation each stands right behind its anchor
(`spread`, `orderAtoms_spread`), also where tombstones stand there already.  The text of the result is therefore the old
text with every range replaced by its insertion (`utf16_spread`).
-/

namespace KComms.Documents.Model

open FallibleLoop (bind_ok)
open ForestWalk (insertAfter)

/-- The chains of an edit, one after the other, each behind its anchor. -/
def spread (operationId : String) (version : Nat) : List Change → Nat → List Atom → List Atom
  | [], _, out => out
  | change :: changes, offset, out =>
    spread operationId version changes (offset + (codepoints change.insert).length)
      (insertAfter Atom.id change.afterId
        (Rga.chain operationId version (codepoints change.insert) change.afterId offset) out)

variable {operationId : String} {version : Nat}

/-- The ids of an operation are not in use. -/
def Unused (operationId : String) (ids : List String) : Prop := ∀ i, Rga.atomId operationId i ∉ ids

/-! ### Chains in the walk -/

/-- The atoms before an offset of the operation. -/
structure Earlier (operationId : String) (version offset : Nat) (atoms : List Atom) : Prop where
  ids : ∀ a ∈ atoms, ∀ i, offset ≤ i → a.id ≠ Rga.atomId operationId i
  parents : ∀ a ∈ atoms, ∀ i, offset ≤ i → a.afterId ≠ some (Rga.atomId operationId i)
  keys : ∀ a ∈ atoms, a.order < version * maxAtoms + offset

variable {atoms out : List Atom} {lc : Collation} {ids : List String} {changes : List Change}

theorem Earlier.chain {offset : Nat} {texts : List String} {anchor : Option String}
    (h : Earlier operationId version offset atoms) (hanchor : ∀ i, anchor ≠ some (Rga.atomId operationId i)) :
    Earlier operationId version (offset + texts.length)
      (atoms ++ Rga.chain operationId version texts anchor offset) := by
  refine ⟨fun a ha i hi => ?_, fun a ha i hi => ?_, fun a ha => ?_⟩
  · rcases List.mem_append.1 ha with ha | ha
    · exact h.ids a ha i (by omega)
    · obtain ⟨j, -, hj, hid, -⟩ := Rga.mem_chain ha
      rw [hid]
      intro heq
      have := (Rga.atomId_inj.1 heq).2
      omega
  · rcases List.mem_append.1 ha with ha | ha
    · exact h.parents a ha i (by omega)
    · intro hparent
      rcases Rga.chain_parents ha hparent with hsame | ⟨b, hb, hid, -⟩
      · exact hanchor i hsame
      · obtain ⟨j, -, hj, hbid, -⟩ := Rga.mem_chain hb
        have := (Rga.atomId_inj.1 (hbid.symm.trans hid)).2
        omega
  · rcases List.mem_append.1 ha with ha | ha
    · have := h.keys a ha
      omega
    · obtain ⟨j, -, hj, -, horder, -⟩ := Rga.mem_chain ha
      have hsame : maxAtoms = Rga.maximumAtoms := rfl
      rw [hsame]
      omega

theorem Earlier.fresh {offset : Nat} {texts : List String} {anchor : Option String}
    (h : Earlier operationId version offset atoms) (hanchor : ∀ i, anchor ≠ some (Rga.atomId operationId i)) :
    ForestWalk.Fresh Atom.id Atom.afterId atoms anchor (Rga.chain operationId version texts anchor offset) := by
  refine ⟨Rga.linked_chain _ _ _ _ _, ?_, fun a ha c hc => ?_⟩
  · rw [List.nodup_cons]
    constructor
    · intro hmem
      obtain ⟨c, hc, heq⟩ := List.mem_map.1 hmem
      obtain ⟨i, -, -, hid, -⟩ := Rga.mem_chain hc
      exact hanchor i (by rw [← heq, hid])
    · have hmap : (Rga.chain operationId version texts anchor offset).map (fun c => some c.id) =
          ((Rga.chain operationId version texts anchor offset).map Atom.id).map some := by
        rw [List.map_map]
        rfl
      rw [hmap]
      refine List.Nodup.map (Option.some_injective _) ?_
      rw [Rga.chain_ids]
      exact (List.nodup_range' ).map fun i j hij => (Rga.atomId_inj.1 hij).2
  · obtain ⟨i, hi, -, hid, -⟩ := Rga.mem_chain hc
    rw [hid]
    exact ⟨h.ids a ha i hi, h.parents a ha i hi⟩

/-- An atom with a larger key is sorted before. -/
theorem not_keeps_of_lt {a c : Atom} (h : a.order < c.order) : ¬ keeps lc a c := by
  unfold keeps compareAtoms
  rw [if_neg (by omega)]
  omega

theorem walk_spread : ∀ {atoms out : List Atom} {offset n : Nat},
    Earlier operationId version offset atoms →
    (∀ change ∈ changes, ∀ i, change.afterId ≠ some (Rga.atomId operationId i)) →
    ForestWalk.walk Atom.id (siblings lc atoms) n (siblings lc atoms none) = some out →
    ∃ m, ForestWalk.walk Atom.id (siblings lc (atoms ++ Rga.insertedAtoms operationId version changes offset)) m
      (siblings lc (atoms ++ Rga.insertedAtoms operationId version changes offset) none) =
        some (spread operationId version changes offset out) := by
  induction changes with
  | nil =>
    intro atoms out offset n _ _ hwalk
    rw [Rga.insertedAtoms, List.append_nil]
    exact ⟨n, hwalk⟩
  | cons change changes ih =>
    intro atoms out offset n hearlier hanchors hwalk
    have hanchor := hanchors change List.mem_cons_self
    have hfirst : ∀ a ∈ atoms, a.afterId = change.afterId →
        ∀ c ∈ (Rga.chain operationId version (codepoints change.insert) change.afterId offset).head?,
          ¬ keeps lc a c := by
      intro a ha _ c hc
      obtain ⟨i, hi, -, -, horder, -⟩ := Rga.mem_chain (List.mem_of_mem_head? hc)
      have hkey := hearlier.keys a ha
      have hsame : maxAtoms = Rga.maximumAtoms := rfl
      rw [hsame] at hkey
      exact not_keeps_of_lt (by omega)
    obtain ⟨m, hm⟩ := ForestWalk.walk_insertAfter (hearlier.fresh hanchor) hfirst hwalk
    have hnext := ih (hearlier.chain hanchor) (fun c hc => hanchors c (List.mem_cons_of_mem _ hc)) hm
    rw [Rga.insertedAtoms, ← List.append_assoc]
    exact hnext

theorem spread_perm : ∀ {out : List Atom} {offset : Nat},
    ((out ++ Rga.insertedAtoms operationId version changes offset).map Atom.id).Nodup →
    (∀ change ∈ changes, ∀ q, change.afterId = some q → q ∈ out.map Atom.id) →
    (spread operationId version changes offset out).Perm
      (out ++ Rga.insertedAtoms operationId version changes offset) := by
  induction changes with
  | nil =>
    intro out offset _ _
    rw [Rga.insertedAtoms, List.append_nil, spread]
  | cons change changes ih =>
    intro out offset hnd hanchors
    rw [Rga.insertedAtoms, ← List.append_assoc] at hnd ⊢
    have hout : (out.map Atom.id).Nodup := by
      rw [List.append_assoc, List.map_append] at hnd
      exact (List.nodup_append.1 hnd).1
    obtain ⟨before, after, hsplit, hinsert, -⟩ := @ForestWalk.insertAfter_split _ _ Atom.id _ _ change.afterId
      (Rga.chain operationId version (codepoints change.insert) change.afterId offset) hout
      (hanchors change List.mem_cons_self)
    have hperm :
        (before ++ Rga.chain operationId version (codepoints change.insert) change.afterId offset ++ after).Perm
          (out ++ Rga.chain operationId version (codepoints change.insert) change.afterId offset) := by
      rw [hsplit, List.append_assoc, List.append_assoc]
      exact List.perm_append_comm.append_left before
    have hnd' := ((hperm.append_right _).map Atom.id).nodup_iff.2 hnd
    rw [spread, hinsert]
    refine (ih hnd' fun c hc q hq => ?_).trans (hperm.append_right _)
    have hmem := hanchors c (List.mem_cons_of_mem _ hc) q hq
    rw [hsplit, List.map_append, List.mem_append] at hmem
    rw [List.map_append, List.map_append, List.mem_append, List.mem_append]
    tauto

/-! ### The text of the result -/

/-- The units of the visible text. -/
def shown (atoms : List Atom) : List Nat := utf16 (Rga.text atoms)

theorem shown_append (a b : List Atom) : shown (a ++ b) = shown a ++ shown b := by
  unfold shown Rga.text Rga.visible
  rw [List.filter_append, List.map_append, String.join_append, utf16_append]

theorem shown_chain (insert : String) (anchor : Option String) (offset : Nat) :
    shown (Rga.chain operationId version (codepoints insert) anchor offset) = utf16 insert := by
  have hvisible : Rga.visible (Rga.chain operationId version (codepoints insert) anchor offset) =
      Rga.chain operationId version (codepoints insert) anchor offset := by
    refine List.filter_eq_self.2 fun a ha => ?_
    obtain ⟨_, -, -, -, -, hdeleted, -⟩ := Rga.mem_chain ha
    simp [hdeleted]
  unfold shown Rga.text
  rw [hvisible, Rga.chain_texts, join_codepoints]

theorem length_shown (atoms : List Atom) : (shown atoms).length = width (Rga.visible atoms) := utf16_text _

/-- Atoms that no id of the list names are shown as they are. -/
theorem map_mark_kept (h : ∀ a ∈ atoms, a.id ∉ ids) :
    atoms.map (Rga.mark ids) = atoms := by
  refine (List.map_congr_left fun a ha => ?_).trans (List.map_id _)
  simp [Rga.mark, h a ha]

theorem visible_map_mark_gone (h : ∀ a ∈ Rga.visible atoms, a.id ∈ ids) :
    Rga.visible (atoms.map (Rga.mark ids)) = [] := by
  refine List.filter_eq_nil_iff.2 fun b hb => ?_
  obtain ⟨a, ha, rfl⟩ := List.mem_map.1 hb
  by_cases hdeleted : a.deleted = true
  · simp [Rga.mark, hdeleted]
  · have := h a (List.mem_filter.2 ⟨ha, by simpa using hdeleted⟩)
    simp [Rga.mark, this]

theorem visible_map_mark_kept (h : ∀ a ∈ Rga.visible atoms, a.id ∉ ids) :
    Rga.visible (atoms.map (Rga.mark ids)) = Rga.visible atoms := by
  have hvisible : ∀ a ∈ atoms, (!(Rga.mark ids a).deleted) = !a.deleted := by
    intro a ha
    by_cases hdeleted : a.deleted = true
    · simp [Rga.mark, hdeleted]
    · have hkept := h a (List.mem_filter.2 ⟨ha, by simpa using hdeleted⟩)
      simp [Rga.mark, hkept]
  unfold Rga.visible
  have hfilter : atoms.filter ((fun atom => !atom.deleted) ∘ Rga.mark ids) = atoms.filter fun atom => !atom.deleted :=
    List.filter_congr hvisible
  rw [List.filter_map, hfilter]
  exact map_mark_kept fun a ha => h a ha

/-- The atoms up to and including the last of `before`, those through `range`, and the rest. -/
theorem visible_split {before range after : List Atom} (h : Rga.visible atoms = before ++ range ++ after) :
    ∃ first second third, atoms = first ++ second ++ third ∧ Rga.visible first = before ∧ Rga.visible second = range ∧
      Rga.visible third = after ∧ first.getLast?.map Atom.id = before.getLast?.map Atom.id := by
  obtain ⟨upto, third, rfl, hupto, hthird⟩ := List.filter_eq_append_iff.1 h
  obtain ⟨front, second, rfl, hfront, hsecond⟩ := List.filter_eq_append_iff.1 hupto
  cases hlast : before.getLast? with
  | none =>
    obtain rfl := List.getLast?_eq_none_iff.1 hlast
    refine ⟨[], front ++ second, third, by simp, rfl, ?_, hthird, rfl⟩
    unfold Rga.visible
    rw [List.filter_append, hfront, hsecond, List.nil_append]
  | some x =>
    obtain ⟨start, rfl⟩ := List.getLast?_eq_some_iff.1 hlast
    -- the tombstones behind the last visible atom stay behind the anchor
    obtain ⟨left, right, rfl, hleft, hright⟩ := List.filter_eq_append_iff.1 hfront
    obtain ⟨dead, tail, rfl, hdead, hx, htail⟩ := List.filter_eq_cons_iff.1 hright
    have hnone : dead.filter (fun atom => !atom.deleted) = [] := List.filter_eq_nil_iff.2 hdead
    refine ⟨left ++ dead ++ [x], tail ++ second, third, by simp, ?_, ?_, hthird, by simp⟩
    · have hself : [x].filter (fun atom => !atom.deleted) = [x] := List.filter_cons_of_pos hx
      unfold Rga.visible
      rw [List.filter_append, List.filter_append, hleft, hnone, hself, List.append_nil]
    · unfold Rga.visible
      rw [List.filter_append, htail, hsecond, List.nil_append]

theorem insertAfter_getLast {first rest chain : List Atom} (hnd : ((first ++ rest).map Atom.id).Nodup) :
    insertAfter Atom.id (first.getLast?.map Atom.id) chain (first ++ rest) = first ++ chain ++ rest := by
  cases hlast : first.getLast? with
  | none =>
    obtain rfl := List.getLast?_eq_none_iff.1 hlast
    exact ForestWalk.insertAfter_none _ _
  | some x =>
    obtain ⟨start, rfl⟩ := List.getLast?_eq_some_iff.1 hlast
    rw [List.append_assoc, List.map_append, List.singleton_append, List.map_cons, List.nodup_append,
      List.nodup_cons] at hnd
    obtain ⟨-, ⟨hrest, -⟩, hstart⟩ := hnd
    rw [Option.map_some, List.append_assoc, List.singleton_append,
      ForestWalk.insertAfter_append fun b hb => hstart _ (List.mem_map_of_mem hb) _ List.mem_cons_self,
      ForestWalk.insertAfter_cons fun b hb hbx => hrest (List.mem_map.2 ⟨b, hb, hbx⟩)]
    simp

/-- Atoms before all anchors stay where they are. -/
theorem spread_append : ∀ {front out : List Atom} {offset : Nat},
    (∀ change ∈ changes, ∃ q, change.afterId = some q ∧ ∀ a ∈ front, a.id ≠ q) →
    spread operationId version changes offset (front ++ out) =
      front ++ spread operationId version changes offset out := by
  induction changes with
  | nil => intro front out offset _; rfl
  | cons change changes ih =>
    intro front out offset h
    obtain ⟨q, hq, hfront⟩ := h change List.mem_cons_self
    rw [spread, spread, hq, ForestWalk.insertAfter_append hfront]
    exact ih fun c hc => h c (List.mem_cons_of_mem _ hc)

theorem utf16_spread {first : Bool} {position : Nat} {visible : List Atom} {changes : List TextChange}
    {result : List Change} (h : Splits first position visible changes result)
    (hids : ∀ i, Rga.atomId operationId i ∉ ids) : ∀ {atoms : List Atom} {offset : Nat},
    Rga.visible atoms = visible → (atoms.map Atom.id).Nodup → Unused operationId (atoms.map Atom.id) →
    (∀ a ∈ atoms, a.id ∈ ids ↔ a.id ∈ Rga.deletedIds result) →
    shown ((spread operationId version result offset atoms).map (Rga.mark ids)) =
      replaced position (shown atoms) changes := by
  induction h with
  | nil =>
    intro atoms offset _ _ _ hdeleted
    rw [spread, replaced, map_mark_kept fun a ha hmem => by simpa [Rga.deletedIds] using (hdeleted a ha).1 hmem]
  | @cons _ position before range after change changes result _ hstart hstop hrest ih =>
    intro atoms offset hvisible hnd hunused hdeleted
    obtain ⟨one, two, three, rfl, hone, htwo, hthree, hlast⟩ := visible_split hvisible
    have hnd' := hnd
    rw [List.map_append, List.map_append, List.nodup_append, List.nodup_append] at hnd'
    obtain ⟨⟨-, -, honetwo⟩, hndthree, hbefore⟩ := hnd'
    have hmem_three : ∀ id ∈ after.map Atom.id, id ∈ three.map Atom.id := by
      intro id hid
      rw [← hthree] at hid
      obtain ⟨a, ha, rfl⟩ := List.mem_map.1 hid
      exact List.mem_map_of_mem (List.mem_filter.1 ha).1
    have hids_iff : ∀ id, id ∈ Rga.deletedIds
        (⟨before.getLast?.map Atom.id, range.map Atom.id, change.insert⟩ :: result) ↔
          id ∈ range.map Atom.id ∨ id ∈ Rga.deletedIds result := by
      intro id
      rw [Rga.deletedIds, List.flatMap_cons, List.mem_append]
      rfl
    have hrest_three : ∀ id ∈ Rga.deletedIds result, id ∈ three.map Atom.id := by
      intro id hid
      obtain ⟨c, hc, hid⟩ := List.mem_flatMap.1 hid
      exact hmem_three id ((hrest.references c hc).2 id hid)
    -- what stands before the range stays, the range goes, and the rest is up to the later changes
    have hkept : ∀ a ∈ Rga.visible one, a.id ∉ ids := by
      intro a ha hmem
      have ha := List.mem_map_of_mem (f := Atom.id) (List.mem_filter.1 ha).1
      obtain ⟨b, hb, hba⟩ := List.mem_map.1 ha
      rw [← hba] at hmem
      rcases (hids_iff _).1 ((hdeleted b (by simp [hb])).1 hmem) with hrange | hlater
      · rw [← htwo] at hrange
        obtain ⟨c, hc, hcb⟩ := List.mem_map.1 hrange
        exact honetwo _ (List.mem_map_of_mem hb) _ (List.mem_map_of_mem (List.mem_filter.1 hc).1) hcb.symm
      · exact hbefore _ (List.mem_append_left _ (List.mem_map_of_mem hb)) _ (hrest_three _ hlater) rfl
    have hgone : ∀ a ∈ Rga.visible two, a.id ∈ ids := by
      intro a ha
      have htwo' := (List.mem_filter.1 ha).1
      rw [htwo] at ha
      exact (hdeleted a (by simp [htwo'])).2 ((hids_iff _).2 (.inl (List.mem_map_of_mem ha)))
    have hlater : ∀ a ∈ three, a.id ∈ ids ↔ a.id ∈ Rga.deletedIds result := by
      intro a ha
      rw [hdeleted a (by simp [ha]), hids_iff]
      constructor
      · rintro (hrange | hlater)
        · rw [← htwo] at hrange
          obtain ⟨c, hc, hca⟩ := List.mem_map.1 hrange
          exact absurd hca (hbefore _ (List.mem_append_right _ (List.mem_map_of_mem (List.mem_filter.1 hc).1)) _
            (List.mem_map_of_mem ha))
        · exact hlater
      · exact .inr
    have hunusedThree : Unused operationId (three.map Atom.id) := fun i hmem =>
      hunused i (by rw [List.map_append]; exact List.mem_append_right _ hmem)
    have hsame : ∀ chain : List Atom, insertAfter Atom.id (before.getLast?.map Atom.id) chain (one ++ two ++ three) =
        (one ++ chain ++ two) ++ three := by
      intro chain
      rw [← hlast, List.append_assoc, insertAfter_getLast (by rwa [← List.append_assoc])]
      simp
    generalize hchain : Rga.chain operationId version (codepoints change.insert) (before.getLast?.map Atom.id) offset =
      chain
    have hchainIds : ∀ a ∈ chain, ∃ i, a.id = Rga.atomId operationId i := by
      intro a ha
      rw [← hchain] at ha
      obtain ⟨i, -, -, hid, -⟩ := Rga.mem_chain ha
      exact ⟨i, hid⟩
    have hfront : ∀ c ∈ result, ∃ q, c.afterId = some q ∧ ∀ a ∈ one ++ chain ++ two, a.id ≠ q := by
      intro c hc
      cases hq : c.afterId with
      | none => exact absurd hq (hrest.anchors c hc)
      | some q =>
        have hmem := hmem_three q ((hrest.references c hc).1 q hq)
        refine ⟨q, rfl, fun a ha => ?_⟩
        rcases List.mem_append.1 ha with ha | ha
        · rcases List.mem_append.1 ha with ha | ha
          · exact hbefore _ (List.mem_append_left _ (List.mem_map_of_mem ha)) _ hmem
          · obtain ⟨i, hi⟩ := hchainIds a ha
            rw [hi]
            rintro rfl
            exact hunusedThree i hmem
        · exact hbefore _ (List.mem_append_right _ (List.mem_map_of_mem ha)) _ hmem
    have hchainKept : chain.map (Rga.mark ids) = chain := by
      refine map_mark_kept fun a ha => ?_
      obtain ⟨i, hi⟩ := hchainIds a ha
      rw [hi]
      exact hids i
    have hchainText : shown chain = utf16 change.insert := by
      rw [← hchain]
      exact shown_chain _ _ _
    have hthreeText : shown ((spread operationId version result (offset + (codepoints change.insert).length) three).map
        (Rga.mark ids)) = replaced change.stop (shown three) changes := ih hthree hndthree hunusedThree hlater
    rw [spread, hchain, hsame, spread_append hfront, List.map_append, List.map_append, List.map_append, shown_append,
      shown_append, shown_append, hthreeText, hchainKept, hchainText]
    have honeText : shown (one.map (Rga.mark ids)) = shown one := by
      unfold shown Rga.text
      rw [visible_map_mark_kept hkept]
    have htwoText : shown (two.map (Rga.mark ids)) = [] := by
      unfold shown Rga.text
      rw [visible_map_mark_gone hgone]
      rfl
    rw [honeText, htwoText, List.append_nil, replaced, shown_append, shown_append]
    have hlenOne : (shown one).length = change.start - position := by
      rw [length_shown, hone]
      omega
    have hlenTwo : (shown one ++ shown two).length = change.stop - position := by
      rw [List.length_append, length_shown, length_shown, hone, htwo]
      omega
    rw [← hlenOne, ← hlenTwo, List.drop_left, List.append_assoc (shown one) (shown two), List.take_left]

/-! ### The whole edit -/

/-- What is put in order is in order. -/
theorem orderAtoms_ordered (h : orderAtoms lc atoms = .ok out) :
    orderAtoms lc out = .ok out := by
  obtain ⟨hsound, hwalk, hlength, hmax⟩ := orderAtoms_ok.1 h
  have hperm := orderAtoms_perm h
  have hchildren : siblings lc out = siblings lc atoms :=
    funext fun p => ForestWalk.children_walk hsound.ids hperm hwalk p
  refine orderAtoms_ok.2 ⟨⟨?_, fun a ha => hsound.safe a (hperm.mem_iff.1 ha),
    fun a ha => hsound.single a (hperm.mem_iff.1 ha), fun a ha p hp => ?_⟩, ?_, rfl, hlength ▸ hmax⟩
  · exact (hperm.map Atom.id).nodup_iff.2 hsound.ids
  · exact (hperm.map Atom.id).mem_iff.2 (hsound.parents a (hperm.mem_iff.1 ha) p hp)
  · rw [hchildren, hlength]
    exact hwalk

theorem atomText_ordered (h : orderAtoms lc atoms = .ok out) :
    atomText lc out = .ok (Rga.text out) := by
  unfold atomText visibleAtoms
  rw [orderAtoms_ordered h]
  rfl

/-- Deletions move nothing. -/
theorem orderAtoms_map_mark (ids : List String)
    (h : orderAtoms lc atoms = .ok out) : orderAtoms lc (atoms.map (Rga.mark ids)) = .ok (out.map (Rga.mark ids)) := by
  obtain ⟨hsound, hwalk, hlength, hmax⟩ := orderAtoms_ok.1 h
  have hids := Rga.map_mark_id ids atoms
  have hchildren : ∀ p, siblings lc (atoms.map (Rga.mark ids)) p = (siblings lc atoms p).map (Rga.mark ids) :=
    ForestWalk.children_map (fun _ _ => rfl) fun _ _ _ _ => Iff.rfl
  have hmapped := ForestWalk.walk_map (Rga.mark_id ids) hchildren atoms.length (siblings lc atoms none)
  rw [hwalk] at hmapped
  refine orderAtoms_ok.2 ⟨⟨hids ▸ hsound.ids, fun a ha => ?_, fun a ha => ?_, fun a ha p hp => ?_⟩, ?_, ?_, ?_⟩
  · obtain ⟨b, hb, rfl⟩ := List.mem_map.1 ha
    exact hsound.safe b hb
  · obtain ⟨b, hb, rfl⟩ := List.mem_map.1 ha
    exact hsound.single b hb
  · obtain ⟨b, hb, rfl⟩ := List.mem_map.1 ha
    rw [hids]
    exact hsound.parents b hb p hp
  · rw [List.length_map, hchildren none]
    exact hmapped
  · rw [List.length_map, List.length_map, hlength]
  · rw [List.length_map]
    exact hmax

theorem insertedAtoms_parents : ∀ {offset : Nat} {a : Atom} {p : String},
    (∀ change ∈ changes, ∀ q, change.afterId = some q → q ∈ ids) →
    a ∈ Rga.insertedAtoms operationId version changes offset → a.afterId = some p →
    p ∈ ids ∨ p ∈ (Rga.insertedAtoms operationId version changes offset).map Atom.id := by
  induction changes with
  | nil => intro offset a p _ ha; cases ha
  | cons change changes ih =>
    intro offset a p hanchors ha hp
    rw [Rga.insertedAtoms] at ha
    rw [Rga.insertedAtoms, List.map_append, List.mem_append]
    rcases List.mem_append.1 ha with ha | ha
    · rcases Rga.chain_parents ha hp with hsame | ⟨b, hb, rfl, -⟩
      · exact .inl (hanchors change List.mem_cons_self p hsame)
      · exact .inr (.inl (List.mem_map_of_mem hb))
    · rcases ih (fun c hc => hanchors c (List.mem_cons_of_mem _ hc)) ha hp with hold | hnew
      · exact .inl hold
      · exact .inr (.inr hnew)

/-- A local edit leaves the old linearisation with its chains spread in it. -/
theorem orderAtoms_spread {ordered : List Atom} {e : Ranked} (h : orderAtoms lc atoms = .ok ordered)
    (hkeys : ∀ a ∈ atoms, a.order < e.2 * maxAtoms) (hunused : Unused e.1.clientOperationId (atoms.map Atom.id))
    (hanchors : ∀ change ∈ e.1.changes, ∀ q, change.afterId = some q → q ∈ atoms.map Atom.id)
    (hcount : atoms.length + Rga.insertedLength e.1.changes ≤ maxAtoms)
    (hsafe : e.2 * maxAtoms + Rga.insertedLength e.1.changes ≤ maxSafeInteger + 1) :
    orderAtoms lc (optimisticMerged atoms e) =
      .ok ((spread e.1.clientOperationId e.2 e.1.changes 0 ordered).map (Rga.mark (deletedBy e))) := by
  obtain ⟨hsound, hwalk, hlength, -⟩ := orderAtoms_ok.1 h
  have hperm := orderAtoms_perm h
  have hadded : added atoms (insertedBy e) = insertedBy e := by
    refine List.filter_eq_self.2 fun a ha => ?_
    obtain ⟨i, -, -, hid, -⟩ := Rga.mem_insertedAtoms ha
    rw [hid]
    exact decide_eq_true (hunused i)
  have hanchors' : ∀ change ∈ e.1.changes, ∀ i, change.afterId ≠ some (Rga.atomId e.1.clientOperationId i) :=
    fun change hc i heq => hunused i (hanchors change hc _ heq)
  have hearlier : Earlier e.1.clientOperationId e.2 0 atoms := by
    refine ⟨fun a ha i _ heq => hunused i (heq ▸ List.mem_map_of_mem ha), fun a ha i _ heq => ?_, by simpa using hkeys⟩
    exact hunused i (hsound.parents a ha _ heq)
  have hnd : ((atoms ++ insertedBy e).map Atom.id).Nodup := by
    rw [List.map_append, List.nodup_append]
    refine ⟨hsound.ids, Rga.nodup_insertedAtoms_ids _ _ _ _, fun x hx y hy hxy => ?_⟩
    obtain ⟨a, ha, rfl⟩ := List.mem_map.1 hy
    obtain ⟨i, -, -, hid, -⟩ := Rga.mem_insertedAtoms ha
    exact hunused i (by rw [← hid, ← hxy]; exact hx)
  have hsound' : Sound (atoms ++ insertedBy e) := by
    refine ⟨hnd, fun a ha => ?_, fun a ha => ?_, fun a ha p hp => ?_⟩
    · rcases List.mem_append.1 ha with ha | ha
      · exact hsound.safe a ha
      · obtain ⟨i, -, hi, -, horder, -⟩ := Rga.mem_insertedAtoms ha
        have hsame : maxAtoms = Rga.maximumAtoms := rfl
        rw [hsame] at hsafe
        omega
    · rcases List.mem_append.1 ha with ha | ha
      · exact hsound.single a ha
      · obtain ⟨_, -, -, -, -, -, change, -, htext⟩ := Rga.mem_insertedAtoms ha
        exact length_codepoints htext
    · rw [List.map_append, List.mem_append]
      rcases List.mem_append.1 ha with ha | ha
      · exact .inl (hsound.parents a ha p hp)
      · exact insertedAtoms_parents hanchors ha hp
  obtain ⟨m, hm⟩ := walk_spread hearlier hanchors' hwalk
  have hspread : (spread e.1.clientOperationId e.2 e.1.changes 0 ordered).Perm (ordered ++ insertedBy e) :=
    spread_perm (((hperm.append_right _).map Atom.id).nodup_iff.2 hnd)
      fun change hc q hq => (hperm.map Atom.id).mem_iff.2 (hanchors change hc q hq)
  have hsize : (spread e.1.clientOperationId e.2 e.1.changes 0 ordered).length = (atoms ++ insertedBy e).length := by
    rw [hspread.length_eq, List.length_append, List.length_append, hlength]
  -- the walk needs as many rounds as there are nodes
  have hwalk' : ForestWalk.walk Atom.id (siblings lc (atoms ++ insertedBy e)) (atoms ++ insertedBy e).length
      (siblings lc (atoms ++ insertedBy e) none) = some (spread e.1.clientOperationId e.2 e.1.changes 0 ordered) := by
    obtain ⟨out, hout⟩ := ForestWalk.walk_total hnd (lists_siblings lc _) (le_refl _)
    have hmono := ForestWalk.walk_mono hout (le_max_left _ m)
    have hmono' := ForestWalk.walk_mono hm (le_max_right (atoms ++ insertedBy e).length m)
    obtain rfl := Option.some.inj (hmono.symm.trans hmono')
    exact hout
  have horder : orderAtoms lc (atoms ++ insertedBy e) =
      .ok (spread e.1.clientOperationId e.2 e.1.changes 0 ordered) := by
    refine orderAtoms_ok.2 ⟨hsound', hwalk', hsize, ?_⟩
    have hinserted : (insertedBy e).length = Rga.insertedLength e.1.changes := Rga.length_insertedAtoms _ _ _ _
    rw [List.length_append]
    omega
  unfold optimisticMerged
  rw [hadded]
  exact orderAtoms_map_mark _ horder

/-! ### Edits of the editor -/

/-- The number of code points that the changes write. -/
def written (changes : List TextChange) : Nat := (changes.map fun change => (codepoints change.insert).length).sum

/-- The bounds on a local edit. -/
structure WithinLimits (orderVersion : Nat) (ordered : List Atom) (changes : List TextChange) : Prop where
  count : changes.length ≤ 32
  inserted : written changes ≤ 2048
  deleted : (changes.map (covered (Rga.visible ordered))).sum ≤ 4096
  atoms : ordered.length + written changes ≤ maxAtoms
  keys : orderVersion * maxAtoms + written changes ≤ maxSafeInteger + 1
  text : ∀ text, utf16 text = replaced 0 (shown ordered) changes →
    (codepoints text).length ≤ 16000 ∧ text.utf8ByteSize ≤ 65536

theorem Splits.written {first : Bool} {position : Nat} {visible : List Atom} {changes : List TextChange}
    {result : List Change} (h : Splits first position visible changes result) :
    Rga.insertedLength result = written changes := by
  have hinserts := congrArg (List.map fun insert => (codepoints insert).length) h.inserts
  rw [List.map_map, List.map_map] at hinserts
  exact congrArg List.sum hinserts

theorem textChanges_splits {ordered : List Atom} {orderVersion : Nat} {changes : List TextChange}
    (h : orderAtoms lc atoms = .ok ordered) (hne : changes ≠ []) (hreported : Reported (Rga.visible ordered) changes)
    (hnul : ∀ change ∈ changes, '\x00' ∉ change.insert.toList) (hlimits : WithinLimits orderVersion ordered changes) :
    ∃ result, textChanges lc atoms changes = .ok result ∧ Splits true 0 (Rga.visible ordered) changes result := by
  have hwide : Wide (Rga.visible ordered) := wide_of_single fun a ha =>
    (orderAtoms_ok.1 (orderAtoms_ordered h)).1.single a (List.mem_filter.1 ha).1
  obtain ⟨last, result, hloop, hsplits, hcovered⟩ := @foldlM_textChange changes true [] (Rga.visible ordered) (-1, [])
    hwide hreported hnul (fun _ => rfl) (fun h => by cases h) (by simp)
  rw [List.nil_append] at hcovered hloop
  rw [List.nil_append] at hloop
  refine ⟨result, ?_, hsplits⟩
  have hvisible : visibleAtoms lc atoms = .ok (Rga.visible ordered) := bind_ok.2 ⟨ordered, h, rfl⟩
  have hlength : changes.length ≠ 0 := fun h => hne (List.length_eq_zero_iff.1 h)
  have hcount := hlimits.count
  refine bind_ok.2 ⟨Rga.visible ordered, hvisible, ?_⟩
  rw [if_neg (by omega)]
  refine bind_ok.2 ⟨(last, result), hloop, if_neg ?_⟩
  have hinserted : (result.map fun change => (codepoints change.insert).length).sum ≤ 2048 :=
    hsplits.written.trans_le hlimits.inserted
  have hdeleted := hlimits.deleted
  rw [hcovered]
  omega

/-- The changes of the editor on boundaries between atoms, none touching the one before it, within the limits and
without NUL: `textChanges` accepts them, and the edit that it makes leaves the text that the editor shows. -/
theorem local_edit {lc : Collation} {atoms ordered : List Atom} {changes : List TextChange} {operationId : String}
    {generation baseVersion orderVersion : Nat} (h : orderAtoms lc atoms = .ok ordered)
    (hkeys : ∀ a ∈ atoms, a.order < orderVersion * maxAtoms) (hunused : Unused operationId (atoms.map Atom.id))
    (hne : changes ≠ []) (hreported : Reported (Rga.visible ordered) changes)
    (hnul : ∀ change ∈ changes, '\x00' ∉ change.insert.toList)
    (hlimits : WithinLimits orderVersion ordered changes) :
    ∃ result out original text, textChanges lc atoms changes = .ok result ∧
      optimisticApply lc atoms ⟨operationId, generation, baseVersion, result⟩ orderVersion = .ok out ∧
      atomText lc atoms = .ok original ∧ atomText lc out = .ok text ∧
      utf16 text = replaced 0 (utf16 original) changes := by
  obtain ⟨result, htextChanges, hsplits⟩ := textChanges_splits h hne hreported hnul hlimits
  have hperm := orderAtoms_perm h
  have hsound := (orderAtoms_ok.1 h).1
  have hvisible : ∀ id ∈ (Rga.visible ordered).map Atom.id, id ∈ atoms.map Atom.id := by
    intro id hid
    obtain ⟨a, ha, rfl⟩ := List.mem_map.1 hid
    exact List.mem_map_of_mem (hperm.mem_iff.1 (List.mem_filter.1 ha).1)
  have hreferences : ∀ change ∈ result, (∀ q, change.afterId = some q → q ∈ atoms.map Atom.id) ∧
      ∀ id ∈ change.deleteIds, id ∈ atoms.map Atom.id := by
    intro change hc
    obtain ⟨hanchor, hdelete⟩ := hsplits.references change hc
    exact ⟨fun q hq => hvisible q (hanchor q hq), fun id hid => hvisible id (hdelete id hid)⟩
  have hcount : atoms.length + Rga.insertedLength result ≤ maxAtoms := by
    rw [hsplits.written, ← hperm.length_eq]
    exact hlimits.atoms
  have hsafe : orderVersion * maxAtoms + Rga.insertedLength result ≤ maxSafeInteger + 1 := by
    rw [hsplits.written]
    exact hlimits.keys
  have hdeletedIds : ∀ id ∈ Rga.deletedIds result, id ∈ atoms.map Atom.id := by
    intro id hid
    obtain ⟨change, hc, hid⟩ := List.mem_flatMap.1 hid
    exact (hreferences change hc).2 id hid
  have hmerged : orderAtoms lc (optimisticMerged atoms (⟨operationId, generation, baseVersion, result⟩, orderVersion)) =
      .ok ((spread operationId orderVersion result 0 ordered).map (Rga.mark (Rga.deletedIds result))) :=
    orderAtoms_spread h hkeys hunused (fun change hc => (hreferences change hc).1) hcount hsafe
  have hshown : shown ((spread operationId orderVersion result 0 ordered).map (Rga.mark (Rga.deletedIds result))) =
      replaced 0 (shown ordered) changes :=
    utf16_spread hsplits (fun i hmem => hunused i (hdeletedIds _ hmem)) rfl
      ((hperm.map Atom.id).nodup_iff.2 hsound.ids) (fun i hmem => hunused i ((hperm.map Atom.id).mem_iff.1 hmem))
      fun _ _ => Iff.rfl
  have hlimit : WithinTextLimit ((spread operationId orderVersion result 0 ordered).map
      (Rga.mark (Rga.deletedIds result))) := by
    obtain ⟨hpoints, hbytes⟩ := hlimits.text _ hshown
    have hsingle := (orderAtoms_ok.1 (orderAtoms_ordered hmerged)).1.single
    rw [length_codepoints_text hsingle] at hpoints
    exact ⟨hpoints, hbytes⟩
  have hrefers : Refers operationId (atoms.map Atom.id) 0 result := refers_of_forall hreferences
  have happly := (optimisticApply_iff hsound.ids).2 ⟨hrefers, hmerged, hlimit⟩
  have hlisted : visibleAtoms lc atoms = .ok (Rga.visible ordered) := bind_ok.2 ⟨ordered, h, rfl⟩
  have htext : atomText lc atoms = .ok (Rga.text ordered) := bind_ok.2 ⟨Rga.visible ordered, hlisted, rfl⟩
  exact ⟨result, _, Rga.text ordered, _, htextChanges, happly, htext, atomText_ordered hmerged, hshown⟩

/-! ### Bounds that the units give -/

theorem length_codepoints_le (text : String) : (codepoints text).length ≤ (utf16 text).length := by
  rw [length_utf16, codepoints, List.length_map]
  unfold utf16Length
  induction text.toList with
  | nil => simp
  | cons c rest ih =>
    rw [List.length_cons, List.map_cons, List.sum_cons]
    split <;> omega

theorem utf8ByteSize_le (text : String) : text.utf8ByteSize ≤ 4 * (utf16 text).length := by
  have hbytes : text.utf8ByteSize ≤ 4 * (codepoints text).length := by
    have key : ∀ l : List Char, (String.join (l.map String.singleton)).utf8ByteSize ≤ 4 * l.length := by
      intro l
      induction l with
      | nil => simp
      | cons c l ih =>
        have hc := c.utf8Size_le_four
        rw [List.map_cons, String.join_cons, String.utf8ByteSize_append, String.utf8ByteSize_singleton,
          List.length_cons]
        omega
    have h := key text.toList
    rw [show text.toList.map String.singleton = codepoints text from rfl, join_codepoints] at h
    rw [codepoints, List.length_map]
    exact h
  have := length_codepoints_le text
  omega
section Sample

private def localAtoms : List Atom :=
  (Rga.chain "00000000-0000-4000-8000-000000000001" 1 ["a", "🙂", "b", "c"] none 0).map
    (Rga.mark ["00000000-0000-4000-8000-000000000001:2"])

private def localChanges : List TextChange := [⟨0, 1, "x"⟩, ⟨3, 4, "yz"⟩]

private theorem unused_localAtoms :
    Unused "00000000-0000-4000-8000-000000000002" (localAtoms.map Atom.id) := by
  intro i hmem
  rw [localAtoms, Rga.map_mark_id, Rga.chain_ids] at hmem
  obtain ⟨j, -, hj⟩ := List.mem_map.1 hmem
  exact absurd (Rga.atomId_inj.1 hj).1 (by decide)

/-- A tombstone stands between the visible atoms. -/
theorem local_edit_sample : ∃ result out original text,
    textChanges codePointCollation localAtoms localChanges = .ok result ∧
    optimisticApply codePointCollation localAtoms ⟨"00000000-0000-4000-8000-000000000002", 1, 1, result⟩ 2 = .ok out ∧
    atomText codePointCollation localAtoms = .ok original ∧ atomText codePointCollation out = .ok text ∧
    utf16 text = replaced 0 (utf16 original) localChanges := by
  have horder : orderAtoms codePointCollation localAtoms = .ok localAtoms := by decide
  have hreported : Reported (Rga.visible localAtoms) localChanges :=
    ⟨by decide, by decide, by decide, by decide⟩
  have hlimits : WithinLimits 2 localAtoms localChanges := by
    refine ⟨by decide, by decide, by decide, by decide, by decide, fun text htext => ?_⟩
    have hlength : (utf16 text).length = 5 := by
      rw [htext]
      decide
    have hpoints := length_codepoints_le text
    have hbytes := utf8ByteSize_le text
    omega
  exact local_edit horder (by decide) unused_localAtoms (by decide) hreported (by decide) hlimits

/-- `textChanges` refuses a NUL. -/
theorem local_edit_nul : ¬ ∀ (lc : Collation) (atoms ordered : List Atom) (changes : List TextChange)
    (orderVersion : Nat), orderAtoms lc atoms = .ok ordered → (∀ a ∈ atoms, a.order < orderVersion * maxAtoms) →
    changes ≠ [] → Reported (Rga.visible ordered) changes → WithinLimits orderVersion ordered changes →
    ∃ result, textChanges lc atoms changes = .ok result := by
  intro h
  have hreported : Reported (Rga.visible []) [⟨0, 0, "\x00"⟩] := ⟨by decide, by decide, by decide, by decide⟩
  have hlimits : WithinLimits 1 [] [⟨0, 0, "\x00"⟩] := by
    refine ⟨by decide, by decide, by decide, by decide, by decide, fun text htext => ?_⟩
    have hlength : (utf16 text).length = 1 := by
      rw [htext]
      decide
    have hpoints := length_codepoints_le text
    have hbytes := utf8ByteSize_le text
    omega
  obtain ⟨result, hresult⟩ := h codePointCollation [] [] [⟨0, 0, "\x00"⟩] 1 rfl (by simp) (by decide) hreported hlimits
  have hrefused : textChanges codePointCollation [] [⟨0, 0, "\x00"⟩] = .error .incompleteCharacters := by decide
  rw [hrefused] at hresult
  cases hresult

end Sample

end KComms.Documents.Model
