import KComms.Documents.RgaEdit
import KComms.Lib.ForestInsert
import Mathlib.Data.String.Basic

/-!
# The order of a document is stable

An edit does not move what is there.  Each of its chains hangs below an older atom, with keys above all older ones, so
in the linearisation it stands right behind its anchor, and the rest stays in place (`order_chain_append`).
-/

namespace KComms.Documents.Rga

/-! ### The linearisation of marked atoms and of one more chain -/

theorem order_eq_of_walk {atoms out : List Atom} (hnd : (atoms.map Atom.id).Nodup) {n : Nat}
    (h : ForestWalk.walk Atom.id (siblings atoms) n (siblings atoms none) = some out) : order atoms = out := by
  have hmono := ForestWalk.walk_mono h (le_max_left n atoms.length)
  rw [← orderWithin_eq_walk, orderWithin_eq hnd (le_max_right _ _)] at hmono
  exact Option.some.inj hmono

theorem walk_order {atoms : List Atom} (hnd : (atoms.map Atom.id).Nodup) :
    ForestWalk.walk Atom.id (siblings atoms) atoms.length (siblings atoms none) = some (order atoms) := by
  rw [← orderWithin_eq_walk]
  exact orderWithin_eq hnd (le_refl _)

/-- Deletions move nothing. -/
theorem order_map_mark (ids : List String) {atoms : List Atom} (hnd : (atoms.map Atom.id).Nodup) :
    order (atoms.map (mark ids)) = (order atoms).map (mark ids) := by
  refine order_eq_of_walk (n := atoms.length) (by rw [map_mark_id]; exact hnd) ?_
  have hchildren : ∀ p, siblings (atoms.map (mark ids)) p = (siblings atoms p).map (mark ids) :=
    ForestWalk.children_map (fun _ _ => rfl) fun _ _ _ _ => Iff.rfl
  have hwalk := ForestWalk.walk_map (mark_id ids) hchildren atoms.length (siblings atoms none)
  rw [hchildren none, hwalk, walk_order hnd]
  rfl

theorem linked_chain (operationId : String) (version : Nat) (texts : List String) (anchor : Option String)
    (cursor : Nat) :
    ForestWalk.Linked Atom.id Atom.afterId anchor (chain operationId version texts anchor cursor) := by
  induction texts generalizing anchor cursor with
  | nil => trivial
  | cons text texts ih => exact ⟨rfl, ih _ _⟩

/-- The atoms that were there before the others are well formed for themselves. -/
theorem WellFormed.of_append {atoms new : List Atom} (h : WellFormed (atoms ++ new))
    (hlater : ∀ a ∈ atoms, ∀ b ∈ new, a.order < b.order) : WellFormed atoms := by
  refine ⟨h.ids.sublist ?_, h.orders.sublist ?_, fun a ha p hp => ?_⟩
  · rw [List.map_append]
    exact List.sublist_append_left _ _
  · rw [List.map_append]
    exact List.sublist_append_left _ _
  · obtain ⟨b, hb, hbp, hlt⟩ := h.parents a (List.mem_append_left _ ha) p hp
    rcases List.mem_append.1 hb with hb | hb
    · exact ⟨b, hb, hbp, hlt⟩
    · have := hlater a ha b hb
      omega

section Chain

variable {atoms : List Atom} {operationId : String} {version cursor : Nat} {texts : List String}
  {anchor : Option String}

private theorem chain_orders_from {a : Atom} (ha : a ∈ chain operationId version texts anchor cursor) :
    version * maximumAtoms + cursor ≤ a.order := by
  obtain ⟨i, hi, -, -, horder, -, -⟩ := mem_chain ha
  omega

private theorem anchor_not_mem (hw : WellFormed (atoms ++ chain operationId version texts anchor cursor))
    {c : Atom} (hc : c ∈ chain operationId version texts anchor cursor) : anchor ≠ some c.id := by
  intro heq
  cases texts with
  | nil => cases hc
  | cons text rest =>
    -- the parent of the first atom has a smaller key than the first atom
    obtain ⟨b, hb, hbp, hlt⟩ := hw.parents _ (List.mem_append_right _ List.mem_cons_self) c.id heq
    have hsame : b = c := List.inj_on_of_nodup_map hw.ids hb (List.mem_append_right _ hc) hbp
    have hfrom := chain_orders_from hc
    rw [hsame] at hlt
    simp only at hlt
    omega

theorem fresh_chain (hw : WellFormed (atoms ++ chain operationId version texts anchor cursor))
    (hbelow : ∀ a ∈ atoms, a.order < version * maximumAtoms + cursor) :
    ForestWalk.Fresh Atom.id Atom.afterId atoms anchor (chain operationId version texts anchor cursor) := by
  have hids := hw.ids
  rw [List.map_append, List.nodup_append] at hids
  refine ⟨linked_chain _ _ _ _ _, ?_, fun a ha c hc => ⟨?_, fun hparent => ?_⟩⟩
  · rw [List.nodup_cons]
    constructor
    · intro hmem
      obtain ⟨c, hc, heq⟩ := List.mem_map.1 hmem
      exact anchor_not_mem hw hc heq.symm
    · have hmap : (chain operationId version texts anchor cursor).map (fun c => some c.id) =
          ((chain operationId version texts anchor cursor).map Atom.id).map some := by
        rw [List.map_map]
        rfl
      rw [hmap]
      exact hids.2.1.map (Option.some_injective _)
  · exact hids.2.2 _ (List.mem_map_of_mem ha) _ (List.mem_map_of_mem hc)
  · obtain ⟨b, hb, hbp, hlt⟩ := hw.parents a (List.mem_append_left _ ha) c.id hparent
    have hsame : b = c := List.inj_on_of_nodup_map hw.ids hb (List.mem_append_right _ hc) hbp
    have hfrom := chain_orders_from hc
    have habove := hbelow a ha
    rw [hsame] at hlt
    omega

/-- A chain whose keys are above all others stands right behind its anchor. -/
theorem order_chain_append (hw : WellFormed (atoms ++ chain operationId version texts anchor cursor))
    (hbelow : ∀ a ∈ atoms, a.order < version * maximumAtoms + cursor) :
    order (atoms ++ chain operationId version texts anchor cursor) =
      ForestWalk.insertAfter Atom.id anchor (chain operationId version texts anchor cursor) (order atoms) := by
  have hids := hw.ids
  rw [List.map_append, List.nodup_append] at hids
  have hfirst : ∀ a ∈ atoms, a.afterId = anchor → ∀ c ∈ (chain operationId version texts anchor cursor).head?,
      ¬ newerFirst a c := by
    intro a ha _ c hc hnewer
    have hfrom := chain_orders_from (List.mem_of_mem_head? hc)
    have habove := hbelow a ha
    unfold newerFirst at hnewer
    omega
  obtain ⟨m, hm⟩ := ForestWalk.walk_insertAfter (fresh_chain hw hbelow) hfirst (walk_order hids.1)
  exact order_eq_of_walk hw.ids hm

end Chain

/-! ### The whole edit -/

/-- Whatever an edit inserts, the older atoms keep their order. -/
theorem filter_order_inserted {operationId : String} {version : Nat} {changes : List Change} : ∀ {atoms offset},
    WellFormed (atoms ++ insertedAtoms operationId version changes offset) →
    (∀ a ∈ atoms, a.order < version * maximumAtoms + offset) → ∀ old : List String,
    (∀ a ∈ insertedAtoms operationId version changes offset, a.id ∉ old) →
    (order (atoms ++ insertedAtoms operationId version changes offset)).filter (fun a => a.id ∈ old) =
      (order atoms).filter fun a => a.id ∈ old := by
  induction changes with
  | nil =>
    intro atoms offset _ _ old _
    rw [insertedAtoms, List.append_nil]
  | cons change changes ih =>
    intro atoms offset hw hbelow old hnew
    rw [insertedAtoms, ← List.append_assoc] at hw
    have hbelow' : ∀ a ∈ atoms ++ chain operationId version (codepoints change.insert) change.afterId offset,
        a.order < version * maximumAtoms + (offset + (codepoints change.insert).length) := by
      intro a ha
      rcases List.mem_append.1 ha with ha | ha
      · have := hbelow a ha
        omega
      · obtain ⟨i, -, hi, -, horder, -, -⟩ := mem_chain ha
        omega
    have hw' := hw.of_append fun a ha b hb => by
      obtain ⟨i, hi, -, -, horder, -, -⟩ := mem_insertedAtoms hb
      have := hbelow' a ha
      omega
    rw [insertedAtoms, ← List.append_assoc, ih hw hbelow' old fun a ha => hnew a (List.mem_append_right _ ha),
      order_chain_append hw' hbelow]
    refine ForestWalk.filter_insertAfter fun a ha => ?_
    exact decide_eq_false (hnew a (List.mem_append_left _ ha))

variable {values : Enumeration String Atom} {atoms : List Atom} {changes : List Change} {operationId : String}
  {version : Nat} {r : Applied}

theorem Admitted.atoms_ordered (h : Admitted values atoms changes operationId version r) (hw : WellFormed atoms)
    (hb : Below version atoms) :
    r.atoms = (order (atoms ++ insertedAtoms operationId version changes 0)).map (mark (deletedIds changes)) := by
  have hids := (h.wellFormed_merged hw hb).ids
  rw [map_merged_id, ← List.map_append] at hids
  rw [h.atoms_eq hw hb, merged, order_map_mark _ hids]

/-- The atoms of an edit and the older ones, before any is marked. -/
theorem Admitted.wellFormed_append (h : Admitted values atoms changes operationId version r) (hw : WellFormed atoms)
    (hb : Below version atoms) : WellFormed (atoms ++ insertedAtoms operationId version changes 0) := by
  have hm := h.wellFormed_merged hw hb
  refine ⟨?_, ?_, fun a ha p hp => ?_⟩
  · rw [List.map_append, ← map_merged_id]
    exact hm.ids
  · rw [List.map_append, ← map_merged_order]
    exact hm.orders
  · obtain ⟨b', hb', hbp, hlt⟩ := hm.parents (mark (deletedIds changes) a) (List.mem_map_of_mem ha) p hp
    obtain ⟨b, hbmem, rfl⟩ := List.mem_map.1 hb'
    exact ⟨b, hbmem, hbp, hlt⟩

/-- A change that is the whole edit only refers to older atoms. -/
theorem apply_references {change : Change} (hnd : (atoms.map Atom.id).Nodup)
    (h : apply values atoms [change] operationId version = .ok r) :
    (∀ q, change.afterId = some q → q ∈ atoms.map Atom.id) ∧ ∀ id ∈ change.deleteIds, id ∈ atoms.map Atom.id := by
  unfold apply at h
  split at h
  case isFalse => exact absurd h (by simp)
  obtain ⟨p, hp, -⟩ := FallibleLoop.bind_ok.1 h
  obtain ⟨p', hstep, -⟩ := FallibleLoop.foldlM_cons_ok.1 hp
  obtain ⟨hanchor, hdelete, -⟩ := applyChange_ok hstep
  have hkeys : (OrderedMap.ofList (atoms.map fun atom => (atom.id, atom))).keys = atoms.map Atom.id := keys_index hnd
  simp only [hkeys] at hanchor hdelete
  exact ⟨hanchor, hdelete⟩

/-- Every accepted edit, at a version above all keys of a document that is in order: the older atoms stand as before, at
most marked; and the text of an edit with one change stands behind its anchor. -/
theorem apply_stable (hw : WellFormed atoms) (hordered : order atoms = atoms) (hbelow : Below version atoms)
    (h : apply values atoms changes operationId version = .ok r) :
    (r.atoms.filter fun a => a.id ∈ atoms.map Atom.id) = atoms.map (mark (deletedIds changes)) ∧
    (∀ a ∈ atoms, ∃ b ∈ r.atoms, b.id = a.id ∧ b.text = a.text ∧ (a.deleted = true → b.deleted = true)) ∧
    ∀ change, changes = [change] → ∃ before run after, r.atoms = before ++ run ++ after ∧
      before.getLast?.map Atom.id = change.afterId ∧ run.map Atom.text = codepoints change.insert ∧
      (∀ a ∈ run, a.deleted = false) ∧ ∀ a ∈ run, a.id ∉ atoms.map Atom.id := by
  have hadm := apply_spec h
  have happend := hadm.wellFormed_append hw hbelow
  have hfresh := hadm.fresh
  rw [List.nodup_append] at hfresh
  have hrest : (r.atoms.filter fun a => a.id ∈ atoms.map Atom.id) = atoms.map (mark (deletedIds changes)) := by
    rw [hadm.atoms_ordered hw hbelow, List.filter_map]
    have hfilter := filter_order_inserted happend (by simpa [Below] using hbelow) (atoms.map Atom.id)
      fun a ha hold => hfresh.2.2 _ hold _ (List.mem_map_of_mem ha) rfl
    have hcomp : ((fun a : Atom => decide (a.id ∈ atoms.map Atom.id)) ∘ mark (deletedIds changes)) =
        fun a => decide (a.id ∈ atoms.map Atom.id) := rfl
    rw [hcomp, hfilter, hordered, List.filter_eq_self.2]
    intro a ha
    exact decide_eq_true (List.mem_map_of_mem ha)
  refine ⟨hrest, fun a ha => ?_, fun change hchange => ?_⟩
  · have hmem : mark (deletedIds changes) a ∈ r.atoms.filter fun a => a.id ∈ atoms.map Atom.id := by
      rw [hrest]
      exact List.mem_map_of_mem ha
    exact ⟨_, (List.mem_filter.1 hmem).1, rfl, rfl, fun hdeleted => by simp [mark, hdeleted]⟩
  · subst hchange
    rw [insertedAtoms, insertedAtoms, List.append_nil] at happend
    have horder := order_chain_append happend (by simpa [Below] using hbelow)
    rw [hordered] at horder
    obtain ⟨hanchor, hdelete⟩ := apply_references hw.ids h
    have hnew : ∀ a ∈ chain operationId version (codepoints change.insert) change.afterId 0,
        a.id ∉ atoms.map Atom.id := by
      intro a ha hold
      refine hfresh.2.2 _ hold a.id ?_ rfl
      rw [insertedAtoms, insertedAtoms, List.append_nil]
      exact List.mem_map_of_mem ha
    have hunmarked : (chain operationId version (codepoints change.insert) change.afterId 0).map
        (mark (deletedIds [change])) = chain operationId version (codepoints change.insert) change.afterId 0 := by
      refine (List.map_congr_left fun a ha => ?_).trans (List.map_id _)
      have hkept : a.id ∉ deletedIds [change] := by
        intro hdeleted
        rw [deletedIds, List.flatMap_singleton] at hdeleted
        exact hnew a ha (hdelete _ hdeleted)
      simp [mark, hkept]
    obtain ⟨before, after, -, hinsert, hlast⟩ := ForestWalk.insertAfter_split hw.ids hanchor
    refine ⟨before.map (mark (deletedIds [change])),
      chain operationId version (codepoints change.insert) change.afterId 0,
      after.map (mark (deletedIds [change])), ?_, ?_, chain_texts _ _ _ _ _, fun a ha => ?_, hnew⟩
    · rw [hadm.atoms_ordered hw hbelow, insertedAtoms, insertedAtoms, List.append_nil, horder, hinsert, List.map_append,
        List.map_append, hunmarked]
    · rw [List.getLast?_map, Option.map_map]
      exact hlast
    · obtain ⟨_, -, -, -, -, hdeleted, -⟩ := mem_chain ha
      exact hdeleted

section Sample

private def stableAtoms : List Atom := chain "00000000-0000-4000-8000-000000000001" 1 ["a", "b"] none 0

/-- Delete the first atom and write behind it. -/
private def stableChange : Change :=
  ⟨some "00000000-0000-4000-8000-000000000001:0", ["00000000-0000-4000-8000-000000000001:0"], "xy"⟩

private def stableResult : Applied :=
  (apply (Enumeration.byKey String Atom) stableAtoms [stableChange]
    "00000000-0000-4000-8000-000000000002" 2).toOption.getD ⟨[], "", [], []⟩

theorem apply_stable_sample : stableResult.atoms.map Atom.text = ["a", "x", "y", "b"] ∧
    (stableResult.atoms.filter fun a => a.id ∈ stableAtoms.map Atom.id).map Atom.text = ["a", "b"] := by
  have hbelow : Below 2 stableAtoms := by
    unfold Below
    decide
  have happly : apply (Enumeration.byKey String Atom) stableAtoms [stableChange]
      "00000000-0000-4000-8000-000000000002" 2 = .ok stableResult := by decide
  have hw : WellFormed stableAtoms := wellFormed_chain _ _ _ _
  have hordered : order stableAtoms = stableAtoms := order_chain _ _ _ _
  have hstable := apply_stable hw hordered hbelow happly
  refine ⟨by decide, ?_⟩
  rw [hstable.1]
  rfl

end Sample

end KComms.Documents.Rga
