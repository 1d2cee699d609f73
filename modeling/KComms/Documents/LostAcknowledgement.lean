import KComms.Documents.Convergence
import KComms.Documents.PendingEdits
import KComms.Documents.Stability

/-!
# An edit whose acknowledgement was lost

A client that does not know that its edit was committed applies it once more, on top of a document that contains it.
The later rows of a document keep the atoms that an edit inserted and the marks that it set, so the edit does nothing
there (`optimisticApply_again`); without it the other pending edits get keys of one version less, and stand in the same
order.
-/

namespace KComms.Documents

open FallibleLoop (bind_ok foldlM_cons_ok)
open Model

/-! ### What later rows keep of an edit -/

variable {d d' : Document} {changes : List Change} {op : Operation} {generation baseVersion : Nat}
  {line : List Document} {ops : List Operation}

theorem Committed.deletedIds {rt : Runtime} (h : Committed rt d op d')
    (hinput : op.input = .edit generation baseVersion changes) :
    op.payload.deletedAtomIds = (Rga.deletedIds changes).eraseDups := by
  obtain ⟨updated, happly, -⟩ := h.effect
  rw [hinput] at happly
  obtain ⟨r, hr, happly⟩ := bind_ok.1 happly
  obtain ⟨-, hrest⟩ := Prod.mk.inj (Except.ok.inj happly)
  obtain ⟨hpayload, -⟩ := Prod.mk.inj hrest
  rw [← hpayload]
  exact (Rga.apply_spec hr).deleted

/-- The changes of an accepted edit refer to older atoms and to atoms of the edit. -/
theorem foldlM_applyChange_references {operationId : String} {version : Nat} :
    ∀ {p p' : Rga.Progress}, changes.foldlM (Rga.applyChange operationId version) p = .ok p' →
      ∀ id ∈ references changes, id ∈ p.nodes.keys ∨
        id ∈ (Rga.insertedAtoms operationId version changes p.offset).map Atom.id := by
  induction changes with
  | nil => intro p p' _ id hid; cases hid
  | cons change changes ih =>
    intro p p' h id hid
    obtain ⟨q, hq, h⟩ := foldlM_cons_ok.1 h
    obtain ⟨hanchor, hdelete, hnodes, -, -, hoffset⟩ := Rga.applyChange_ok hq
    rw [Rga.insertedAtoms, List.map_append, List.mem_append, ← hoffset]
    rw [references, List.flatMap_cons, List.mem_append, List.mem_append] at hid
    rcases hid with (hid | hid) | hid
    · exact .inl (hanchor id (Option.mem_toList.1 hid))
    · exact .inl (hdelete id hid)
    · rcases ih h id hid with hid | hid
      · rw [hnodes, OrderedMap.mem_keys_setAll, Rga.keys_foldl_markDeleted, Rga.map_keyed_fst] at hid
        rcases hid with hid | hid
        · exact .inl hid
        · exact .inr (.inl hid)
      · exact .inr (.inr hid)

theorem Committed.references {rt : Runtime} (h : Committed rt d op d') (hd : Valid d)
    (hinput : op.input = .edit generation baseVersion changes) :
    ∀ id ∈ Documents.references changes,
      id ∈ d.atoms.map Atom.id ∨ id ∈ Documents.insertedIds op.clientOperationId changes := by
  obtain ⟨updated, happly, -⟩ := h.effect
  rw [hinput] at happly
  obtain ⟨r, hr, -⟩ := bind_ok.1 happly
  unfold Rga.apply at hr
  split at hr
  case isFalse => exact absurd hr (by simp)
  obtain ⟨p, hp, -⟩ := bind_ok.1 hr
  intro id hid
  have hkeys : (OrderedMap.ofList (d.atoms.map fun atom => (atom.id, atom))).keys = d.atoms.map Atom.id :=
    Rga.keys_index hd.wellFormed.ids
  have hknown := foldlM_applyChange_references hp id hid
  rw [hkeys, Rga.insertedAtoms_ids] at hknown
  exact hknown

/-- What a row keeps of an edit of its document. -/
structure Contains (d : Document) (clientOperationId : String) (changes : List Change) : Prop where
  inserted : insertedIds clientOperationId changes ⊆ d.atoms.map Atom.id
  references : ∀ id ∈ references changes, id ∈ d.atoms.map Atom.id
  deleted : ∀ a ∈ d.atoms, a.id ∈ Rga.deletedIds changes → a.deleted = true

theorem Committed.contains {rt : Runtime} (h : Committed rt d op d') (hd : Valid d)
    (hinput : op.input = .edit generation baseVersion changes) :
    Contains d' op.clientOperationId changes := by
  obtain ⟨hold, hnew⟩ := h.ids_subset hd
  obtain ⟨-, -, hperm, -⟩ := h.payload hd
  rw [h.insertedIds hinput] at hnew
  refine ⟨hnew, fun id hid => ?_, fun a ha hdeleted => ?_⟩
  · rcases h.references hd hinput id hid with hid | hid
    · exact hold hid
    · exact hnew hid
  · obtain ⟨b, -, rfl⟩ := List.mem_map.1 (hperm.mem_iff.2 ha)
    have hmarked : b.id ∈ op.payload.deletedAtomIds := by
      rw [h.deletedIds hinput, List.mem_eraseDups]
      exact hdeleted
    simp [Rga.mark, hmarked]

theorem mem_references_of_deleted {id : String} (h : id ∈ Rga.deletedIds changes) :
    id ∈ references changes := by
  obtain ⟨change, hchange, hid⟩ := List.mem_flatMap.1 h
  exact List.mem_flatMap.2 ⟨change, hchange, List.mem_append_right _ hid⟩

/-- A later commit keeps it. -/
theorem Contains.committed {rt : Runtime} {clientOperationId : String} (h : Contains d clientOperationId changes)
    (hcommit : Committed rt d op d') (hd : Valid d) : Contains d' clientOperationId changes := by
  obtain ⟨hold, -⟩ := hcommit.ids_subset hd
  obtain ⟨hfresh, -, hperm, -⟩ := hcommit.payload hd
  refine ⟨List.Subset.trans h.inserted hold, fun id hid => hold (h.references id hid), fun a ha hdeleted => ?_⟩
  obtain ⟨b, hb, rfl⟩ := List.mem_map.1 (hperm.mem_iff.2 ha)
  rcases List.mem_append.1 hb with hb | hb
  · simp [Rga.mark, h.deleted b hb hdeleted]
  · -- a new atom is none of those that the edit deleted
    have hknown : b.id ∈ d.atoms.map Atom.id := h.references _ (mem_references_of_deleted hdeleted)
    exact absurd rfl ((List.nodup_append.1 hfresh).2.2 _ hknown b.id (List.mem_map_of_mem hb))

theorem Lineage.contains_edit {rt : Runtime} (h : Lineage rt line ops) :
    ∀ d ∈ line.head?, ∀ op ∈ ops, ∀ generation baseVersion changes,
      op.input = .edit generation baseVersion changes → Contains d op.clientOperationId changes := by
  induction h with
  | created h valid =>
    intro d _ op hop generation baseVersion changes hinput
    obtain rfl := List.mem_singleton.1 hop
    obtain ⟨title, source, hcreate⟩ := h.input
    rw [hinput] at hcreate
    cases hcreate
  | committed lineage fresh h ih =>
    rename_i d d' op line ops
    intro e he o ho generation baseVersion changes hinput
    obtain rfl : d' = e := by simpa using he
    have hd := lineage.valid d (by simp)
    rcases List.mem_cons.1 ho with rfl | ho
    · exact h.contains hd hinput
    · exact (ih d (by simp) o ho generation baseVersion changes hinput).committed h hd

/-- Every row from the version of an edit on contains it. -/
theorem History.contains_edit {rt : Runtime} {stores : List Store} {id : String} (h : History rt stores id line ops)
    (hd : d ∈ line) (hop : op ∈ ops) (hle : op.version ≤ d.version)
    (hinput : op.input = .edit generation baseVersion changes) : Contains d op.clientOperationId changes := by
  obtain ⟨rest, ops', hl, hops, -⟩ := h.lineage.upTo d hd
  have hmem : op ∈ ops' := by
    rw [← List.mem_reverse, hops, List.mem_filter]
    exact ⟨List.mem_reverse.2 hop, by simpa using hle⟩
  exact hl.contains_edit d (by simp) op hmem generation baseVersion changes hinput

/-! ### The edit once more -/

theorem mark_of_deleted (ids : List String) {a : Atom} (h : a.deleted = true) : Rga.mark ids a = a := by
  have hdeleted : (a.deleted || decide (a.id ∈ ids)) = a.deleted := by rw [h, Bool.true_or]
  unfold Rga.mark
  rw [hdeleted]

/-- On a document that contains it an edit does nothing. -/
theorem optimisticApply_again (lc : Collation) {input : DocumentEdit} (hd : Valid d) (hversion : d.version ≤ 4000)
    (h : Contains d input.clientOperationId input.changes) (orderVersion : Nat) :
    optimisticApply lc d.atoms input orderVersion = .ok d.atoms := by
  have hadded : added d.atoms (insertedBy (input, orderVersion)) = [] := by
    refine List.filter_eq_nil_iff.2 fun a ha => ?_
    have hid : a.id ∈ insertedIds input.clientOperationId input.changes := by
      have hmem := List.mem_map_of_mem (f := Atom.id) ha
      rwa [insertedBy, Rga.insertedAtoms_ids] at hmem
    simpa using h.inserted hid
  have hmerged : optimisticMerged d.atoms (input, orderVersion) = d.atoms := by
    rw [optimisticMerged, hadded, List.append_nil]
    refine (List.map_congr_left fun a ha => ?_).trans (List.map_id _)
    by_cases hmem : a.id ∈ deletedBy (input, orderVersion)
    · exact mark_of_deleted _ (h.deleted a ha hmem)
    · simp [Rga.mark, hmem]
  have horder : orderAtoms lc d.atoms = .ok d.atoms := by
    rw [orderAtoms_eq lc (hd.transferable hversion), hd.ordered]
  have hrefers : Refers input.clientOperationId (d.atoms.map Atom.id) 0 input.changes := by
    refine refers_of_forall fun change hchange => ⟨fun id hid => ?_, fun id hid => ?_⟩
    · exact h.references id (List.mem_flatMap.2 ⟨change, hchange, by simp [hid]⟩)
    · exact h.references id (List.mem_flatMap.2 ⟨change, hchange, by simp [hid]⟩)
  have hlimit : WithinTextLimit d.atoms := by
    refine ⟨hd.visibleBound, ?_⟩
    rw [← hd.content]
    exact hd.contentBound
  have hiff : optimisticApply lc d.atoms (input, orderVersion).1 (input, orderVersion).2 = .ok d.atoms ↔ _ :=
    optimisticApply_iff hd.wellFormed.ids
  rw [hmerged] at hiff
  exact hiff.2 ⟨hrefers, horder, hlimit⟩

/-! ### The other pending edits -/

namespace Model

/-- An atom of a pending edit, with its key one version later. -/
def later (known : List String) (a : Atom) : Atom :=
  if a.id ∈ known then a else { a with order := a.order + maxAtoms }

@[simp] theorem later_id (known : List String) (a : Atom) : (later known a).id = a.id := by
  unfold later; split <;> rfl

@[simp] theorem later_afterId (known : List String) (a : Atom) : (later known a).afterId = a.afterId := by
  unfold later; split <;> rfl

@[simp] theorem later_text (known : List String) (a : Atom) : (later known a).text = a.text := by
  unfold later; split <;> rfl

@[simp] theorem later_deleted (known : List String) (a : Atom) : (later known a).deleted = a.deleted := by
  unfold later; split <;> rfl

theorem later_order (known : List String) (a : Atom) :
    (later known a).order = if a.id ∈ known then a.order else a.order + maxAtoms := by
  unfold later; split <;> rfl

theorem later_mark (known ids : List String) (a : Atom) :
    later known (Rga.mark ids a) = Rga.mark ids (later known a) := by
  unfold later
  rw [Rga.mark_id]
  split <;> rfl

/-- The keys of the known atoms lie below the bound, and those of the others do not. -/
def Parted (known : List String) (bound : Nat) (atoms : List Atom) : Prop :=
  ∀ a ∈ atoms, (a.id ∈ known → a.order < bound) ∧ (a.id ∉ known → bound ≤ a.order)

variable {lc : Collation} {known : List String} {bound : Nat} {atoms out : List Atom}

theorem keeps_later (h : Parted known bound atoms) {a b : Atom} (ha : a ∈ atoms) (hb : b ∈ atoms) :
    keeps lc (later known a) (later known b) ↔ keeps lc a b := by
  obtain ⟨hold, hnew⟩ := h a ha
  obtain ⟨hold', hnew'⟩ := h b hb
  rw [keeps_iff, keeps_iff, later_order, later_order, later_id, later_id]
  by_cases hka : a.id ∈ known
  · have h1 := hold hka
    by_cases hkb : b.id ∈ known
    · simp [hka, hkb]
    · have h2 := hnew' hkb
      simp only [hka, hkb, if_true, if_false]
      omega
  · have h1 := hnew hka
    by_cases hkb : b.id ∈ known
    · have h2 := hold' hkb
      simp only [hka, hkb, if_true, if_false]
      omega
    · simp only [hka, hkb, if_false]
      omega

private theorem siblings_later (h : Parted known bound atoms) (p : Option String) :
    siblings lc (atoms.map (later known)) p = (siblings lc atoms p).map (later known) :=
  ForestWalk.children_map (fun a _ => later_afterId known a) (fun _ ha _ hb => keeps_later h ha hb) p

private theorem map_later_id (known : List String) (atoms : List Atom) :
    (atoms.map (later known)).map Atom.id = atoms.map Atom.id := by
  rw [List.map_map]
  exact List.map_congr_left fun a _ => later_id known a

private theorem sound_later :
    Sound (atoms.map (later known)) ↔ Sound atoms ∧ ∀ a ∈ atoms, (later known a).order ≤ maxSafeInteger := by
  constructor
  · intro h
    have hsafe : ∀ a ∈ atoms, (later known a).order ≤ maxSafeInteger := fun a ha =>
      h.safe _ (List.mem_map_of_mem ha)
    refine ⟨⟨map_later_id known atoms ▸ h.ids, fun a ha => ?_, fun a ha => ?_, fun a ha p hp => ?_⟩, hsafe⟩
    · have hle := hsafe a ha
      rw [later_order] at hle
      split at hle <;> omega
    · have hsingle := h.single _ (List.mem_map_of_mem ha)
      rwa [later_text] at hsingle
    · rw [← map_later_id known]
      exact h.parents _ (List.mem_map_of_mem ha) p (by rw [later_afterId]; exact hp)
  · rintro ⟨h, hsafe⟩
    refine ⟨(map_later_id known atoms).symm ▸ h.ids, fun b hb => ?_, fun b hb => ?_, fun b hb p hp => ?_⟩
    · obtain ⟨a, ha, rfl⟩ := List.mem_map.1 hb
      exact hsafe a ha
    · obtain ⟨a, ha, rfl⟩ := List.mem_map.1 hb
      rw [later_text]
      exact h.single a ha
    · obtain ⟨a, ha, rfl⟩ := List.mem_map.1 hb
      rw [later_afterId] at hp
      rw [map_later_id]
      exact h.parents a ha p hp

private theorem walk_later (h : Parted known bound atoms) :
    ForestWalk.walk Atom.id (siblings lc (atoms.map (later known))) (atoms.map (later known)).length
        (siblings lc (atoms.map (later known)) none) =
      (ForestWalk.walk Atom.id (siblings lc atoms) atoms.length (siblings lc atoms none)).map
        (List.map (later known)) := by
  rw [siblings_later h, List.length_map]
  exact ForestWalk.walk_map (later_id known) (siblings_later h) _ _

/-- Later keys of the pending atoms give the same order, as long as they are safe. -/
theorem orderAtoms_later (h : Parted known bound atoms) (hout : orderAtoms lc atoms = .ok out)
    (hsafe : ∀ a ∈ atoms, (later known a).order ≤ maxSafeInteger) :
    orderAtoms lc (atoms.map (later known)) = .ok (out.map (later known)) := by
  obtain ⟨hsound, hwalk, hlength, hmax⟩ := orderAtoms_ok.1 hout
  refine orderAtoms_ok.2 ⟨sound_later.2 ⟨hsound, hsafe⟩, ?_, ?_, ?_⟩
  · rw [walk_later h, hwalk]
    rfl
  · rw [List.length_map, List.length_map, hlength]
  · rw [List.length_map]
    exact hmax

theorem orderAtoms_earlier {out' : List Atom} (h : Parted known bound atoms)
    (hout : orderAtoms lc (atoms.map (later known)) = .ok out') :
    ∃ out, orderAtoms lc atoms = .ok out ∧ out' = out.map (later known) := by
  obtain ⟨hsound, hwalk, hlength, hmax⟩ := orderAtoms_ok.1 hout
  rw [walk_later h, Option.map_eq_some_iff] at hwalk
  obtain ⟨out, hwalk, rfl⟩ := hwalk
  rw [List.length_map, List.length_map] at hlength
  rw [List.length_map] at hmax
  exact ⟨out, orderAtoms_ok.2 ⟨(sound_later.1 hsound).1, hwalk, hlength, hmax⟩, rfl⟩

/-! ### One more edit on top -/

private theorem chain_later (operationId : String) (version : Nat) (texts : List String) : ∀ anchor cursor,
    Rga.chain operationId (version + 1) texts anchor cursor =
      (Rga.chain operationId version texts anchor cursor).map fun a => { a with order := a.order + maxAtoms } := by
  induction texts with
  | nil => intro _ _; rfl
  | cons text texts ih =>
    intro anchor cursor
    have hkey : (version + 1) * Rga.maximumAtoms + cursor = version * Rga.maximumAtoms + cursor + maxAtoms := by
      unfold Rga.maximumAtoms maxAtoms
      omega
    rw [Rga.chain, Rga.chain, List.map_cons, ih, hkey]

private theorem insertedBy_later (input : DocumentEdit) (version : Nat) :
    insertedBy (input, version + 1) =
      (insertedBy (input, version)).map fun a => { a with order := a.order + maxAtoms } := by
  have key : ∀ (changes : List Change) (offset : Nat),
      Rga.insertedAtoms input.clientOperationId (version + 1) changes offset =
        (Rga.insertedAtoms input.clientOperationId version changes offset).map
          fun a => { a with order := a.order + maxAtoms } := by
    intro changes
    induction changes with
    | nil => intro _; rfl
    | cons change changes ih =>
      intro offset
      rw [Rga.insertedAtoms, Rga.insertedAtoms, List.map_append, chain_later, ih]
  exact key input.changes 0

theorem optimisticMerged_later (hknown : ∀ id ∈ known, id ∈ atoms.map Atom.id) (input : DocumentEdit) (version : Nat) :
    optimisticMerged (atoms.map (later known)) (input, version + 1) =
      (optimisticMerged atoms (input, version)).map (later known) := by
  have hadded : added (atoms.map (later known)) (insertedBy (input, version + 1)) =
      (added atoms (insertedBy (input, version))).map (later known) := by
    unfold added
    rw [map_later_id, insertedBy_later, List.filter_map]
    refine (List.map_congr_left fun a ha => ?_).trans rfl
    -- an atom that is added is not one of the known atoms
    have hnew := (List.mem_filter.1 ha).2
    simp only [Function.comp_apply, decide_eq_true_eq] at hnew
    unfold later
    rw [if_neg fun hin => hnew (hknown _ hin)]
  have hdeleted : deletedBy (input, version + 1) = deletedBy (input, version) := rfl
  unfold optimisticMerged
  rw [hadded, hdeleted, ← List.map_append, List.map_map, List.map_map]
  exact List.map_congr_left fun a _ => (later_mark known _ a).symm

/-- What holds of the atoms to which the pending edits are applied. -/
structure Displayed (known : List String) (bound : Nat) (atoms : List Atom) : Prop where
  ids : (atoms.map Atom.id).Nodup
  kept : ∀ id ∈ known, id ∈ atoms.map Atom.id
  parted : Parted known bound atoms

theorem withinTextLimit_later :
    WithinTextLimit (atoms.map (later known)) ↔ WithinTextLimit atoms := by
  have hvisible : Rga.visible (atoms.map (later known)) = (Rga.visible atoms).map (later known) := by
    unfold Rga.visible
    rw [List.filter_map]
    congr 1
    exact List.filter_congr fun a _ => by rw [Function.comp_apply, later_deleted]
  have htext : Rga.text (atoms.map (later known)) = Rga.text atoms := by
    unfold Rga.text
    rw [hvisible, List.map_map]
    congr 1
    exact List.map_congr_left fun a _ => later_text known a
  unfold WithinTextLimit
  rw [hvisible, htext, List.length_map]

section Step

variable {version : Nat} {input : DocumentEdit}

theorem mem_optimisticMerged {e : Ranked} {b : Atom} : b ∈ optimisticMerged atoms e ↔
    ∃ a, (a ∈ atoms ∨ a ∈ added atoms (insertedBy e)) ∧ Rga.mark (deletedBy e) a = b := by
  unfold optimisticMerged
  simp only [List.mem_map, List.mem_append]

theorem Displayed.parted_merged (h : Displayed known bound atoms) (hbound : bound ≤ version * maxAtoms) :
    Parted known bound (optimisticMerged atoms (input, version)) := by
  intro b hb
  obtain ⟨a, ha, rfl⟩ := mem_optimisticMerged.1 hb
  rcases ha with ha | ha
  · exact h.parted a ha
  · obtain ⟨ha, hnew⟩ := List.mem_filter.1 ha
    rw [decide_eq_true_eq] at hnew
    obtain ⟨i, -, -, -, horder, -⟩ := Rga.mem_insertedAtoms ha
    have hkey : a.order = version * maxAtoms + i := horder
    refine ⟨fun hin => absurd (h.kept _ hin) hnew, fun _ => ?_⟩
    rw [Rga.mark_order]
    omega

theorem Displayed.next (h : Displayed known bound atoms) (hbound : bound ≤ version * maxAtoms)
    (hout : optimisticApply lc atoms input version = .ok out) : Displayed known bound out := by
  have hiff : optimisticApply lc atoms (input, version).1 (input, version).2 = .ok out ↔ _ := optimisticApply_iff h.ids
  obtain ⟨-, horder, -⟩ := hiff.1 hout
  have hperm := orderAtoms_perm horder
  refine ⟨(hperm.map Atom.id).nodup_iff.2 (orderAtoms_ok.1 horder).1.ids, fun id hid => ?_, fun b hb => ?_⟩
  · rw [(hperm.map Atom.id).mem_iff, map_optimisticMerged_id]
    exact List.mem_append_left _ (h.kept id hid)
  · exact h.parted_merged hbound b (hperm.mem_iff.1 hb)

/-- An edit on top of later keys does the same, one version later. -/
theorem optimisticApply_earlier (h : Displayed known bound atoms) (hbound : bound ≤ version * maxAtoms)
    {out' : List Atom} (hout : optimisticApply lc (atoms.map (later known)) input (version + 1) = .ok out') :
    ∃ out, optimisticApply lc atoms input version = .ok out ∧ out' = out.map (later known) := by
  have hids : ((atoms.map (later known)).map Atom.id).Nodup := by
    rw [map_later_id]
    exact h.ids
  have hiff :
      optimisticApply lc (atoms.map (later known)) (input, version + 1).1 (input, version + 1).2 = .ok out' ↔ _ :=
    optimisticApply_iff hids
  obtain ⟨hrefers, horder, hlimit⟩ := hiff.1 hout
  rw [optimisticMerged_later h.kept] at horder
  obtain ⟨out, hearlier, rfl⟩ := orderAtoms_earlier (h.parted_merged hbound) horder
  rw [map_later_id] at hrefers
  have hiff' : optimisticApply lc atoms (input, version).1 (input, version).2 = .ok out ↔ _ := optimisticApply_iff h.ids
  exact ⟨out, hiff'.2 ⟨hrefers, hearlier, withinTextLimit_later.1 hlimit⟩, rfl⟩

theorem optimisticApply_later (h : Displayed known bound atoms) (hbound : bound ≤ version * maxAtoms)
    (hout : optimisticApply lc atoms input version = .ok out)
    (hsafe : ∀ a ∈ out, (later known a).order ≤ maxSafeInteger) :
    optimisticApply lc (atoms.map (later known)) input (version + 1) = .ok (out.map (later known)) := by
  have hiff : optimisticApply lc atoms (input, version).1 (input, version).2 = .ok out ↔ _ := optimisticApply_iff h.ids
  obtain ⟨hrefers, horder, hlimit⟩ := hiff.1 hout
  have hperm := orderAtoms_perm horder
  have horder' := orderAtoms_later (h.parted_merged hbound) horder fun a ha => hsafe a (hperm.mem_iff.2 ha)
  have hids : ((atoms.map (later known)).map Atom.id).Nodup := by
    rw [map_later_id]
    exact h.ids
  have hiff' : optimisticApply lc (atoms.map (later known)) (input, version + 1).1 (input, version + 1).2 =
    .ok (out.map (later known)) ↔ _ := optimisticApply_iff hids
  rw [optimisticMerged_later h.kept, map_later_id] at hiff'
  exact hiff'.2 ⟨hrefers, horder', withinTextLimit_later.2 hlimit⟩

/-- No atom that is displayed goes away, and none gets another key. -/
theorem mem_optimisticApply (hnd : (atoms.map Atom.id).Nodup)
    (hout : optimisticApply lc atoms input version = .ok out) {a : Atom} (ha : a ∈ atoms) :
    ∃ b ∈ out, b.id = a.id ∧ b.order = a.order := by
  have hiff : optimisticApply lc atoms (input, version).1 (input, version).2 = .ok out ↔ _ := optimisticApply_iff hnd
  obtain ⟨-, horder, -⟩ := hiff.1 hout
  refine ⟨Rga.mark (deletedBy (input, version)) a, ?_, rfl, rfl⟩
  rw [(orderAtoms_perm horder).mem_iff]
  exact mem_optimisticMerged.2 ⟨a, .inl ha, rfl⟩

end Step

/-! ### The whole queue -/

/-- The pending edits, of which the first one gets this index. -/
def applyPending (lc : Collation) (version index : Nat) (pending : List DocumentEdit) (atoms : List Atom) :
    Except ModelError (List Atom) :=
  (pending.zipIdx index).foldlM (fun atoms entry => optimisticApply lc atoms entry.1 (version + entry.2 + 1)) atoms

theorem applyPending_cons {lc : Collation} {version index : Nat} {input : DocumentEdit} {pending : List DocumentEdit}
    {atoms out : List Atom} : applyPending lc version index (input :: pending) atoms = .ok out ↔
      ∃ next, optimisticApply lc atoms input (version + index + 1) = .ok next ∧
        applyPending lc version (index + 1) pending next = .ok out := by
  unfold applyPending
  rw [List.zipIdx_cons, foldlM_cons_ok]

section Queue

variable {version : Nat} {pending : List DocumentEdit}

theorem mem_applyPending : ∀ {index : Nat} {atoms out : List Atom}, (atoms.map Atom.id).Nodup →
    applyPending lc version index pending atoms = .ok out →
    ∀ a ∈ atoms, ∃ b ∈ out, b.id = a.id ∧ b.order = a.order := by
  induction pending with
  | nil =>
    intro index atoms out _ h a ha
    obtain rfl := Except.ok.inj h
    exact ⟨a, ha, rfl, rfl⟩
  | cons input pending ih =>
    intro index atoms out hnd h a ha
    obtain ⟨next, hnext, h⟩ := applyPending_cons.1 h
    have hiff : optimisticApply lc atoms (input, version + index + 1).1 (input, version + index + 1).2 = .ok next ↔ _ :=
      optimisticApply_iff hnd
    obtain ⟨-, horder, -⟩ := hiff.1 hnext
    have hnd' := ((orderAtoms_perm horder).map Atom.id).nodup_iff.2 (orderAtoms_ok.1 horder).1.ids
    obtain ⟨b, hb, hid, hkey⟩ := mem_optimisticApply hnd hnext ha
    obtain ⟨c, hc, hid', hkey'⟩ := ih hnd' h b hb
    exact ⟨c, hc, hid'.trans hid, hkey'.trans hkey⟩

private theorem bound_next {index : Nat} (h : bound ≤ (version + index + 1) * maxAtoms) :
    bound ≤ (version + (index + 1) + 1) * maxAtoms := by
  refine h.trans (Nat.mul_le_mul_right _ ?_)
  omega

theorem Displayed.queue : ∀ {index : Nat} {atoms out : List Atom}, Displayed known bound atoms →
    bound ≤ (version + index + 1) * maxAtoms → applyPending lc version index pending atoms = .ok out →
    Displayed known bound out := by
  induction pending with
  | nil =>
    intro index atoms out hd _ h
    obtain rfl := Except.ok.inj h
    exact hd
  | cons input pending ih =>
    intro index atoms out hd hbound h
    obtain ⟨next, hnext, h⟩ := applyPending_cons.1 h
    exact ih (hd.next hbound hnext) (bound_next hbound) h

theorem applyPending_earlier : ∀ {index : Nat} {atoms out' : List Atom}, Displayed known bound atoms →
    bound ≤ (version + index + 1) * maxAtoms →
    applyPending lc version (index + 1) pending (atoms.map (later known)) = .ok out' →
    ∃ out, applyPending lc version index pending atoms = .ok out ∧ out' = out.map (later known) := by
  induction pending with
  | nil =>
    intro index atoms out' _ _ h
    obtain rfl := Except.ok.inj h
    exact ⟨atoms, rfl, rfl⟩
  | cons input pending ih =>
    intro index atoms out' hd hbound h
    obtain ⟨next', hnext', h⟩ := applyPending_cons.1 h
    obtain ⟨next, hnext, rfl⟩ := optimisticApply_earlier hd hbound hnext'
    have hbound' := bound_next hbound
    obtain ⟨out, hout, rfl⟩ := ih (hd.next hbound hnext) hbound' h
    exact ⟨out, applyPending_cons.2 ⟨next, hnext, hout⟩, rfl⟩

theorem applyPending_later : ∀ {index : Nat} {atoms out : List Atom}, Displayed known bound atoms →
    bound ≤ (version + index + 1) * maxAtoms → applyPending lc version index pending atoms = .ok out →
    (∀ a ∈ out, (later known a).order ≤ maxSafeInteger) →
    applyPending lc version (index + 1) pending (atoms.map (later known)) = .ok (out.map (later known)) := by
  induction pending with
  | nil =>
    intro index atoms out _ _ h _
    obtain rfl := Except.ok.inj h
    rfl
  | cons input pending ih =>
    intro index atoms out hd hbound h hsafe
    obtain ⟨next, hnext, h⟩ := applyPending_cons.1 h
    have hd' := hd.next hbound hnext
    have hbound' := bound_next hbound
    have hsafe' : ∀ a ∈ next, (later known a).order ≤ maxSafeInteger := by
      intro a ha
      obtain ⟨b, hb, hid, hkey⟩ := mem_applyPending hd'.ids h a ha
      have hle := hsafe b hb
      rw [later_order, hid, hkey, ← later_order known a] at hle
      exact hle
    exact applyPending_cons.2 ⟨_, optimisticApply_later hd hbound hnext hsafe', ih hd' hbound' h hsafe⟩

theorem atomText_earlier {atoms : List Atom} {content : String} (hd : Displayed known bound atoms)
    (h : atomText lc (atoms.map (later known)) = .ok content) : atomText lc atoms = .ok content := by
  obtain ⟨visible, hvisible, h⟩ := bind_ok.1 h
  obtain ⟨ordered', hordered', hvisible⟩ := bind_ok.1 hvisible
  obtain ⟨ordered, hordered, rfl⟩ := orderAtoms_earlier hd.parted hordered'
  obtain rfl := Except.ok.inj hvisible
  refine bind_ok.2 ⟨_, bind_ok.2 ⟨ordered, hordered, rfl⟩, ?_⟩
  rw [← h, List.filter_map, List.map_map]
  congr 2
  refine (List.map_congr_left fun a _ => (later_text known a).symm).trans ?_
  congr 1
  exact List.filter_congr fun a _ => by rw [Function.comp_apply, later_deleted]

theorem atomText_later {atoms : List Atom} {content : String} (hd : Displayed known bound atoms)
    (h : atomText lc atoms = .ok content) (hsafe : ∀ a ∈ atoms, (later known a).order ≤ maxSafeInteger) :
    ∃ content', atomText lc (atoms.map (later known)) = .ok content' := by
  obtain ⟨visible, hvisible, -⟩ := bind_ok.1 h
  obtain ⟨ordered, hordered, -⟩ := bind_ok.1 hvisible
  have hlater := orderAtoms_later hd.parted hordered hsafe
  exact ⟨_, bind_ok.2 ⟨_, bind_ok.2 ⟨_, hlater, rfl⟩, rfl⟩⟩

end Queue

end Model

/-! ### The queue with and without the edit -/

section

variable {rt : Runtime} {s : Store} {past : List Store}

/-- What the display shows of an atom, besides its key. -/
def Atom.shown (a : Atom) : String × Option String × String × Bool := (a.id, a.afterId, a.text, a.deleted)

private theorem shown_later (known : List String) (atoms : List Atom) :
    (atoms.map (later known)).map Atom.shown = atoms.map Atom.shown := by
  rw [List.map_map]
  refine List.map_congr_left fun a _ => ?_
  simp [Atom.shown]

theorem Lineage.version_bound (h : Lineage rt line ops) :
    ∀ d ∈ line, d.version ≤ 4000 := by
  induction h with
  | created h valid =>
    intro d hd
    obtain rfl := List.mem_singleton.1 hd
    have := h.version
    omega
  | committed lineage fresh h ih =>
    intro d hd
    rcases List.mem_cons.1 hd with rfl | hd
    · have := h.early
      have := h.version
      omega
    · exact ih d hd

theorem displayed_row (hd : Valid d) :
    Displayed (d.atoms.map Atom.id) ((d.version + 1) * maxAtoms) d.atoms :=
  ⟨hd.wellFormed.ids, fun _ hid => hid, fun a ha =>
    ⟨fun _ => hd.below a ha, fun hnew => absurd (List.mem_map_of_mem ha) hnew⟩⟩

private theorem map_later_row (d : Document) : d.atoms.map (later (d.atoms.map Atom.id)) = d.atoms := by
  refine (List.map_congr_left fun a ha => ?_).trans (List.map_id _)
  exact if_pos (List.mem_map_of_mem ha)

/-- A row that contains an edit, in any run: the edit changes nothing there, at any version; edits on top of it do the
same without it; and what the client publishes is the same with and without it in the queue, up to the keys of the
other pending atoms. -/
theorem lost_acknowledgement (lc : Collation) (h : Run rt (s :: past)) {d : Document} (hd : Recorded (s :: past) d)
    (hlive : d.erasedAt = none) {op : Operation} (hop : Logged (s :: past) op) (hdocument : op.documentId = d.id)
    (hle : op.version ≤ d.version) {input : DocumentEdit} (hclient : op.clientOperationId = input.clientOperationId)
    (hinput : op.input = .edit input.generation input.baseVersion input.changes) :
    (∀ orderVersion, optimisticApply lc d.atoms input orderVersion = .ok d.atoms) ∧
    (∀ orderVersion edits, optimisticAll lc d.atoms ((input, orderVersion) :: edits) =
      optimisticAll lc d.atoms edits) ∧
    ∀ snapshot pending, snapshot.atoms = d.atoms → snapshot.version = d.version →
      (∀ atoms content, UseSharedDocument.Engine.publish lc ⟨snapshot, input :: pending⟩ = .ok (atoms, content) →
        ∃ atoms', UseSharedDocument.Engine.publish lc ⟨snapshot, pending⟩ = .ok (atoms', content) ∧
          atoms.map Atom.shown = atoms'.map Atom.shown) ∧
      ∀ atoms' content, UseSharedDocument.Engine.publish lc ⟨snapshot, pending⟩ = .ok (atoms', content) →
        (∀ a ∈ atoms', a.order + maxAtoms ≤ maxSafeInteger) →
        ∃ atoms, UseSharedDocument.Engine.publish lc ⟨snapshot, input :: pending⟩ = .ok (atoms, content) := by
  obtain ⟨t, past', heq, hc⟩ := h.consistent
  obtain ⟨rfl, rfl⟩ := List.cons.inj heq
  obtain ⟨e, he, hid⟩ := List.mem_map.1 (hc.kept d hd)
  obtain ⟨line, ops, hh, -⟩ := hc.traced e he
  rw [hid] at hh
  have hline : d ∈ line := (hh.rows d).1 ⟨hd, rfl, hlive⟩
  have hvalid := hh.lineage.valid d hline
  have hcontains := hh.contains_edit hline ((hh.logged op).1 ⟨hop, hdocument⟩) hle hinput
  rw [hclient] at hcontains
  have hversion := hh.lineage.version_bound d hline
  have hagain := optimisticApply_again lc hvalid hversion hcontains
  refine ⟨hagain, fun orderVersion edits => ?_, fun snapshot pending hatoms hsnapshot => ?_⟩
  · unfold optimisticAll
    rw [List.foldlM_cons, hagain]
    rfl
  · obtain ⟨bound, hdisplayed, hbound⟩ : ∃ bound, Displayed (d.atoms.map Atom.id) bound d.atoms ∧
        bound ≤ (d.version + 0 + 1) * maxAtoms := ⟨_, displayed_row hvalid, le_refl _⟩
    -- with the edit in front the other ones are applied to the same atoms, at one version more
    have hwith : ∀ out, UseSharedDocument.Engine.display lc ⟨snapshot, input :: pending⟩ = .ok out ↔
        applyPending lc d.version 1 pending (d.atoms.map (later (d.atoms.map Atom.id))) = .ok out := by
      intro out
      have hdisplay : UseSharedDocument.Engine.display lc ⟨snapshot, input :: pending⟩ =
          applyPending lc d.version 0 (input :: pending) d.atoms := by rw [← hatoms, ← hsnapshot]; rfl
      rw [hdisplay, applyPending_cons, hagain, map_later_row]
      constructor
      · rintro ⟨next, hnext, h⟩
        obtain rfl := Except.ok.inj hnext
        exact h
      · exact fun h => ⟨_, rfl, h⟩
    have hwithout : UseSharedDocument.Engine.display lc ⟨snapshot, pending⟩ =
        applyPending lc d.version 0 pending d.atoms := by rw [← hatoms, ← hsnapshot]; rfl
    have hqueue : ∀ out, applyPending lc d.version 0 pending d.atoms = .ok out →
        Displayed (d.atoms.map Atom.id) bound out := fun out => hdisplayed.queue hbound
    have hearlier : ∀ out', applyPending lc d.version (0 + 1) pending (d.atoms.map (later (d.atoms.map Atom.id))) =
        .ok out' → ∃ out, applyPending lc d.version 0 pending d.atoms = .ok out ∧
          out' = out.map (later (d.atoms.map Atom.id)) := fun out' => applyPending_earlier hdisplayed hbound
    have hlater : ∀ out, applyPending lc d.version 0 pending d.atoms = .ok out →
        (∀ a ∈ out, (later (d.atoms.map Atom.id) a).order ≤ maxSafeInteger) →
        applyPending lc d.version (0 + 1) pending (d.atoms.map (later (d.atoms.map Atom.id))) =
          .ok (out.map (later (d.atoms.map Atom.id))) := fun out => applyPending_later hdisplayed hbound
    constructor
    · intro atoms content hpublish
      obtain ⟨shown, hshown, hpublish⟩ := bind_ok.1 hpublish
      obtain ⟨text, htext, hpublish⟩ := bind_ok.1 hpublish
      obtain ⟨rfl, rfl⟩ := Prod.mk.inj (Except.ok.inj hpublish)
      obtain ⟨out, hout, rfl⟩ := hearlier shown ((hwith _).1 hshown)
      have hnext := hqueue out hout
      rw [← hwithout] at hout
      exact ⟨out, bind_ok.2 ⟨out, hout, bind_ok.2 ⟨text, atomText_earlier hnext htext, rfl⟩⟩, shown_later _ _⟩
    · intro atoms' content hpublish hsafe
      obtain ⟨shown, hshown, hpublish⟩ := bind_ok.1 hpublish
      obtain ⟨text, htext, hpublish⟩ := bind_ok.1 hpublish
      obtain ⟨rfl, rfl⟩ := Prod.mk.inj (Except.ok.inj hpublish)
      rw [hwithout] at hshown
      have hsafe' : ∀ a ∈ shown, (later (d.atoms.map Atom.id) a).order ≤ maxSafeInteger := by
        intro a ha
        have hle := hsafe a ha
        rw [later_order]
        split <;> omega
      have hlater := hlater shown hshown hsafe'
      obtain ⟨content', htext'⟩ := atomText_later (hqueue shown hshown) htext hsafe'
      have hcontent := atomText_earlier (hqueue shown hshown) htext'
      obtain rfl : content' = text := Except.ok.inj (hcontent.symm.trans htext)
      exact ⟨_, bind_ok.2 ⟨_, (hwith _).2 hlater, bind_ok.2 ⟨content', htext', rfl⟩⟩⟩

end

section Sample

/-- The edit of the sample run, as the client that lost its acknowledgement keeps it. -/
private def lostEdit : DocumentEdit :=
  ⟨"00000000-0000-4000-8000-000000000002", 1, 1, [⟨none, [], "hi"⟩,
    ⟨some "00000000-0000-4000-8000-000000000002:1", ["00000000-0000-4000-8000-000000000002:0"], "!"⟩]⟩

theorem lost_acknowledgement_sample : ∃ d ∈ sampleStore2.documents, d.content = "i!" ∧
    optimisticApply codePointCollation d.atoms lostEdit 7 = .ok d.atoms := by
  have hd : ∃ d ∈ sampleStore2.documents, d.erasedAt = none ∧ d.content = "i!" ∧
      ∃ op ∈ sampleStore2.operations, op.documentId = d.id ∧ op.version ≤ d.version ∧
        op.clientOperationId = lostEdit.clientOperationId ∧
        op.input = .edit lostEdit.generation lostEdit.baseVersion lostEdit.changes := by decide +kernel
  obtain ⟨d, hd, hlive, hcontent, op, hop, hdocument, hle, hclient, hinput⟩ := hd
  have hrec : Recorded [sampleStore2, sampleStore1, Store.empty] d := ⟨sampleStore2, by simp, hd⟩
  have hlog : Logged [sampleStore2, sampleStore1, Store.empty] op := ⟨sampleStore2, by simp, hop⟩
  have hlost := lost_acknowledgement codePointCollation sampleRun hrec hlive hlog hdocument hle hclient hinput
  exact ⟨d, hd, hcontent, hlost.1 7⟩

end Sample

end KComms.Documents
