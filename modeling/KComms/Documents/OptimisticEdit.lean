import KComms.Documents.Agreement

/-!
# What an optimistic edit does

The loop of `optimisticApply` leaves the old atoms followed by the atoms of the edit whose ids are not in use yet, with
every atom marked that one of the changes deletes (`foldlM_optimisticChange`); `orderAtoms` then only reorders them.
-/

namespace KComms.Documents.Model

open FallibleLoop (bind_ok foldlM_cons_ok)

/-! ### The nodes of an optimistic edit -/

/-- Add the atoms whose ids are not in use. -/
def extend (nodes : Nodes) (atoms : List Atom) : Nodes :=
  atoms.foldl (fun nodes a => if nodes.has a.id then nodes else nodes.set a.id a) nodes

variable {operationId : String} {atoms out : List Atom} {changes : List Change} {lc : Collation}

private theorem foldl_optimisticInsert (operationId : String) (version : Nat) (texts : List String) :
    ∀ nodes anchor offset, ∃ anchor',
      texts.foldl (optimisticInsert operationId version) (nodes, anchor, offset) =
        (extend nodes (Rga.chain operationId version texts anchor offset), anchor', offset + texts.length) := by
  induction texts with
  | nil => intro nodes anchor offset; exact ⟨anchor, rfl⟩
  | cons text texts ih =>
    intro nodes anchor offset
    obtain ⟨anchor', h⟩ := ih (if nodes.has (Rga.atomId operationId offset) then nodes
      else nodes.set (Rga.atomId operationId offset)
        { id := Rga.atomId operationId offset, afterId := anchor, text := text, deleted := false,
          order := version * maxAtoms + offset }) (some (Rga.atomId operationId offset)) (offset + 1)
    refine ⟨anchor', ?_⟩
    rw [List.foldl_cons, optimisticInsert, h]
    rw [show offset + 1 + texts.length = offset + (text :: texts).length by simp; omega]
    rfl

private theorem foldlM_optimisticDelete (ids : List String) : ∀ {nodes nodes' : Nodes},
    ids.foldlM optimisticDelete nodes = .ok nodes' →
      nodes' = ids.foldl Rga.markDeleted nodes ∧ ∀ id ∈ ids, id ∈ nodes.keys := by
  induction ids with
  | nil =>
    intro nodes nodes' h
    exact ⟨(Except.ok.inj h).symm, by simp⟩
  | cons id ids ih =>
    intro nodes nodes' h
    obtain ⟨mid, hmid, h⟩ := foldlM_cons_ok.1 h
    unfold optimisticDelete at hmid
    split at hmid
    · rename_i hhas
      obtain rfl := Except.ok.inj hmid
      obtain ⟨rfl, hids⟩ := ih h
      refine ⟨rfl, fun i hi => ?_⟩
      rcases List.mem_cons.1 hi with rfl | hi
      · simpa using hhas
      · have := hids i hi
        rwa [Rga.markDeleted, OrderedMap.keys_modify] at this
    · exact absurd hmid (by simp)

/-- The atoms whose ids are not in use. -/
def unused (nodes : Nodes) (atoms : List Atom) : List Atom := atoms.filter fun a => a.id ∉ nodes.keys

private theorem entries_extend (atoms : List Atom) : ∀ {nodes : Nodes}, Rga.Keyed nodes → (atoms.map Atom.id).Nodup →
    (extend nodes atoms).entries = nodes.entries ++ (unused nodes atoms).map Rga.keyed ∧
      Rga.Keyed (extend nodes atoms) := by
  induction atoms with
  | nil => intro nodes hk _; exact ⟨by simp [extend, unused], hk⟩
  | cons a atoms ih =>
    intro nodes hk hnd
    rw [List.map_cons, List.nodup_cons] at hnd
    have hextend : extend nodes (a :: atoms) = extend (if nodes.has a.id then nodes else nodes.set a.id a) atoms := rfl
    by_cases hhas : a.id ∈ nodes.keys
    · have hcond : nodes.has a.id = true := by simpa using hhas
      rw [hextend, if_pos hcond]
      have hunused : unused nodes (a :: atoms) = unused nodes atoms := by
        unfold unused
        rw [List.filter_cons_of_neg (by simpa using hhas)]
      rw [hunused]
      exact ih hk hnd.2
    · have hcond : ¬ nodes.has a.id = true := by simpa using hhas
      rw [hextend, if_neg hcond]
      have hentries : (nodes.set a.id a).entries = nodes.entries ++ [Rga.keyed a] :=
        OrderedMap.entries_set_of_not_mem hhas a
      have hkeyed : Rga.Keyed (nodes.set a.id a) := by
        intro e he
        rw [hentries] at he
        rcases List.mem_append.1 he with he | he
        · exact hk e he
        · obtain rfl := List.mem_singleton.1 he
          rfl
      obtain ⟨h1, h2⟩ := ih hkeyed hnd.2
      refine ⟨?_, h2⟩
      have hunused : unused nodes (a :: atoms) = a :: unused (nodes.set a.id a) atoms := by
        unfold unused
        rw [List.filter_cons_of_pos (by simpa using hhas)]
        congr 1
        apply List.filter_congr
        intro b hb
        have hne : b.id ≠ a.id := fun heq => hnd.1 (heq ▸ List.mem_map_of_mem hb)
        simp [OrderedMap.mem_keys_set, hne]
      rw [h1, hentries, hunused]
      simp

private theorem mem_keys_extend {nodes : Nodes} (hk : Rga.Keyed nodes) (hnd : (atoms.map Atom.id).Nodup) {id : String} :
    id ∈ (extend nodes atoms).keys ↔ id ∈ nodes.keys ∨ id ∈ atoms.map Atom.id := by
  rw [OrderedMap.keys, (entries_extend atoms hk hnd).1, List.map_append, List.mem_append, Rga.map_keyed_fst]
  constructor
  · rintro (h | h)
    · exact Or.inl h
    · obtain ⟨a, ha, rfl⟩ := List.mem_map.1 h
      exact Or.inr (List.mem_map_of_mem (List.mem_filter.1 ha).1)
  · rintro (h | h)
    · exact Or.inl h
    · by_cases hin : id ∈ nodes.keys
      · exact Or.inl hin
      · obtain ⟨a, ha, rfl⟩ := List.mem_map.1 h
        exact Or.inr (List.mem_map_of_mem (List.mem_filter.2 ⟨ha, by simpa using hin⟩))

private theorem optimisticChange_ok {version : Nat} {nodes nodes' : Nodes} {offset offset' : Nat} {change : Change}
    (h : optimisticChange operationId version (nodes, offset) change = .ok (nodes', offset')) :
    (∀ id, change.afterId = some id → id ∈ nodes.keys) ∧ (∀ id ∈ change.deleteIds, id ∈ nodes.keys) ∧
    nodes' = extend (change.deleteIds.foldl Rga.markDeleted nodes)
      (Rga.chain operationId version (codepoints change.insert) change.afterId offset) ∧
    offset' = offset + (codepoints change.insert).length := by
  unfold optimisticChange at h
  split at h
  · exact absurd h (by simp)
  rename_i hanchor
  obtain ⟨mid, hmid, h⟩ := bind_ok.1 h
  obtain ⟨rfl, hdel⟩ := foldlM_optimisticDelete _ hmid
  obtain ⟨anchor', hfold⟩ := foldl_optimisticInsert operationId version (codepoints change.insert)
    (change.deleteIds.foldl Rga.markDeleted nodes) change.afterId offset
  dsimp only at h
  rw [hfold] at h
  obtain ⟨rfl, rfl⟩ := Prod.mk.inj (Except.ok.inj h)
  refine ⟨fun id hid => ?_, hdel, rfl, rfl⟩
  by_contra hnot
  have hhas : nodes.has id = false := Bool.eq_false_iff.2 fun hh => hnot (OrderedMap.has_iff.1 hh)
  exact hanchor (by simp [hid, hhas])

/-- What the loop over the changes of an optimistic edit leaves. -/
theorem foldlM_optimisticChange {version : Nat} :
    ∀ {nodes nodes' : Nodes} {offset offset' : Nat}, Rga.Keyed nodes →
      changes.foldlM (optimisticChange operationId version) (nodes, offset) = .ok (nodes', offset') →
      nodes'.entries = (nodes.entries ++
        (unused nodes (Rga.insertedAtoms operationId version changes offset)).map Rga.keyed).map
          (fun e => (e.1, Rga.mark (Rga.deletedIds changes) e.2)) ∧
      ∀ id ∈ Rga.deletedIds changes, id ∈ nodes'.keys := by
  induction changes with
  | nil =>
    intro nodes nodes' offset offset' _ h
    obtain ⟨rfl, -⟩ := Prod.mk.inj (Except.ok.inj h)
    simp [Rga.insertedAtoms, Rga.deletedIds, unused]
  | cons change changes ih =>
    intro nodes nodes' offset offset' hk h
    have hnd := Rga.nodup_insertedAtoms_ids operationId version (change :: changes) offset
    obtain ⟨⟨q, off⟩, hq, h⟩ := foldlM_cons_ok.1 h
    obtain ⟨-, hdel, rfl, rfl⟩ := optimisticChange_ok hq
    generalize hnew : Rga.chain operationId version (codepoints change.insert) change.afterId offset = new at *
    generalize hrest : Rga.insertedAtoms operationId version changes (offset + (codepoints change.insert).length) = rest
      at *
    have hins : Rga.insertedAtoms operationId version (change :: changes) offset = new ++ rest := by
      rw [Rga.insertedAtoms, hnew, hrest]
    rw [hins, List.map_append, List.nodup_append] at hnd
    have hmarked : (change.deleteIds.foldl Rga.markDeleted nodes).entries =
        nodes.entries.map fun e => (e.1, Rga.mark change.deleteIds e.2) := Rga.foldl_markDeleted_entries _ hk
    have hmk : Rga.Keyed (change.deleteIds.foldl Rga.markDeleted nodes) := by
      intro e he
      rw [hmarked] at he
      obtain ⟨e', he', rfl⟩ := List.mem_map.1 he
      exact hk e' he'
    obtain ⟨hentries, hkeyed⟩ := entries_extend new hmk hnd.1
    have hunused : unused (change.deleteIds.foldl Rga.markDeleted nodes) new = unused nodes new := by
      unfold unused
      rw [Rga.keys_foldl_markDeleted]
    have hunused' : unused (extend (change.deleteIds.foldl Rga.markDeleted nodes) new) rest = unused nodes rest := by
      unfold unused
      apply List.filter_congr
      intro a ha
      have hne : a.id ∉ new.map Atom.id := fun hm => hnd.2.2 _ hm _ (List.mem_map_of_mem ha) rfl
      simp only [mem_keys_extend hmk hnd.1, hne, or_false, Rga.keys_foldl_markDeleted]
    obtain ⟨hfinal, hknown⟩ := ih hkeyed h
    -- an atom that is new cannot be deleted before it is inserted
    have hfresh : ∀ a ∈ unused nodes (new ++ rest), a.id ∉ change.deleteIds := by
      intro a ha hm
      have := (List.mem_filter.1 ha).2
      simp only [decide_eq_true_eq] at this
      exact this (hdel _ hm)
    refine ⟨?_, ?_⟩
    · rw [hfinal, hrest, hunused', hentries, hunused, hmarked, hins,
        show unused nodes (new ++ rest) = unused nodes new ++ unused nodes rest from List.filter_append ..,
        List.map_append (f := Rga.keyed), ← List.append_assoc]
      have hkeep : ∀ l : List Atom, (∀ a ∈ l, a ∈ unused nodes (new ++ rest)) →
          (l.map Rga.keyed).map (fun e => (e.1, Rga.mark (Rga.deletedIds changes) e.2)) =
          (l.map Rga.keyed).map (fun e => (e.1, Rga.mark (Rga.deletedIds (change :: changes)) e.2)) := by
        intro l hl
        rw [List.map_map, List.map_map]
        apply List.map_congr_left
        intro a ha
        simp only [Function.comp, Rga.keyed, Prod.mk.injEq, true_and]
        exact (Rga.mark_of_not_mem (hfresh a (hl a ha))).symm
      simp only [List.map_append (f := fun e : String × Atom => (e.1, Rga.mark _ e.2))]
      rw [hkeep (unused nodes new), hkeep (unused nodes rest)]
      · congr 2
        rw [List.map_map]
        apply List.map_congr_left
        intro e _
        simp only [Function.comp, Rga.mark_mark]
        rfl
      · intro a ha
        rw [show unused nodes (new ++ rest) = unused nodes new ++ unused nodes rest from List.filter_append ..]
        exact List.mem_append_right _ ha
      · intro a ha
        rw [show unused nodes (new ++ rest) = unused nodes new ++ unused nodes rest from List.filter_append ..]
        exact List.mem_append_left _ ha
    · intro id hid
      rw [Rga.deletedIds, List.flatMap_cons, List.mem_append] at hid
      rcases hid with hid | hid
      · have hmem : id ∈ nodes.keys := hdel id hid
        rw [OrderedMap.keys, hfinal, List.map_map]
        obtain ⟨e, he, rfl⟩ := List.mem_map.1 hmem
        rw [hentries, hmarked]
        simp only [List.map_append, List.mem_append, List.map_map]
        exact Or.inl (Or.inl (List.mem_map.2 ⟨e, he, rfl⟩))
      · exact hknown id hid

/-! ### When the loop does not throw -/

/-- The changes refer to these ids and to those of earlier atoms of the edit only. -/
def Refers (operationId : String) : List String → Nat → List Change → Prop
  | _, _, [] => True
  | ids, offset, change :: changes =>
    (∀ id, change.afterId = some id → id ∈ ids) ∧ (∀ id ∈ change.deleteIds, id ∈ ids) ∧
      Refers operationId (ids ++ (List.range' offset (codepoints change.insert).length).map (Rga.atomId operationId))
        (offset + (codepoints change.insert).length) changes

theorem Refers.mono : ∀ {ids ids' : List String} {offset : Nat},
    (∀ id ∈ ids, id ∈ ids') → Refers operationId ids offset changes → Refers operationId ids' offset changes := by
  induction changes with
  | nil => intro _ _ _ _ _; trivial
  | cons change changes ih =>
    intro ids ids' offset hsub h
    obtain ⟨hanchor, hdelete, hrest⟩ := h
    refine ⟨fun id hid => hsub id (hanchor id hid), fun id hid => hsub id (hdelete id hid), ih ?_ hrest⟩
    intro id hid
    rcases List.mem_append.1 hid with hid | hid
    · exact List.mem_append_left _ (hsub id hid)
    · exact List.mem_append_right _ hid

theorem refers_of_forall : ∀ {ids : List String} {offset : Nat},
    (∀ change ∈ changes, (∀ id, change.afterId = some id → id ∈ ids) ∧ ∀ id ∈ change.deleteIds, id ∈ ids) →
    Refers operationId ids offset changes := by
  induction changes with
  | nil => intro _ _ _; trivial
  | cons change changes ih =>
    intro ids offset h
    obtain ⟨hanchor, hdelete⟩ := h change List.mem_cons_self
    refine ⟨hanchor, hdelete, ih fun c hc => ?_⟩
    obtain ⟨hanchor, hdelete⟩ := h c (List.mem_cons_of_mem _ hc)
    exact ⟨fun id hid => List.mem_append_left _ (hanchor id hid), fun id hid => List.mem_append_left _ (hdelete id hid)⟩

private theorem foldlM_optimisticDelete_isOk (ids : List String) : ∀ {nodes : Nodes}, (∀ id ∈ ids, id ∈ nodes.keys) →
    ids.foldlM optimisticDelete nodes = .ok (ids.foldl Rga.markDeleted nodes) := by
  induction ids with
  | nil => intro _ _; rfl
  | cons id ids ih =>
    intro nodes h
    have hstep : optimisticDelete nodes id = .ok (Rga.markDeleted nodes id) :=
      if_pos (OrderedMap.has_iff.2 (h id List.mem_cons_self))
    refine foldlM_cons_ok.2 ⟨_, hstep, ih fun i hi => ?_⟩
    rw [Rga.markDeleted, OrderedMap.keys_modify]
    exact h i (List.mem_cons_of_mem _ hi)

private theorem keyed_foldl_markDeleted (ids : List String) {nodes : Nodes} (hk : Rga.Keyed nodes) :
    Rga.Keyed (ids.foldl Rga.markDeleted nodes) := by
  intro e he
  rw [Rga.foldl_markDeleted_entries ids hk] at he
  obtain ⟨e', he', rfl⟩ := List.mem_map.1 he
  exact hk e' he'

/-- The loop over the changes succeeds exactly if they refer to known atoms. -/
theorem foldlM_optimisticChange_isOk {version : Nat} :
    ∀ {nodes : Nodes} {offset : Nat}, Rga.Keyed nodes →
      ((∃ state, changes.foldlM (optimisticChange operationId version) (nodes, offset) = .ok state) ↔
        Refers operationId nodes.keys offset changes) := by
  induction changes with
  | nil => intro nodes offset _; exact ⟨fun _ => trivial, fun _ => ⟨_, rfl⟩⟩
  | cons change changes ih =>
    intro nodes offset hk
    have hmk := keyed_foldl_markDeleted change.deleteIds hk
    have hnd := Rga.nodup_insertedAtoms_ids operationId version [change] offset
    rw [Rga.insertedAtoms, Rga.insertedAtoms, List.append_nil] at hnd
    obtain ⟨-, hkeyed⟩ := entries_extend _ hmk hnd
    -- the ids that are known after the change
    have hkeys : ∀ id, id ∈ (extend (change.deleteIds.foldl Rga.markDeleted nodes)
        (Rga.chain operationId version (codepoints change.insert) change.afterId offset)).keys ↔
        id ∈ nodes.keys ++
          (List.range' offset (codepoints change.insert).length).map (Rga.atomId operationId) := by
      intro id
      rw [mem_keys_extend hmk hnd, Rga.keys_foldl_markDeleted, Rga.chain_ids, List.mem_append]
    constructor
    · rintro ⟨state, h⟩
      obtain ⟨⟨q, off⟩, hq, h⟩ := foldlM_cons_ok.1 h
      obtain ⟨hanchor, hdelete, rfl, rfl⟩ := optimisticChange_ok hq
      exact ⟨hanchor, hdelete, ((ih hkeyed).1 ⟨state, h⟩).mono fun id hid => (hkeys id).1 hid⟩
    · rintro ⟨hanchor, hdelete, hrest⟩
      obtain ⟨state, h⟩ := (ih hkeyed).2 (hrest.mono fun id hid => (hkeys id).2 hid)
      obtain ⟨anchor', hfold⟩ := foldl_optimisticInsert operationId version (codepoints change.insert)
        (change.deleteIds.foldl Rga.markDeleted nodes) change.afterId offset
      refine ⟨state, foldlM_cons_ok.2 ⟨_, ?_, h⟩⟩
      unfold optimisticChange
      rw [if_neg]
      · refine bind_ok.2 ⟨_, foldlM_optimisticDelete_isOk _ hdelete, ?_⟩
        dsimp only
        rw [hfold]
      · cases hafter : change.afterId with
        | none => simp
        | some id =>
          have hhas := OrderedMap.has_iff.2 (hanchor id hafter)
          simp [hhas]

/-! ### The whole edit -/

/-- An edit with the version that orders its atoms. -/
abbrev Ranked := DocumentEdit × Nat

def insertedBy (e : Ranked) : List Atom := Rga.insertedAtoms e.1.clientOperationId e.2 e.1.changes 0

def deletedBy (e : Ranked) : List String := Rga.deletedIds e.1.changes

/-- The atoms among `new` whose ids do not occur in `atoms`. -/
def added (atoms new : List Atom) : List Atom := new.filter fun a => a.id ∉ atoms.map Atom.id

/-- The nodes of an optimistic edit in insertion order. -/
def optimisticMerged (atoms : List Atom) (e : Ranked) : List Atom :=
  (atoms ++ added atoms (insertedBy e)).map (Rga.mark (deletedBy e))

/-- `orderAtoms` returns the atoms it is given. -/
theorem orderAtoms_perm (h : orderAtoms lc atoms = .ok out) :
    out.Perm atoms := by
  obtain ⟨hs, hwalk, hlen, -⟩ := orderAtoms_ok.1 h
  have hnd := List.Nodup.of_map _ (ForestWalk.walk_nodup hs.ids (lists_siblings lc atoms) hwalk)
  have hsub := ForestWalk.walk_subset hs.ids (lists_siblings lc atoms) hwalk
  exact (hnd.subperm hsub).perm_of_length_le hlen.ge

/-- The bounds on the text that an edit leaves. -/
def WithinTextLimit (atoms : List Atom) : Prop :=
  (Rga.visible atoms).length ≤ 16000 ∧ (Rga.text atoms).utf8ByteSize ≤ 65536

/-- An optimistic edit puts its nodes in order, if it refers to known atoms and the text does not become too long. -/
theorem optimisticApply_iff {e : Ranked} (hnd : (atoms.map Atom.id).Nodup) :
    optimisticApply lc atoms e.1 e.2 = .ok out ↔
      Refers e.1.clientOperationId (atoms.map Atom.id) 0 e.1.changes ∧
      orderAtoms lc (optimisticMerged atoms e) = .ok out ∧ WithinTextLimit out := by
  have hkeyed : Rga.Keyed (OrderedMap.ofList (atoms.map Rga.keyed)) := Rga.keyed_index hnd
  have hok : (∃ state, e.1.changes.foldlM (optimisticChange e.1.clientOperationId e.2)
      (OrderedMap.ofList (atoms.map Rga.keyed), 0) = .ok state) ↔
      Refers e.1.clientOperationId (OrderedMap.ofList (atoms.map Rga.keyed)).keys 0 e.1.changes :=
    foldlM_optimisticChange_isOk hkeyed
  rw [Rga.keys_index hnd] at hok
  have hvalues : ∀ {state : Nodes × Nat}, e.1.changes.foldlM (optimisticChange e.1.clientOperationId e.2)
      (OrderedMap.ofList (atoms.map Rga.keyed), 0) = .ok state → state.1.values = optimisticMerged atoms e := by
    rintro ⟨nodes, offset⟩ hloop
    obtain ⟨hentries, -⟩ := foldlM_optimisticChange hkeyed hloop
    have hunused : unused (OrderedMap.ofList (atoms.map Rga.keyed)) (insertedBy e) = added atoms (insertedBy e) := by
      unfold unused added
      rw [Rga.keys_index hnd]
    have hmerged : nodes.entries = (optimisticMerged atoms e).map Rga.keyed := by
      rw [hentries, Rga.entries_index hnd]
      change ((_ ++ (unused _ (insertedBy e)).map Rga.keyed).map _) = _
      rw [hunused, ← List.map_append, List.map_map, optimisticMerged, List.map_map]
      rfl
    rw [OrderedMap.values, hmerged, List.map_map]
    exact List.map_id _
  constructor
  · intro h
    obtain ⟨⟨nodes, offset⟩, hloop, h⟩ := bind_ok.1 h
    obtain ⟨result, hresult, h⟩ := bind_ok.1 h
    dsimp only at h
    split at h
    · exact absurd h (by simp)
    rename_i hlimit
    obtain rfl := Except.ok.inj h
    rw [hvalues hloop] at hresult
    rw [not_or, Nat.not_lt, Nat.not_lt] at hlimit
    exact ⟨hok.1 ⟨_, hloop⟩, hresult, hlimit⟩
  · rintro ⟨hrefers, horder, hlimit⟩
    obtain ⟨state, hloop⟩ := hok.2 hrefers
    rw [← hvalues hloop] at horder
    refine bind_ok.2 ⟨state, hloop, bind_ok.2 ⟨out, horder, ?_⟩⟩
    exact if_neg (by rw [not_or, Nat.not_lt, Nat.not_lt]; exact hlimit)

/-- What is known of an optimistic edit that did not throw. -/
theorem optimisticApply_ok {e : Ranked} (hnd : (atoms.map Atom.id).Nodup)
    (h : optimisticApply lc atoms e.1 e.2 = .ok out) :
    orderAtoms lc (optimisticMerged atoms e) = .ok out ∧
      ∀ id ∈ deletedBy e, id ∈ (optimisticMerged atoms e).map Atom.id := by
  obtain ⟨⟨nodes, offset⟩, hloop, h⟩ := bind_ok.1 h
  obtain ⟨result, hresult, h⟩ := bind_ok.1 h
  dsimp only at h
  split at h
  · exact absurd h (by simp)
  obtain rfl := Except.ok.inj h
  obtain ⟨hentries, hknown⟩ := foldlM_optimisticChange (Rga.keyed_index hnd) hloop
  have hunused : unused (OrderedMap.ofList (atoms.map Rga.keyed)) (insertedBy e) = added atoms (insertedBy e) := by
    unfold unused added
    rw [Rga.keys_index hnd]
  have hmerged : nodes.entries = (optimisticMerged atoms e).map Rga.keyed := by
    rw [hentries, Rga.entries_index hnd]
    change ((_ ++ (unused _ (insertedBy e)).map Rga.keyed).map _) = _
    rw [hunused, ← List.map_append, List.map_map, optimisticMerged, List.map_map]
    rfl
  refine ⟨?_, fun id hid => ?_⟩
  · have hvalues : nodes.values = optimisticMerged atoms e := by
      rw [OrderedMap.values, hmerged, List.map_map]
      exact List.map_id _
    rw [← hvalues]
    exact hresult
  · have := hknown id hid
    rwa [OrderedMap.keys, hmerged, Rga.map_keyed_fst] at this

end KComms.Documents.Model
