import KComms.Documents.Agreement
import KComms.Documents.LocalEdits

/-!
# Remote cursors

A selection is sent as the ids of the atoms that it stands behind, and shown at the offsets behind these atoms.  Deleted
atoms stay in the order with no width, and committed operations do not change the order of what is there
(`committedApply_order`); so a selection stays attached to its text (`selection_attached`).
-/

namespace KComms.Documents.Model

open FallibleLoop (bind_ok foldlM_cons_ok)

/-- `at` in `selectionIds`: the last of the visible atoms that end at or before the position. -/
def idAt (position : Nat) : List Atom → Nat → Option String → Option String
  | [], _, id => id
  | atom :: visible, offset, id =>
    if offset + utf16Length atom.text > position then id
    else idAt position visible (offset + utf16Length atom.text) (some atom.id)

def selectionIds (lc : Collation) (atoms : List Atom) (anchor head : Nat) :
    Except ModelError (Option String × Option String) := do
  let visible ← visibleAtoms lc atoms
  .ok (idAt anchor visible 0 none, idAt head visible 0 none)

/-- One round of the loop of `selectionOffsets`. -/
def offsetBehind (state : OrderedMap (Option String) Nat × Nat) (atom : Atom) : OrderedMap (Option String) Nat × Nat :=
  let (offsets, offset) := state
  let offset := if atom.deleted then offset else offset + utf16Length atom.text
  (offsets.set (some atom.id) offset, offset)

def selectionOffsets (lc : Collation) (atoms : List Atom) (anchorId headId : Option String) :
    Except ModelError (Option (Nat × Nat)) := do
  let ordered ← orderAtoms lc atoms
  let (offsets, _) := ordered.foldl offsetBehind (OrderedMap.empty.set none 0, 0)
  match offsets.get? anchorId, offsets.get? headId with
  | some anchor, some head => .ok (some (anchor, head))
  | _, _ => .ok none

/-! ### Offsets of atoms -/

/-- The offset is the length of the visible text up to and including the atom, which may be deleted. -/
def Behind (ordered : List Atom) : Option String → Nat → Prop
  | none, offset => offset = 0
  | some id, offset => ∃ before a after, ordered = before ++ a :: after ∧ a.id = id ∧
      offset = utf16Length (Rga.text (before ++ [a]))

variable {ordered before after : List Atom} {id : Option String} {lc : Collation} {ids : List String}

theorem utf16Length_text (atoms : List Atom) : utf16Length (Rga.text atoms) = width (Rga.visible atoms) := by
  rw [← utf16_text, ← length_utf16]
  rfl

theorem visible_append (l l' : List Atom) : Rga.visible (l ++ l') = Rga.visible l ++ Rga.visible l' :=
  List.filter_append ..

theorem offsetBehind_eq (state : OrderedMap (Option String) Nat × Nat) (a : Atom) : offsetBehind state a =
    (state.1.set (some a.id) (state.2 + width (Rga.visible [a])), state.2 + width (Rga.visible [a])) := by
  unfold offsetBehind Rga.visible
  by_cases ha : a.deleted = true
  · simp [ha]
  · simp [ha, width]

theorem foldl_offsetBehind_snd (l : List Atom) : ∀ state : OrderedMap (Option String) Nat × Nat,
    (l.foldl offsetBehind state).2 = state.2 + width (Rga.visible l) := by
  induction l with
  | nil => intro state; rfl
  | cons a l ih =>
    intro state
    have hsplit : Rga.visible (a :: l) = Rga.visible [a] ++ Rga.visible l := visible_append [a] l
    rw [List.foldl_cons, ih, offsetBehind_eq, hsplit, width_append, ← Nat.add_assoc]

theorem foldl_offsetBehind_other (l : List Atom) {key : Option String} (hkey : ∀ a ∈ l, some a.id ≠ key) :
    ∀ state : OrderedMap (Option String) Nat × Nat, (l.foldl offsetBehind state).1.get? key = state.1.get? key := by
  induction l with
  | nil => intro state; rfl
  | cons a l ih =>
    intro state
    rw [List.foldl_cons, ih (fun b hb => hkey b (List.mem_cons_of_mem _ hb)), offsetBehind_eq, OrderedMap.get?_set,
      if_neg (hkey a List.mem_cons_self)]

theorem get?_behind (hnd : (ordered.map Atom.id).Nodup) {offset : Nat} (h : Behind ordered id offset) :
    (ordered.foldl offsetBehind (OrderedMap.empty.set none 0, 0)).1.get? id = some offset := by
  cases id with
  | none =>
    obtain rfl := h
    rw [foldl_offsetBehind_other ordered fun a _ => by simp]
    rfl
  | some id =>
    obtain ⟨before, a, after, rfl, rfl, rfl⟩ := h
    have hafter : ∀ b ∈ after, some b.id ≠ some a.id := by
      intro b hb heq
      rw [List.map_append, List.map_cons, List.nodup_append] at hnd
      rw [← Option.some.inj heq] at hnd
      exact (List.nodup_cons.1 hnd.2.1).1 (List.mem_map_of_mem hb)
    rw [List.foldl_append, List.foldl_cons, foldl_offsetBehind_other after hafter, offsetBehind_eq, OrderedMap.get?_set,
      if_pos rfl, foldl_offsetBehind_snd, Nat.zero_add, utf16Length_text, visible_append, width_append]

theorem Behind.unique (hnd : (ordered.map Atom.id).Nodup) {m n : Nat} (hm : Behind ordered id m)
    (hn : Behind ordered id n) : m = n :=
  Option.some.inj ((get?_behind hnd hm).symm.trans (get?_behind hnd hn))

theorem exists_behind (h : ∀ i, id = some i → i ∈ ordered.map Atom.id) :
    ∃ offset, Behind ordered id offset := by
  cases id with
  | none => exact ⟨0, rfl⟩
  | some id =>
    obtain ⟨a, ha, rfl⟩ := List.mem_map.1 (h id rfl)
    obtain ⟨before, after, rfl⟩ := List.append_of_mem ha
    exact ⟨_, before, a, after, rfl, rfl, rfl⟩

theorem selectionOffsets_behind {atoms : List Atom} (h : orderAtoms lc atoms = .ok ordered)
    {anchorId headId : Option String} {anchor head : Nat} (ha : Behind ordered anchorId anchor)
    (hh : Behind ordered headId head) : selectionOffsets lc atoms anchorId headId = .ok (some (anchor, head)) := by
  have hids := (orderAtoms_ok.1 (orderAtoms_ordered h)).1.ids
  unfold selectionOffsets
  rw [h]
  refine bind_ok.2 ⟨ordered, rfl, ?_⟩
  dsimp only
  rw [get?_behind hids ha, get?_behind hids hh]

/-! ### The ids of a selection -/

theorem idAt_split (h : Wide (before ++ after)) : ∀ (offset : Nat) (id : Option String),
    idAt (offset + width before) (before ++ after) offset id = (before.getLast?.map Atom.id).or id := by
  induction before with
  | nil =>
    intro offset id
    cases after with
    | nil => rfl
    | cons a after =>
      have ha := h a (by simp)
      rw [List.nil_append, idAt, if_pos (by rw [width_nil]; omega)]
      rfl
  | cons b before ih =>
    intro offset id
    have hwidth : width (b :: before) = utf16Length b.text + width before := by simp [width]
    rw [List.cons_append, idAt, if_neg (by omega), hwidth, ← Nat.add_assoc,
      ih (fun a ha => h a (List.mem_cons_of_mem _ ha)), List.getLast?_cons]
    cases before.getLast? <;> rfl

/-- The last of the first visible atoms is where they end. -/
theorem behind_getLast (h : Rga.visible ordered = before ++ after) :
    Behind ordered (before.getLast?.map Atom.id) (width before) := by
  rcases List.eq_nil_or_concat before with rfl | ⟨init, a, rfl⟩
  · rfl
  · rw [List.concat_eq_append, List.append_assoc, List.singleton_append] at h
    obtain ⟨l, rest, rfl, hl, hrest⟩ := List.filter_eq_append_iff.1 h
    obtain ⟨gone, rest', rfl, hgone, ha, -⟩ := List.filter_eq_cons_iff.1 hrest
    rw [List.concat_eq_append, List.getLast?_concat]
    refine ⟨l ++ gone, a, rest', (List.append_assoc ..).symm, rfl, ?_⟩
    have hnone : Rga.visible gone = [] := List.filter_eq_nil_iff.2 hgone
    have hone : Rga.visible [a] = [a] := List.filter_eq_self.2 fun x hx => by rw [List.mem_singleton.1 hx]; exact ha
    rw [utf16Length_text, visible_append, visible_append, hnone, hone, List.append_nil]
    exact congrArg (fun l => width (l ++ [a])) hl.symm

/-- The first atom is the second one or stands before it. -/
def NotAfter (ids : List String) : Option String → Option String → Prop
  | none, _ => True
  | some _, none => False
  | some id, some id' => id = id' ∨ List.Sublist [id, id'] ids

theorem NotAfter.mono {ids' : List String} (h : List.Sublist ids ids') {id' : Option String}
    (hle : NotAfter ids id id') : NotAfter ids' id id' := by
  cases id with
  | none => trivial
  | some id =>
    cases id' with
    | none => exact hle
    | some id' => exact hle.imp_right fun hsub => hsub.trans h

theorem NotAfter.offsets (hnd : (ordered.map Atom.id).Nodup) {id' : Option String} {m n : Nat}
    (hle : NotAfter (ordered.map Atom.id) id id') (hm : Behind ordered id m) (hn : Behind ordered id' n) : m ≤ n := by
  cases id with
  | none =>
    obtain rfl := hm
    exact Nat.zero_le _
  | some id =>
    cases id' with
    | none => exact hle.elim
    | some id' =>
      rcases hle with rfl | hsub
      · exact Nat.le_of_eq (hm.unique hnd hn)
      · obtain ⟨r, r', hsplit, hr, hr'⟩ := List.cons_sublist_iff.1 hsub
        obtain ⟨l, l', rfl, rfl, rfl⟩ := List.map_eq_append_iff.1 hsplit
        obtain ⟨a, ha, rfl⟩ := List.mem_map.1 hr
        obtain ⟨b, hb, rfl⟩ := List.mem_map.1 (List.singleton_sublist.1 hr')
        obtain ⟨x, y, rfl⟩ := List.append_of_mem ha
        obtain ⟨z, w, rfl⟩ := List.append_of_mem hb
        have hfirst : Behind (x ++ a :: y ++ (z ++ b :: w)) (some a.id) (utf16Length (Rga.text (x ++ [a]))) :=
          ⟨x, a, y ++ (z ++ b :: w), by simp, rfl, rfl⟩
        have hsecond : Behind (x ++ a :: y ++ (z ++ b :: w)) (some b.id)
            (utf16Length (Rga.text (x ++ [a] ++ (y ++ z ++ [b])))) := ⟨x ++ a :: y ++ z, b, w, by simp, rfl, by simp⟩
        rw [hm.unique hnd hfirst, hn.unique hnd hsecond, utf16Length_text, utf16Length_text,
          visible_append (x ++ [a]), width_append]
        exact Nat.le_add_right _ _

theorem notAfter_getLast {between : List Atom} (h : Rga.visible ordered = before ++ between ++ after) :
    NotAfter (ordered.map Atom.id) (before.getLast?.map Atom.id) ((before ++ between).getLast?.map Atom.id) := by
  rcases List.eq_nil_or_concat before with rfl | ⟨init, a, rfl⟩
  · trivial
  · rcases List.eq_nil_or_concat between with rfl | ⟨mid, b, rfl⟩
    · rw [List.append_nil, List.concat_eq_append, List.getLast?_concat]
      exact Or.inl rfl
    · have hvisible : List.Sublist (Rga.visible ordered) ordered := List.filter_sublist
      have hsub : List.Sublist [a.id, b.id] ((Rga.visible ordered).map Atom.id) := by
        have hpair : List.Sublist [a, b] ([a] ++ mid ++ [b]) :=
          ((List.sublist_append_left [a] mid).append (List.Sublist.refl [b]) :)
        have hvis : Rga.visible ordered = init ++ ([a] ++ mid ++ [b]) ++ after := by
          rw [h]
          simp
        rw [hvis]
        exact ((hpair.trans (List.sublist_append_right init _)).trans (List.sublist_append_left _ after)).map Atom.id
      rw [List.concat_eq_append, List.concat_eq_append, ← List.append_assoc, List.getLast?_concat, List.getLast?_concat]
      exact Or.inr (hsub.trans (hvisible.map Atom.id))

/-! ### Committed operations -/

private theorem nodup_concat {id : String} (hnd : ids.Nodup) (hid : id ∉ ids) :
    (ids ++ [id]).Nodup := by
  rw [← List.concat_eq_append, List.nodup_concat]
  exact ⟨hid, hnd⟩

theorem committedInsert_ok {inserted : List Atom} : ∀ {nodes nodes' : Nodes},
    inserted.foldlM committedInsert nodes = .ok nodes' → nodes.keys.Nodup →
    (nodes.keys ++ inserted.map Atom.id).Nodup ∧ nodes'.keys = nodes.keys ++ inserted.map Atom.id := by
  induction inserted with
  | nil =>
    intro nodes nodes' h hnd
    obtain rfl := Except.ok.inj h
    simpa using hnd
  | cons a inserted ih =>
    intro nodes nodes' h hnd
    obtain ⟨next, hnext, h⟩ := foldlM_cons_ok.1 h
    unfold committedInsert at hnext
    split at hnext
    · cases hnext
    · rename_i hfresh
      obtain rfl := Except.ok.inj hnext
      have hnot : a.id ∉ nodes.keys := by simpa using hfresh
      have hkeys : (nodes.set a.id a).keys = nodes.keys ++ [a.id] := by rw [OrderedMap.keys_set, if_neg hnot]
      obtain ⟨hnodup, heq⟩ := ih h (by rw [hkeys]; exact nodup_concat hnd hnot)
      rw [hkeys, List.append_assoc] at hnodup heq
      exact ⟨hnodup, heq⟩

theorem committedDelete_ok : ∀ {nodes nodes' : Nodes},
    ids.foldlM committedDelete nodes = .ok nodes' → ∀ id ∈ ids, id ∈ nodes.keys := by
  induction ids with
  | nil => intro nodes nodes' _ id hid; cases hid
  | cons i ids ih =>
    intro nodes nodes' h id hid
    obtain ⟨next, hnext, h⟩ := foldlM_cons_ok.1 h
    unfold committedDelete at hnext
    split at hnext
    · rename_i hhas
      obtain rfl := Except.ok.inj hnext
      rcases List.mem_cons.1 hid with rfl | hid
      · simpa using hhas
      · have hmem := ih h id hid
        rwa [Rga.markDeleted, OrderedMap.keys_modify] at hmem
    · cases hnext

/-- What an accepted operation does to the atoms. -/
theorem committedApply_ok {c c' : SharedDocument} {op : DocumentOperation} (hnd : (c.atoms.map Atom.id).Nodup)
    (h : committedApply lc c op = .ok c') : c' = c ∨
      (c.atoms.map Atom.id ++ op.insertedAtoms.map Atom.id).Nodup ∧
      orderAtoms lc ((c.atoms ++ op.insertedAtoms).map (Rga.mark op.deletedAtomIds)) = .ok c'.atoms := by
  unfold committedApply at h
  split at h
  · cases h
  split at h
  · exact Or.inl (Except.ok.inj h).symm
  split at h
  · cases h
  obtain ⟨nodes, hinsert, h⟩ := bind_ok.1 h
  obtain ⟨nodes', hdelete, h⟩ := bind_ok.1 h
  obtain ⟨ordered, hordered, h⟩ := bind_ok.1 h
  obtain ⟨content, -, h⟩ := bind_ok.1 h
  obtain rfl := Except.ok.inj h
  have hkeys : (OrderedMap.ofList (c.atoms.map fun atom => (atom.id, atom))).keys = c.atoms.map Atom.id :=
    Rga.keys_index hnd
  obtain ⟨hnodup, hall⟩ := committedInsert_ok hinsert (by rw [hkeys]; exact hnd)
  rw [hkeys] at hnodup hall
  have hmem := committedDelete_ok hdelete
  rw [hall, ← List.map_append] at hmem
  obtain ⟨m, m', hm, hm', hvalues⟩ := committed_values hnodup hmem
  obtain rfl : nodes = m := Except.ok.inj (hinsert.symm.trans hm)
  obtain rfl : nodes' = m' := Except.ok.inj (hdelete.symm.trans hm')
  rw [hvalues] at hordered
  exact Or.inr ⟨hnodup, hordered⟩

/-- An accepted operation does not change the order of what was there. -/
theorem committedApply_order {c c' : SharedDocument} {op : DocumentOperation} {out : List Atom}
    (hout : orderAtoms lc c.atoms = .ok out) (h : committedApply lc c op = .ok c') :
    ∃ out', orderAtoms lc c'.atoms = .ok out' ∧ List.Sublist (out.map Atom.id) (out'.map Atom.id) := by
  obtain ⟨hsound, -, -, -⟩ := orderAtoms_ok.1 hout
  rcases committedApply_ok hsound.ids h with rfl | ⟨hnd, hordered⟩
  · exact ⟨out, hout, List.Sublist.refl _⟩
  · refine ⟨c'.atoms, orderAtoms_ordered hordered, ?_⟩
    have hmarked := orderAtoms_map_mark op.deletedAtomIds hout
    obtain ⟨-, hwalk, -, -⟩ := orderAtoms_ok.1 hmarked
    obtain ⟨-, hwalk', -, -⟩ := orderAtoms_ok.1 hordered
    rw [List.map_append] at hwalk'
    rw [List.nodup_append] at hnd
    have hold : ∀ a ∈ c.atoms.map (Rga.mark op.deletedAtomIds), decide (a.id ∈ c.atoms.map Atom.id) = true := by
      intro a ha
      obtain ⟨x, hx, rfl⟩ := List.mem_map.1 ha
      exact decide_eq_true (List.mem_map.2 ⟨x, hx, rfl⟩)
    have hnew : ∀ a ∈ op.insertedAtoms.map (Rga.mark op.deletedAtomIds),
        decide (a.id ∈ c.atoms.map Atom.id) = false := by
      intro a ha
      obtain ⟨x, hx, rfl⟩ := List.mem_map.1 ha
      exact decide_eq_false fun hmem => hnd.2.2 _ hmem _ (List.mem_map_of_mem hx) rfl
    have hparents : ∀ a : Atom, decide (a.id ∈ c.atoms.map Atom.id) = false →
        ∀ b ∈ c.atoms.map (Rga.mark op.deletedAtomIds), b.afterId ≠ some a.id := by
      intro a ha b hb hparent
      obtain ⟨x, hx, rfl⟩ := List.mem_map.1 hb
      exact of_decide_eq_false ha (hsound.parents x hx a.id hparent)
    have hfilter := ForestWalk.walk_added hold hnew hparents hwalk'
    have hsame : (c'.atoms.filter fun a => a.id ∈ c.atoms.map Atom.id) = out.map (Rga.mark op.deletedAtomIds) := by
      have hle : (c.atoms.map (Rga.mark op.deletedAtomIds)).length ≤ (c.atoms.map (Rga.mark op.deletedAtomIds) ++
          op.insertedAtoms.map (Rga.mark op.deletedAtomIds)).length := by
        rw [List.length_append]
        exact Nat.le_add_right _ _
      exact Option.some.inj (hfilter.symm.trans (ForestWalk.walk_mono hwalk hle))
    have hsub := (List.filter_sublist (p := fun a => decide (a.id ∈ c.atoms.map Atom.id)) (l := c'.atoms)).map Atom.id
    rw [hsame, Rga.map_mark_id] at hsub
    exact hsub

theorem committedApply_run {ops : List DocumentOperation} : ∀ {c c' : SharedDocument} {out : List Atom},
    orderAtoms lc c.atoms = .ok out → ops.foldlM (committedApply lc) c = .ok c' →
    ∃ out', orderAtoms lc c'.atoms = .ok out' ∧ List.Sublist (out.map Atom.id) (out'.map Atom.id) := by
  induction ops with
  | nil =>
    intro c c' out hout h
    obtain rfl := Except.ok.inj h
    exact ⟨out, hout, List.Sublist.refl _⟩
  | cons op ops ih =>
    intro c c' out hout h
    obtain ⟨next, hnext, h⟩ := foldlM_cons_ok.1 h
    obtain ⟨mid, hmid, hsub⟩ := committedApply_order hout hnext
    obtain ⟨out', hout', hsub'⟩ := ih hmid h
    exact ⟨out', hout', hsub.trans hsub'⟩

/-! ### A selection stays attached to its text -/

/-- On atom boundaries a selection comes back as it was.  After any committed operations it is still there, behind the
same atoms, and in the same order. -/
theorem selection_attached (lc : Collation) (c : SharedDocument) (ordered : List Atom)
    (hordered : orderAtoms lc c.atoms = .ok ordered) (anchor head : Nat)
    (hanchor : anchor ∈ boundaries (Rga.visible ordered)) (hhead : head ∈ boundaries (Rga.visible ordered)) :
    ∃ anchorId headId, selectionIds lc c.atoms anchor head = .ok (anchorId, headId) ∧
      selectionOffsets lc c.atoms anchorId headId = .ok (some (anchor, head)) ∧
      ∀ (ops : List DocumentOperation) (c' : SharedDocument), ops.foldlM (committedApply lc) c = .ok c' →
        ∃ ordered' anchor' head',
        orderAtoms lc c'.atoms = .ok ordered' ∧
        selectionOffsets lc c'.atoms anchorId headId = .ok (some (anchor', head')) ∧
        Behind ordered' anchorId anchor' ∧ Behind ordered' headId head' ∧
        (anchor ≤ head → anchor' ≤ head') ∧ (head ≤ anchor → head' ≤ anchor') := by
  obtain ⟨before, after, hsplit, rfl⟩ := mem_boundaries.1 hanchor
  obtain ⟨before', after', hsplit', rfl⟩ := mem_boundaries.1 hhead
  have hsound := (orderAtoms_ok.1 (orderAtoms_ordered hordered)).1
  have hwide : Wide (Rga.visible ordered) := wide_of_single fun a ha => hsound.single a (List.mem_of_mem_filter ha)
  have hids : ∀ {l rest : List Atom}, Rga.visible ordered = l ++ rest →
      idAt (width l) (Rga.visible ordered) 0 none = l.getLast?.map Atom.id := by
    intro l rest h
    have hat := idAt_split (h ▸ hwide) 0 none
    rw [Nat.zero_add, ← h, Option.or_none] at hat
    exact hat
  have hbehind := behind_getLast hsplit
  have hbehind' := behind_getLast hsplit'
  refine ⟨before.getLast?.map Atom.id, before'.getLast?.map Atom.id, ?_, selectionOffsets_behind hordered hbehind hbehind',
    fun ops c' hops => ?_⟩
  · unfold selectionIds visibleAtoms
    rw [hordered]
    refine bind_ok.2 ⟨Rga.visible ordered, rfl, ?_⟩
    rw [hids hsplit, hids hsplit']
  · obtain ⟨ordered', hordered', hsub⟩ := committedApply_run hordered hops
    have hnd := (orderAtoms_ok.1 (orderAtoms_ordered hordered')).1.ids
    have hmem : ∀ {l rest : List Atom}, Rga.visible ordered = l ++ rest →
        ∀ id, l.getLast?.map Atom.id = some id → id ∈ ordered'.map Atom.id := by
      intro l rest h id hid
      obtain ⟨a, ha, rfl⟩ := Option.map_eq_some_iff.1 hid
      have hvisible : a ∈ Rga.visible ordered := by
        rw [h]
        exact List.mem_append_left _ (List.mem_of_getLast? ha)
      exact hsub.subset (List.mem_map_of_mem (List.mem_of_mem_filter hvisible))
    have horder : ∀ {l rest l' rest' : List Atom}, Rga.visible ordered = l ++ rest → Rga.visible ordered = l' ++ rest' →
        width l ≤ width l' →
        NotAfter (ordered'.map Atom.id) (l.getLast?.map Atom.id) (l'.getLast?.map Atom.id) := by
      intro l rest l' rest' h h' hle
      obtain ⟨between, rfl, -⟩ := append_of_width_le (h ▸ hwide) (h.symm.trans h') hle
      exact (notAfter_getLast h').mono hsub
    obtain ⟨anchor', hanchor'⟩ := exists_behind (hmem hsplit)
    obtain ⟨head', hhead'⟩ := exists_behind (hmem hsplit')
    exact ⟨ordered', anchor', head', hordered', selectionOffsets_behind hordered' hanchor' hhead', hanchor', hhead',
      fun hle => (horder hsplit hsplit' hle).offsets hnd hanchor' hhead',
      fun hle => (horder hsplit' hsplit hle).offsets hnd hhead' hanchor'⟩

private def cursorDocument : SharedDocument :=
  { id := "document-1", conversationId := "conversation-1", title := "Plan", content := "abc", generation := 1,
    version := 1, updatedAt := 0, atoms := Rga.chain "operation-1" 1 ["a", "b", "c"] none 0, readonly := false }

/-- Delete the second atom and write in front of all. -/
private def cursorOperation : DocumentOperation :=
  { documentId := "document-1", conversationId := "conversation-1", clientOperationId := "operation-2", generation := 1,
    version := 2, kind := .edit, title := none, insertedAtoms := Rga.chain "operation-2" 2 ["x"] none 0,
    deletedAtomIds := ["operation-1:1"], insertedAt := 1 }

private def cursorEdited : SharedDocument :=
  (committedApply codePointCollation cursorDocument cursorOperation).toOption.getD cursorDocument

theorem selection_attached_sample :
    selectionIds codePointCollation cursorDocument.atoms 2 3 = .ok (some "operation-1:1", some "operation-1:2") ∧
    selectionOffsets codePointCollation cursorDocument.atoms (some "operation-1:1") (some "operation-1:2") =
      .ok (some (2, 3)) ∧
    committedApply codePointCollation cursorDocument cursorOperation = .ok cursorEdited ∧ cursorEdited.content = "xac" ∧
    ∃ anchor head, selectionOffsets codePointCollation cursorEdited.atoms (some "operation-1:1")
      (some "operation-1:2") = .ok (some (anchor, head)) ∧ anchor ≤ head := by
  have hordered : orderAtoms codePointCollation cursorDocument.atoms = .ok cursorDocument.atoms := by decide
  have hanchor : 2 ∈ boundaries (Rga.visible cursorDocument.atoms) := by decide
  have hhead : 3 ∈ boundaries (Rga.visible cursorDocument.atoms) := by decide
  obtain ⟨anchorId, headId, hids, hoffsets, hlater⟩ :=
    selection_attached codePointCollation cursorDocument cursorDocument.atoms hordered 2 3 hanchor hhead
  have hsame : selectionIds codePointCollation cursorDocument.atoms 2 3 =
      .ok (some "operation-1:1", some "operation-1:2") := by decide
  obtain ⟨rfl, rfl⟩ := Prod.mk.inj (Except.ok.inj (hids.symm.trans hsame))
  have happly : committedApply codePointCollation cursorDocument cursorOperation = .ok cursorEdited := by decide
  have hrun : [cursorOperation].foldlM (committedApply codePointCollation) cursorDocument = .ok cursorEdited :=
    foldlM_cons_ok.2 ⟨cursorEdited, happly, rfl⟩
  obtain ⟨_, anchor, head, -, hlaterOffsets, -, -, hle, -⟩ := hlater [cursorOperation] cursorEdited hrun
  exact ⟨hsame, hoffsets, happly, by decide, anchor, head, hlaterOffsets, hle (by decide)⟩

end KComms.Documents.Model
