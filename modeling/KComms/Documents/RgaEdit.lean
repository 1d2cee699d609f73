import KComms.Documents.Rga
import KComms.Lib.FallibleLoop

/-!
# What an admitted edit does

The atoms an edit inserts (`insertedAtoms`) depend on its changes, its operation id and its version only, not on the
document.  If the edit is admitted, none of their ids was in use, and the nodes it leaves are the old atoms followed by
the inserted ones, with every atom marked that one of the changes deletes (`foldlM_applyChange_entries`); a change can
only delete an atom that is already there, so it does not matter that the server interleaves deletions and insertions.
`apply_spec` sums this up.
-/

namespace KComms.Documents.Rga

/-! ### Atom ids -/

private theorem split_at_last {xs ys ds es : List Char} (hd : ':' ∉ ds) (he : ':' ∉ es)
    (h : xs ++ ':' :: ds = ys ++ ':' :: es) : xs = ys ∧ ds = es := by
  have key : ∀ {l k : List Char}, ':' ∉ l → ((l ++ ':' :: k).takeWhile (· ≠ ':')) = l := by
    intro l k hl
    rw [List.takeWhile_append_of_pos]
    · simp
    · intro c hc
      simpa using fun h : c = ':' => hl (h ▸ hc)
  have hr := congrArg List.reverse h
  simp only [List.reverse_append, List.reverse_cons, List.append_assoc, List.singleton_append] at hr
  have hds : ds.reverse = es.reverse := by
    rw [← key (l := ds.reverse) (k := xs.reverse) (by simpa using hd), hr, key (by simpa using he)]
  obtain rfl := List.reverse_inj.1 hds
  exact ⟨List.append_cancel_right h, rfl⟩

private theorem colon_not_mem_toString (n : Nat) : ':' ∉ (toString n).toList := by
  intro h
  rw [Nat.toString_eq_repr, Nat.toList_repr] at h
  have := Nat.isDigit_of_mem_toDigits (by decide) (by decide) h
  simp at this

/-- An atom id tells the operation and the offset. -/
theorem atomId_inj {operationId operationId' : String} {i j : Nat} :
    atomId operationId i = atomId operationId' j ↔ operationId = operationId' ∧ i = j := by
  constructor
  · intro h
    have hl := congrArg String.toList h
    simp only [atomId, String.toList_append, List.append_assoc] at hl
    obtain ⟨h1, h2⟩ := split_at_last (colon_not_mem_toString i) (colon_not_mem_toString j) hl
    refine ⟨String.toList_inj.1 h1, ?_⟩
    rw [Nat.toString_eq_repr, Nat.toString_eq_repr, Nat.toList_repr, Nat.toList_repr] at h2
    rw [← Nat.ofDigitChars_ten_toDigits (n := i), h2, Nat.ofDigitChars_ten_toDigits]
  · rintro ⟨rfl, rfl⟩; rfl

/-! ### The atoms of an edit -/

/-- The chain of atoms one change inserts. -/
def chain (operationId : String) (version : Nat) : List String → Option String → Nat → List Atom
  | [], _, _ => []
  | text :: rest, anchor, cursor =>
    { id := atomId operationId cursor, afterId := anchor, text := text, deleted := false,
      order := version * maximumAtoms + cursor } ::
      chain operationId version rest (some (atomId operationId cursor)) (cursor + 1)

def insertedAtoms (operationId : String) (version : Nat) : List Change → Nat → List Atom
  | [], _ => []
  | change :: changes, offset =>
    chain operationId version (codepoints change.insert) change.afterId offset ++
      insertedAtoms operationId version changes (offset + (codepoints change.insert).length)

def deletedIds (changes : List Change) : List String := changes.flatMap Change.deleteIds

def insertedLength (changes : List Change) : Nat := (changes.map fun change => (codepoints change.insert).length).sum

/-- Mark an atom as deleted if its id is in the list. -/
def mark (ids : List String) (atom : Atom) : Atom := { atom with deleted := atom.deleted || decide (atom.id ∈ ids) }

def keyed (atom : Atom) : String × Atom := (atom.id, atom)

@[simp] theorem mark_id (ids : List String) (atom : Atom) : (mark ids atom).id = atom.id := rfl

@[simp] theorem mark_afterId (ids : List String) (atom : Atom) : (mark ids atom).afterId = atom.afterId := rfl

@[simp] theorem mark_order (ids : List String) (atom : Atom) : (mark ids atom).order = atom.order := rfl

@[simp] theorem mark_text (ids : List String) (atom : Atom) : (mark ids atom).text = atom.text := rfl

@[simp] theorem mark_nil (atom : Atom) : mark [] atom = atom := by simp [mark]

@[simp] theorem map_mark_nil (atoms : List Atom) : atoms.map (mark []) = atoms := by
  rw [List.map_congr_left (fun a _ => mark_nil a), List.map_id']

theorem mark_mark (ids ids' : List String) (atom : Atom) : mark ids' (mark ids atom) = mark (ids ++ ids') atom := by
  by_cases h : atom.id ∈ ids <;> by_cases h' : atom.id ∈ ids' <;> simp [mark, h, h']

theorem mark_of_not_mem {ids ids' : List String} {atom : Atom} (h : atom.id ∉ ids) :
    mark (ids ++ ids') atom = mark ids' atom := by
  simp [mark, h]

theorem mark_congr {ids ids' : List String} (h : ∀ id, id ∈ ids ↔ id ∈ ids') : mark ids = mark ids' := by
  funext atom
  simp only [mark, h]

theorem map_mark_id (ids : List String) (atoms : List Atom) : (atoms.map (mark ids)).map Atom.id = atoms.map Atom.id := by
  rw [List.map_map]; rfl

theorem map_mark_order (ids : List String) (atoms : List Atom) :
    (atoms.map (mark ids)).map Atom.order = atoms.map Atom.order := by
  rw [List.map_map]; rfl

theorem length_chain (operationId : String) (version : Nat) (texts : List String) :
    ∀ anchor cursor, (chain operationId version texts anchor cursor).length = texts.length := by
  induction texts with
  | nil => intro _ _; rfl
  | cons text rest ih => intro anchor cursor; simp [chain, ih]

theorem length_insertedAtoms (operationId : String) (version : Nat) (changes : List Change) :
    ∀ offset, (insertedAtoms operationId version changes offset).length = insertedLength changes := by
  induction changes with
  | nil => intro _; rfl
  | cons change changes ih =>
    intro offset
    simp [insertedAtoms, length_chain, ih, insertedLength]

theorem chain_texts (operationId : String) (version : Nat) (texts : List String) : ∀ anchor cursor,
    (chain operationId version texts anchor cursor).map Atom.text = texts := by
  induction texts with
  | nil => intro _ _; rfl
  | cons text texts ih => intro anchor cursor; simp [chain, ih]

variable {operationId : String} {version : Nat} {texts : List String} {changes : List Change}

/-- The keys of a chain count up from its first offset. -/
theorem mem_chain : ∀ {anchor cursor a},
    a ∈ chain operationId version texts anchor cursor →
    ∃ i, cursor ≤ i ∧ i < cursor + texts.length ∧ a.id = atomId operationId i ∧
      a.order = version * maximumAtoms + i ∧ a.deleted = false ∧ a.text ∈ texts := by
  induction texts with
  | nil => intro anchor cursor a h; simp [chain] at h
  | cons text rest ih =>
    intro anchor cursor a h
    rcases List.mem_cons.1 h with rfl | h
    · exact ⟨cursor, le_refl _, by simp, rfl, rfl, rfl, by simp⟩
    · obtain ⟨i, h1, h2, h3, h4, h5, h6⟩ := ih h
      refine ⟨i, by omega, ?_, h3, h4, h5, List.mem_cons_of_mem _ h6⟩
      simp only [List.length_cons]; omega

theorem mem_insertedAtoms : ∀ {offset a},
    a ∈ insertedAtoms operationId version changes offset →
    ∃ i, offset ≤ i ∧ i < offset + insertedLength changes ∧ a.id = atomId operationId i ∧
      a.order = version * maximumAtoms + i ∧ a.deleted = false ∧ ∃ change ∈ changes, a.text ∈ codepoints change.insert := by
  induction changes with
  | nil => intro offset a h; simp [insertedAtoms] at h
  | cons change changes ih =>
    intro offset a h
    have hlen : insertedLength (change :: changes) = (codepoints change.insert).length + insertedLength changes := by
      simp [insertedLength]
    rcases List.mem_append.1 h with h | h
    · obtain ⟨i, h1, h2, h3, h4, h5, h6⟩ := mem_chain h
      exact ⟨i, h1, by omega, h3, h4, h5, change, by simp, h6⟩
    · obtain ⟨i, h1, h2, h3, h4, h5, c, hc, h6⟩ := ih h
      exact ⟨i, by omega, by omega, h3, h4, h5, c, by simp [hc], h6⟩

private theorem chain_orders (operationId : String) (version : Nat) (texts : List String) : ∀ anchor cursor,
    (chain operationId version texts anchor cursor).map Atom.order =
      (List.range' cursor texts.length).map (version * maximumAtoms + ·) := by
  induction texts with
  | nil => intro _ _; rfl
  | cons text rest ih => intro anchor cursor; simp [chain, ih, List.range'_succ]

/-- The keys of the inserted atoms are consecutive. -/
theorem insertedAtoms_orders (operationId : String) (version : Nat) (changes : List Change) : ∀ offset,
    (insertedAtoms operationId version changes offset).map Atom.order =
      (List.range' offset (insertedLength changes)).map (version * maximumAtoms + ·) := by
  induction changes with
  | nil => intro _; rfl
  | cons change changes ih =>
    intro offset
    have hlen : insertedLength (change :: changes) = (codepoints change.insert).length + insertedLength changes := by
      simp [insertedLength]
    simp only [insertedAtoms, List.map_append, chain_orders, ih]
    rw [← List.map_append, hlen, List.range'_append_1]

theorem nodup_insertedAtoms_orders (operationId : String) (version : Nat) (changes : List Change) (offset : Nat) :
    ((insertedAtoms operationId version changes offset).map Atom.order).Nodup := by
  rw [insertedAtoms_orders]
  exact (List.nodup_range' ).map fun _ _ h => by simpa using h

theorem chain_ids (operationId : String) (version : Nat) (texts : List String) : ∀ anchor cursor,
    (chain operationId version texts anchor cursor).map Atom.id =
      (List.range' cursor texts.length).map (atomId operationId) := by
  induction texts with
  | nil => intro _ _; rfl
  | cons text rest ih => intro anchor cursor; simp [chain, ih, List.range'_succ]

theorem insertedAtoms_ids (operationId : String) (version : Nat) (changes : List Change) : ∀ offset,
    (insertedAtoms operationId version changes offset).map Atom.id =
      (List.range' offset (insertedLength changes)).map (atomId operationId) := by
  induction changes with
  | nil => intro _; rfl
  | cons change changes ih =>
    intro offset
    have hlen : insertedLength (change :: changes) = (codepoints change.insert).length + insertedLength changes := by
      simp [insertedLength]
    simp only [insertedAtoms, List.map_append, chain_ids, ih]
    rw [← List.map_append, hlen, List.range'_append_1]

theorem nodup_insertedAtoms_ids (operationId : String) (version : Nat) (changes : List Change) (offset : Nat) :
    ((insertedAtoms operationId version changes offset).map Atom.id).Nodup := by
  rw [insertedAtoms_ids]
  exact (List.nodup_range' ).map fun _ _ h => (atomId_inj.1 h).2

/-! ### A chain that starts a document -/

private theorem chain_get (operationId : String) (version : Nat) (texts : List String) : ∀ anchor cursor i
    (h : i + 1 < (chain operationId version texts anchor cursor).length),
    (chain operationId version texts anchor cursor)[i + 1].afterId =
      some (chain operationId version texts anchor cursor)[i].id := by
  induction texts with
  | nil => intro anchor cursor i h; simp [chain] at h
  | cons text rest ih =>
    intro anchor cursor i h
    cases i with
    | succ i => simpa [chain] using ih _ _ i (by simpa [chain] using h)
    | zero =>
      cases rest with
      | nil => simp [chain] at h
      | cons text' rest => simp [chain]

private theorem chain_head (operationId : String) (version : Nat) (texts : List String) (cursor : Nat) :
    ∀ a ∈ (chain operationId version texts none cursor).head?, a.afterId = none := by
  intro a ha
  cases texts with
  | nil => simp [chain] at ha
  | cons text rest =>
    simp only [chain, List.head?_cons, Option.mem_def, Option.some.injEq] at ha
    rw [← ha]

/-- A chain without an anchor is in order. -/
theorem order_chain (operationId : String) (version : Nat) (texts : List String) (cursor : Nat) :
    order (chain operationId version texts none cursor) = chain operationId version texts none cursor := by
  have hnd : ((chain operationId version texts none cursor).map Atom.id).Nodup := by
    rw [chain_ids]
    exact (List.nodup_range' ).map fun _ _ h => (atomId_inj.1 h).2
  have h := ForestWalk.walk_path hnd (chain_head operationId version texts cursor)
    (chain_get operationId version texts none cursor) (lists_siblings _)
  rw [order, orderWithin_eq_walk, h]
  rfl

theorem wellFormed_chain (operationId : String) (version : Nat) (texts : List String) (cursor : Nat) :
    WellFormed (chain operationId version texts none cursor) := by
  refine ⟨?_, ?_, ?_⟩
  · rw [chain_ids]
    exact (List.nodup_range' ).map fun _ _ h => (atomId_inj.1 h).2
  · rw [chain_orders]
    exact (List.nodup_range' ).map fun _ _ h => by simpa using h
  · intro a ha p hp
    obtain ⟨i, hi, rfl⟩ := List.getElem_of_mem ha
    cases i with
    | zero =>
      have hnone := chain_head operationId version texts cursor _
        (by rw [List.head?_eq_getElem?, List.getElem?_eq_getElem hi]; exact Option.mem_some_self _)
      rw [hnone] at hp
      cases hp
    | succ i =>
      rw [chain_get _ _ _ _ _ i hi] at hp
      refine ⟨_, List.getElem_mem (by omega : i < _), Option.some.inj hp, ?_⟩
      have hord := chain_orders operationId version texts none cursor
      have h1 : ∀ j (hj : j < (chain operationId version texts none cursor).length),
          (chain operationId version texts none cursor)[j].order = version * maximumAtoms + (cursor + j) := by
        intro j hj
        have := congrArg (fun l => l[j]?) hord
        rw [length_chain] at hj
        simpa [hj, length_chain] using this
      rw [h1, h1]
      omega

/-! ### One change -/

/-- A map of nodes in which every atom stands under its own id. -/
def Keyed (nodes : Nodes) : Prop := ∀ e ∈ nodes.entries, e.1 = e.2.id

private theorem foldl_insertAtom (operationId : String) (version : Nat) (texts : List String) :
    ∀ nodes added anchor cursor,
    let result := texts.foldl (insertAtom operationId version) (nodes, added, anchor, cursor)
    result.1 = nodes.setAll ((chain operationId version texts anchor cursor).map keyed) ∧
      result.2.1 = (chain operationId version texts anchor cursor).reverse ++ added ∧
      result.2.2.2 = cursor + texts.length := by
  induction texts with
  | nil => intro nodes added anchor cursor; exact ⟨rfl, rfl, rfl⟩
  | cons text rest ih =>
    intro nodes added anchor cursor
    obtain ⟨h1, h2, h3⟩ := ih (nodes.set (atomId operationId cursor)
      { id := atomId operationId cursor, afterId := anchor, text := text, deleted := false,
        order := version * maximumAtoms + cursor })
      ({ id := atomId operationId cursor, afterId := anchor, text := text, deleted := false,
         order := version * maximumAtoms + cursor } :: added) (some (atomId operationId cursor)) (cursor + 1)
    refine ⟨h1, ?_, ?_⟩
    · simp only [List.foldl_cons, insertAtom, chain, List.reverse_cons, List.append_assoc, List.singleton_append]
      exact h2
    · simp only [List.foldl_cons, insertAtom, List.length_cons]
      exact h3.trans (by omega)

/-- An accepted change only refers to atoms that are there, and says what it leaves. -/
theorem applyChange_ok {p p' : Progress} {change : Change} (h : applyChange operationId version p change = .ok p') :
    (∀ id, change.afterId = some id → id ∈ p.nodes.keys) ∧ (∀ id ∈ change.deleteIds, id ∈ p.nodes.keys) ∧
    p'.nodes = (change.deleteIds.foldl markDeleted p.nodes).setAll
      ((chain operationId version (codepoints change.insert) change.afterId p.offset).map keyed) ∧
    p'.inserted = p.inserted ++ chain operationId version (codepoints change.insert) change.afterId p.offset ∧
    p'.deleted = p.deleted ++ change.deleteIds ∧ p'.offset = p.offset + (codepoints change.insert).length := by
  unfold applyChange at h
  split at h
  · rename_i hc
    rw [Bool.and_eq_true] at hc
    have hfold := foldl_insertAtom operationId version (codepoints change.insert)
      (change.deleteIds.foldl markDeleted p.nodes) [] change.afterId p.offset
    obtain ⟨h1, h2, h3⟩ := hfold
    obtain rfl := Except.ok.inj h
    refine ⟨?_, ?_, h1, ?_, rfl, h3⟩
    · intro id hid
      have := hc.1
      rw [hid] at this
      simpa using this
    · intro id hid
      simpa using List.all_eq_true.1 hc.2 id hid
    · simp only [h2, List.append_nil, List.reverse_reverse]
  · exact absurd h (by simp)

/-- A change whose anchor and deleted ids are all present is accepted. -/
theorem applyChange_isOk {p : Progress} {change : Change} (ha : ∀ id, change.afterId = some id → id ∈ p.nodes.keys)
    (hd : ∀ id ∈ change.deleteIds, id ∈ p.nodes.keys) :
    ∃ p', applyChange operationId version p change = .ok p' := by
  unfold applyChange
  rw [if_pos]
  · exact ⟨_, rfl⟩
  · rw [Bool.and_eq_true]
    refine ⟨?_, List.all_eq_true.2 fun id hid => by simpa using hd id hid⟩
    cases hid : change.afterId with
    | none => rfl
    | some id => simpa using ha id hid

private theorem markDeleted_entries {nodes : Nodes} (hk : Keyed nodes) (id : String) :
    (markDeleted nodes id).entries = nodes.entries.map fun e => (e.1, mark [id] e.2) := by
  unfold markDeleted OrderedMap.modify
  apply List.map_congr_left
  intro e he
  by_cases h : e.1 = id
  · have hid : e.2.id = id := (hk e he).symm.trans h
    simp [h, mark, hid]
  · have hid : e.2.id ≠ id := fun h' => h ((hk e he).trans h')
    rw [if_neg h]
    simp [mark, hid]

theorem foldl_markDeleted_entries (ids : List String) : ∀ {nodes : Nodes}, Keyed nodes →
    (ids.foldl markDeleted nodes).entries = nodes.entries.map fun e => (e.1, mark ids e.2) := by
  induction ids with
  | nil => intro nodes _; simp
  | cons id ids ih =>
    intro nodes hk
    have he := markDeleted_entries hk id
    have hk' : Keyed (markDeleted nodes id) := by
      intro e hm
      rw [he] at hm
      obtain ⟨e', he', rfl⟩ := List.mem_map.1 hm
      exact hk e' he'
    rw [List.foldl_cons, ih hk', he, List.map_map]
    apply List.map_congr_left
    intro e _
    simp only [Function.comp, mark_mark, List.singleton_append]

theorem keys_foldl_markDeleted (ids : List String) : ∀ nodes : Nodes,
    (ids.foldl markDeleted nodes).keys = nodes.keys := by
  induction ids with
  | nil => intro _; rfl
  | cons id ids ih => intro nodes; rw [List.foldl_cons, ih]; exact nodes.keys_modify id _

theorem size_foldl_markDeleted (ids : List String) (nodes : Nodes) :
    (ids.foldl markDeleted nodes).size = nodes.size := by
  rw [← OrderedMap.length_keys, keys_foldl_markDeleted, OrderedMap.length_keys]

/-! ### The changes of an edit, one after the other -/

theorem map_keyed_fst (atoms : List Atom) : (atoms.map keyed).map Prod.fst = atoms.map Atom.id := by
  rw [List.map_map]; rfl

section Index

variable {atoms : List Atom} (hnd : (atoms.map Atom.id).Nodup)
include hnd

theorem entries_index : (OrderedMap.ofList (atoms.map keyed)).entries = atoms.map keyed :=
  OrderedMap.entries_ofList (by rw [map_keyed_fst]; exact hnd)

theorem keys_index : (OrderedMap.ofList (atoms.map keyed)).keys = atoms.map Atom.id := by
  rw [OrderedMap.keys, entries_index hnd, map_keyed_fst]

theorem keyed_index : Keyed (OrderedMap.ofList (atoms.map keyed)) := by
  intro e he
  rw [entries_index hnd] at he
  obtain ⟨a, -, rfl⟩ := List.mem_map.1 he
  rfl

end Index

/-- What the loop over the changes reports. -/
theorem foldlM_applyChange_report :
    ∀ {p p' : Progress}, changes.foldlM (applyChange operationId version) p = .ok p' →
      p'.inserted = p.inserted ++ insertedAtoms operationId version changes p.offset ∧
      p'.deleted = p.deleted ++ deletedIds changes ∧
      p'.nodes.size ≤ p.nodes.size + insertedLength changes := by
  induction changes with
  | nil =>
    intro p p' h
    obtain rfl : p = p' := Except.ok.inj h
    simp [insertedAtoms, deletedIds, insertedLength]
  | cons change changes ih =>
    intro p p' h
    obtain ⟨q, hq, h⟩ := FallibleLoop.foldlM_cons_ok.1 h
    obtain ⟨-, -, hn, hi, hd, ho⟩ := applyChange_ok hq
    obtain ⟨h1, h2, h3⟩ := ih h
    refine ⟨?_, ?_, ?_⟩
    · rw [h1, hi, ho, List.append_assoc]; rfl
    · rw [h2, hd, List.append_assoc]; rfl
    · have hs := OrderedMap.size_setAll_le
        ((chain operationId version (codepoints change.insert) change.afterId p.offset).map keyed)
        (change.deleteIds.foldl markDeleted p.nodes)
      rw [← hn, size_foldl_markDeleted, List.length_map, length_chain] at hs
      have : insertedLength (change :: changes) = (codepoints change.insert).length + insertedLength changes := by
        simp [insertedLength]
      omega

theorem keyed_setAll {nodes : Nodes} (hk : Keyed nodes) {atoms : List Atom}
    (hnd : (nodes.keys ++ atoms.map Atom.id).Nodup) :
    (nodes.setAll (atoms.map keyed)).entries = nodes.entries ++ atoms.map keyed ∧
      Keyed (nodes.setAll (atoms.map keyed)) := by
  rw [← map_keyed_fst, List.nodup_append] at hnd
  have he := OrderedMap.entries_setAll (m := nodes) hnd.2.1 (fun k hk' hm => hnd.2.2 k hm k hk' rfl)
  refine ⟨he, fun e hm => ?_⟩
  rw [he] at hm
  rcases List.mem_append.1 hm with hm | hm
  · exact hk e hm
  · obtain ⟨a, -, rfl⟩ := List.mem_map.1 hm
    rfl

/-- If the loop over the changes adds as many nodes as it inserts atoms, their ids were new, and it leaves the old and
the new atoms with the deleted ones marked. -/
theorem foldlM_applyChange_entries :
    ∀ {p p' : Progress}, changes.foldlM (applyChange operationId version) p = .ok p' → Keyed p.nodes →
      p'.nodes.size = p.nodes.size + insertedLength changes →
      (p.nodes.keys ++ (insertedAtoms operationId version changes p.offset).map Atom.id).Nodup ∧
      p'.nodes.entries = (p.nodes.entries ++ (insertedAtoms operationId version changes p.offset).map keyed).map
        fun e => (e.1, mark (deletedIds changes) e.2) := by
  induction changes with
  | nil =>
    intro p p' h _ _
    obtain rfl : p = p' := Except.ok.inj h
    exact ⟨by simpa [insertedAtoms] using p.nodes.keys_nodup, by simp [insertedAtoms, deletedIds]⟩
  | cons change changes ih =>
    intro p p' h hk hsize
    obtain ⟨q, hq, h⟩ := FallibleLoop.foldlM_cons_ok.1 h
    obtain ⟨-, hdel, hn, -, -, ho⟩ := applyChange_ok hq
    obtain ⟨-, -, hle⟩ := foldlM_applyChange_report h
    generalize hchain : chain operationId version (codepoints change.insert) change.afterId p.offset = new at hn
    have hlen : new.length = (codepoints change.insert).length := by rw [← hchain, length_chain]
    have htotal : insertedLength (change :: changes) = new.length + insertedLength changes := by
      simp [insertedLength, hlen]
    have hs := OrderedMap.size_setAll_le (new.map keyed) (change.deleteIds.foldl markDeleted p.nodes)
    rw [← hn, size_foldl_markDeleted, List.length_map] at hs
    -- the nodes after this change
    have hmk : Keyed (change.deleteIds.foldl markDeleted p.nodes) := by
      intro e he
      rw [foldl_markDeleted_entries _ hk] at he
      obtain ⟨e', he', rfl⟩ := List.mem_map.1 he
      exact hk e' he'
    have hnew : (p.nodes.keys ++ new.map Atom.id).Nodup := by
      have := OrderedMap.nodup_of_size_setAll (l := new.map keyed)
        (m := change.deleteIds.foldl markDeleted p.nodes)
        (by rw [← hn, size_foldl_markDeleted, List.length_map]; omega)
      rwa [keys_foldl_markDeleted, map_keyed_fst] at this
    obtain ⟨hqe, hqk⟩ := keyed_setAll hmk (by rw [keys_foldl_markDeleted]; exact hnew)
    rw [← hn] at hqe hqk
    have hqkeys : q.nodes.keys = p.nodes.keys ++ new.map Atom.id := by
      rw [hn, OrderedMap.keys_setAll, keys_foldl_markDeleted, map_keyed_fst]
      rw [keys_foldl_markDeleted, map_keyed_fst]
      exact hnew
    -- the nodes after the remaining changes
    obtain ⟨hrest, hentries⟩ := ih h hqk (by omega)
    have hins : insertedAtoms operationId version (change :: changes) p.offset =
        new ++ insertedAtoms operationId version changes q.offset := by
      rw [insertedAtoms, hchain, ho]
    rw [hqkeys, List.append_assoc, ← List.map_append, ← hins] at hrest
    refine ⟨hrest, ?_⟩
    rw [hentries, hqe, foldl_markDeleted_entries _ hk, hins, List.map_append (f := keyed), ← List.append_assoc]
    simp only [List.map_append, List.map_map]
    -- an atom of the edit cannot be deleted before it is inserted
    have hfresh : ∀ a ∈ new ++ insertedAtoms operationId version changes q.offset, a.id ∉ change.deleteIds := by
      intro a ha hmem
      rw [← hins] at ha
      exact (List.nodup_append.1 hrest).2.2 _ (hdel _ hmem) _ (List.mem_map_of_mem ha) rfl
    congr 1
    · congr 1
      · apply List.map_congr_left
        intro e _
        simp only [Function.comp, mark_mark]
        rfl
      · apply List.map_congr_left
        intro a ha
        simp only [Function.comp, keyed, Prod.mk.injEq, true_and]
        exact (mark_of_not_mem (hfresh a (by simp [ha]))).symm
    · apply List.map_congr_left
      intro a ha
      simp only [Function.comp, keyed, Prod.mk.injEq, true_and]
      exact (mark_of_not_mem (hfresh a (by simp [ha]))).symm

theorem chain_parents : ∀ {anchor cursor a q},
    a ∈ chain operationId version texts anchor cursor → a.afterId = some q →
    anchor = some q ∨ ∃ b ∈ chain operationId version texts anchor cursor, b.id = q ∧ b.order < a.order := by
  induction texts with
  | nil => intro anchor cursor a q h; simp [chain] at h
  | cons text rest ih =>
    intro anchor cursor a q h hq
    rcases List.mem_cons.1 h with rfl | h
    · exact Or.inl hq
    · right
      rcases ih h hq with hq | ⟨b, hb, hbq, hlt⟩
      · obtain ⟨i, hi, -, -, ho, -, -⟩ := mem_chain h
        refine ⟨_, List.mem_cons_self, Option.some.inj hq, ?_⟩
        rw [ho]
        show version * maximumAtoms + cursor < version * maximumAtoms + i
        omega
      · exact ⟨b, List.mem_cons_of_mem _ hb, hbq, hlt⟩

/-- The atoms of an accepted edit hang below old atoms or below earlier atoms of the edit, and the edit only deletes
such atoms. -/
theorem foldlM_applyChange_known :
    ∀ {p p' : Progress}, changes.foldlM (applyChange operationId version) p = .ok p' →
      (∀ a ∈ insertedAtoms operationId version changes p.offset, ∀ q, a.afterId = some q → q ∈ p.nodes.keys ∨
        ∃ b ∈ insertedAtoms operationId version changes p.offset, b.id = q ∧ b.order < a.order) ∧
      ∀ id ∈ deletedIds changes, id ∈ p.nodes.keys ∨
        id ∈ (insertedAtoms operationId version changes p.offset).map Atom.id := by
  induction changes with
  | nil => intro p p' _; simp [insertedAtoms, deletedIds]
  | cons change changes ih =>
    intro p p' h
    obtain ⟨q, hq, h⟩ := FallibleLoop.foldlM_cons_ok.1 h
    obtain ⟨hanchor, hdel, hn, -, -, ho⟩ := applyChange_ok hq
    obtain ⟨hp, hd⟩ := ih h
    have hkeys : ∀ id, id ∈ q.nodes.keys ↔ id ∈ p.nodes.keys ∨
        id ∈ (chain operationId version (codepoints change.insert) change.afterId p.offset).map Atom.id := by
      intro id
      rw [hn, OrderedMap.mem_keys_setAll, keys_foldl_markDeleted, map_keyed_fst]
    simp only [insertedAtoms, ← ho]
    refine ⟨fun a ha r har => ?_, fun id hid => ?_⟩
    · rcases List.mem_append.1 ha with ha | ha
      · rcases chain_parents ha har with hr | ⟨b, hb, hbr, hlt⟩
        · exact Or.inl (hanchor r hr)
        · exact Or.inr ⟨b, List.mem_append_left _ hb, hbr, hlt⟩
      · rcases hp a ha r har with hr | ⟨b, hb, hbr, hlt⟩
        · rcases (hkeys r).1 hr with hr | hr
          · exact Or.inl hr
          · obtain ⟨b, hb, rfl⟩ := List.mem_map.1 hr
            refine Or.inr ⟨b, List.mem_append_left _ hb, rfl, ?_⟩
            -- the keys of this change lie below those of the later ones
            obtain ⟨i, -, hi, -, hbo, -, -⟩ := mem_chain hb
            obtain ⟨j, hj, -, -, hao, -, -⟩ := mem_insertedAtoms ha
            rw [hbo, hao]
            omega
        · exact Or.inr ⟨b, List.mem_append_right _ hb, hbr, hlt⟩
    · simp only [deletedIds, List.flatMap_cons, List.mem_append] at hid
      rw [List.map_append, List.mem_append]
      rcases hid with hid | hid
      · exact Or.inl (hdel id hid)
      · rcases hd id hid with hid | hid
        · rcases (hkeys id).1 hid with hid | hid
          · exact Or.inl hid
          · exact Or.inr (Or.inl hid)
        · exact Or.inr (Or.inr hid)

/-! ### The whole edit -/

/-- The atoms after an edit, before they are put in order. -/
def merged (atoms : List Atom) (changes : List Change) (operationId : String) (version : Nat) : List Atom :=
  (atoms ++ insertedAtoms operationId version changes 0).map (mark (deletedIds changes))

/-- The atoms of a map in the order in which the runtime enumerates it. -/
def arrange (values : Enumeration String Atom) (atoms : List Atom) : List Atom :=
  (values.enumerate (atoms.map keyed)).map Prod.snd

theorem arrange_perm (values : Enumeration String Atom) (atoms : List Atom) : (arrange values atoms).Perm atoms := by
  have h := (values.perm (atoms.map keyed)).map Prod.snd
  rwa [List.map_map, show Prod.snd ∘ keyed = id from rfl, List.map_id] at h

theorem arrange_congr (values : Enumeration String Atom) {atoms atoms' : List Atom} (hnd : (atoms.map Atom.id).Nodup)
    (hp : atoms.Perm atoms') : arrange values atoms = arrange values atoms' := by
  unfold arrange
  rw [values.congr (by rw [map_keyed_fst]; exact hnd) (hp.map keyed)]

/-- What is known of an edit that `Rga.apply` admitted. -/
structure Admitted (values : Enumeration String Atom) (atoms : List Atom) (changes : List Change)
    (operationId : String) (version : Nat) (r : Applied) : Prop where
  fresh : (atoms.map Atom.id ++ (insertedAtoms operationId version changes 0).map Atom.id).Nodup
  anchored : ∀ a ∈ insertedAtoms operationId version changes 0, ∀ q, a.afterId = some q → q ∈ atoms.map Atom.id ∨
    ∃ b ∈ insertedAtoms operationId version changes 0, b.id = q ∧ b.order < a.order
  known : ∀ id ∈ deletedIds changes, id ∈ (merged atoms changes operationId version).map Atom.id
  length : insertedLength changes ≤ maximumInsertAtoms
  inserted : r.inserted = insertedAtoms operationId version changes 0
  deleted : r.deleted = (deletedIds changes).eraseDups
  ordered : r.atoms = order (arrange values (merged atoms changes operationId version))
  content : r.content = text r.atoms
  atomsBound : (merged atoms changes operationId version).length ≤ maximumAtoms
  visibleBound : (visible r.atoms).length ≤ maximumVisibleAtoms
  contentBound : r.content.utf8ByteSize ≤ maximumContentBytes

theorem map_merged_id (atoms : List Atom) (changes : List Change) (operationId : String) (version : Nat) :
    (merged atoms changes operationId version).map Atom.id =
      atoms.map Atom.id ++ (insertedAtoms operationId version changes 0).map Atom.id := by
  rw [merged, map_mark_id, List.map_append]

theorem map_merged_order (atoms : List Atom) (changes : List Change) (operationId : String) (version : Nat) :
    (merged atoms changes operationId version).map Atom.order =
      atoms.map Atom.order ++ (insertedAtoms operationId version changes 0).map Atom.order := by
  rw [merged, map_mark_order, List.map_append]

private theorem ofList_size_le (atoms : List Atom) :
    (OrderedMap.ofList (atoms.map keyed)).size ≤ atoms.length := by
  have := OrderedMap.size_setAll_le (atoms.map keyed) OrderedMap.empty
  simpa [OrderedMap.ofList] using this

theorem apply_spec {values : Enumeration String Atom} {atoms : List Atom} {r : Applied}
    (h : apply values atoms changes operationId version = .ok r) :
    Admitted values atoms changes operationId version r := by
  unfold apply at h
  split at h
  case isFalse => exact absurd h (by simp)
  rename_i hadm
  obtain ⟨p, hp, h⟩ := FallibleLoop.bind_ok.1 h
  split at h
  case isTrue => exact absurd h (by simp)
  rename_i hsize
  push Not at hsize
  obtain ⟨hmax, hsize⟩ := hsize
  dsimp only at h
  split at h
  case isFalse => exact absurd h (by simp)
  rename_i hbound
  obtain rfl := Except.ok.inj h
  change changes.foldlM (applyChange operationId version) ⟨OrderedMap.ofList (atoms.map keyed), [], [], 0⟩ = .ok p at hp
  obtain ⟨hins, hdel, hle⟩ := foldlM_applyChange_report hp
  simp only [List.nil_append] at hins hdel
  rw [hins, length_insertedAtoms] at hsize
  -- the index has one node per atom, so the ids of the document are distinct
  have hindex := ofList_size_le atoms
  have hnd : (atoms.map Atom.id).Nodup := by
    have := OrderedMap.nodup_of_size_setAll (l := atoms.map keyed) (m := OrderedMap.empty)
      (by rw [List.length_map]; change (OrderedMap.ofList (atoms.map keyed)).size = 0 + atoms.length; simp only at hle; omega)
    rwa [OrderedMap.keys_empty, List.nil_append, map_keyed_fst] at this
  have hentries := entries_index hnd
  have hkeys := keys_index hnd
  obtain ⟨hfresh, hnodes⟩ := foldlM_applyChange_entries hp (keyed_index hnd) (by simp only at hle ⊢; omega)
  obtain ⟨hanchored, hknown⟩ := foldlM_applyChange_known hp
  simp only [hkeys] at hfresh hanchored hknown
  have hmerged : p.nodes.entries = (merged atoms changes operationId version).map keyed := by
    rw [hnodes, hentries, ← List.map_append, List.map_map, merged, List.map_map]
    rfl
  simp only [admissible, Bool.and_eq_true, decide_eq_true_eq] at hadm
  refine ⟨hfresh, hanchored, ?_, hadm.1.2, hins, by rw [hdel], ?_, rfl, ?_, hbound.1, hbound.2⟩
  · intro id hid
    rw [map_merged_id, List.mem_append]
    exact hknown id hid
  · rw [hmerged]; rfl
  · rw [← List.length_map (f := keyed), ← hmerged]
    exact hmax

theorem Admitted.atoms_perm_arrange {values : Enumeration String Atom} {atoms : List Atom}
    (hg : ForestWalk.Grounded Atom.id Atom.afterId (merged atoms changes operationId version)) :
    (order (arrange values (merged atoms changes operationId version))).Perm
      (merged atoms changes operationId version) :=
  (order_perm (hg.of_perm (arrange_perm values _).symm)).trans (arrange_perm values _)

/-- The keys of the atoms of a document stay below those of the next version. -/
def Below (version : Nat) (atoms : List Atom) : Prop := ∀ a ∈ atoms, a.order < version * maximumAtoms

theorem Below.of_perm {atoms atoms' : List Atom} (h : Below version atoms) (hp : atoms.Perm atoms') :
    Below version atoms' := fun a ha => h a (hp.mem_iff.2 ha)

section Preservation

variable {values : Enumeration String Atom} {atoms : List Atom} {r : Applied}

/-- An edit at a version above all earlier ones keeps the list of atoms well formed. -/
theorem Admitted.wellFormed_merged (h : Admitted values atoms changes operationId version r) (hw : WellFormed atoms)
    (hb : Below version atoms) : WellFormed (merged atoms changes operationId version) := by
  have hids := map_merged_id atoms changes operationId version
  refine ⟨by rw [hids]; exact h.fresh, ?_, ?_⟩
  · rw [map_merged_order, List.nodup_append]
    refine ⟨hw.orders, nodup_insertedAtoms_orders _ _ _ _, ?_⟩
    intro x hx y hy hxy
    obtain ⟨a, ha, rfl⟩ := List.mem_map.1 hx
    obtain ⟨b, hb', rfl⟩ := List.mem_map.1 hy
    obtain ⟨i, -, -, -, hbo, -, -⟩ := mem_insertedAtoms hb'
    have := hb a ha
    omega
  · intro a' ha' p hp
    obtain ⟨a, ha, rfl⟩ := List.mem_map.1 ha'
    rw [mark_afterId] at hp
    rcases List.mem_append.1 ha with ha | ha
    · obtain ⟨b, hb', hbp, hlt⟩ := hw.parents a ha p hp
      exact ⟨mark (deletedIds changes) b, List.mem_map_of_mem (List.mem_append_left _ hb'), hbp, hlt⟩
    · rcases h.anchored a ha p hp with hp | ⟨b, hb', hbp, hlt⟩
      · obtain ⟨b, hb', rfl⟩ := List.mem_map.1 hp
        refine ⟨mark (deletedIds changes) b, List.mem_map_of_mem (List.mem_append_left _ hb'), rfl, ?_⟩
        obtain ⟨i, -, -, -, hao, -, -⟩ := mem_insertedAtoms ha
        have := hb b hb'
        simp only [mark_order]
        omega
      · exact ⟨mark (deletedIds changes) b, List.mem_map_of_mem (List.mem_append_right _ hb'), hbp, hlt⟩

theorem Admitted.below_merged (h : Admitted values atoms changes operationId version r) (hb : Below version atoms) :
    Below (version + 1) (merged atoms changes operationId version) := by
  intro a' ha'
  obtain ⟨a, ha, rfl⟩ := List.mem_map.1 ha'
  have hlen := h.length
  unfold maximumInsertAtoms at hlen
  rw [mark_order, Nat.succ_mul]
  rcases List.mem_append.1 ha with ha | ha
  · have := hb a ha; omega
  · obtain ⟨i, -, hi, -, hao, -, -⟩ := mem_insertedAtoms ha
    rw [hao]
    unfold maximumAtoms
    omega

/-- With distinct keys the order of enumeration does not matter. -/
theorem Admitted.atoms_eq (h : Admitted values atoms changes operationId version r) (hw : WellFormed atoms)
    (hb : Below version atoms) : r.atoms = order (merged atoms changes operationId version) := by
  have hm := h.wellFormed_merged hw hb
  rw [h.ordered]
  exact (order_congr (arrange_perm values _).symm hm.orders).symm

theorem Admitted.atoms_perm (h : Admitted values atoms changes operationId version r) (hw : WellFormed atoms)
    (hb : Below version atoms) : r.atoms.Perm (merged atoms changes operationId version) := by
  rw [h.atoms_eq hw hb]
  exact (h.wellFormed_merged hw hb).order_perm

end Preservation

end KComms.Documents.Rga
