import KComms.Lib.DistinctOn
import KComms.Whiteboards.Erasure

/-!
# The search for text on boards (`Whiteboards.Queries`)

The search takes for every element the revision with the highest sequence since the latest clear; the scene takes the
one that wins by version and nonce.  They agree just when a revision in the last operation with its element looks like
the one that stands, where the database makes a boolean of any `isDeleted` and fails if it cannot.
-/

namespace KComms.Whiteboards

open FallibleLoop (bind_ok)

/-! ### The query -/

/-- A row of `elements`. -/
structure SearchRow where
  conversationId : String
  sequence : Nat
  element : Element
  deriving DecidableEq, Repr

/-- `(conversation_id, element->>'id')` -/
def SearchRow.key (row : SearchRow) : String × String := (row.conversationId, row.element.id)

/-- `elements`: the elements of the updates since the latest clear of their board. -/
def searchElements (s : Store) (tenantId : String) (conversationIds : List String) : List SearchRow :=
  (s.operations.filter fun op => op.tenantId = tenantId ∧ op.conversationId ∈ conversationIds ∧ op.kind = .sceneUpdate ∧
    s.latestClear op.whiteboardId < op.sequence).flatMap fun op =>
      op.elements.map fun element => ⟨op.conversationId, op.sequence, element⟩

/-- The rows in an order in which the database may read them; rows with the same key and sequence come in any order. -/
structure ReadOrder (rows sorted : List SearchRow) : Prop where
  perm : sorted.Perm rows
  latestFirst : sorted.Pairwise fun row other => row.key = other.key → other.sequence ≤ row.sequence

/-- `latest` -/
def latestRows (sorted : List SearchRow) : List SearchRow := distinctOn SearchRow.key sorted

variable {e : Element}

section Rows

variable {rows sorted : List SearchRow} {row : SearchRow}

theorem ReadOrder.first (h : ReadOrder rows sorted) (hrow : row ∈ latestRows sorted) :
    row ∈ rows ∧ ∀ other ∈ rows, other.key = row.key → other.sequence ≤ row.sequence := by
  refine ⟨h.perm.mem_iff.1 (mem_of_mem_distinctOn hrow), fun other hother hkey => ?_⟩
  have hrefl : ∀ row : SearchRow, row.sequence ≤ row.sequence := fun row => Nat.le_refl _
  have hother := h.perm.mem_iff.2 hother
  exact @distinctOn_first _ _ _ SearchRow.key sorted row (fun row other => other.sequence ≤ row.sequence) hrefl
    h.latestFirst hrow other hother hkey

/-- Any of the latest rows of a key may be read first. -/
theorem exists_readOrder (hrow : row ∈ rows) (hlatest : ∀ other ∈ rows, other.key = row.key → other.sequence ≤ row.sequence) :
    ∃ sorted, ReadOrder rows sorted ∧ row ∈ latestRows sorted := by
  have hsorted : (rows.insertionSort fun row other => other.sequence ≤ row.sequence).Pairwise
      fun row other => other.sequence ≤ row.sequence := by
    have : Std.Total fun row other : SearchRow => other.sequence ≤ row.sequence :=
      ⟨fun row other => Nat.le_total other.sequence row.sequence⟩
    have : IsTrans SearchRow fun row other => other.sequence ≤ row.sequence :=
      ⟨fun _ _ _ h h' => Nat.le_trans h' h⟩
    exact List.pairwise_insertionSort _ _
  have hperm := List.perm_insertionSort (fun row other : SearchRow => other.sequence ≤ row.sequence) rows
  generalize rows.insertionSort (fun row other => other.sequence ≤ row.sequence) = sorted at hsorted hperm
  refine ⟨row :: sorted.erase row, ⟨?_, List.pairwise_cons.2 ⟨fun other hother hkey => ?_, ?_⟩⟩, ?_⟩
  · exact (List.perm_cons_erase (hperm.mem_iff.2 hrow)).symm.trans hperm
  · exact hlatest other (hperm.mem_iff.1 (List.mem_of_mem_erase hother)) hkey.symm
  · refine (hsorted.sublist List.erase_sublist).imp ?_
    intro row other hle _
    exact hle
  · unfold latestRows distinctOn
    exact List.mem_cons_self

end Rows

/-! ### The deleted flag -/

/-- `isspace` -/
def isSpace (c : Char) : Bool := c = ' ' || ('\t' ≤ c && c ≤ '\r')

/-- `text::boolean`: a word or the start of one in any case, or `none` where the cast fails. -/
def castBoolean (text : String) : Option Bool :=
  let trimmed := ((text.toList.dropWhile isSpace).reverse.dropWhile isSpace).reverse
  let word := String.ofList (trimmed.map Char.toLower)
  if word ∈ ["t", "tr", "tru", "true", "y", "ye", "yes", "on", "1"] then some true
  else if word ∈ ["f", "fa", "fal", "fals", "false", "n", "no", "of", "off", "0"] then some false
  else none

/-- `COALESCE((element->>'isDeleted')::boolean, false)` -/
def sqlDeleted (e : Element) : Option Bool :=
  match e.isDeleted with
  | .bool value => some value
  | .other none => some false
  | .other (some text) => castBoolean text

/-- The id, the text and the flag of an element in the search. -/
def found (text : Element → String) (e : Element) : Option (String × String × Bool) :=
  (sqlDeleted e).map fun deleted => (e.id, text e, deleted)

/-- The conversation, the id, the text and the flag of the latest rows, or `none` if the query fails. -/
def searchRows (text : Element → String) (sorted : List SearchRow) : Option (List (String × String × String × Bool)) :=
  (latestRows sorted).mapM fun row => (found text row.element).map (Prod.mk row.conversationId)

example : [castBoolean " TRUE ", castBoolean "of", castBoolean "1", castBoolean "x"] =
    [some true, some false, some true, none] := by decide

/-! ### The boards of conversations -/

/-- A conversation has one board. -/
def OneBoard (s : Store) : Prop := (s.boards.map fun b => (b.tenantId, b.conversationId)).Nodup

section OneBoard

variable {rt : Runtime} {s s' : Store} {p : Provenance}

theorem OneBoard.putBoard (h : OneBoard s) (hids : (s.boards.map Whiteboard.id).Nodup) {b b' : Whiteboard}
    (hb : b ∈ s.boards) (hid : b'.id = b.id) (htenant : b'.tenantId = b.tenantId)
    (hconversation : b'.conversationId = b.conversationId) : OneBoard (s.putBoard b') := by
  unfold OneBoard Store.putBoard
  rw [List.map_map]
  have hsame : s.boards.map ((fun b => (b.tenantId, b.conversationId)) ∘ fun x => if x.id = b'.id then b' else x) =
      s.boards.map fun b => (b.tenantId, b.conversationId) := by
    refine List.map_congr_left fun x hx => ?_
    rw [Function.comp_apply]
    split
    · rename_i heq
      obtain rfl : x = b := List.inj_on_of_nodup_map hids hx hb (heq.trans hid)
      rw [htenant, hconversation]
    · rfl
  rw [hsame]
  exact h

theorem OneBoard.change (h : OneBoard s) (hinv : StoreInv s) (hc : Change rt s s') : OneBoard s' := by
  cases hc with
  | create b fresh first sequence =>
    unfold OneBoard
    rw [List.map_append, List.nodup_append]
    refine ⟨h, List.nodup_singleton _, fun x hx y hy => ?_⟩
    obtain ⟨b', hb', rfl⟩ := List.mem_map.1 hx
    rintro rfl
    have hsame := Prod.mk.inj (List.mem_singleton.1 hy)
    unfold Store.board? at first
    rw [List.find?_eq_none] at first
    exact first b' hb' (by simpa using hsame)
  | append b op prepared mem hop prepare =>
    unfold OneBoard
    rw [appended_boards]
    exact h.putBoard hinv.boardIds mem rfl rfl rfl
  | rename b title userId mem => exact h.putBoard hinv.boardIds mem rfl rfl rfl
  | checkpoint => exact h
  | addAsset => exact h

theorem Traced.oneBoard (run : Traced rt s p) : OneBoard s := by
  induction run with
  | empty => exact List.nodup_nil
  | @command s s' p p' call command run accepted changes ih =>
    clear accepted
    have hinv := run.inv.store
    generalize hend : (s', p') = last at changes
    obtain rfl : s' = last.1 := by rw [← hend]
    clear hend
    have hboth : OneBoard last.1 ∧ StoreInv last.1 := by
      induction changes with
      | refl => exact ⟨ih, hinv⟩
      | tail _ hc ih => exact ⟨ih.1.change ih.2 hc.change, ih.2.change hc.change⟩
    exact hboth.1
  | erase tenantId userId _ ih =>
    unfold OneBoard Erasure.eraseUser
    rw [List.map_map]
    refine Eq.mp (congrArg List.Nodup (List.map_congr_left fun b _ => ?_)) ih
    rw [Function.comp_apply]
    split <;> rfl
  | eraseConversation tenantId conversationId _ ih => exact (List.filter_sublist.map _).nodup ih

theorem OneBoard.eq (h : OneBoard s) {b b' : Whiteboard} (hb : b ∈ s.boards) (hb' : b' ∈ s.boards)
    (htenant : b.tenantId = b'.tenantId) (hconversation : b.conversationId = b'.conversationId) : b = b' :=
  List.inj_on_of_nodup_map h hb hb' (Prod.ext htenant hconversation)

end OneBoard

/-! ### The scene of a board -/

/-- The revisions of a board since its latest clear. -/
def revisions (s : Store) (b : Whiteboard) : List Element := (generation (s.operationsOf b.id)).flatMap Operation.elements

/-- The fold of `Scene.merge` over the operations after the latest clear. -/
def currentScene (rt : Runtime) (s : Store) (b : Whiteboard) : Except WhiteboardError Scene :=
  Snapshots.projectTail rt s b.id (s.latestClear b.id) b.sequence Scene.empty

section Scene

variable {rt : Runtime} {s : Store} {b : Whiteboard}

theorem incomingWins_rank (a b c : Element) (h : Scene.incomingWins a c = true) :
    Scene.incomingWins a b = true ∨ Scene.incomingWins b c = true := by
  unfold Scene.incomingWins at *
  dsimp only at *
  split at h <;> split <;> split <;> simp only [decide_eq_true_eq] at h ⊢ <;> omega

/-- The scene holds for each id the revision that stands. -/
theorem shown_get? (h : BoardInv s b) {id : String} :
    (shown (s.operationsOf b.id)).get? id = some e ↔
      LatestWins.Stands Element.id Scene.incomingWins (revisions s b) e ∧ e.id = id := by
  have hsplit : shown (s.operationsOf b.id) =
      LatestWins.merge Element.id Scene.incomingWins OrderedMap.empty (revisions s b) := by
    conv_lhs => rw [← List.take_append_drop (latestClear (s.operationsOf b.id)) (s.operationsOf b.id)]
    rw [shown_append, shown_latestClear h.numbered,
      foldl_showOperation_updates (updates_of_latestClear h.numbered (Nat.le_refl _))]
    rfl
  rw [hsplit]
  exact LatestWins.get?_merge_iff incomingWins_rank
    fun a b c => Scene.incomingWins_strict.trans a b c trivial trivial trivial

/-- The elements of the scene are the revisions that stand. -/
theorem mem_currentScene (h : BoardInv s b) {scene : Scene} (hscene : currentScene rt s b = .ok scene) :
    e ∈ Scene.elements rt.entries scene ↔ LatestWins.Stands Element.id Scene.incomingWins (revisions s b) e := by
  have hboard : Scene.empty.board = shown ((s.operationsOf b.id).take (s.latestClear b.id)) := by
    rw [store_latestClear, shown_latestClear h.numbered]
    rfl
  obtain ⟨hwf, hshown, -⟩ := (projectTail_ok h (Nat.le_refl _) Scene.wf_empty hboard).1 hscene
  rw [hwf.elements, hshown, OrderedMap.mem_values]
  constructor
  · rintro ⟨id, hid⟩
    exact ((shown_get? h).1 hid).1
  · intro hstands
    exact ⟨e.id, (shown_get? h).2 ⟨hstands, rfl⟩⟩

theorem mem_revisions (h : BoardInv s b) :
    e ∈ revisions s b ↔ ∃ op ∈ s.operationsOf b.id, s.latestClear b.id < op.sequence ∧ e ∈ op.elements := by
  unfold revisions generation
  rw [List.mem_flatMap]
  have hdrop : ∀ op, op ∈ (s.operationsOf b.id).drop (latestClear (s.operationsOf b.id)) ↔
      op ∈ s.operationsOf b.id ∧ s.latestClear b.id < op.sequence := by
    intro op
    rw [store_latestClear]
    have hfilter := h.numbered.filter_gt (k := latestClear (s.operationsOf b.id)) (by omega)
    rw [Nat.add_sub_cancel] at hfilter
    rw [← hfilter, List.mem_filter, decide_eq_true_eq]
  constructor
  · rintro ⟨op, hop, he⟩
    obtain ⟨hop, hlater⟩ := (hdrop op).1 hop
    exact ⟨op, hop, hlater, he⟩
  · rintro ⟨op, hop, hlater, he⟩
    exact ⟨op, (hdrop op).2 ⟨hop, hlater⟩, he⟩

/-- Every revision gives way to one that stands. -/
theorem exists_stands (he : e ∈ revisions s b) :
    ∃ winner, LatestWins.Stands Element.id Scene.incomingWins (revisions s b) winner ∧ winner.id = e.id := by
  have hmem : e.id ∈ (LatestWins.merge Element.id Scene.incomingWins OrderedMap.empty (revisions s b)).keys :=
    LatestWins.mem_keys_merge.2 (.inr (List.mem_map_of_mem he))
  obtain ⟨winner, hwinner⟩ := OrderedMap.mem_keys_iff.1 hmem
  exact ⟨winner, (LatestWins.get?_merge_iff incomingWins_rank
    fun a b c => Scene.incomingWins_strict.trans a b c trivial trivial trivial).1 hwinner⟩

/-- The rows of a board. -/
theorem mem_searchElements (h : StoreInv s) (hone : OneBoard s) (hb : b ∈ s.boards) {conversationIds : List String}
    (hauthorized : b.conversationId ∈ conversationIds) {row : SearchRow} :
    (row ∈ searchElements s b.tenantId conversationIds ∧ row.conversationId = b.conversationId) ↔
      ∃ op ∈ s.operationsOf b.id, s.latestClear b.id < op.sequence ∧ ∃ e ∈ op.elements,
        row = ⟨b.conversationId, op.sequence, e⟩ := by
  unfold searchElements
  constructor
  · rintro ⟨hrow, hconversation⟩
    obtain ⟨op, hop, hrow⟩ := List.mem_flatMap.1 hrow
    obtain ⟨e, he, rfl⟩ := List.mem_map.1 hrow
    obtain ⟨hmem, hconditions⟩ := List.mem_filter.1 hop
    obtain ⟨htenant, -, -, hlater⟩ := of_decide_eq_true hconditions
    obtain ⟨x, hx, hid, hxtenant, hxconversation⟩ := h.operations op hmem
    have hconversation : op.conversationId = b.conversationId := hconversation
    -- the board of the operation is the one of the conversation
    obtain rfl : x = b := hone.eq hx hb (hxtenant.trans htenant) (hxconversation.trans hconversation)
    rw [← hid] at hlater
    exact ⟨op, List.mem_filter.2 ⟨hmem, by simpa using hid.symm⟩, hlater, e, he, by rw [hconversation]⟩
  · rintro ⟨op, hop, hlater, e, he, rfl⟩
    obtain ⟨hmem, hid⟩ := List.mem_filter.1 hop
    have hid : op.whiteboardId = b.id := of_decide_eq_true hid
    obtain ⟨x, hx, hxid, hxtenant, hxconversation⟩ := h.operations op hmem
    obtain rfl : x = b := List.inj_on_of_nodup_map h.boardIds hx hb (hxid.trans hid)
    refine ⟨List.mem_flatMap.2 ⟨op, List.mem_filter.2 ⟨hmem, decide_eq_true ⟨hxtenant.symm, ?_, ?_, ?_⟩⟩, ?_⟩, rfl⟩
    · rw [← hxconversation]
      exact hauthorized
    · have hdrop : op ∈ (s.operationsOf x.id).drop (latestClear (s.operationsOf x.id)) := by
        have hfilter := (h.board x hb).numbered.filter_gt (k := latestClear (s.operationsOf x.id)) (by omega)
        rw [Nat.add_sub_cancel] at hfilter
        rw [← hfilter, List.mem_filter, decide_eq_true_eq]
        exact ⟨hop, hlater⟩
      exact updates_of_latestClear (h.board x hb).numbered (Nat.le_refl _) op hdrop
    · rw [hid]
      exact hlater
    · exact List.mem_map.2 ⟨e, he, by rw [hxconversation]⟩

end Scene

/-! ### What the search can return -/

/-- The members of an element of the scene that the search reads. -/
def shows (text : Element → String) (e : Element) : String × String × Bool := (e.id, text e, e.isDeleted.isTrue)

/-- `op` is the last operation of the generation with an element of the id. -/
def LastWith (s : Store) (b : Whiteboard) (id : String) (op : Operation) : Prop :=
  ∀ other ∈ s.operationsOf b.id, op.sequence < other.sequence → ∀ e ∈ other.elements, e.id ≠ id

/-- In every order in which the database may read the rows, the query does not fail, and what it can return for the board
is what the elements of the scene show. -/
def SearchAgrees (rt : Runtime) (text : Element → String) (s : Store) (b : Whiteboard) (conversationIds : List String)
    (scene : Scene) : Prop :=
  ∀ sorted, ReadOrder (searchElements s b.tenantId conversationIds) sorted → ∃ rows, searchRows text sorted = some rows ∧
    ∀ shown, (b.conversationId, shown) ∈ rows ↔ ∃ e ∈ Scene.elements rt.entries scene, shows text e = shown

/-- The database can make a boolean of every flag in a latest row of the conversations. -/
def FlagsCast (s : Store) (b : Whiteboard) (conversationIds : List String) : Prop :=
  ∀ row ∈ searchElements s b.tenantId conversationIds,
    (∀ other ∈ searchElements s b.tenantId conversationIds, other.key = row.key → other.sequence ≤ row.sequence) →
    (sqlDeleted row.element).isSome = true

/-- The revisions of an element in the last operation with it look in the search like the one that stands. -/
def LastLooks (text : Element → String) (s : Store) (b : Whiteboard) : Prop :=
  ∀ op ∈ s.operationsOf b.id, s.latestClear b.id < op.sequence → ∀ e ∈ op.elements, LastWith s b e.id op →
    ∀ winner, LatestWins.Stands Element.id Scene.incomingWins (revisions s b) winner → winner.id = e.id →
      found text e = some (shows text winner)

section Agreement

variable {rt : Runtime} {s : Store} {b : Whiteboard} {conversationIds : List String}

/-- A row that is read first for its element comes from the last operation with the element. -/
theorem latestRows_lastWith (h : StoreInv s) (hone : OneBoard s) (hb : b ∈ s.boards)
    (hauthorized : b.conversationId ∈ conversationIds) {sorted : List SearchRow}
    (hsorted : ReadOrder (searchElements s b.tenantId conversationIds) sorted) {row : SearchRow}
    (hrow : row ∈ latestRows sorted) (hconversation : row.conversationId = b.conversationId) :
    ∃ op ∈ s.operationsOf b.id, s.latestClear b.id < op.sequence ∧ row.element ∈ op.elements ∧
      LastWith s b row.element.id op := by
  obtain ⟨hmem, hfirst⟩ := hsorted.first hrow
  obtain ⟨op, hop, hlater, e, he, rfl⟩ := (mem_searchElements h hone hb hauthorized).1 ⟨hmem, hconversation⟩
  refine ⟨op, hop, hlater, he, fun other hother hlt e' he' hid => ?_⟩
  have hrow' : SearchRow.mk b.conversationId other.sequence e' ∈ searchElements s b.tenantId conversationIds :=
    ((mem_searchElements h hone hb hauthorized).2
      ⟨other, hother, Nat.lt_trans hlater hlt, e', he', rfl⟩).1
  have hle := hfirst _ hrow' (Prod.ext rfl hid)
  exact Nat.not_le_of_lt hlt hle

theorem mem_searchRows {text : Element → String} {sorted : List SearchRow}
    {rows : List (String × String × String × Bool)} (h : searchRows text sorted = some rows)
    {conversationId : String} {shown : String × String × Bool} : (conversationId, shown) ∈ rows ↔
      ∃ row ∈ latestRows sorted, row.conversationId = conversationId ∧ found text row.element = some shown := by
  obtain ⟨hfrom, hto⟩ := mem_mapM h
  constructor
  · intro hmem
    obtain ⟨row, hrow, hfound⟩ := hfrom _ hmem
    obtain ⟨shown', hshown, heq⟩ := Option.map_eq_some_iff.1 hfound
    obtain ⟨rfl, rfl⟩ := Prod.mk.inj heq
    exact ⟨row, hrow, rfl, hshown⟩
  · rintro ⟨row, hrow, rfl, hshown⟩
    obtain ⟨found, hmem, hfound⟩ := hto row hrow
    rw [hshown] at hfound
    exact Option.some.inj hfound ▸ hmem

/-- The query fails if and only if the flag of a latest row cannot be cast. -/
theorem searchRows_some {text : Element → String} {sorted : List SearchRow} :
    (∃ rows, searchRows text sorted = some rows) ↔
      ∀ row ∈ latestRows sorted, (sqlDeleted row.element).isSome = true := by
  unfold searchRows
  constructor
  · rintro ⟨rows, hrows⟩ row hrow
    obtain ⟨_, -, hfound⟩ := (mem_mapM hrows).2 row hrow
    obtain ⟨_, hshown, -⟩ := Option.map_eq_some_iff.1 hfound
    obtain ⟨deleted, hdeleted, -⟩ := Option.map_eq_some_iff.1 hshown
    rw [hdeleted]
    rfl
  · intro h
    generalize latestRows sorted = l at h ⊢
    induction l with
    | nil => exact ⟨[], rfl⟩
    | cons row l ih =>
      rw [List.forall_mem_cons] at h
      obtain ⟨rows, hrows⟩ := ih h.2
      obtain ⟨deleted, hdeleted⟩ := Option.isSome_iff_exists.1 h.1
      refine ⟨(row.conversationId, row.element.id, text row.element, deleted) :: rows, ?_⟩
      rw [List.mapM_cons, hrows]
      unfold found
      rw [hdeleted]
      rfl

/-- Any element of the last operation with its id may be read first. -/
theorem exists_latestRows (h : StoreInv s) (hone : OneBoard s) (hb : b ∈ s.boards)
    (hauthorized : b.conversationId ∈ conversationIds) {op : Operation} (hop : op ∈ s.operationsOf b.id)
    (hlater : s.latestClear b.id < op.sequence) (he : e ∈ op.elements) (hlast : LastWith s b e.id op) :
    ∃ sorted, ReadOrder (searchElements s b.tenantId conversationIds) sorted ∧
      ⟨b.conversationId, op.sequence, e⟩ ∈ latestRows sorted := by
  have hrow := ((mem_searchElements h hone hb hauthorized).2 ⟨op, hop, hlater, e, he, rfl⟩).1
  refine exists_readOrder hrow fun other hother hkey => ?_
  obtain ⟨hconversation, hid⟩ := Prod.mk.inj hkey
  obtain ⟨op', hop', -, e', he', rfl⟩ := (mem_searchElements h hone hb hauthorized).1 ⟨hother, hconversation⟩
  by_contra hlt
  exact hlast op' hop' (Nat.lt_of_not_le hlt) e' he' hid

/-- The revisions that stand are one for each id. -/
theorem stands_unique (h : BoardInv s b) {e' : Element}
    (he : LatestWins.Stands Element.id Scene.incomingWins (revisions s b) e)
    (he' : LatestWins.Stands Element.id Scene.incomingWins (revisions s b) e') (hid : e.id = e'.id) : e = e' := by
  have hget := (shown_get? h).2 ⟨he, hid⟩
  rw [(shown_get? h).2 ⟨he', rfl⟩] at hget
  exact (Option.some.inj hget).symm

end Agreement

/-- On every board that users reach, in every order in which the database may read the rows, the search finds just the
elements of the current scene if and only if the flags in latest rows can be cast and in the last operation with an
element every revision of it looks like the one that stands. -/
theorem search_finds_scene (rt : Runtime) (text : Element → String) (s : Store) (p : Provenance) (run : Traced rt s p)
    (b : Whiteboard) (hb : b ∈ s.boards) (conversationIds : List String)
    (hauthorized : b.conversationId ∈ conversationIds) (scene : Scene) (hscene : currentScene rt s b = .ok scene) :
    SearchAgrees rt text s b conversationIds scene ↔ FlagsCast s b conversationIds ∧ LastLooks text s b := by
  have hinv := run.inv.store
  have hone := run.oneBoard
  have hboard := hinv.board b hb
  constructor
  · intro hagree
    constructor
    · intro row hrow hlatest
      obtain ⟨sorted, hsorted, hfirst⟩ := exists_readOrder hrow hlatest
      obtain ⟨rows, hrows, -⟩ := hagree sorted hsorted
      exact searchRows_some.1 ⟨rows, hrows⟩ row hfirst
    · intro op hop hlater e he hlast winner hwinner hid
      obtain ⟨sorted, hsorted, hrow⟩ := exists_latestRows hinv hone hb hauthorized hop hlater he hlast
      obtain ⟨rows, hrows, hshown⟩ := hagree sorted hsorted
      obtain ⟨deleted, hdeleted⟩ := Option.isSome_iff_exists.1 (searchRows_some.1 ⟨rows, hrows⟩ _ hrow)
      have hfound : found text e = some (e.id, text e, deleted) := by
        unfold found
        rw [hdeleted]
        rfl
      obtain ⟨e', he', hshows⟩ := (hshown _).1 ((mem_searchRows hrows).2 ⟨_, hrow, rfl, hfound⟩)
      have hstands := (mem_currentScene hboard hscene).1 he'
      have hid' : e'.id = e.id := (Prod.mk.inj hshows).1
      rw [hfound, ← hshows, stands_unique hboard hstands hwinner (hid'.trans hid.symm)]
  · rintro ⟨hcast, hlooks⟩ sorted hsorted
    have hlooks : ∀ row ∈ latestRows sorted, row.conversationId = b.conversationId →
        ∀ winner, LatestWins.Stands Element.id Scene.incomingWins (revisions s b) winner →
          winner.id = row.element.id → found text row.element = some (shows text winner) := by
      intro row hrow hconversation
      obtain ⟨op, hop, hlater, he, hlast⟩ := latestRows_lastWith hinv hone hb hauthorized hsorted hrow hconversation
      exact hlooks op hop hlater row.element he hlast
    obtain ⟨rows, hrows⟩ : ∃ rows, searchRows text sorted = some rows := searchRows_some.2 fun row hrow =>
      hcast row (hsorted.first hrow).1 (hsorted.first hrow).2
    refine ⟨rows, hrows, fun shown => (mem_searchRows hrows).trans ?_⟩
    constructor
    · rintro ⟨row, hrow, hconversation, hfound⟩
      obtain ⟨op, hop, hlater, he, -⟩ := latestRows_lastWith hinv hone hb hauthorized hsorted hrow hconversation
      obtain ⟨winner, hwinner, hid⟩ := exists_stands ((mem_revisions hboard).2 ⟨op, hop, hlater, he⟩)
      rw [hlooks row hrow hconversation winner hwinner hid] at hfound
      exact ⟨winner, (mem_currentScene hboard hscene).2 hwinner, Option.some.inj hfound⟩
    · rintro ⟨e, he, rfl⟩
      have hstands := (mem_currentScene hboard hscene).1 he
      obtain ⟨op, hop, hlater, he⟩ := (mem_revisions hboard).1 hstands.mem
      have hrow := ((mem_searchElements hinv hone hb hauthorized).2 ⟨op, hop, hlater, e, he, rfl⟩).1
      have hkeys : ∃ kept ∈ latestRows sorted, kept.key = (b.conversationId, e.id) :=
        exists_mem_distinctOn (hsorted.perm.mem_iff.2 hrow)
      obtain ⟨kept, hkept, hkey⟩ := hkeys
      obtain ⟨hconversation, hid⟩ := Prod.mk.inj hkey
      exact ⟨kept, hkept, hconversation, hlooks kept hkept hconversation e hstands hid.symm⟩

/-- An update by a text. -/
def labelUpdate (clientOperationId : String) (baseSequence version : Int) (text : String) : Command :=
  .append "conversation-1"
    { clientOperationId := some clientOperationId, kind := some .sceneUpdate, baseSequence := some baseSequence,
      elements := some [{ id := some "element-1", type := some .text, version := some version,
                          versionNonce := some 7, linked := false, isDeleted := .bool false, fileId := none,
                          sourced := false, rest := text }],
      payloadEmpty := false }

/-- The commands of users, from the empty store: the last one has not seen the second version. -/
def movedCommands : List (String × Command) :=
  [("user-1", labelUpdate "operation-0" 0 1 "draft"),
   ("user-1", labelUpdate "operation-1" 1 2 "plan"),
   ("user-2", labelUpdate "operation-2" 1 1 "sketch")]

/-- A drawing in which a stale revision comes after a newer one. -/
def moved : Nat → Store
  | 0 => Store.empty
  | n + 1 =>
    match movedCommands[n]? with
    | none => moved n
    | some (userId, command) => next (plainRuntime 1) (plainCall n userId) (moved n) command

theorem traced_moved (n : Nat) : ∃ p, Traced (plainRuntime 1) (moved n) p := by
  induction n with
  | zero => exact ⟨_, .empty⟩
  | succ n ih =>
    unfold moved
    cases movedCommands[n]? with
    | none => exact ih
    | some entry => exact exists_traced_next ih _ entry.2

def movedBoard (sequence : Nat) : Whiteboard :=
  { id := "id-[0, 0]", tenantId := "tenant-1", conversationId := "conversation-1", sequence, title := "Untitled board",
    libraryVersion := 1, titleActorUserId := none }

def movedLabel (version : Int) (text : String) : Element :=
  { id := "element-1", type := .text, version := some version, versionNonce := some 7, isDeleted := .bool false,
    fileId := none, rest := text }

theorem currentScene_moved (n : Nat) (b : Whiteboard)
    (h : ((currentScene (plainRuntime 1) (moved n) b).toOption.map (Scene.elements (plainRuntime 1).entries)).isSome) :
    ∃ scene, currentScene (plainRuntime 1) (moved n) b = .ok scene := by
  cases hscene : currentScene (plainRuntime 1) (moved n) b with
  | error e =>
    rw [hscene] at h
    cases h
  | ok scene => exact ⟨scene, rfl⟩

theorem search_finds_scene_moved : ∃ p scene, Traced (plainRuntime 1) (moved 2) p ∧
    currentScene (plainRuntime 1) (moved 2) (movedBoard 2) = .ok scene ∧
    (SearchAgrees (plainRuntime 1) Element.rest (moved 2) (movedBoard 2) ["conversation-1"] scene ↔
      FlagsCast (moved 2) (movedBoard 2) ["conversation-1"] ∧ LastLooks Element.rest (moved 2) (movedBoard 2)) := by
  obtain ⟨p, hp⟩ := traced_moved 2
  obtain ⟨scene, hscene⟩ := currentScene_moved 2 (movedBoard 2) (by decide)
  exact ⟨p, scene, hp, hscene, search_finds_scene (plainRuntime 1) Element.rest (moved 2) p hp (movedBoard 2)
    (by decide) ["conversation-1"] (by decide) scene hscene⟩

/-- The text of a revision that lost is found, and the text in the scene is not. -/
theorem search_finds_stale : (∃ p, Traced (plainRuntime 1) (moved 3) p) ∧ movedBoard 3 ∈ (moved 3).boards ∧
    ∃ scene, currentScene (plainRuntime 1) (moved 3) (movedBoard 3) = .ok scene ∧
      Scene.elements (plainRuntime 1).entries scene = [movedLabel 2 "plan"] ∧
      (∃ sorted, ReadOrder (searchElements (moved 3) "tenant-1" ["conversation-1"]) sorted ∧
        latestRows sorted = [⟨"conversation-1", 3, movedLabel 1 "sketch"⟩]) ∧
      ¬ SearchAgrees (plainRuntime 1) Element.rest (moved 3) (movedBoard 3) ["conversation-1"] scene := by
  obtain ⟨scene, hscene⟩ := currentScene_moved 3 (movedBoard 3) (by decide)
  have helements : (currentScene (plainRuntime 1) (moved 3) (movedBoard 3)).toOption.map
      (Scene.elements (plainRuntime 1).entries) = some [movedLabel 2 "plan"] := by decide
  rw [hscene] at helements
  have helements := Option.some.inj helements
  have horder : ReadOrder (searchElements (moved 3) "tenant-1" ["conversation-1"])
      (searchElements (moved 3) "tenant-1" ["conversation-1"]).reverse := ⟨List.reverse_perm _, by decide⟩
  have hlatest : latestRows (searchElements (moved 3) "tenant-1" ["conversation-1"]).reverse =
      [⟨"conversation-1", 3, movedLabel 1 "sketch"⟩] := by decide
  refine ⟨traced_moved 3, by decide, scene, hscene, helements, ⟨_, horder, hlatest⟩, fun hagree => ?_⟩
  obtain ⟨rows, hrows, hshown⟩ := hagree _ horder
  obtain ⟨e, he, hshows⟩ := (hshown (shows Element.rest (movedLabel 1 "sketch"))).1
    ((mem_searchRows hrows).2 ⟨_, by rw [hlatest]; exact List.mem_cons_self, rfl, rfl⟩)
  rw [helements, List.mem_singleton] at he
  rw [he] at hshows
  revert hshows
  decide

end KComms.Whiteboards
