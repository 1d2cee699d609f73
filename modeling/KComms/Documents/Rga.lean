import KComms.Lib.OrderedMap
import KComms.Lib.ForestWalk
import Mathlib.Algebra.Ring.Nat

/-!
# The replicated text of a shared document (`SharedDocuments.Rga`)

A document is a list of atoms, one code point each.  An atom names the atom it was inserted after and carries an order
key; deleting an atom only marks it.  `Rga.apply` admits an edit: it checks the changes, runs them over a map of the
atoms, and linearises the result with `Rga.order`, a preorder walk in which siblings stand in descending order of
their keys.

Strings are valid UTF-8 by type and a change has exactly its three fields by type, so of `valid_change?` the checks of
shape and of `String.valid?` need no counterpart.
-/

namespace KComms.Documents

/-- One code point of a document. -/
structure Atom where
  id : String
  afterId : Option String
  text : String
  deleted : Bool
  order : Nat
  deriving DecidableEq, Repr

/-- One change of an edit: delete some atoms, then insert a text after an atom (or at the very beginning). -/
structure Change where
  afterId : Option String
  deleteIds : List String
  insert : String
  deriving DecidableEq, Repr

/-- The reasons for which the checks of authority refuse a command. -/
inductive Refusal
  | forbidden
  | legalHoldActive
  | documentProtectionUnavailable
  deriving DecidableEq, Repr

/-- The reasons for which a command on a shared document is refused. -/
inductive DocumentError
  | invalidDocumentOperation
  | unknownDocumentAtom
  | documentCapacityExceeded
  | staleDocumentGeneration
  | staleVersion
  | idempotencyConflict
  | documentLineageUnknown
  | documentErasureScopeExceeded
  | notFound
  | refused (reason : Refusal)
  deriving DecidableEq, Repr

/-- The nodes of a document, by atom id. -/
abbrev Nodes := OrderedMap String Atom

/-- `String.codepoints`: the code points of a text, each as a text. -/
def codepoints (text : String) : List String := text.toList.map String.singleton

variable {atoms atoms' : List Atom}

namespace Rga

def maximumAtoms : Nat := 32000
def maximumVisibleAtoms : Nat := 16000
def maximumContentBytes : Nat := 65536
def maximumInsertAtoms : Nat := 2048
def maximumDeletedAtoms : Nat := 4096

/-! ### Admission of a change -/

/-- The character class `[0-9a-f-]`. -/
def uuidChar (c : Char) : Bool := c.isDigit || ('a' ≤ c && c ≤ 'f') || c == '-'

/-- `[0-9]{1,8}$`: the end of the pattern also matches before a final newline. -/
def offsetSuffix (s : List Char) : Bool :=
  let digits := if s.getLast? = some '\n' then s.dropLast else s
  digits.all Char.isDigit && 1 ≤ digits.length && digits.length ≤ 8

/-- `^[0-9a-f-]{36}:[0-9]{1,8}$` on a value of 38 to 45 bytes. -/
def validAtomId (value : String) : Bool :=
  let chars := value.toList
  38 ≤ value.utf8ByteSize && value.utf8ByteSize ≤ 45 &&
    (chars.take 36).length == 36 && (chars.take 36).all uuidChar && (chars.drop 36).head? == some ':' &&
    offsetSuffix (chars.drop 37)

def validChange (change : Change) : Bool :=
  change.afterId.all validAtomId && decide (change.deleteIds.length ≤ maximumDeletedAtoms) &&
    decide change.deleteIds.Nodup && change.deleteIds.all validAtomId &&
    decide (change.insert.utf8ByteSize ≤ 8192) && !change.insert.toList.contains '\x00' &&
    (change.insert != "" || change.deleteIds != [])

/-! ### Linearisation -/

/-- Siblings stand in descending order of their keys. -/
def newerFirst (a b : Atom) : Prop := b.order ≤ a.order

instance : DecidableRel newerFirst := fun a b => inferInstanceAs (Decidable (b.order ≤ a.order))

/-- `Enum.group_by` on the parent, each group sorted: the siblings below a parent. -/
def siblings (atoms : List Atom) (parent : Option String) : List Atom :=
  ForestWalk.children Atom.afterId newerFirst atoms parent

/-- `traverse` with a bound on the number of calls. -/
def traverse (children : Option String → List Atom) : Nat → List Atom → List Atom → Option (List Atom)
  | _, [], result => some result
  | 0, _ :: _, _ => none
  | fuel + 1, atom :: rest, result => traverse children fuel (children (some atom.id) ++ rest) (atom :: result)

/-- `Rga.order` within a number of calls of `traverse`; `none` when they are not enough. -/
def orderWithin (fuel : Nat) (atoms : List Atom) : Option (List Atom) :=
  (traverse (siblings atoms) fuel (siblings atoms none) []).map List.reverse

/-- `Rga.order`.  One call per atom is enough when the ids are distinct (`orderWithin_eq`), and the server only orders
the values of a map. -/
def order (atoms : List Atom) : List Atom := (orderWithin atoms.length atoms).getD []

/-! ### An edit -/

def atomId (operationId : String) (offset : Nat) : String := operationId ++ ":" ++ toString offset

/-- What the changes of an edit have done so far. -/
structure Progress where
  nodes : Nodes
  inserted : List Atom
  deleted : List String
  offset : Nat

/-- Insert one code point behind the anchor; the new atom is the next anchor. -/
def insertAtom (operationId : String) (version : Nat) (state : Nodes × List Atom × Option String × Nat)
    (text : String) : Nodes × List Atom × Option String × Nat :=
  let (nodes, added, anchor, cursor) := state
  let id := atomId operationId cursor
  let atom : Atom :=
    { id := id, afterId := anchor, text := text, deleted := false, order := version * maximumAtoms + cursor }
  (nodes.set id atom, atom :: added, some id, cursor + 1)

def markDeleted (nodes : Nodes) (id : String) : Nodes := nodes.modify id fun atom => { atom with deleted := true }

/-- One round of the loop over the changes. -/
def applyChange (operationId : String) (version : Nat) (progress : Progress) (change : Change) :
    Except DocumentError Progress :=
  if change.afterId.all progress.nodes.has && change.deleteIds.all progress.nodes.has then
    let current := change.deleteIds.foldl markDeleted progress.nodes
    let (nodes, added, _, next) :=
      (codepoints change.insert).foldl (insertAtom operationId version) (current, [], change.afterId, progress.offset)
    .ok { nodes := nodes, inserted := progress.inserted ++ added.reverse,
          deleted := progress.deleted ++ change.deleteIds, offset := next }
  else
    .error .unknownDocumentAtom

/-- The outcome of an admitted edit. -/
structure Applied where
  atoms : List Atom
  content : String
  inserted : List Atom
  deleted : List String
  deriving DecidableEq, Repr

def visible (atoms : List Atom) : List Atom := atoms.filter fun atom => !atom.deleted

/-- The text of the visible atoms. -/
def text (atoms : List Atom) : String := String.join ((visible atoms).map Atom.text)

/-- The bounds on an edit that are checked before it is run. -/
def admissible (atoms : List Atom) (changes : List Change) : Bool :=
  decide (1 ≤ changes.length ∧ changes.length ≤ 32) && decide (atoms.length ≤ maximumAtoms) &&
    changes.all validChange &&
    decide ((changes.map fun change => (codepoints change.insert).length).sum ≤ maximumInsertAtoms) &&
    decide ((changes.map fun change => change.deleteIds.length).sum ≤ maximumDeletedAtoms)

/-- `Rga.apply`.  `values` is the order in which the server's runtime enumerates a map. -/
def apply (values : Enumeration String Atom) (atoms : List Atom) (changes : List Change) (operationId : String)
    (version : Nat) : Except DocumentError Applied :=
  if admissible atoms changes then do
    let index := OrderedMap.ofList (atoms.map fun atom => (atom.id, atom))
    let progress ← changes.foldlM (applyChange operationId version) ⟨index, [], [], 0⟩
    if progress.nodes.size > maximumAtoms ∨ progress.nodes.size ≠ atoms.length + progress.inserted.length then
      .error .documentCapacityExceeded
    else
      let ordered := order ((values.enumerate progress.nodes.entries).map Prod.snd)
      if (visible ordered).length ≤ maximumVisibleAtoms ∧ (text ordered).utf8ByteSize ≤ maximumContentBytes then
        .ok { atoms := ordered, content := text ordered, inserted := progress.inserted,
              deleted := progress.deleted.eraseDups }
      else
        .error .documentCapacityExceeded
  else
    .error .invalidDocumentOperation

/-! ### What the linearisation depends on -/

instance : Std.Total newerFirst := ⟨fun a b => le_total b.order a.order⟩

instance : IsTrans Atom newerFirst := ⟨fun _ _ _ h h' => le_trans h' h⟩

private theorem traverse_eq_walk (children : Option String → List Atom) (fuel : Nat) : ∀ work result,
    traverse children fuel work result =
      (ForestWalk.walk Atom.id children fuel work).map fun out => out.reverse ++ result := by
  induction fuel with
  | zero => intro work result; cases work <;> simp [traverse, ForestWalk.walk]
  | succ fuel ih =>
    intro work result
    cases work with
    | nil => simp [traverse, ForestWalk.walk]
    | cons atom rest =>
      simp only [traverse, ForestWalk.walk, ih, Option.map_map]
      congr 1
      funext out
      simp

/-- `Rga.order` is the preorder walk. -/
theorem orderWithin_eq_walk (fuel : Nat) (atoms : List Atom) :
    orderWithin fuel atoms = ForestWalk.walk Atom.id (siblings atoms) fuel (siblings atoms none) := by
  unfold orderWithin
  rw [traverse_eq_walk, Option.map_map]
  cases ForestWalk.walk Atom.id (siblings atoms) fuel (siblings atoms none) <;> simp

theorem lists_siblings (atoms : List Atom) : ForestWalk.Lists Atom.afterId atoms (siblings atoms) :=
  ForestWalk.lists_children Atom.afterId newerFirst atoms

/-- On atoms with distinct ids `Rga.order` ends, within one call per atom. -/
theorem orderWithin_eq (hnd : (atoms.map Atom.id).Nodup) {fuel : Nat}
    (hfuel : atoms.length ≤ fuel) : orderWithin fuel atoms = some (order atoms) := by
  obtain ⟨out, hout⟩ := ForestWalk.walk_total hnd (lists_siblings atoms) (le_refl _)
  have h : orderWithin atoms.length atoms = some out := by rw [orderWithin_eq_walk]; exact hout
  rw [orderWithin_eq_walk, order, h]
  exact ForestWalk.walk_mono hout hfuel

/-- `Rga.order` loses and repeats no atom of a grounded list. -/
theorem order_perm (hg : ForestWalk.Grounded Atom.id Atom.afterId atoms) :
    (order atoms).Perm atoms := by
  have h := orderWithin_eq hg.nodup (le_refl _)
  rw [orderWithin_eq_walk] at h
  exact ForestWalk.walk_perm hg (lists_siblings atoms) h

theorem siblings_congr (hp : atoms.Perm atoms') (hnd : (atoms.map Atom.order).Nodup) :
    siblings atoms = siblings atoms' :=
  ForestWalk.children_congr hp fun _ ha _ hb h h' => List.inj_on_of_nodup_map hnd ha hb (le_antisymm h' h)

/-- With distinct keys the linearisation only depends on which atoms there are. -/
theorem order_congr (hp : atoms.Perm atoms') (hnd : (atoms.map Atom.order).Nodup) :
    order atoms = order atoms' := by
  unfold order
  rw [orderWithin_eq_walk, orderWithin_eq_walk, siblings_congr hp hnd, hp.length_eq]

/-! ### Well-formed lists of atoms -/

/-- The representation invariant of a list of atoms: distinct ids, distinct keys, and every parent present with a
smaller key than its child. -/
structure WellFormed (atoms : List Atom) : Prop where
  ids : (atoms.map Atom.id).Nodup
  orders : (atoms.map Atom.order).Nodup
  parents : ∀ a ∈ atoms, ∀ p, a.afterId = some p → ∃ b ∈ atoms, b.id = p ∧ b.order < a.order

theorem WellFormed.of_perm (h : WellFormed atoms) (hp : atoms.Perm atoms') :
    WellFormed atoms' where
  ids := (hp.map _).nodup_iff.1 h.ids
  orders := (hp.map _).nodup_iff.1 h.orders
  parents a ha p hap := by
    obtain ⟨b, hb, hbp, hlt⟩ := h.parents a (hp.mem_iff.2 ha) p hap
    exact ⟨b, hp.mem_iff.1 hb, hbp, hlt⟩

/-- The key of the atom with a given id. -/
def keyOf (atoms : List Atom) (id : String) : Nat := ((atoms.find? fun a => a.id = id).map Atom.order).getD 0

theorem keyOf_eq (hnd : (atoms.map Atom.id).Nodup) {a : Atom} (ha : a ∈ atoms) :
    keyOf atoms a.id = a.order := by
  unfold keyOf
  cases h : atoms.find? fun b => b.id = a.id with
  | none => exact absurd (List.find?_eq_none.1 h a ha) (by simp)
  | some b =>
    have hb : b.id = a.id := by simpa using List.find?_some h
    rw [List.inj_on_of_nodup_map hnd (List.mem_of_find?_eq_some h) ha hb]
    rfl

/-- Keys that grow from a parent to its children exclude cycles. -/
theorem WellFormed.grounded (h : WellFormed atoms) :
    ForestWalk.Grounded Atom.id Atom.afterId atoms := by
  refine ⟨h.ids, keyOf atoms, fun a ha p hp => ?_⟩
  obtain ⟨b, hb, rfl, hlt⟩ := h.parents a ha p hp
  rw [keyOf_eq h.ids hb, keyOf_eq h.ids ha]
  exact ⟨List.mem_map_of_mem hb, hlt⟩

theorem WellFormed.order_perm (h : WellFormed atoms) : (order atoms).Perm atoms :=
  Rga.order_perm h.grounded

/-- Ordering an ordered list changes nothing. -/
theorem WellFormed.order_order (h : WellFormed atoms) : order (order atoms) = order atoms :=
  (order_congr h.order_perm.symm h.orders).symm

theorem wellFormed_nil : WellFormed [] := ⟨List.nodup_nil, List.nodup_nil, fun _ h => absurd h (by simp)⟩

end Rga

end KComms.Documents
