import KComms.Documents.Commands
import KComms.Lib.FallibleLoop
import Mathlib.Algebra.Ring.Nat

/-!
# The document model of the web client (`documentModel.ts`)

The client keeps the atoms of a document too.  It has its own linearisation, `orderAtoms`, which checks the atoms,
sorts siblings by key and then by id, and walks them with an explicit stack; `committedApply` replays an operation of
the server, `optimisticApply` shows an edit that is not committed yet.

Keys are natural numbers here and doubles there: a key that is not exact as a double is no safe integer, and
`orderAtoms` refuses it.  A text with a lone surrogate, which `textChanges` refuses, is no `String`.
-/

namespace KComms.Documents

/-- `String.prototype.localeCompare` in some locale: a consistent comparator. -/
structure Collation where
  compare : String → String → Int
  total : ∀ a b, compare a b ≤ 0 ∨ compare b a ≤ 0
  trans : ∀ a b c, compare a b ≤ 0 → compare b c ≤ 0 → compare a c ≤ 0

/-- What the functions of the document model throw. -/
inductive ModelError
  | invalidAtom
  | missingParent
  | cyclicAtoms
  | invalidGraph
  | tooManyChanges
  | incompleteCharacters
  | tooManyCharacters
  | anchorUnavailable
  | selectionUnavailable
  | textLimit
  | generationChanged
  | replayGap
  | duplicateAtom
  | missingAtom
  deriving DecidableEq, Repr

def ModelError.message : ModelError → String
  | invalidAtom => "Invalid document atom"
  | missingParent => "Missing document parent"
  | cyclicAtoms => "Cyclic document atoms"
  | invalidGraph => "Invalid document graph"
  | tooManyChanges => "Split this edit into smaller changes"
  | incompleteCharacters => "Edit must preserve complete Unicode characters"
  | tooManyCharacters => "Edit up to 2,048 characters at a time"
  | anchorUnavailable => "Your insertion anchor is no longer available"
  | selectionUnavailable => "Your selected text is no longer available"
  | textLimit => "This document has reached its text limit"
  | generationChanged => "Document generation changed"
  | replayGap => "Document replay gap"
  | duplicateAtom => "Duplicate committed atom"
  | missingAtom => "Missing committed atom"

namespace Model

def maxAtoms : Nat := 32000

/-- `Number.MAX_SAFE_INTEGER`. -/
def maxSafeInteger : Nat := 2 ^ 53 - 1

/-! ### Linearisation -/

/-- `b.order - a.order || a.id.localeCompare(b.id)` -/
def compareAtoms (lc : Collation) (a b : Atom) : Int :=
  if (b.order : Int) - a.order = 0 then lc.compare a.id b.id else (b.order : Int) - a.order

/-- The sort keeps `a` before `b`. -/
def keeps (lc : Collation) (a b : Atom) : Prop := compareAtoms lc a b ≤ 0

instance (lc : Collation) : DecidableRel (keeps lc) := fun a b => inferInstanceAs (Decidable (compareAtoms lc a b ≤ 0))

/-- `children.get(parent) || []` after the sort. -/
def siblings (lc : Collation) (atoms : List Atom) (parent : Option String) : List Atom :=
  ForestWalk.children Atom.afterId (keeps lc) atoms parent

/-- One round of the loop that checks the atoms and collects their ids. -/
def checkAtom (ids : List String) (atom : Atom) : Except ModelError (List String) :=
  if atom.id ∈ ids ∨ maxSafeInteger < atom.order ∨ (codepoints atom.text).length ≠ 1 then .error .invalidAtom
  else .ok (atom.id :: ids)

/-- The loop over the stack, written with its top first, for a number of rounds.  More rounds than atoms would meet an
id twice. -/
def drain (children : Option String → List Atom) : Nat → List Atom → List String → List Atom →
    Except ModelError (List Atom)
  | _, [], _, result => .ok result
  | 0, _ :: _, _, _ => .error .cyclicAtoms
  | rounds + 1, atom :: stack, visited, result =>
    if atom.id ∈ visited then .error .cyclicAtoms
    else drain children rounds (children (some atom.id) ++ stack) (atom.id :: visited) (result ++ [atom])

def orderAtoms (lc : Collation) (atoms : List Atom) : Except ModelError (List Atom) := do
  let ids ← atoms.foldlM checkAtom []
  if atoms.any fun atom => atom.afterId.any fun parent => parent ∉ ids then .error .missingParent
  else do
    let result ← drain (siblings lc atoms) atoms.length (siblings lc atoms none) [] []
    if result.length ≠ atoms.length ∨ result.length > maxAtoms then .error .invalidGraph else .ok result

def visibleAtoms (lc : Collation) (atoms : List Atom) : Except ModelError (List Atom) := do
  let ordered ← orderAtoms lc atoms
  .ok (ordered.filter fun atom => !atom.deleted)

def atomText (lc : Collation) (atoms : List Atom) : Except ModelError String := do
  let visible ← visibleAtoms lc atoms
  .ok (String.join (visible.map Atom.text))

/-! ### When the linearisation succeeds -/

/-- What `orderAtoms` checks before it walks. -/
structure Sound (atoms : List Atom) : Prop where
  ids : (atoms.map Atom.id).Nodup
  safe : ∀ a ∈ atoms, a.order ≤ maxSafeInteger
  single : ∀ a ∈ atoms, (codepoints a.text).length = 1
  parents : ∀ a ∈ atoms, ∀ p, a.afterId = some p → p ∈ atoms.map Atom.id

private theorem foldlM_checkAtom (atoms : List Atom) : ∀ ids ids' : List String,
    atoms.foldlM checkAtom ids = .ok ids' ↔
      ids' = (atoms.map Atom.id).reverse ++ ids ∧ (atoms.map Atom.id).Nodup ∧
        ∀ a ∈ atoms, a.id ∉ ids ∧ a.order ≤ maxSafeInteger ∧ (codepoints a.text).length = 1 := by
  induction atoms with
  | nil =>
    intro ids ids'
    simp only [List.foldlM_nil, List.map_nil, List.reverse_nil, List.nil_append, List.nodup_nil, true_and]
    constructor
    · intro h
      exact ⟨(Except.ok.inj h).symm, by simp⟩
    · rintro ⟨rfl, -⟩
      rfl
  | cons a atoms ih =>
    intro ids ids'
    rw [FallibleLoop.foldlM_cons_ok]
    by_cases hbad : a.id ∈ ids ∨ maxSafeInteger < a.order ∨ (codepoints a.text).length ≠ 1
    · constructor
      · rintro ⟨u, hu, -⟩
        simp [checkAtom, hbad] at hu
      · rintro ⟨-, -, hall⟩
        obtain ⟨h1, h2, h3⟩ := hall a (by simp)
        rcases hbad with hbad | hbad | hbad
        · exact absurd hbad h1
        · omega
        · exact absurd h3 hbad
    · push Not at hbad
      obtain ⟨h1, h2, h3⟩ := hbad
      have hstep : checkAtom ids a = .ok (a.id :: ids) := by
        unfold checkAtom
        rw [if_neg]
        push Not
        exact ⟨h1, h2, h3⟩
      constructor
      · rintro ⟨u, hu, h⟩
        rw [hstep] at hu
        obtain rfl := Except.ok.inj hu
        obtain ⟨rfl, hnd, hall⟩ := (ih _ _).1 h
        refine ⟨by simp, ?_, ?_⟩
        · rw [List.map_cons, List.nodup_cons]
          refine ⟨fun hm => ?_, hnd⟩
          obtain ⟨b, hb, hba⟩ := List.mem_map.1 hm
          exact (hall b hb).1 (by simp [hba])
        · intro b hb
          rcases List.mem_cons.1 hb with rfl | hb
          · exact ⟨h1, h2, h3⟩
          · obtain ⟨k1, k2, k3⟩ := hall b hb
            exact ⟨fun hm => k1 (by simp [hm]), k2, k3⟩
      · rintro ⟨rfl, hnd, hall⟩
        rw [List.map_cons, List.nodup_cons] at hnd
        refine ⟨_, hstep, (ih _ _).2 ⟨by simp, hnd.2, fun b hb => ?_⟩⟩
        obtain ⟨k1, k2, k3⟩ := hall b (by simp [hb])
        refine ⟨fun hm => ?_, k2, k3⟩
        rcases List.mem_cons.1 hm with hm | hm
        · exact hnd.1 (hm ▸ List.mem_map_of_mem hb)
        · exact k1 hm

/-- Along a walk that meets no id twice the loop over the stack throws nothing. -/
private theorem drain_of_walk {children : Option String → List Atom} (rounds : Nat) :
    ∀ stack visited result tail, ForestWalk.walk Atom.id children rounds stack = some tail →
      (tail.map Atom.id).Nodup → (∀ a ∈ tail, a.id ∉ visited) →
      drain children rounds stack visited result = .ok (result ++ tail) := by
  induction rounds with
  | zero =>
    intro stack visited result tail h _ _
    cases stack with
    | nil => obtain rfl := Option.some.inj h; simp [drain]
    | cons a stack => exact absurd h (by simp [ForestWalk.walk])
  | succ rounds ih =>
    intro stack visited result tail h hnd hfresh
    cases stack with
    | nil => obtain rfl := Option.some.inj h; simp [drain]
    | cons a stack =>
      simp only [ForestWalk.walk, Option.map_eq_some_iff] at h
      obtain ⟨rest, hrest, rfl⟩ := h
      rw [List.map_cons, List.nodup_cons] at hnd
      have hne : a.id ∉ visited := hfresh a (by simp)
      have htail : ∀ b ∈ rest, b.id ∉ a.id :: visited := by
        intro b hb hm
        rcases List.mem_cons.1 hm with hm | hm
        · exact hnd.1 (hm ▸ List.mem_map_of_mem hb)
        · exact hfresh b (by simp [hb]) hm
      rw [drain, if_neg hne, ih _ _ _ rest hrest hnd.2 htail]
      simp

theorem lists_siblings (lc : Collation) (atoms : List Atom) :
    ForestWalk.Lists Atom.afterId atoms (siblings lc atoms) :=
  ForestWalk.lists_children Atom.afterId (keeps lc) atoms

/-- `orderAtoms` accepts sound atoms if the walk reaches them all, and returns the walk. -/
theorem orderAtoms_ok {lc : Collation} {atoms out : List Atom} : orderAtoms lc atoms = .ok out ↔
    Sound atoms ∧ ForestWalk.walk Atom.id (siblings lc atoms) atoms.length (siblings lc atoms none) = some out ∧
      out.length = atoms.length ∧ atoms.length ≤ maxAtoms := by
  unfold orderAtoms
  rw [FallibleLoop.bind_ok]
  have hwalk : (atoms.map Atom.id).Nodup → ∃ out',
      ForestWalk.walk Atom.id (siblings lc atoms) atoms.length (siblings lc atoms none) = some out' ∧
      drain (siblings lc atoms) atoms.length (siblings lc atoms none) [] [] = .ok out' := by
    intro hnd
    obtain ⟨out', h⟩ := ForestWalk.walk_total hnd (lists_siblings lc atoms) (le_refl _)
    refine ⟨out', h, ?_⟩
    have := drain_of_walk atoms.length _ [] [] out' h (ForestWalk.walk_nodup hnd (lists_siblings lc atoms) h) (by simp)
    simpa using this
  constructor
  · rintro ⟨ids, hids, h⟩
    obtain ⟨rfl, hnd, hall⟩ := (foldlM_checkAtom atoms [] ids).1 hids
    split at h
    · exact absurd h (by simp)
    rename_i hparents
    obtain ⟨result, hresult, h⟩ := FallibleLoop.bind_ok.1 h
    split at h
    · exact absurd h (by simp)
    rename_i hlen
    obtain rfl := Except.ok.inj h
    push Not at hlen
    obtain ⟨out', hout', hdrain⟩ := hwalk hnd
    obtain rfl : result = out' := Except.ok.inj (hresult.symm.trans hdrain)
    refine ⟨⟨hnd, fun a ha => (hall a ha).2.1, fun a ha => (hall a ha).2.2, fun a ha p hp => ?_⟩, hout', hlen.1, ?_⟩
    · by_contra hnot
      apply hparents
      rw [List.any_eq_true]
      exact ⟨a, ha, by simpa [hp] using hnot⟩
    · omega
  · rintro ⟨hs, hout, hlen, hmax⟩
    obtain ⟨out', hout', hdrain⟩ := hwalk hs.ids
    obtain rfl : out = out' := Option.some.inj (hout.symm.trans hout')
    refine ⟨_, (foldlM_checkAtom atoms [] _).2 ⟨rfl, hs.ids, fun a ha => ⟨by simp, hs.safe a ha, hs.single a ha⟩⟩, ?_⟩
    rw [if_neg]
    · rw [hdrain]
      change (if out.length ≠ atoms.length ∨ out.length > maxAtoms then _ else _) = _
      rw [if_neg]
      omega
    · rw [List.any_eq_true]
      rintro ⟨a, ha, hany⟩
      cases hp : a.afterId with
      | none => simp [hp] at hany
      | some p =>
        obtain ⟨b, hb, hbp⟩ := List.mem_map.1 (hs.parents a ha p hp)
        simp only [hp, Option.any_some, List.append_nil, List.mem_reverse, decide_eq_true_eq] at hany
        exact hany (hbp ▸ List.mem_map_of_mem hb)

/-! ### From the editor to an edit -/

/-- A change of the editor, in UTF-16 positions. -/
structure TextChange where
  start : Nat
  stop : Nat
  insert : String
  deriving DecidableEq, Repr

/-- `String.length` of JavaScript. -/
def utf16Length (text : String) : Nat := (text.toList.map fun c => if 0x10000 ≤ c.toNat then 2 else 1).sum

/-- The positions between the visible atoms. -/
def boundaries (visible : List Atom) : List Nat :=
  visible.foldl (fun found atom => found ++ [found.getLast?.getD 0 + utf16Length atom.text]) [0]

/-- One round of `changes.map`; `previousEnd` is -1 in the first one. -/
def textChange (visible : List Atom) (state : Int × List Change) (change : TextChange) :
    Except ModelError (Int × List Change) :=
  match (boundaries visible).idxOf? change.start, (boundaries visible).idxOf? change.stop with
  | some start, some stop =>
    if stop < start ∨ (change.start : Int) < state.1 ∨ '\x00' ∈ change.insert.toList then .error .incompleteCharacters
    else .ok (change.stop, state.2 ++ [{
      afterId := if start = 0 then none else visible[start - 1]?.map Atom.id,
      deleteIds := ((visible.drop start).take (stop - start)).map Atom.id,
      insert := change.insert }])
  | _, _ => .error .incompleteCharacters

def textChanges (lc : Collation) (atoms : List Atom) (changes : List TextChange) :
    Except ModelError (List Change) := do
  let visible ← visibleAtoms lc atoms
  if changes.length = 0 ∨ changes.length > 32 then .error .tooManyChanges
  else do
    let (_, result) ← changes.foldlM (textChange visible) (-1, [])
    if (result.map fun change => (codepoints change.insert).length).sum > 2048 ∨
        (result.map fun change => change.deleteIds.length).sum > 4096 then .error .tooManyCharacters
    else .ok result

/-! ### Edits that are not committed -/

/-- `DocumentEdit` of kind `"edit"`. -/
structure DocumentEdit where
  clientOperationId : String
  generation : Nat
  baseVersion : Nat
  changes : List Change
  deriving DecidableEq, Repr

def optimisticDelete (nodes : Nodes) (id : String) : Except ModelError Nodes :=
  if nodes.has id then .ok (Rga.markDeleted nodes id) else .error .selectionUnavailable

/-- A node that is there already keeps its server order. -/
def optimisticInsert (operationId : String) (orderVersion : Nat) (state : Nodes × Option String × Nat) (text : String) :
    Nodes × Option String × Nat :=
  let (nodes, anchor, offset) := state
  let id := Rga.atomId operationId offset
  let atom : Atom :=
    { id := id, afterId := anchor, text := text, deleted := false, order := orderVersion * maxAtoms + offset }
  (if nodes.has id then nodes else nodes.set id atom, some id, offset + 1)

/-- One round of the loop over the changes. -/
def optimisticChange (operationId : String) (orderVersion : Nat) (state : Nodes × Nat) (change : Change) :
    Except ModelError (Nodes × Nat) :=
  if change.afterId.any fun id => !state.1.has id then .error .anchorUnavailable
  else do
    let nodes ← change.deleteIds.foldlM optimisticDelete state.1
    let (nodes, _, offset) :=
      (codepoints change.insert).foldl (optimisticInsert operationId orderVersion) (nodes, change.afterId, state.2)
    .ok (nodes, offset)

def optimisticApply (lc : Collation) (atoms : List Atom) (input : DocumentEdit) (orderVersion : Nat) :
    Except ModelError (List Atom) := do
  let index := OrderedMap.ofList (atoms.map fun atom => (atom.id, atom))
  let (nodes, _) ← input.changes.foldlM (optimisticChange input.clientOperationId orderVersion) (index, 0)
  let result ← orderAtoms lc nodes.values
  let visible := result.filter fun atom => !atom.deleted
  if visible.length > 16000 ∨ (String.join (visible.map Atom.text)).utf8ByteSize > 65536 then .error .textLimit
  else .ok result

/-! ### Operations of the server -/

def committedInsert (atoms : Nodes) (atom : Atom) : Except ModelError Nodes :=
  if atoms.has atom.id then .error .duplicateAtom else .ok (atoms.set atom.id atom)

def committedDelete (atoms : Nodes) (id : String) : Except ModelError Nodes :=
  if atoms.has id then .ok (Rga.markDeleted atoms id) else .error .missingAtom

def committedApply (lc : Collation) (document : SharedDocument) (operation : DocumentOperation) :
    Except ModelError SharedDocument :=
  if operation.documentId ≠ document.id ∨ operation.generation ≠ document.generation then .error .generationChanged
  else if operation.version ≤ document.version then .ok document
  else if operation.version ≠ document.version + 1 then .error .replayGap
  else do
    let index := OrderedMap.ofList (document.atoms.map fun atom => (atom.id, atom))
    let atoms ← operation.insertedAtoms.foldlM committedInsert index
    let atoms ← operation.deletedAtomIds.foldlM committedDelete atoms
    let ordered ← orderAtoms lc atoms.values
    let content ← atomText lc ordered
    .ok { document with
      atoms := ordered, content := content, version := operation.version,
      title := operation.title.getD document.title, updatedAt := operation.insertedAt,
      readonly := document.readonly || decide (4000 ≤ operation.version) || decide (maxAtoms ≤ ordered.length) }

end Model

end KComms.Documents
