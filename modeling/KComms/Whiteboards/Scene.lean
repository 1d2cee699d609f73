import KComms.Lib.SizedMap

/-!
# The scene of a whiteboard on the server (`Whiteboards.Scene`)

A scene holds one revision of every element, with the position at which the element first came in and its encoded size.
It is a `SizedMap` in which the latest revision wins, within the capacity of a board; so it is rebuilt from its elements
in paint order (`Wf.new`), as `Snapshots` does.
-/

namespace KComms.Whiteboards

inductive ElementType
  | rectangle
  | diamond
  | ellipse
  | line
  | arrow
  | freedraw
  | text
  | frame
  | image
  deriving DecidableEq, Repr

/-- The value of `isDeleted`: a boolean, or the text that `->>` gives of another value, if any. -/
inductive DeletedFlag
  | bool (value : Bool)
  | other (text : Option String)
  deriving DecidableEq, Repr

/-- `=== true` -/
def DeletedFlag.isTrue : DeletedFlag → Bool
  | .bool value => value
  | .other _ => false

/-- An element, with the members that the whiteboard code looks at and the others as they are encoded.  A `version` or
`versionNonce` that is no integer is `none`. -/
structure Element where
  id : String
  type : ElementType
  version : Option Int
  versionNonce : Option Int
  isDeleted : DeletedFlag
  fileId : Option String
  rest : String
  deriving DecidableEq, Repr

inductive WhiteboardError
  | invalidWhiteboardOperation
  | whiteboardCapacityExceeded
  | staleWhiteboardGeneration
  | idempotencyConflict
  | assetUnavailable
  | invalidBoardTitle
  | staleBoardVersion
  | whiteboardVersionCapacity
  | whiteboardAssetCapacity
  | notFound
  | forbidden
  deriving DecidableEq, Repr

namespace Scene

abbrev Entry := SizedMap.Entry Element

def maximumElements : Nat := 5000

def maximumBytes : Int := 2 * 1024 * 1024

/-- The size of `{"elements":[]}`. -/
def emptyBytes : Int := 15

/-- The capacity of a scene with so many entries and `element_bytes`. -/
def withinCapacity (count : Nat) (elementBytes : Int) : Bool :=
  decide (count ≤ maximumElements) && decide (emptyBytes + elementBytes + max ((count : Int) - 1) 0 ≤ maximumBytes)

def integer (value : Option Int) : Int := value.getD 0

def incomingWins (current incoming : Element) : Bool :=
  let currentVersion := integer current.version
  let incomingVersion := integer incoming.version
  if incomingVersion = currentVersion then decide (integer incoming.versionNonce < integer current.versionNonce)
  else decide (currentVersion < incomingVersion)

end Scene

abbrev Scene := SizedMap String Element

variable {scene : Scene} {l : List Element}

namespace Scene

def empty : Scene := SizedMap.empty

section Code

-- the size of an element as JSON
variable (encodedBytes : Element → Nat)

def put (scene : Scene) (element : Element) : Scene :=
  SizedMap.put Element.id incomingWins encodedBytes scene element

def merge (scene : Scene) (elements : List Element) : Except WhiteboardError Scene :=
  SizedMap.merge Element.id incomingWins encodedBytes withinCapacity .whiteboardCapacityExceeded scene elements

def new (elements : List Element) : Except WhiteboardError Scene :=
  elements.foldlM (fun scene element => merge encodedBytes scene [element]) empty

/-- The elements in paint order. -/
def elements (order : Enumeration String Entry) (scene : Scene) : List Element := SizedMap.values order scene

end Code

/-! ### A scene as a map of elements -/

theorem incomingWins_strict : LatestWins.StrictWins incomingWins fun _ => True where
  irrefl a _ := by simp [incomingWins]
  trans a b c _ _ _ hab hbc := by
    unfold incomingWins at *
    dsimp only at *
    split at hab <;> split at hbc <;> simp only [decide_eq_true_eq] at hab hbc <;> split <;>
      simp only [decide_eq_true_eq] <;> omega

section Lemmas

variable {encodedBytes : Element → Nat}

/-- A scene is well-formed: the ids are those of the elements, the positions count them and the sizes add up. -/
abbrev Wf (encodedBytes : Element → Nat) (scene : Scene) : Prop := SizedMap.Wf Element.id encodedBytes scene

theorem wf_empty : Wf encodedBytes empty := SizedMap.wf_empty

theorem foldl_put_board (encodedBytes : Element → Nat) (l : List Element) (scene : Scene) :
    (l.foldl (put encodedBytes) scene).board = LatestWins.merge Element.id incomingWins scene.board l :=
  SizedMap.foldl_put_board l scene

theorem Wf.foldl_put (h : Wf encodedBytes scene) :
    Wf encodedBytes (l.foldl (put encodedBytes) scene) := SizedMap.Wf.foldl_put h

/-- The elements of a scene in paint order are the values of its map. -/
theorem Wf.elements (h : Wf encodedBytes scene) (order : Enumeration String Entry) :
    elements order scene = scene.board.values := h.values order

/-- What the capacity of a scene depends on. -/
def Fits (encodedBytes : Element → Nat) (elements : List Element) : Prop :=
  elements.length ≤ maximumElements ∧
    emptyBytes + ((elements.map encodedBytes).sum : Nat) + max ((elements.length : Int) - 1) 0 ≤ maximumBytes

theorem fits_iff {elements : List Element} :
    Fits encodedBytes elements ↔ SizedMap.Fits encodedBytes withinCapacity elements := by
  unfold Fits SizedMap.Fits withinCapacity
  rw [Bool.and_eq_true, decide_eq_true_eq, decide_eq_true_eq]

theorem fits_nil : Fits encodedBytes [] := by
  refine ⟨Nat.zero_le _, ?_⟩
  change emptyBytes + ((0 : Nat) : Int) + max (((0 : Nat) : Int) - 1) 0 ≤ maximumBytes
  decide

/-- The capacity allows what comes first of what it allows. -/
theorem fits_of_append {α : Type} {bytes : α → Nat} (l l' : List α) (h : SizedMap.Fits bytes withinCapacity (l ++ l')) :
    SizedMap.Fits bytes withinCapacity l := by
  unfold SizedMap.Fits withinCapacity at *
  rw [Bool.and_eq_true, decide_eq_true_eq, decide_eq_true_eq, List.length_append, List.map_append, List.sum_append] at h
  rw [Bool.and_eq_true, decide_eq_true_eq, decide_eq_true_eq]
  obtain ⟨hcount, hbytes⟩ := h
  refine ⟨by omega, ?_⟩
  have hmax : max ((l.length : Int) - 1) 0 ≤ max (((l.length + l'.length : Nat) : Int) - 1) 0 := by omega
  omega

theorem Fits.of_append {l' : List Element} (h : Fits encodedBytes (l ++ l')) : Fits encodedBytes l :=
  fits_iff.2 (fits_of_append l l' (fits_iff.1 h))

/-- A merge is refused for the capacity of its result alone. -/
theorem Wf.merge (h : Wf encodedBytes scene) {merged : Scene} :
    Scene.merge encodedBytes scene l = .ok merged ↔ Wf encodedBytes merged ∧
      merged.board = LatestWins.merge Element.id incomingWins scene.board l ∧ Fits encodedBytes merged.board.values :=
  (SizedMap.Wf.merge h).trans (and_congr_right fun _ => and_congr_right fun _ => fits_iff.symm)

/-- A scene is rebuilt from its elements. -/
theorem Wf.new (h : Wf encodedBytes scene) (hfits : Fits encodedBytes scene.board.values) :
    Scene.new encodedBytes scene.board.values = .ok scene := by
  have hnew : (scene.board.values.map fun element => [element]).foldlM (Scene.merge encodedBytes) SizedMap.empty = .ok scene :=
    SizedMap.Wf.new h fits_of_append (fits_iff.1 hfits)
  rwa [List.foldlM_map] at hnew

end Lemmas

end Scene

end KComms.Whiteboards
