import KComms.Lib.Json
import KComms.Lib.SizedMap
import KComms.Whiteboards.Scene
import Mathlib.Data.String.Basic

/-!
# The accounting of a scene (`Whiteboards.Scene`)

The same code as in `Scene`, for elements as they come from JSON, with any members besides a string as the `id`.  The
byte count that is kept along the way is the size of the encoded scene, and how the elements were cut into calls of
`merge` does not matter.
-/

namespace KComms.Whiteboards.SceneAccounting

open Scene (emptyBytes withinCapacity fits_of_append)

/-! ### The code -/

structure JsonElement where
  value : Json
  id : String
  hasId : value.get? "id" = some (.string id)

def integer (value : Option Json) : Int :=
  match value with
  | some (.int value) => value
  | _ => 0

def incomingWins (current incoming : JsonElement) : Bool :=
  let currentVersion := integer (current.value.get? "version")
  let incomingVersion := integer (incoming.value.get? "version")
  if incomingVersion = currentVersion then
    decide (integer (incoming.value.get? "versionNonce") < integer (current.value.get? "versionNonce"))
  else decide (currentVersion < incomingVersion)

abbrev JsonScene := SizedMap String JsonElement

/-- `byte_size(Jason.encode!(element))` -/
def encodedSize (element : JsonElement) : Nat := element.value.size

def put (scene : JsonScene) (element : JsonElement) : JsonScene :=
  SizedMap.put JsonElement.id incomingWins encodedSize scene element

def merge (scene : JsonScene) (elements : List JsonElement) : Except WhiteboardError JsonScene :=
  SizedMap.merge JsonElement.id incomingWins encodedSize withinCapacity .whiteboardCapacityExceeded scene elements

def new (elements : List JsonElement) : Except WhiteboardError JsonScene :=
  elements.foldlM (fun scene element => merge scene [element]) SizedMap.empty

def elements (order : Enumeration String (SizedMap.Entry JsonElement)) (scene : JsonScene) : List JsonElement :=
  SizedMap.values order scene

/-- `%{"elements" => elements}` -/
def payload (elements : List JsonElement) : Json := .object [("elements", .array (elements.map JsonElement.value))]

/-! ### What the count counts -/

theorem size_payload (elements : List JsonElement) :
    ((payload elements).size : Int) =
      emptyBytes + ((elements.map encodedSize).sum : Nat) + max ((elements.length : Int) - 1) 0 := by
  have hname : (Json.encodeString "elements").utf8ByteSize = 10 := by decide
  have hsizes : (elements.map JsonElement.value).map Json.size = elements.map encodedSize := List.map_map
  unfold payload emptyBytes
  rw [Json.size_encode_member, Json.size_encode_array, hname, hsizes, List.length_map]
  omega

theorem fits_nil : SizedMap.Fits encodedSize withinCapacity [] := by
  unfold SizedMap.Fits
  decide

/-- After accepted merges the positions count the entries, the elements come in the order in which their ids came first,
the byte count is the size of the encoded scene, and other calls with the same elements, or the elements of the scene
alone, give the same scene. -/
theorem scene_accounting (order : Enumeration String (SizedMap.Entry JsonElement)) (calls : List (List JsonElement))
    (scene : JsonScene) (accepted : calls.foldlM merge SizedMap.empty = .ok scene) :
    (scene.entries.values.map SizedMap.Entry.position).Perm (List.range scene.entries.size) ∧
    (elements order scene).map JsonElement.id = (distinctOn JsonElement.id calls.flatten).map JsonElement.id ∧
    15 + scene.total + max ((scene.entries.size : Int) - 1) 0 = (payload (elements order scene)).size ∧
    (∀ (calls' : List (List JsonElement)) (scene' : JsonScene), calls'.flatten = calls.flatten →
      calls'.foldlM merge SizedMap.empty = .ok scene' → scene' = scene) ∧
    new (elements order scene) = .ok scene := by
  obtain ⟨hwf, hboard, hfits⟩ := SizedMap.foldlM_merge SizedMap.wf_empty accepted
  have hfits := hfits fits_nil
  have helements : elements order scene = scene.board.values := hwf.values order
  refine ⟨by rw [hwf.positions], ?_, ?_, ?_, ?_⟩
  · rw [helements, hwf.keyed_board.map_key, hboard]
    exact LatestWins.keys_merge calls.flatten
  · rw [helements, size_payload, hwf.total_board, SizedMap.entries_size]
    rfl
  · intro calls' scene' hsame accepted'
    obtain ⟨hwf', hboard', -⟩ := SizedMap.foldlM_merge SizedMap.wf_empty accepted'
    refine hwf'.ext hwf ?_
    rw [hboard', hboard, hsame]
  · have hnew : (scene.board.values.map fun element => [element]).foldlM merge SizedMap.empty = .ok scene :=
      hwf.new fits_of_append hfits
    rw [List.foldlM_map] at hnew
    rw [helements]
    exact hnew

/-- A revision of an element, of no type and with a version as told. -/
def sampleElement (id : String) (version : Json) : JsonElement :=
  ⟨.object [("id", .string id), ("version", version)], id, rfl⟩

def sampleCalls : List (List JsonElement) :=
  [[sampleElement "b" (.int 1), sampleElement "a" (.string "1")],
    [sampleElement "b" (.int 2), sampleElement "a" (.float "2.5")]]

theorem scene_accounting_sample : ∃ scene, sampleCalls.foldlM merge SizedMap.empty = .ok scene ∧
    (scene.entries.values.map SizedMap.Entry.position).Perm (List.range scene.entries.size) ∧
    (elements (Enumeration.byKey String _) scene).map JsonElement.id =
      (distinctOn JsonElement.id sampleCalls.flatten).map JsonElement.id ∧
    15 + scene.total + max ((scene.entries.size : Int) - 1) 0 =
      (payload (elements (Enumeration.byKey String _) scene)).size ∧
    (∀ (calls' : List (List JsonElement)) (scene' : JsonScene), calls'.flatten = sampleCalls.flatten →
      calls'.foldlM merge SizedMap.empty = .ok scene' → scene' = scene) ∧
    new (elements (Enumeration.byKey String _) scene) = .ok scene := by
  have hmap : (sampleCalls.foldlM merge SizedMap.empty).toOption.map (fun scene => (scene.entries.keys, scene.total)) =
      some (["b", "a"], 46) := by decide
  obtain ⟨scene, hscene, -⟩ := Option.map_eq_some_iff.1 hmap
  have accepted : sampleCalls.foldlM merge SizedMap.empty = .ok scene := by
    cases hcalls : sampleCalls.foldlM merge SizedMap.empty with
    | error e =>
      rw [hcalls] at hscene
      cases hscene
    | ok s =>
      rw [hcalls] at hscene
      rw [Option.some.inj hscene]
  exact ⟨scene, accepted, scene_accounting (Enumeration.byKey String _) sampleCalls scene accepted⟩

end KComms.Whiteboards.SceneAccounting
