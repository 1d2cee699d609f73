import KComms.Lib.Binary64
import KComms.Whiteboards.BoardLog

/-!
# The scene of a whiteboard in the browser (`sceneModel.ts`)

The client's own merge of element revisions, and the replay of operations on a scene.  Numbers are doubles here: what
the server sends as an integer is read as the double nearest to it.  Where rounding keeps the revisions of every element
apart (`ReadApart`), the client merges as the server does (`read_shown`).
-/

namespace KComms.Whiteboards

open Consecutive (Numbered)

/-! ### What the client reads -/

/-- `WhiteboardElementData`; a number is the value of a double, and `none` if the member is absent. -/
structure ElementData where
  id : String
  type : ElementType
  version : Option Int
  versionNonce : Option Int
  isDeleted : Bool
  fileId : Option String
  rest : String
  deriving DecidableEq, Repr

/-- `WhiteboardOperation`, with the members that the client looks at. -/
structure WhiteboardOperation where
  id : String
  sequence : Nat
  kind : OperationKind
  elements : List ElementData
  deriving DecidableEq, Repr

/-- `JSON.parse` of an integer. -/
def readNumber (value : Option Int) : Option Int := value.map Binary64.ofInt

def readElement (e : Element) : ElementData :=
  { id := e.id, type := e.type, version := readNumber e.version, versionNonce := readNumber e.versionNonce,
    isDeleted := e.isDeleted.isTrue, fileId := e.fileId, rest := e.rest }

def readOperation (op : OperationView) : WhiteboardOperation :=
  { id := op.id, sequence := op.sequence, kind := op.kind, elements := op.elements.map readElement }

/-- An operation of the log as it reaches a client. -/
def sent (op : Operation) : WhiteboardOperation := readOperation (Projector.operation op)

/-! ### The scene -/

/-- `left < right` of numbers that may be undefined. -/
def less : Option Int → Option Int → Bool
  | some left, some right => decide (left < right)
  | _, _ => false

namespace SceneModel

abbrev WhiteboardScene := OrderedMap String ElementData

def sceneFromElements (elements : List ElementData) : WhiteboardScene :=
  elements.foldl (fun scene element => scene.set element.id element) OrderedMap.empty

def incomingWins (current incoming : ElementData) : Bool :=
  if incoming.version ≠ current.version then less current.version incoming.version
  else less incoming.versionNonce current.versionNonce

def applyWhiteboardElements (scene : WhiteboardScene) (elements : List ElementData) : WhiteboardScene :=
  elements.foldl
    (fun next incoming =>
      match next.get? incoming.id with
      | none => next.set incoming.id incoming
      | some current => if incomingWins current incoming then next.set incoming.id incoming else next) scene

def applyWhiteboardOperation (scene : WhiteboardScene) (operation : WhiteboardOperation) : WhiteboardScene :=
  match operation.kind with
  | .boardClear => OrderedMap.empty
  | .sceneUpdate => applyWhiteboardElements scene operation.elements

structure WhiteboardReplay where
  scene : WhiteboardScene
  latestSequence : Nat
  clearedElements : List ElementData
  includesClear : Bool

/-- The variables of the loop of `replayWhiteboardOperations`. -/
structure Replaying where
  scene : WhiteboardScene
  cleared : OrderedMap String ElementData
  latestSequence : Nat
  includesClear : Bool

def Replaying.operation (state : Replaying) (operation : WhiteboardOperation) : Replaying :=
  let latestSequence := max state.latestSequence operation.sequence
  match operation.kind with
  | .boardClear => ⟨OrderedMap.empty, state.scene, latestSequence, true⟩
  | .sceneUpdate =>
    { state with
      scene := applyWhiteboardOperation state.scene operation,
      cleared := operation.elements.foldl (fun cleared element => cleared.erase element.id) state.cleared,
      latestSequence := latestSequence }

def replayWhiteboardOperations (operations : List WhiteboardOperation) (currentScene : WhiteboardScene) :
    WhiteboardReplay :=
  let sorted := operations.insertionSort fun left right => left.sequence ≤ right.sequence
  let final := sorted.foldl Replaying.operation ⟨currentScene, OrderedMap.empty, 0, false⟩
  ⟨final.scene, final.latestSequence, final.cleared.values, final.includesClear⟩

/-- What applying operations one after the other shows. -/
def fold (operations : List WhiteboardOperation) : WhiteboardScene :=
  operations.foldl applyWhiteboardOperation OrderedMap.empty

/-! ### Replays -/

theorem applyWhiteboardElements_eq (scene : WhiteboardScene) (elements : List ElementData) :
    applyWhiteboardElements scene elements = LatestWins.merge ElementData.id incomingWins scene elements := by
  unfold applyWhiteboardElements LatestWins.merge
  congr 1
  funext next incoming
  unfold LatestWins.put
  cases next.get? incoming.id <;> rfl

/-- The scene of a snapshot, whose elements are distinct. -/
theorem sceneFromElements_values {m : WhiteboardScene} (h : LatestWins.Keyed ElementData.id m) :
    sceneFromElements m.values = m := by
  have hentries : (m.values.map fun e => (e.id, e)) = m.entries := by
    unfold OrderedMap.values
    rw [List.map_map]
    conv_rhs => rw [← List.map_id m.entries]
    apply List.map_congr_left
    intro e he
    simp only [Function.comp, id]
    rw [← h e he]
  have hfold : sceneFromElements m.values = OrderedMap.ofList (m.values.map fun e => (e.id, e)) := by
    unfold sceneFromElements OrderedMap.ofList OrderedMap.setAll
    rw [List.foldl_map]
  rw [hfold, hentries]
  exact OrderedMap.ext_entries (OrderedMap.entries_ofList m.nodup)

private theorem replaying_eq (ops : List WhiteboardOperation) : ∀ state : Replaying,
    (ops.foldl Replaying.operation state).scene = ops.foldl applyWhiteboardOperation state.scene ∧
      (ops.foldl Replaying.operation state).latestSequence =
        (ops.map WhiteboardOperation.sequence).foldl max state.latestSequence := by
  induction ops with
  | nil => intro state; exact ⟨rfl, rfl⟩
  | cons op ops ih =>
    intro state
    have hstep : (state.operation op).scene = applyWhiteboardOperation state.scene op ∧
        (state.operation op).latestSequence = max state.latestSequence op.sequence := by
      unfold Replaying.operation applyWhiteboardOperation
      cases op.kind <;> exact ⟨rfl, rfl⟩
    obtain ⟨h1, h2⟩ := ih (state.operation op)
    rw [hstep.1] at h1
    rw [hstep.2] at h2
    exact ⟨h1, h2⟩

/-- A replay applies the operations in the order of their sequences. -/
theorem replay_scene (operations : List WhiteboardOperation) (scene : WhiteboardScene) :
    (replayWhiteboardOperations operations scene).scene =
      (operations.insertionSort fun left right => left.sequence ≤ right.sequence).foldl applyWhiteboardOperation scene :=
  (replaying_eq _ _).1

theorem replay_latestSequence (operations : List WhiteboardOperation) (scene : WhiteboardScene) :
    (replayWhiteboardOperations operations scene).latestSequence =
      ((operations.insertionSort fun left right => left.sequence ≤ right.sequence).map
        WhiteboardOperation.sequence).foldl max 0 := (replaying_eq _ _).2

/-- A replay of operations that are numbered without a gap. -/
theorem replay_numbered {operations : List WhiteboardOperation} {start : Nat}
    (h : Numbered WhiteboardOperation.sequence start operations) (scene : WhiteboardScene) :
    (replayWhiteboardOperations operations scene).scene = operations.foldl applyWhiteboardOperation scene ∧
      (replayWhiteboardOperations operations scene).latestSequence =
        if operations = [] then 0 else start + operations.length - 1 := by
  rw [replay_scene, replay_latestSequence, h.sort_eq]
  refine ⟨rfl, ?_⟩
  have hmax : ∀ (n start k : Nat), k ≤ start → (List.range' start (n + 1)).foldl max k = start + n := by
    intro n
    induction n with
    | zero => intro start k hk; simp; omega
    | succ n ih =>
      intro start k hk
      rw [List.range'_succ, List.foldl_cons, ih (start + 1) _ (by omega)]
      omega
  cases operations with
  | nil => rfl
  | cons op ops =>
    rw [if_neg (by simp), show (op :: ops).map WhiteboardOperation.sequence = List.range' start (ops.length + 1) from h,
      hmax ops.length start 0 (by omega), List.length_cons]
    omega

end SceneModel

/-! ### Reading keeps revisions apart -/

/-- Reading the numbers of two revisions as doubles keeps apart what decides between them. -/
structure ReadApart (a b : Element) : Prop where
  version : readNumber a.version = readNumber b.version → a.version = b.version
  versionNonce : a.version = b.version → readNumber a.versionNonce = readNumber b.versionNonce →
    a.versionNonce = b.versionNonce

/-- The revisions of each element are read apart. -/
def Readable (l : List Element) : Prop := ∀ a ∈ l, ∀ b ∈ l, a.id = b.id → ReadApart a b

instance (a b : Element) : Decidable (ReadApart a b) :=
  decidable_of_iff ((readNumber a.version = readNumber b.version → a.version = b.version) ∧
    (a.version = b.version → readNumber a.versionNonce = readNumber b.versionNonce → a.versionNonce = b.versionNonce))
    ⟨fun h => ⟨h.1, h.2⟩, fun h => ⟨h.1, h.2⟩⟩

instance (l : List Element) : Decidable (Readable l) :=
  inferInstanceAs (Decidable (∀ a ∈ l, ∀ b ∈ l, a.id = b.id → ReadApart a b))

theorem Readable.mono {l l' : List Element} (h : Readable l) (hsub : ∀ e ∈ l', e ∈ l) : Readable l' :=
  fun a ha b hb hid => h a (hsub a ha) b (hsub b hb) hid

/-- Rounding keeps the order of different doubles. -/
private theorem less_readNumber {v w : Int} (h : Binary64.ofInt v = Binary64.ofInt w → v = w) :
    less (readNumber (some v)) (readNumber (some w)) = decide (v < w) := by
  change decide (Binary64.ofInt v < Binary64.ofInt w) = decide (v < w)
  rw [decide_eq_decide]
  constructor
  · intro hlt
    by_contra hge
    have := Binary64.ofInt_le (show w ≤ v by omega)
    omega
  · intro hlt
    have hle := Binary64.ofInt_le (show v ≤ w by omega)
    by_contra hge
    have := h (by omega)
    omega

/-- Revisions that are read apart win on the client as they do on the server. -/
theorem incomingWins_read {a b : Element} (ha : a.Valid) (hb : b.Valid) (h : ReadApart a b) :
    SceneModel.incomingWins (readElement a) (readElement b) = Scene.incomingWins a b := by
  obtain ⟨v, hv, -⟩ := ha.version
  obtain ⟨w, hw, -⟩ := hb.version
  obtain ⟨n, hn⟩ := ha.versionNonce
  obtain ⟨m, hm⟩ := hb.versionNonce
  have hversion : Binary64.ofInt v = Binary64.ofInt w → v = w := by
    have := h.version
    rw [hv, hw] at this
    intro heq
    exact Option.some.inj (this (congrArg some heq))
  have hnonce : v = w → Binary64.ofInt n = Binary64.ofInt m → n = m := by
    have := h.versionNonce
    rw [hv, hw, hn, hm] at this
    intro hvw heq
    exact Option.some.inj (this (congrArg some hvw) (congrArg some heq))
  have hiff : (readNumber (some w) ≠ readNumber (some v)) ↔ ¬ w = v := by
    rw [not_iff_not]
    constructor
    · intro heq
      exact (hversion (Option.some.inj heq).symm).symm
    · rintro rfl
      rfl
  unfold SceneModel.incomingWins Scene.incomingWins Scene.integer readElement
  dsimp only
  rw [hv, hw, hn, hm]
  simp only [Option.getD_some]
  by_cases heq : w = v
  · rw [if_pos heq, if_neg (by rw [hiff]; exact fun hne => hne heq)]
    exact less_readNumber fun hmn => (hnonce heq.symm hmn.symm).symm
  · rw [if_neg heq, if_pos (hiff.2 heq)]
    exact less_readNumber hversion

/-! ### What the client makes of a log -/

section Log

variable {ops : List Operation}

theorem fold_append (ops ops' : List WhiteboardOperation) :
    SceneModel.fold (ops ++ ops') = ops'.foldl SceneModel.applyWhiteboardOperation (SceneModel.fold ops) :=
  List.foldl_append ..

theorem keyed_read {m : OrderedMap String Element} (h : LatestWins.Keyed Element.id m) :
    LatestWins.Keyed ElementData.id (m.map readElement) := by
  intro e he
  obtain ⟨x, hx, rfl⟩ := List.mem_map.1 he
  exact h x hx

/-- Updates on the client and on the server. -/
theorem read_updates (hops : ∀ op ∈ ops, op.kind = .sceneUpdate) {m : OrderedMap String Element}
    (hkeyed : LatestWins.Keyed Element.id m) {l : List Element} (hm : ∀ e ∈ m.values, e ∈ l)
    (hl : ∀ op ∈ ops, ∀ e ∈ op.elements, e ∈ l) (hvalid : ∀ e ∈ l, e.Valid) (hread : Readable l) :
    (ops.foldl showOperation m).map readElement =
      (ops.map sent).foldl SceneModel.applyWhiteboardOperation (m.map readElement) := by
  have hclient : ∀ (ops : List Operation) (scene : SceneModel.WhiteboardScene), (∀ op ∈ ops, op.kind = .sceneUpdate) →
      (ops.map sent).foldl SceneModel.applyWhiteboardOperation scene =
        LatestWins.merge ElementData.id SceneModel.incomingWins scene
          ((ops.flatMap Operation.elements).map readElement) := by
    intro ops
    induction ops with
    | nil => intro scene _; rfl
    | cons op ops ih =>
      intro scene hops
      rw [List.map_cons, List.foldl_cons, ih _ fun o ho => hops o (by simp [ho]), List.flatMap_cons, List.map_append,
        LatestWins.merge_append]
      have happly : SceneModel.applyWhiteboardOperation scene (sent op) =
          SceneModel.applyWhiteboardElements scene (op.elements.map readElement) := by
        have hkind : (sent op).kind = .sceneUpdate := hops op (by simp)
        unfold SceneModel.applyWhiteboardOperation
        rw [hkind]
        rfl
      rw [happly, SceneModel.applyWhiteboardElements_eq]
  rw [foldl_showOperation_updates hops, hclient ops _ hops]
  have hid : ∀ a, ElementData.id (readElement a) = Element.id a := fun a => rfl
  refine LatestWins.map_merge (p := fun e => e ∈ l) hid (fun a b ha hb hid => ?_) hkeyed hm fun e he => ?_
  · exact incomingWins_read (hvalid a ha) (hvalid b hb) (hread a ha b hb hid)
  · obtain ⟨op, hop, he⟩ := List.mem_flatMap.1 he
    exact hl op hop e he

/-- The operations since the latest clear. -/
def generation (ops : List Operation) : List Operation := ops.drop (latestClear ops)

/-- On the client as well nothing is left of what a clear follows. -/
theorem fold_latestClear (h : Numbered Operation.sequence 1 ops) {j : Nat} (hj : j < latestClear ops)
    (scene : SceneModel.WhiteboardScene) :
    ((ops.drop j).map sent).foldl SceneModel.applyWhiteboardOperation scene =
      SceneModel.fold ((generation ops).map sent) := by
  obtain ⟨op, hop, hclear, hlast⟩ := take_latestClear h (by omega)
  have hle := latestClear_le h
  have hsplit : ops.drop j = (ops.take (latestClear ops - 1)).drop j ++ op :: generation ops := by
    have hall : ops = ops.take (latestClear ops - 1) ++ op :: generation ops := by
      conv_lhs => rw [← List.take_append_drop (latestClear ops) ops]
      rw [hlast, List.append_assoc]
      rfl
    conv_lhs => rw [hall]
    rw [List.drop_append_of_le_length (by rw [List.length_take]; omega)]
  rw [hsplit, List.map_append, List.foldl_append, List.map_cons, List.foldl_cons]
  have hreset : ∀ scene, SceneModel.applyWhiteboardOperation scene (sent op) = OrderedMap.empty := by
    intro scene
    have hkind : (sent op).kind = .boardClear := hclear
    unfold SceneModel.applyWhiteboardOperation
    rw [hkind]
  rw [hreset]
  rfl

/-- The operations of the generation up to `j`. -/
private theorem shown_generation (h : Numbered Operation.sequence 1 ops) {j : Nat} (hj : latestClear ops ≤ j) :
    shown (ops.take j) = ((generation ops).take (j - latestClear ops)).foldl showOperation OrderedMap.empty := by
  rw [← shown_latestClear h, ← shown_append]
  unfold generation
  rw [← List.take_add, show latestClear ops + (j - latestClear ops) = j by omega]

/-- From the latest clear on the client continues any scene of the server as the server does. -/
theorem read_shown (h : Numbered Operation.sequence 1 ops) (hvalid : ∀ op ∈ ops, ∀ e ∈ op.elements, e.Valid)
    (hread : Readable ((generation ops).flatMap Operation.elements)) {j : Nat} (hj : latestClear ops ≤ j) :
    ((ops.drop j).map sent).foldl SceneModel.applyWhiteboardOperation ((shown (ops.take j)).map readElement) =
      (shown ops).map readElement := by
  have hmem : ∀ {op}, op ∈ ops.drop j → op ∈ generation ops := by
    intro op hop
    unfold generation
    rw [show j = latestClear ops + (j - latestClear ops) by omega, ← List.drop_drop] at hop
    exact List.mem_of_mem_drop hop
  have hvalues : ∀ e ∈ (shown (ops.take j)).values, e ∈ (generation ops).flatMap Operation.elements := by
    intro e he
    have hupdates : ∀ op ∈ (generation ops).take (j - latestClear ops), op.kind = .sceneUpdate := fun op hop =>
      updates_of_latestClear h (le_refl _) op (List.mem_of_mem_take hop)
    rw [shown_generation h hj, foldl_showOperation_updates hupdates] at he
    rcases LatestWins.mem_values_merge he with he | he
    · cases he
    · obtain ⟨op, hop, he⟩ := List.mem_flatMap.1 he
      exact List.mem_flatMap.2 ⟨op, List.mem_of_mem_take hop, he⟩
  conv_rhs => rw [← List.take_append_drop j ops, shown_append]
  symm
  apply read_updates (updates_of_latestClear h hj) (keyed_shown _) hvalues ?_ ?_ hread
  · exact fun op hop e he => List.mem_flatMap.2 ⟨op, hmem hop, he⟩
  · intro e he
    obtain ⟨op, hop, he⟩ := List.mem_flatMap.1 he
    exact hvalid op (List.mem_of_mem_drop hop) e he

theorem read_generation (h : Numbered Operation.sequence 1 ops) (hvalid : ∀ op ∈ ops, ∀ e ∈ op.elements, e.Valid)
    (hread : Readable ((generation ops).flatMap Operation.elements)) :
    SceneModel.fold ((generation ops).map sent) = (shown ops).map readElement := by
  have hshown := read_shown h hvalid hread (le_refl _)
  rw [shown_latestClear h] at hshown
  exact hshown

/-- A replay of the whole log shows what the server shows. -/
theorem read_fold (h : Numbered Operation.sequence 1 ops) (hvalid : ∀ op ∈ ops, ∀ e ∈ op.elements, e.Valid)
    (hread : Readable ((generation ops).flatMap Operation.elements)) :
    SceneModel.fold (ops.map sent) = (shown ops).map readElement := by
  have hgeneration := read_generation h hvalid hread
  by_cases hpos : 0 < latestClear ops
  · exact (fold_latestClear h hpos OrderedMap.empty).trans hgeneration
  · unfold generation at hgeneration
    rw [show latestClear ops = 0 by omega] at hgeneration
    exact hgeneration

end Log

end KComms.Whiteboards
