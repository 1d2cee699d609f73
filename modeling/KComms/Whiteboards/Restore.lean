import KComms.Whiteboards.Chunks

/-!
# A checkpoint and its restore

A restore clears the board and sends the elements of the checkpoint in chunks.  Behind the clear every prefix of the
chunks shows a prefix of the checkpoint (`Restoring`), which fits as the checkpoint does; so no chunk is refused for its
payload or for the capacity of the scene, and in the end the board shows the checkpoint.
-/

namespace KComms.Whiteboards

open Consecutive (Numbered)
open ElixirString (trim trim_of_no_whitespace isWhitespace)
open FallibleLoop (bind_ok bind_error foldlM_cons_ok)

/-- What a command may be refused with for other reasons than the size of what it sends or makes. -/
def Refused (call : Call) (e : WhiteboardError) : Prop :=
  (∃ check, call.refusal check = some e) ∨
    e ∈ [.notFound, .staleBoardVersion, .assetUnavailable, .forbidden, .idempotencyConflict]

/-- The ids that `Ecto.UUID.generate` gives. -/
def Call.Generates (call : Call) : Prop :=
  ∀ path, (call.newId path).utf8ByteSize = 36 ∧ ∀ c ∈ (call.newId path).toList, isWhitespace c = false

variable {rt : Runtime} {call : Call} {s s' t t' : Store} {b b' : Whiteboard} {v : Version} {conversationId : String}
  {e : WhiteboardError} {sourceVersionId : Option String} {elements rest : List Element}

theorem Call.Generates.part (h : call.Generates) (index : Nat) : (call.part index).Generates :=
  fun path => h (index :: path)

theorem check_error {check : Check} (h : call.check check = .error e) : Refused call e := by
  unfold Call.check at h
  split at h
  · rename_i refused hrefused
    exact Or.inl ⟨check, hrefused.trans (congrArg some (Except.error.inj h))⟩
  · cases h

theorem Refused.of_part {index : Nat} (h : Refused (call.part index) e) : Refused call e := by
  rcases h with ⟨check, hcheck⟩ | hother
  · exact Or.inl ⟨.part index check, hcheck⟩
  · exact Or.inr hother

theorem lockOrCreate_error (h : lockOrCreateWhiteboard call s conversationId = .error e) : Refused call e := by
  unfold lockOrCreateWhiteboard at h
  split at h
  · cases h
  · dsimp only at h
    split at h
    · obtain rfl := Except.error.inj h
      exact Or.inr (by simp)
    · cases h

theorem sourceAuthors_error (h : sourceAuthors s b sourceVersionId = .error e) : Refused call e := by
  unfold sourceAuthors at h
  split at h
  · cases h
  · split at h
    · cases h
    · obtain rfl := Except.error.inj h
      exact Or.inr (by simp)

theorem validateAssets_error (h : validateAssets rt call s b elements = .error e) : Refused call e := by
  unfold validateAssets at h
  induction elements with
  | nil => cases h
  | cons element elements ih =>
    rw [List.forM_eq_forM, List.forM_cons] at h
    rcases bind_error.1 h with hfirst | ⟨_, -, hrest⟩
    · split at hfirst
      · split at hfirst
        · split at hfirst
          · cases hfirst
          · obtain rfl := Except.error.inj hfirst
            exact Or.inr (by simp)
        · obtain rfl := Except.error.inj hfirst
          exact Or.inr (by simp)
      · cases hfirst
    · exact ih hrest

/-- A valid append is refused for the generation or the capacity of the board, or for what lies outside. -/
theorem appendWithSource_error {attrs : AppendAttrs} {operationId : String} {base : Nat} {kind : OperationKind}
    (hid : clientOperationId attrs.clientOperationId = .ok operationId)
    (hbase : baseSequence attrs.kind attrs.baseSequence = .ok base)
    (hvalidate : Payload.validate rt attrs = .ok (kind, elements))
    (h : appendWithSource rt call conversationId attrs sourceVersionId s = .error e) :
    Refused call e ∨ ∃ t b, lockOrCreateWhiteboard call s conversationId = .ok (t, b) ∧
      (ensureCapacityAndGeneration b kind base (t.latestClear b.id) = .error e ∨
        Snapshots.prepare rt t b (t.latestClear b.id) kind (elements.map rt.jsonb.element) = .error e) := by
  unfold appendWithSource at h
  rcases bind_error.1 h with h | ⟨_, -, h⟩
  · exact Or.inl (check_error h)
  rw [hid, hbase, hvalidate] at h
  rcases bind_error.1 h with h | ⟨_, hsame, h⟩
  · cases h
  obtain rfl := Except.ok.inj hsame
  rcases bind_error.1 h with h | ⟨_, hsame, h⟩
  · cases h
  obtain rfl := Except.ok.inj hsame
  rcases bind_error.1 h with h | ⟨_, hsame, h⟩
  · cases h
  obtain rfl := Except.ok.inj hsame
  rcases bind_error.1 h with h | ⟨_, -, h⟩
  · exact Or.inl (check_error h)
  rcases bind_error.1 h with h | ⟨⟨t, b⟩, hlock, h⟩
  · exact Or.inl (lockOrCreate_error h)
  rcases bind_error.1 h with h | ⟨_, -, h⟩
  · exact Or.inl (check_error h)
  rcases bind_error.1 h with h | ⟨sources, -, h⟩
  · exact Or.inl (sourceAuthors_error h)
  rcases bind_error.1 h with h | ⟨_, -, h⟩
  · exact Or.inl (validateAssets_error h)
  rcases bind_error.1 h with h | ⟨_, -, h⟩
  · unfold appendOrReplay at h
    split at h
    · split at h
      · cases h
      · obtain rfl := Except.error.inj h
        exact Or.inl (Or.inr (by simp))
    · rcases bind_error.1 h with h | ⟨_, -, h⟩
      · unfold appendNew at h
        dsimp only at h
        rcases bind_error.1 h with h | ⟨_, -, h⟩
        · exact Or.inr ⟨t, b, hlock, Or.inl h⟩
        rcases bind_error.1 h with h | ⟨_, -, h⟩
        · exact Or.inr ⟨t, b, hlock, Or.inr h⟩
        rcases bind_error.1 h with h | ⟨_, -, h⟩
        · exact Or.inl (check_error h)
        split at h
        · obtain rfl := Except.error.inj h
          exact Or.inl (Or.inr (by simp))
        · cases h
      · cases h
  · rcases bind_error.1 h with h | ⟨_, -, h⟩
    · exact Or.inl (check_error h)
    · cases h

theorem appendCreated_error {attrs : AppendAttrs}
    (h : appendCreated rt call conversationId attrs sourceVersionId s = .error e) :
    Refused call e ∨ appendWithSource rt call conversationId attrs sourceVersionId s = .error e := by
  unfold appendCreated at h
  rcases bind_error.1 h with h | ⟨⟨t, op, status⟩, -, h⟩
  · exact Or.inr h
  · cases status with
    | created => cases h
    | duplicate =>
      obtain rfl := Except.error.inj h
      exact Or.inl (Or.inr (by simp))

theorem clientOperationId_generated {start value : String} (hstart : start.utf8ByteSize = 14)
    (hplain : ∀ c ∈ start.toList, isWhitespace c = false) (hvalue : value.utf8ByteSize = 36)
    (hnone : ∀ c ∈ value.toList, isWhitespace c = false) :
    clientOperationId (some (start ++ value)) = .ok (start ++ value) := by
  have htrim : trim (start ++ value) = start ++ value := by
    apply trim_of_no_whitespace
    intro c hc
    rw [String.toList_append, List.mem_append] at hc
    rcases hc with hc | hc
    · exact hplain c hc
    · exact hnone c hc
  have hsize : (start ++ value).utf8ByteSize = 50 := by rw [String.utf8ByteSize_append, hstart, hvalue]
  unfold clientOperationId
  dsimp only
  rw [htrim, hsize]
  rfl

/-! ### Behind the latest clear -/

/-- The scene fits at every operation since the latest clear. -/
def FittingSinceClear (rt : Runtime) (ops : List Operation) : Prop :=
  ∀ n, latestClear ops ≤ n → Scene.Fits rt.encodedBytes (shown (ops.take n)).values

/-- Such a scene can be rebuilt from wherever the recomputation starts. -/
theorem Start.rebuilt {base : List Element} {k : Nat} (hstart : Start (s.operationsOf b.id) base k) (h : BoardInv s b)
    (hfitting : FittingSinceClear rt (s.operationsOf b.id)) :
    ∃ initial scene, Scene.new rt.encodedBytes base = .ok initial ∧
      Snapshots.projectTail rt s b.id k b.sequence initial = .ok scene ∧ Scene.Wf rt.encodedBytes scene ∧
      scene.board = shown (s.operationsOf b.id) := by
  have hkeyed := keyed_shown ((s.operationsOf b.id).take k)
  obtain ⟨initial, hinitial⟩ := scene_new_values hkeyed (hfitting k hstart.clear)
  rw [← hstart.elements] at hinitial
  obtain ⟨hwf, hboard⟩ := scene_new_ok hinitial
  rw [hstart.elements, LatestWins.merge_values hkeyed] at hboard
  have hbuilt := Scene.foldl_put_board rt.encodedBytes (shown (s.operationsOf b.id)).values Scene.empty
  rw [show Scene.empty.board = OrderedMap.empty from rfl, LatestWins.merge_values (keyed_shown _)] at hbuilt
  refine ⟨initial, _, hinitial, (projectTail_ok h hstart.clear hwf hboard).2 ⟨Scene.wf_empty.foldl_put, hbuilt,
    fun n hn _ => hfitting n (Nat.le_trans hstart.clear (Nat.le_of_lt hn))⟩, Scene.wf_empty.foldl_put, hbuilt⟩

theorem sceneOf_sinceClear (h : BoardInv s b) (hfitting : FittingSinceClear rt (s.operationsOf b.id)) :
    sceneOf rt s b = .ok (shown (s.operationsOf b.id)).values := by
  obtain ⟨base, k, hstart, heq⟩ := sceneOf_start h
  obtain ⟨initial, scene, hinitial, htail, hwf, hboard⟩ := hstart.rebuilt h hfitting
  rw [heq]
  refine bind_ok.2 ⟨initial, hinitial, bind_ok.2 ⟨scene, htail, ?_⟩⟩
  rw [hwf.elements, hboard]

theorem prepare_sinceClear (h : BoardInv s b) (hfitting : FittingSinceClear rt (s.operationsOf b.id))
    (hfits : Scene.Fits rt.encodedBytes
      (LatestWins.merge Element.id Scene.incomingWins (shown (s.operationsOf b.id)) elements).values) :
    ∃ prepared, Snapshots.prepare rt s b (s.latestClear b.id) .sceneUpdate elements = .ok prepared := by
  obtain ⟨initial, scene, hinitial, htail, hwf, hboard⟩ := (start_base h).rebuilt h hfitting
  have hput := Scene.foldl_put_board rt.encodedBytes elements scene
  rw [hboard] at hput
  have hmerge : Scene.merge rt.encodedBytes scene elements = .ok (elements.foldl (Scene.put rt.encodedBytes) scene) := by
    refine hwf.merge.2 ⟨hwf.foldl_put, by rw [hput, hboard], ?_⟩
    rw [hput]
    exact hfits
  exact ⟨_, bind_ok.2 ⟨initial, hinitial, bind_ok.2 ⟨scene, htail, bind_ok.2 ⟨_, hmerge, rfl⟩⟩⟩⟩

/-! ### Within a restore -/

section Within

variable {clear : Operation} {taken : List (List Element)}

/-- The store `t` after the clear of a restore and the chunks that have been taken. -/
structure Restoring (s : Store) (b : Whiteboard) (v : Version) (clear : Operation) (taken : List (List Element))
    (t : Store) : Prop where
  inv : StoreInv t
  versions : t.versions = s.versions
  board : ∃ b', t.board? b.tenantId b.conversationId = some b' ∧ b'.id = b.id
  cleared : clear.kind = .boardClear ∧ clear.whiteboardId = b.id
  operations : ∃ ops, t.operations = s.operations ++ clear :: ops ∧ ops.map Operation.elements = taken ∧
    ∀ op ∈ ops, op.kind = .sceneUpdate ∧ op.whiteboardId = b.id ∧ op.sourceActorUserIds = v.sourceActorUserIds

theorem Changes.board? (h : StoreInv s) (hc : Changes rt s t) {tenantId : String}
    (hb : s.board? tenantId conversationId = some b) :
    ∃ b', t.board? tenantId conversationId = some b' ∧ b'.id = b.id := by
  induction hc with
  | refl => exact ⟨b, hb, rfl⟩
  | tail hc hlast ih =>
    obtain ⟨b', hb', hid⟩ := ih
    obtain ⟨b'', hb'', hid'⟩ := hlast.board? (h.changes hc) hb'
    exact ⟨b'', hb'', hid'.trans hid⟩

/-- The log of the board, with the clear in it. -/
structure RestoringLog (s : Store) (b : Whiteboard) (clear : Operation) (taken : List (List Element)) (t : Store)
    (ops : List Operation) : Prop where
  log : t.operationsOf b.id = s.operationsOf b.id ++ clear :: ops
  numbered : Numbered Operation.sequence 1 (t.operationsOf b.id)
  cleared : clear.kind = .boardClear
  updates : ∀ op ∈ ops, op.kind = .sceneUpdate
  elements : ops.map Operation.elements = taken

theorem Restoring.log (h : Restoring s b v clear taken t) : ∃ ops, RestoringLog s b clear taken t ops := by
  obtain ⟨b', hb', hid⟩ := h.board
  obtain ⟨ops, hoperations, helements, hops⟩ := h.operations
  have hnumbered := (h.inv.board b' (board?_some hb').1).numbered
  rw [hid] at hnumbered
  refine ⟨ops, ?_, hnumbered, h.cleared.1, fun op hop => (hops op hop).1, helements⟩
  have hall : ops.filter (fun op => op.whiteboardId = b.id) = ops :=
    List.filter_eq_self.2 fun op hop => decide_eq_true (hops op hop).2.1
  have hfirst : (clear :: ops).filter (fun op => op.whiteboardId = b.id) = clear :: ops := by
    rw [List.filter_cons_of_pos (by simpa using h.cleared.2), hall]
  unfold Store.operationsOf
  rw [hoperations, List.filter_append, hfirst]

section Log

variable {ops : List Operation}

theorem RestoringLog.sequence (h : RestoringLog s b clear taken t ops) :
    clear.sequence = (s.operationsOf b.id).length + 1 := by
  have hnumbered := h.numbered
  rw [h.log, Consecutive.numbered_append, Consecutive.numbered_cons] at hnumbered
  rw [hnumbered.2.1, Nat.add_comm]

theorem RestoringLog.latestClear (h : RestoringLog s b clear taken t ops) :
    latestClear (t.operationsOf b.id) = clear.sequence := by
  have hsequence := h.sequence
  have hnumbered := h.numbered
  have hmem : clear ∈ t.operationsOf b.id := by
    rw [h.log]
    simp
  refine Nat.le_antisymm ?_ (le_latestClear hmem h.cleared)
  rcases latestClear_mem (t.operationsOf b.id) with hzero | ⟨op, hop, hclear, hlatest⟩
  · omega
  · rw [← hlatest]
    rw [h.log] at hop hnumbered
    rcases List.mem_append.1 hop with hold | hnew
    · have hbounds := (Consecutive.numbered_append.1 hnumbered).1.bounds hold
      omega
    · rcases List.mem_cons.1 hnew with rfl | hupdate
      · exact Nat.le_refl _
      · rw [h.updates op hupdate] at hclear
        cases hclear

/-- Behind the clear the board shows the elements of the chunks. -/
theorem RestoringLog.shown_take (h : RestoringLog s b clear taken t ops) (m : Nat) :
    shown ((t.operationsOf b.id).take (clear.sequence + m)) =
      LatestWins.merge Element.id Scene.incomingWins OrderedMap.empty (taken.take m).flatten := by
  have htake : (t.operationsOf b.id).take (clear.sequence + m) = s.operationsOf b.id ++ (clear :: ops.take m) := by
    rw [h.log, h.sequence, Nat.add_assoc, Nat.add_comm 1 m, List.take_length_add_append, List.take_succ_cons]
  have hclear : showOperation (shown (s.operationsOf b.id)) clear = OrderedMap.empty := by
    unfold showOperation
    rw [h.cleared]
  have hupdates : ∀ op ∈ ops.take m, op.kind = .sceneUpdate := fun op hop => h.updates op (List.mem_of_mem_take hop)
  rw [htake, shown_append, List.foldl_cons, hclear, foldl_showOperation_updates hupdates, ← h.elements, List.map_take.symm,
    List.flatMap_def]

theorem RestoringLog.shown (h : RestoringLog s b clear taken t ops) :
    shown (t.operationsOf b.id) = LatestWins.merge Element.id Scene.incomingWins OrderedMap.empty taken.flatten := by
  have hwhole := h.shown_take ops.length
  have hlength : taken.length = ops.length := by rw [← h.elements, List.length_map]
  have hlog : (t.operationsOf b.id).length = clear.sequence + ops.length := by
    rw [h.log, h.sequence, List.length_append, List.length_cons]
    omega
  rw [List.take_of_length_le (by omega), List.take_of_length_le (by omega)] at hwhole
  exact hwhole

theorem RestoringLog.fitting (h : RestoringLog s b clear taken t ops) (hv : v.Restorable rt)
    (helements : v.elements = taken.flatten ++ rest) : FittingSinceClear rt (t.operationsOf b.id) := by
  intro n hn
  rw [h.latestClear] at hn
  obtain ⟨m, rfl⟩ := Nat.exists_eq_add_of_le hn
  have hsplit : v.elements = (taken.take m).flatten ++ ((taken.drop m).flatten ++ rest) := by
    rw [helements, ← List.append_assoc, ← List.flatten_append, List.take_append_drop]
  have hids := hv.ids
  have hfits := hv.fits
  rw [hsplit] at hids hfits
  rw [List.map_append, List.nodup_append] at hids
  rw [h.shown_take, LatestWins.values_merge_of_new hids.1]
  exact hfits.of_append

end Log

/-- The board of a restore. -/
structure Target (call : Call) (conversationId : String) (b : Whiteboard) : Prop where
  tenantId : b.tenantId = call.subject.tenantId
  conversationId : b.conversationId = conversationId

theorem lockOrCreate_existing (htarget : Target call conversationId b)
    (hb : t.board? b.tenantId b.conversationId = some b') :
    lockOrCreateWhiteboard call t conversationId = .ok (t, b') := by
  unfold lockOrCreateWhiteboard
  rw [htarget.tenantId, htarget.conversationId] at hb
  rw [hb]

private theorem start_clear : "restore-clear-".utf8ByteSize = 14 ∧ ∀ c ∈ "restore-clear-".toList, isWhitespace c = false :=
  ⟨by decide, by decide⟩

private theorem start_scene : "restore-scene-".utf8ByteSize = 14 ∧ ∀ c ∈ "restore-scene-".toList, isWhitespace c = false :=
  ⟨by decide, by decide⟩

theorem restoreClear_operationId (h : call.Generates) :
    clientOperationId (restoreClear call).clientOperationId = .ok ("restore-clear-" ++ call.newId [2]) := by
  obtain ⟨hsize, hplain⟩ := h [2]
  exact clientOperationId_generated start_clear.1 start_clear.2 hsize hplain

theorem restoreScene_operationId (h : call.Generates) (sequence : Nat) (chunk : List Element) :
    clientOperationId (restoreScene call sequence chunk).clientOperationId = .ok ("restore-scene-" ++ call.newId [2]) := by
  obtain ⟨hsize, hplain⟩ := h [2]
  exact clientOperationId_generated start_scene.1 start_scene.2 hsize hplain

theorem restoreClear_baseSequence : baseSequence (restoreClear call).kind (restoreClear call).baseSequence = .ok 0 := rfl

theorem restoreScene_baseSequence (sequence : Nat) (chunk : List Element) :
    baseSequence (restoreScene call sequence chunk).kind (restoreScene call sequence chunk).baseSequence =
      .ok sequence := by
  show baseSequence (some .sceneUpdate) (some (sequence : Int)) = .ok sequence
  unfold baseSequence
  dsimp only
  rw [if_pos (Int.natCast_nonneg _), Int.toNat_natCast]

theorem restoreClear_validate : Payload.validate rt (restoreClear call) = .ok (.boardClear, []) := rfl

/-- A clear is not refused for its payload. -/
theorem restoreClear_spec (hinv : StoreInv s) (htarget : Target call conversationId b)
    (hb : s.board? b.tenantId b.conversationId = some b) (hids : (call.part 0).Generates) (v : Version) :
    (∀ e, appendCreated rt (call.part 0) conversationId (restoreClear (call.part 0)) none s = .error e → Refused call e) ∧
      ∀ t clear, appendCreated rt (call.part 0) conversationId (restoreClear (call.part 0)) none s = .ok (t, clear) →
        Restoring s b v clear [] t := by
  have htarget' : Target (call.part 0) conversationId b := ⟨htarget.tenantId, htarget.conversationId⟩
  have hlock := lockOrCreate_existing htarget' hb
  constructor
  · intro e herror
    rcases appendCreated_error herror with hrefused | herror
    · exact hrefused.of_part
    rcases appendWithSource_error (restoreClear_operationId hids) restoreClear_baseSequence restoreClear_validate herror with
      hrefused | ⟨t, b', -, hcapacity | hprepare⟩
    · exact hrefused.of_part
    · cases hcapacity
    · cases hprepare
  · intro t clear hok
    have hcreated := appendCreated_ok hok
    obtain ⟨hchanges, hversions⟩ := appendWithSource_changes (fun _ _ hid => by cases hid) hcreated
    obtain ⟨t', b', _, kind, elements, sources, hlock', hvalidate', -, hresult⟩ := appendWithSource_ok hcreated
    rw [hlock] at hlock'
    obtain ⟨rfl, rfl⟩ := Prod.mk.inj (Except.ok.inj hlock')
    rw [restoreClear_validate] at hvalidate'
    obtain ⟨rfl, rfl⟩ := Prod.mk.inj (Except.ok.inj hvalidate')
    rcases hresult with ⟨hduplicate, -⟩ | ⟨prepared, -, rfl, -, -, rfl⟩
    · cases hduplicate
    · exact ⟨hinv.changes hchanges, hversions, hchanges.board? hinv hb, ⟨rfl, rfl⟩, [], appended_operations, rfl,
        fun op hop => by cases hop⟩

/-- The next chunk is an append at the generation of the clear, with room for it. -/
theorem RestoringLog.capacity {ops : List Operation} (h : RestoringLog s b clear taken t ops) (hid : b'.id = b.id)
    (hboard : BoardInv t b') (hcount : taken.length < maximumOperations) :
    ensureCapacityAndGeneration b' .sceneUpdate clear.sequence (t.latestClear b'.id) = .ok () := by
  have hlength := hboard.length
  have hsequence := h.sequence
  have htaken : taken.length = ops.length := by rw [← h.elements, List.length_map]
  rw [hid, h.log, List.length_append, List.length_cons] at hlength
  have hroom : (b'.sequence : Int) - clear.sequence = taken.length := by omega
  rw [hid, store_latestClear, h.latestClear]
  unfold ensureCapacityAndGeneration
  dsimp only
  rw [if_neg (Nat.lt_irrefl _), if_neg (by omega)]

/-- The next chunk makes a scene that fits. -/
theorem RestoringLog.prepare {ops : List Operation} (h : RestoringLog s b clear taken t ops) (hid : b'.id = b.id)
    (hboard : BoardInv t b') (hv : v.Restorable rt) {chunk : List Element}
    (helements : v.elements = taken.flatten ++ (chunk ++ rest)) :
    ∃ prepared, Snapshots.prepare rt t b' (t.latestClear b'.id) .sceneUpdate chunk = .ok prepared := by
  refine prepare_sinceClear hboard (by rw [hid]; exact h.fitting hv helements) ?_
  have hids := hv.ids
  have hfits := hv.fits
  rw [helements, ← List.append_assoc] at hids hfits
  rw [List.map_append, List.nodup_append] at hids
  rw [hid, h.shown, ← LatestWins.merge_append, LatestWins.values_merge_of_new hids.1]
  exact hfits.of_append

/-- The sources of a chunk are the lineage of the checkpoint. -/
theorem Restoring.sources (h : Restoring s b v clear taken t) (hids : s.VersionIds) (hv : v ∈ s.versions)
    {sources : List String} (hsources : sourceAuthors t b' (some v.id) = .ok sources) :
    sources = v.sourceActorUserIds := by
  rcases sourceAuthors_ok hsources with ⟨hnone, -⟩ | ⟨v', hv', hid, -, -, rfl⟩
  · cases hnone
  · rw [h.versions] at hv'
    rw [List.inj_on_of_nodup_map hids hv' hv (Option.some.inj hid).symm]

/-- A chunk is not refused for its payload or for the capacity of the scene. -/
theorem restoreChunk_spec (htarget : Target call conversationId b) (hids : s.VersionIds) (hv : v ∈ s.versions)
    (hrestorable : v.Restorable rt) (h : Restoring s b v clear taken t) {entry : List Element × Nat}
    (hgenerates : (call.part (entry.2 + 1)).Generates) (helements : v.elements = taken.flatten ++ (entry.1 ++ rest))
    (hcount : taken.length < maximumOperations) (hne : entry.1 ≠ [])
    (hlength : entry.1.length ≤ Payload.maximumElementsPerUpdate)
    (hbytes : Payload.encodedBytes rt entry.1 ≤ Payload.maximumEncodedBytes) :
    (∀ e, restoreChunk rt call conversationId v.id clear.sequence t entry = .error e → Refused call e) ∧
      ∀ t', restoreChunk rt call conversationId v.id clear.sequence t entry = .ok t' →
        Restoring s b v clear (taken ++ [entry.1]) t' := by
  obtain ⟨ops, hlog⟩ := h.log
  obtain ⟨b', hb', hid'⟩ := h.board
  have hboard := h.inv.board b' (board?_some hb').1
  have htarget' : Target (call.part (entry.2 + 1)) conversationId b := ⟨htarget.tenantId, htarget.conversationId⟩
  have hlock := lockOrCreate_existing htarget' hb'
  have hmem : ∀ e ∈ entry.1, e ∈ v.elements := fun e he => by rw [helements]; simp [he]
  have hsend : ∀ e ∈ entry.1, Sendable rt e := fun e he => hrestorable.sendable e (hmem e he)
  have hstored := hrestorable.stored hmem
  have hvalidate := validate_chunk (call.part (entry.2 + 1)) clear.sequence hsend hne hlength hbytes
  unfold restoreChunk
  constructor
  · intro e herror
    rcases bind_error.1 herror with herror | ⟨_, -, herror⟩
    · rcases appendCreated_error herror with hrefused | herror
      · exact hrefused.of_part
      rcases appendWithSource_error (restoreScene_operationId hgenerates _ _) (restoreScene_baseSequence _ _) hvalidate
        herror with hrefused | ⟨t', b'', hlock', hcapacity | hprepare⟩
      · exact hrefused.of_part
      · rw [hlock] at hlock'
        obtain ⟨rfl, rfl⟩ := Prod.mk.inj (Except.ok.inj hlock')
        rw [hlog.capacity hid' hboard hcount] at hcapacity
        cases hcapacity
      · rw [hlock] at hlock'
        obtain ⟨rfl, rfl⟩ := Prod.mk.inj (Except.ok.inj hlock')
        obtain ⟨prepared, hprepared⟩ := hlog.prepare hid' hboard hrestorable helements
        rw [hstored, hprepared] at hprepare
        cases hprepare
    · cases herror
  · intro t' hok
    obtain ⟨⟨t'', op⟩, happend, hsame⟩ := bind_ok.1 hok
    obtain rfl := Except.ok.inj hsame
    have hcreated := appendCreated_ok happend
    have hsent : SentFrom t (restoreScene (call.part (entry.2 + 1)) clear.sequence entry.1) (some v.id) := by
      intro v' hv' hid sent hsent a ha
      rw [h.versions] at hv'
      obtain rfl : v' = v := List.inj_on_of_nodup_map hids hv' hv (Option.some.inj hid).symm
      obtain rfl := Option.some.inj hsent
      obtain ⟨e, he, rfl⟩ := List.mem_map.1 ha
      exact ⟨e, hmem e he, rfl⟩
    obtain ⟨hchanges, hversions⟩ := appendWithSource_changes hsent hcreated
    obtain ⟨locked, b'', operationId, kind, elements, sources, hlock', hvalidate', hsources, hresult⟩ :=
      appendWithSource_ok hcreated
    rw [hlock] at hlock'
    obtain ⟨rfl, rfl⟩ := Prod.mk.inj (Except.ok.inj hlock')
    rw [hvalidate] at hvalidate'
    obtain ⟨rfl, rfl⟩ := Prod.mk.inj (Except.ok.inj hvalidate')
    rcases hresult with ⟨hduplicate, -⟩ | ⟨prepared, -, rfl, -, -, rfl⟩
    · cases hduplicate
    obtain ⟨b'', hb'', hid''⟩ := hchanges.board? h.inv hb'
    obtain ⟨ops, hoperations, hsent, hops⟩ := h.operations
    refine ⟨h.inv.changes hchanges, hversions.trans h.versions, ⟨b'', hb'', hid''.trans hid'⟩, h.cleared,
      ops ++ [newOperation (call.part (entry.2 + 1)) conversationId operationId b' .sceneUpdate entry.1 sources], ?_, ?_,
      fun op hop => ?_⟩
    · rw [appended_operations, hoperations, hstored, List.append_assoc]
      rfl
    · rw [List.map_append, hsent]
      rfl
    · rcases List.mem_append.1 hop with hold | hnew
      · exact hops op hold
      · rw [List.mem_singleton.1 hnew]
        exact ⟨rfl, hid', h.sources hids hv hsources⟩

/-- The loop over the chunks. -/
theorem restoreChunks_spec (htarget : Target call conversationId b) (hids : s.VersionIds) (hv : v ∈ s.versions)
    (hrestorable : v.Restorable rt) (hgenerates : call.Generates) (l : List (List Element × Nat)) :
    ∀ {taken : List (List Element)} {t : Store}, Restoring s b v clear taken t →
      v.elements = taken.flatten ++ (l.map Prod.fst).flatten → taken.length + l.length ≤ maximumOperations →
      (∀ entry ∈ l, entry.1 ≠ [] ∧ entry.1.length ≤ Payload.maximumElementsPerUpdate ∧
        Payload.encodedBytes rt entry.1 ≤ Payload.maximumEncodedBytes) →
      (∀ e, l.foldlM (restoreChunk rt call conversationId v.id clear.sequence) t = .error e → Refused call e) ∧
        ∀ t', l.foldlM (restoreChunk rt call conversationId v.id clear.sequence) t = .ok t' →
          Restoring s b v clear (taken ++ l.map Prod.fst) t' := by
  induction l with
  | nil =>
    intro taken t h _ _ _
    refine ⟨fun e herror => (by cases herror), fun t' hok => ?_⟩
    obtain rfl := Except.ok.inj hok
    rw [List.map_nil, List.append_nil]
    exact h
  | cons entry l ih =>
    intro taken t h helements hcount hl
    rw [List.map_cons, List.flatten_cons] at helements
    rw [List.length_cons] at hcount
    obtain ⟨hne, hlength, hbytes⟩ := hl entry List.mem_cons_self
    obtain ⟨herror, hok⟩ := restoreChunk_spec htarget hids hv hrestorable h (hgenerates.part (entry.2 + 1)) helements
      (by omega) hne hlength hbytes
    have hrest : ∀ {u : Store}, restoreChunk rt call conversationId v.id clear.sequence t entry = .ok u → _ :=
      fun {u} hu => ih (hok u hu)
        (by rw [helements, List.flatten_append, List.flatten_singleton, List.append_assoc])
        (by rw [List.length_append, List.length_singleton]; omega)
        (fun entry' hentry' => hl entry' (List.mem_cons_of_mem _ hentry'))
    constructor
    · intro e hfold
      rw [List.foldlM_cons] at hfold
      rcases bind_error.1 hfold with hfirst | ⟨u, hu, hfold⟩
      · exact herror e hfirst
      · exact (hrest hu).1 e hfold
    · intro t' hfold
      obtain ⟨u, hu, hfold⟩ := foldlM_cons_ok.1 hfold
      have hend := (hrest hu).2 t' hfold
      rwa [List.append_assoc] at hend

theorem length_le_of_nonempty {l : List (List Element)} (h : ∀ chunk ∈ l, chunk ≠ []) :
    l.length ≤ l.flatten.length := by
  induction l with
  | nil => exact Nat.le_refl _
  | cons chunk l ih =>
    have hchunk := List.length_pos_iff.2 (h chunk List.mem_cons_self)
    have hrest := ih fun chunk' hchunk' => h chunk' (List.mem_cons_of_mem _ hchunk')
    rw [List.flatten_cons, List.length_append, List.length_cons]
    omega

/-- A restore on the board of a checkpoint. -/
theorem restoreOn_spec (hinv : StoreInv s) (htarget : Target call conversationId b)
    (hb : s.board? b.tenantId b.conversationId = some b) (hv : v ∈ s.versions) (hrestorable : v.Restorable rt)
    (hgenerates : call.Generates) :
    (∀ e, restoreOn rt call conversationId s b v = .error e → Refused call e) ∧
      ∀ t, restoreOn rt call conversationId s b v = .ok t →
        ∃ clear, Restoring s b v clear (chunkElements rt v.elements) t := by
  have hflatten := flatten_chunkElements rt v.elements
  have hchunks := chunkElements_bounded fun e he => (normalizeElement_size (hrestorable.sendable e he)).1
  have hcount : (chunkElements rt v.elements).length ≤ maximumOperations := by
    have hnonempty := length_le_of_nonempty fun chunk hchunk => (hchunks chunk hchunk).1
    have hfits : v.elements.length ≤ Scene.maximumElements := hrestorable.fits.1
    have hbounds : Scene.maximumElements ≤ maximumOperations := by decide
    rw [hflatten] at hnonempty
    omega
  have hfirst : (chunkElements rt v.elements).zipIdx.map Prod.fst = chunkElements rt v.elements := List.zipIdx_map_fst 0 _
  have hbounds : ∀ entry ∈ (chunkElements rt v.elements).zipIdx, entry.1 ≠ [] ∧
      entry.1.length ≤ Payload.maximumElementsPerUpdate ∧ Payload.encodedBytes rt entry.1 ≤ Payload.maximumEncodedBytes := by
    intro entry hentry
    refine hchunks entry.1 ?_
    rw [← hfirst]
    exact List.mem_map_of_mem hentry
  obtain ⟨hclearError, hclearOk⟩ := restoreClear_spec hinv htarget hb (hgenerates.part 0) v
  have hloop : ∀ {u : Store} {clear : Operation},
      appendCreated rt (call.part 0) conversationId (restoreClear (call.part 0)) none s = .ok (u, clear) → _ :=
    fun {u clear} hclear => restoreChunks_spec htarget hinv.versionIds hv hrestorable hgenerates
      (chunkElements rt v.elements).zipIdx (hclearOk u clear hclear) (by rw [hfirst, hflatten]; rfl)
      (by rw [List.length_zipIdx]; simpa using hcount) hbounds
  unfold restoreOn
  constructor
  · intro e herror
    rcases bind_error.1 herror with herror | ⟨_, -, herror⟩
    · exact validateAssets_error herror
    rcases bind_error.1 herror with herror | ⟨⟨u, clear⟩, hclear, herror⟩
    · exact hclearError e herror
    · exact (hloop hclear).1 e herror
  · intro t hok
    obtain ⟨_, -, hok⟩ := bind_ok.1 hok
    obtain ⟨⟨u, clear⟩, hclear, hok⟩ := bind_ok.1 hok
    have hend := (hloop hclear).2 t hok
    rw [hfirst] at hend
    exact ⟨clear, hend⟩

end Within

/-- A chunk that has been accepted has no element that is too long. -/
theorem restoreChunk_sizes {versionId : String} {sequence : Nat} {entry : List Element × Nat}
    (hvalid : ∀ e ∈ entry.1, e.Valid) (h : restoreChunk rt call conversationId versionId sequence s entry = .ok t) :
    ∀ e ∈ entry.1, rt.encodedBytes e ≤ Payload.maximumElementBytes := by
  unfold restoreChunk at h
  obtain ⟨⟨t', op⟩, hcreated, -⟩ := bind_ok.1 h
  obtain ⟨_, _, _, kind, elements, _, -, hvalidate, -⟩ := appendWithSource_ok (appendCreated_ok hcreated)
  intro e he
  obtain ⟨sent, hsent⟩ := validate_normalized hvalidate rfl rfl e.attrs (List.mem_map_of_mem he)
  rw [← normalizeElement_attrs (hvalid e he) hsent]
  exact (normalizeElement_size hsent).1

theorem restoreOn_sizes (hshows : v.Shows rt) (h : restoreOn rt call conversationId s b v = .ok t) :
    ∀ e ∈ v.elements, rt.encodedBytes e ≤ Payload.maximumElementBytes := by
  unfold restoreOn at h
  obtain ⟨_, -, h⟩ := bind_ok.1 h
  obtain ⟨⟨u, clear⟩, -, h⟩ := bind_ok.1 h
  have hloop : ∀ (l : List (List Element × Nat)) (u : Store), (∀ entry ∈ l, ∀ e ∈ entry.1, e ∈ v.elements) →
      l.foldlM (restoreChunk rt call conversationId v.id clear.sequence) u = .ok t →
      ∀ entry ∈ l, ∀ e ∈ entry.1, rt.encodedBytes e ≤ Payload.maximumElementBytes := by
    intro l
    induction l with
    | nil => intro u _ _ entry hentry; cases hentry
    | cons first l ih =>
      intro u hl hfold
      obtain ⟨u', hfirst, hfold⟩ := foldlM_cons_ok.1 hfold
      rw [List.forall_mem_cons] at hl ⊢
      exact ⟨restoreChunk_sizes (fun e he => (hshows.accepted e (hl.1 e he)).valid) hfirst, ih u' hl.2 hfold⟩
  have hfirst : (chunkElements rt v.elements).zipIdx.map Prod.fst = chunkElements rt v.elements := List.zipIdx_map_fst 0 _
  intro e he
  rw [← flatten_chunkElements rt v.elements, ← hfirst] at he
  obtain ⟨chunk, hchunk, he⟩ := List.mem_flatten.1 he
  obtain ⟨entry, hentry, rfl⟩ := List.mem_map.1 hchunk
  have hchunks : ∀ entry ∈ (chunkElements rt v.elements).zipIdx, ∀ e ∈ entry.1, e ∈ v.elements := fun entry hentry =>
    mem_chunkElements (hfirst ▸ List.mem_map_of_mem hentry)
  exact hloop _ u hchunks h entry hentry e he

/-- `board?` finds the board itself. -/
theorem board?_self {tenantId : String} (h : s.board? tenantId conversationId = some b) :
    s.board? b.tenantId b.conversationId = some b ∧ b.tenantId = tenantId ∧ b.conversationId = conversationId := by
  obtain ⟨-, htenant, hconversation⟩ := board?_some h
  exact ⟨by rw [htenant, hconversation, h], htenant, hconversation⟩

theorem withBoard_error {β : Type} {f : Whiteboard → Except WhiteboardError β}
    (h : withBoard call s conversationId f = .error e) : Refused call e ∨
      ∃ b, s.board? call.subject.tenantId conversationId = some b ∧ f b = .error e := by
  unfold withBoard at h
  rcases bind_error.1 h with h | ⟨_, -, h⟩
  · exact Or.inl (check_error h)
  rcases bind_error.1 h with h | ⟨_, -, h⟩
  · exact Or.inl (check_error h)
  split at h
  · obtain rfl := Except.error.inj h
    exact Or.inl (Or.inr (by simp))
  · rename_i b hb
    rcases bind_error.1 h with h | ⟨_, -, h⟩
    · exact Or.inl (check_error h)
    rcases bind_error.1 h with h | ⟨_, -, h⟩
    · exact Or.inr ⟨b, hb, h⟩
    rcases bind_error.1 h with h | ⟨_, -, h⟩
    · exact Or.inl (check_error h)
    · cases h

/-- A restore of the checkpoint, from a store in which it is. -/
theorem restore_spec (conversationId : String) {versionId : String} (expectedSequence : Option Nat) (hinv : StoreInv s)
    (hv : v ∈ s.versions) (hrestorable : v.Restorable rt) (hgenerates : call.Generates)
    (hcast : rt.uuidCast versionId = some v.id) :
    (∀ e, restore rt call conversationId versionId expectedSequence s = .error e → Refused call e) ∧
      ∀ t, restore rt call conversationId versionId expectedSequence s = .ok t →
        ∃ b clear, s.board? call.subject.tenantId conversationId = some b ∧
          Restoring s b v clear (chunkElements rt v.elements) t := by
  have hsame : ∀ v' ∈ s.versions, v'.id = v.id → v' = v :=
    fun v' hv' hid => List.inj_on_of_nodup_map hinv.versionIds hv' hv hid
  have hboard : ∀ {b : Whiteboard}, s.board? call.subject.tenantId conversationId = some b → _ := fun {b} hb => by
    obtain ⟨hself, htenant, hconversation⟩ := board?_self hb
    exact restoreOn_spec (v := v) hinv ⟨htenant, hconversation⟩ hself hv hrestorable hgenerates
  constructor
  · intro e h
    rw [restore_eq, hcast] at h
    rcases withBoard_error h with hrefused | ⟨b, hb, hon⟩
    · exact hrefused
    split at hon
    · obtain rfl := Except.error.inj hon
      exact Or.inr (by simp)
    split at hon
    · obtain rfl := Except.error.inj hon
      exact Or.inr (by simp)
    · rename_i v' hfound
      have hprop := List.find?_some hfound
      rw [decide_eq_true_eq] at hprop
      rw [hsame v' (List.mem_of_find?_eq_some hfound) hprop.1] at hon
      exact (hboard hb).1 e hon
  · intro t h
    obtain ⟨b, v', hv', hb, hid, hon⟩ := restore_ok h
    rw [hcast] at hid
    rw [hsame v' hv' (Option.some.inj hid).symm] at hon
    obtain ⟨clear, hend⟩ := (hboard hb).2 t hon
    exact ⟨b, clear, hb, hend⟩

/-- Behind a restore the board shows the checkpoint. -/
theorem Restoring.sceneOf {clear : Operation} {taken : List (List Element)} (h : Restoring s b v clear taken s')
    (hrestorable : v.Restorable rt) (helements : taken.flatten = v.elements) :
    ∃ b', s'.board? b.tenantId b.conversationId = some b' ∧ Whiteboards.sceneOf rt s' b' = .ok v.elements := by
  obtain ⟨ops, hlog⟩ := h.log
  obtain ⟨b', hb', hid⟩ := h.board
  have hboard := h.inv.board b' (board?_some hb').1
  have hfitting : FittingSinceClear rt (s'.operationsOf b'.id) := by
    rw [hid]
    exact hlog.fitting hrestorable (by rw [helements, List.append_nil])
  refine ⟨b', hb', ?_⟩
  rw [sceneOf_sinceClear hboard hfitting, hid, hlog.shown, helements, LatestWins.values_merge_of_new hrestorable.ids]

/-! ### Along runs -/

section Later

variable {p : Provenance}

/-- An event on the server: a command or an erasure. -/
inductive Event (rt : Runtime) (s : Store) : Store → Prop
  | command {s' : Store} (call : Call) (command : Command) (accepted : exec rt call s command = .ok s') : Event rt s s'
  | eraseUser (tenantId userId : String) : Event rt s (Erasure.eraseUser tenantId userId s)
  | eraseConversation (tenantId conversationId : String) :
      Event rt s (Erasure.eraseConversation tenantId conversationId s)

/-- Any later history. -/
abbrev Later (rt : Runtime) : Store → Store → Prop := Relation.ReflTransGen (Event rt)

theorem Traced.event (h : Traced rt s p) (hevent : Event rt s t) : ∃ p', Traced rt t p' := by
  cases hevent with
  | command call command accepted => exact h.exec accepted
  | eraseUser tenantId userId => exact ⟨p, .erase tenantId userId h⟩
  | eraseConversation tenantId conversationId => exact ⟨p, .eraseConversation tenantId conversationId h⟩

theorem Traced.later (h : Traced rt s p) (hlater : Later rt s t) : ∃ p', Traced rt t p' := by
  induction hlater with
  | refl => exact ⟨p, h⟩
  | tail _ hevent ih =>
    obtain ⟨p', hp'⟩ := ih
    exact hp'.event hevent

end Later

/-- What a restore of the checkpoint gives, if it is accepted. -/
structure Restores (rt : Runtime) (call : Call) (conversationId : String) (v : Version) (s t : Store) : Prop where
  /-- The current scene. -/
  scene : ∃ b, t.board? call.subject.tenantId conversationId = some b ∧ sceneOf rt t b = .ok v.elements
  /-- A clear, and one operation for each chunk with the lineage of the checkpoint. -/
  operations : ∃ clear ops, t.operations = s.operations ++ clear :: ops ∧ clear.kind = .boardClear ∧
    ops.map Operation.elements = chunkElements rt v.elements ∧
    ∀ op ∈ ops, op.kind = .sceneUpdate ∧ op.sourceActorUserIds = v.sourceActorUserIds

/-- Elements that come back no longer than an element may be can be restored at any time: no restore is refused for a
payload or for the capacity of the scene, and the board then shows the checkpoint in its order.  Behind a longer element
no restore is accepted. -/
theorem checkpoint_restore (rt : Runtime) :
    (∀ elements, (chunkElements rt elements).flatten = elements) ∧
    (∀ elements, (∀ e ∈ elements, rt.encodedBytes e ≤ 64000) → ∀ chunk ∈ chunkElements rt elements, chunk ≠ [] ∧
      chunk.length ≤ 200 ∧ Payload.encodedBytes rt chunk ≤ 512000) ∧
    ∀ (s s' : Store) (p : Provenance) (call : Call) (conversationId : String) (label : Option String)
      (expectedSequence : Option Nat), Traced rt s p →
      checkpoint rt call conversationId label expectedSequence s = .ok s' →
      ∃ b v, s.board? call.subject.tenantId conversationId = some b ∧ s'.versions = s.versions ++ [v] ∧
        sceneOf rt s b = .ok v.elements ∧ v.sourceActorUserIds = sceneAuthors s b ∧
        ∀ t, Later rt s' t → v ∈ t.versions →
          ∀ (call : Call) (conversationId versionId : String) (expectedSequence : Option Nat), call.Generates →
            rt.uuidCast versionId = some v.id →
            ((∀ e ∈ v.elements, rt.encodedBytes e ≤ 64000) →
              (∀ e, restore rt call conversationId versionId expectedSequence t = .error e → Refused call e) ∧
              ∀ t', restore rt call conversationId versionId expectedSequence t = .ok t' →
                Restores rt call conversationId v t t') ∧
            ((∃ e ∈ v.elements, 64000 < rt.encodedBytes e) →
              ∀ t', restore rt call conversationId versionId expectedSequence t ≠ .ok t') := by
  refine ⟨flatten_chunkElements rt, fun elements h => chunkElements_bounded h, ?_⟩
  intro s s' p call conversationId label expectedSequence run accepted
  obtain ⟨p', run'⟩ := run.exec (show exec rt call s (.checkpoint conversationId label expectedSequence) = _ from accepted)
  obtain ⟨b, v, hb, hv, rfl⟩ := checkpoint_ok accepted
  refine ⟨b, v, hb, rfl, hv.elements, hv.sources, ?_⟩
  intro t hlater hmem call conversationId versionId expectedSequence hgenerates hcast
  obtain ⟨p'', run''⟩ := run'.later hlater
  have hshows := run''.accepted.versions v hmem
  constructor
  · intro hsize
    have hrestorable := hshows.restorable hsize
    obtain ⟨herror, hok⟩ :=
      restore_spec conversationId expectedSequence run''.inv.store hmem hrestorable hgenerates hcast
    refine ⟨herror, fun t' haccepted => ?_⟩
    obtain ⟨b', clear, hb', hend⟩ := hok t' haccepted
    obtain ⟨-, htenant, hconversation⟩ := board?_self hb'
    obtain ⟨ops, hoperations, hsent, hops⟩ := hend.operations
    refine ⟨?_, clear, ops, hoperations, hend.cleared.1, hsent, fun op hop => ⟨(hops op hop).1, (hops op hop).2.2⟩⟩
    obtain ⟨after, hafter, hscene⟩ := hend.sceneOf hrestorable (flatten_chunkElements rt v.elements)
    rw [htenant, hconversation] at hafter
    exact ⟨after, hafter, hscene⟩
  · rintro ⟨e, he, hlong⟩ t' haccepted
    obtain ⟨b', v', hv', -, hid, hon⟩ := restore_ok haccepted
    rw [hcast] at hid
    obtain rfl : v' = v := List.inj_on_of_nodup_map run''.inv.store.versionIds hv' hmem (Option.some.inj hid).symm
    have hsize := restoreOn_sizes hshows hon e he
    exact Nat.not_le_of_lt hlong hsize

/-! ### A checkpoint after which others draw -/

theorem later_passedOn (n : Nat) : Later (plainRuntime 1) (passedOn 2) (passedOn (2 + n)) := by
  induction n with
  | zero => exact .refl
  | succ n ih =>
    rw [← Nat.add_assoc]
    unfold passedOn
    cases passedOnCommands[2 + n]? with
    | none => exact ih
    | some entry =>
      unfold next
      dsimp only
      cases hexec : exec (plainRuntime 1) (plainCall (2 + n) entry.1) (passedOn (2 + n)) entry.2 with
      | ok s' => exact ih.tail (.command _ _ hexec)
      | error e => exact ih

def restoringCall : Call :=
  { plainCall 6 "user-6" with
    newId := fun path =>
      match path with
      | [0, 1] => "00000000-0000-4000-8000-000000000001"
      | [0, 2] => "00000000-0000-4000-8000-000000000002"
      | [1, 1] => "00000000-0000-4000-8000-000000000003"
      | [1, 2] => "00000000-0000-4000-8000-000000000004"
      | _ => "00000000-0000-4000-8000-000000000000" }

theorem generates_restoringCall : restoringCall.Generates := by
  intro path
  unfold restoringCall
  dsimp only
  split <;> decide

theorem checkpoint_restore_passedOn : ∃ v t, (passedOn 2).versions = [v] ∧ v.elements.map Element.id = ["element-1"] ∧
    restore (plainRuntime 1) restoringCall "conversation-1" v.id (some 4) (passedOn 4) = .ok t ∧
    Restores (plainRuntime 1) restoringCall "conversation-1" v (passedOn 4) t := by
  obtain ⟨p, hp⟩ := traced_passedOn 1
  have haccepted : checkpoint (plainRuntime 1) (plainCall 1 "user-2") "conversation-1" (some "first") (some 1)
      (passedOn 1) = .ok (passedOn 2) := by decide
  obtain ⟨b, v, -, hversions, -, -, hrestore⟩ :=
    (checkpoint_restore (plainRuntime 1)).2.2 (passedOn 1) (passedOn 2) p _ _ _ _ hp haccepted
  have hnone : (passedOn 1).versions = [] := by decide
  have helements : (passedOn 2).versions.map (fun v => v.elements.map Element.id) = [["element-1"]] := by decide
  have hsizes : ∀ v ∈ (passedOn 2).versions, ∀ e ∈ v.elements, (plainRuntime 1).encodedBytes e ≤ 64000 := by decide
  have hids : (passedOn 2).versions.map Version.id = ["id-[1, 0]"] := by decide
  have hkept : (passedOn 4).versions = (passedOn 2).versions := by decide
  have hok : (restore (plainRuntime 1) restoringCall "conversation-1" "id-[1, 0]" (some 4) (passedOn 4)).toOption.isSome := by
    decide
  rw [hnone, List.nil_append] at hversions
  rw [hversions] at helements hids hkept hsizes
  obtain ⟨hid, -⟩ := List.cons.inj hids
  rw [← hid] at hok
  obtain ⟨t, ht⟩ := Option.isSome_iff_exists.1 hok
  have haccepted : restore (plainRuntime 1) restoringCall "conversation-1" v.id (some 4) (passedOn 4) = .ok t := by
    revert ht
    cases restore (plainRuntime 1) restoringCall "conversation-1" v.id (some 4) (passedOn 4) with
    | ok t' => exact fun ht => congrArg Except.ok (Option.some.inj ht)
    | error e => exact fun ht => by cases ht
  refine ⟨v, t, hversions, (List.cons.inj helements).1, haccepted, ?_⟩
  exact ((hrestore (passedOn 4) (later_passedOn 2) (by rw [hkept]; simp) restoringCall "conversation-1" v.id (some 4)
    generates_restoringCall rfl).1 (hsizes v (by simp))).2 t haccepted

/-! ### An element that comes back too long -/

/-- The number 1.0e308 without its exponent. -/
def writtenOut : String := "1" ++ String.ofList (List.replicate 308 '0')

/-- The elements have 220 coordinates, each the number that is their `rest`. -/
def coordinatesRuntime : Runtime :=
  { plainRuntime 1000 with
    encodedBytes := fun e => 200 + 220 * (e.rest.utf8ByteSize + 1)
    jsonb :=
      { rest := fun number => if number = "1.0e308" then writtenOut else number
        rest_rest := fun number => by
          have hwritten : writtenOut ≠ "1.0e308" := by decide +kernel
          by_cases hnumber : number = "1.0e308"
          · rw [if_pos hnumber, if_neg hwritten]
          · rw [if_neg hnumber, if_neg hnumber]
        same := fun elements elements' => decide (elements = elements') } }

def coordinatesDrawn : Store :=
  next coordinatesRuntime (plainCall 0 "user-1") Store.empty (.append "conversation-1"
    { clientOperationId := some "operation-0", kind := some .sceneUpdate, baseSequence := some 0,
      elements := some [{ id := some "element-1", type := some .freedraw, version := some 1, versionNonce := some 7,
                          linked := false, isDeleted := .bool false, fileId := none, sourced := false,
                          rest := "1.0e308" }],
      payloadEmpty := false })

def coordinatesSaved : Store :=
  next coordinatesRuntime (plainCall 1 "user-2") coordinatesDrawn (.checkpoint "conversation-1" (some "first") (some 1))

/-- The element has been accepted and is in a checkpoint, and its restore is refused for the payload. -/
theorem restore_too_long : (∃ p, Traced coordinatesRuntime coordinatesDrawn p) ∧
    checkpoint coordinatesRuntime (plainCall 1 "user-2") "conversation-1" (some "first") (some 1) coordinatesDrawn =
      .ok coordinatesSaved ∧
    coordinatesSaved.versions.map (fun v => (v.id, v.elements.map coordinatesRuntime.encodedBytes)) =
      [("id-[1, 0]", [68400])] ∧
    restore coordinatesRuntime restoringCall "conversation-1" "id-[1, 0]" (some 1) coordinatesSaved =
      .error .invalidWhiteboardOperation ∧
    ¬ Refused restoringCall .invalidWhiteboardOperation := by
  refine ⟨exists_traced_next ⟨_, .empty⟩ _ _, by decide +kernel, by decide +kernel, by decide +kernel, ?_⟩
  rintro (⟨check, h⟩ | h)
  · cases h
  · revert h
    decide

end KComms.Whiteboards
