import KComms.Whiteboards.Load
import KComms.Whiteboards.Provenance

/-!
# The erasure of a user (`Whiteboards.Erasure`)

What `erase(:user)` leaves: no element that has come through the hands of the user (`erase_user`), logs from which every
recomputation gives the same scene, and boards without work of the user as they were, except for titles, checkpoints and
images that are the user's own.
-/

namespace KComms.Whiteboards

open Consecutive (Numbered)

/-! ### Neutralised operations -/

variable {rt : Runtime} {s : Store} {b : Whiteboard} {p : Provenance} {op : Operation} {e : Element}
  {tenantId userId whiteboardId : String}

namespace Erasure

/-- What becomes of an operation. -/
def neutralize (tenantId userId : String) (op : Operation) : Operation :=
  if op.tenantId = tenantId ∧ involves userId op ∧ op.kind = .sceneUpdate then { op with elements := [] } else op

section Neutralize

variable (tenantId userId : String) (op : Operation)

@[simp] theorem neutralize_id : (neutralize tenantId userId op).id = op.id := by
  unfold neutralize
  split <;> rfl

@[simp] theorem neutralize_whiteboardId : (neutralize tenantId userId op).whiteboardId = op.whiteboardId := by
  unfold neutralize
  split <;> rfl

@[simp] theorem neutralize_tenantId : (neutralize tenantId userId op).tenantId = op.tenantId := by
  unfold neutralize
  split <;> rfl

@[simp] theorem neutralize_conversationId : (neutralize tenantId userId op).conversationId = op.conversationId := by
  unfold neutralize
  split <;> rfl

@[simp] theorem neutralize_sequence : (neutralize tenantId userId op).sequence = op.sequence := by
  unfold neutralize
  split <;> rfl

@[simp] theorem neutralize_kind : (neutralize tenantId userId op).kind = op.kind := by
  unfold neutralize
  split <;> rfl

@[simp] theorem neutralize_authors : (neutralize tenantId userId op).authors = op.authors := by
  unfold neutralize
  split <;> rfl

theorem mem_neutralize {tenantId userId : String} {op : Operation}
    (he : e ∈ (neutralize tenantId userId op).elements) : e ∈ op.elements := by
  unfold neutralize at he
  split at he
  · cases he
  · exact he

theorem involves_iff {userId : String} {op : Operation} : involves userId op = true ↔ userId ∈ op.authors := by
  unfold involves Operation.authors
  rw [Bool.or_eq_true, decide_eq_true_eq, List.contains_iff_mem, List.mem_cons, @eq_comm _ op.actorUserId]

/-- What is left in the tenant is not the user's. -/
theorem not_mem_authors {tenantId userId : String} {op : Operation} (htenant : op.tenantId = tenantId)
    (hkind : op.kind = .sceneUpdate) (he : e ∈ (neutralize tenantId userId op).elements) :
    userId ∉ op.authors := by
  intro hmem
  unfold neutralize at he
  rw [if_pos ⟨htenant, involves_iff.2 hmem, hkind⟩] at he
  cases he

theorem neutralize_eq {tenantId userId : String} {op : Operation}
    (h : op.tenantId = tenantId → involves userId op = false) : neutralize tenantId userId op = op := by
  unfold neutralize
  split
  · rename_i hcond
    have := h hcond.1
    rw [this] at hcond
    cases hcond.2.1
  · rfl

end Neutralize

theorem operationsOf_eraseUser (tenantId userId : String) (s : Store) (id : String) :
    (eraseUser tenantId userId s).operationsOf id = (s.operationsOf id).map (neutralize tenantId userId) := by
  unfold Store.operationsOf
  change (s.operations.map (neutralize tenantId userId)).filter _ = _
  rw [List.filter_map]
  congr 1
  apply List.filter_congr
  intro op _
  simp

end Erasure

open Erasure

/-- The board of a row with these columns. -/
theorem Owned.board_eq (hids : (s.boards.map Whiteboard.id).Nodup) (hb : b ∈ s.boards) {conversationId : String}
    (h : Owned s whiteboardId tenantId conversationId) (hid : whiteboardId = b.id) :
    b.tenantId = tenantId ∧ b.conversationId = conversationId := by
  obtain ⟨x, hx, hxid, htenant, hconversation⟩ := h
  have : x = b := List.inj_on_of_nodup_map hids hx hb (hxid.trans hid)
  subst this
  exact ⟨htenant, hconversation⟩

/-- A board outside the tenant or without work of the user. -/
def Unaffected (tenantId userId : String) (s : Store) (b : Whiteboard) : Prop :=
  b.tenantId = tenantId → ∀ op ∈ s.operationsOf b.id, involves userId op = false

theorem mem_affected {id : String} : id ∈ affected tenantId userId s ↔ ∃ b ∈ s.boards, b.id = id ∧ b.tenantId = tenantId ∧
    ∃ op ∈ s.operationsOf b.id, op.tenantId = tenantId ∧ involves userId op = true := by
  unfold affected Store.operationsOf
  simp only [List.mem_map, List.mem_filter, List.any_eq_true, decide_eq_true_eq]
  constructor
  · rintro ⟨b, ⟨hb, htenant, op, hop, hoptenant, hinvolves, hid⟩, rfl⟩
    exact ⟨b, hb, rfl, htenant, op, ⟨hop, hid⟩, hoptenant, hinvolves⟩
  · rintro ⟨b, hb, rfl, htenant, op, ⟨hop, hid⟩, hoptenant, hinvolves⟩
    exact ⟨b, ⟨hb, htenant, op, hop, hoptenant, hinvolves, hid⟩, rfl⟩

theorem unaffected_iff (h : StoreInv s) (hb : b ∈ s.boards) :
    Unaffected tenantId userId s b ↔ (b.tenantId = tenantId → b.id ∉ affected tenantId userId s) := by
  constructor
  · intro hun htenant hmem
    obtain ⟨x, hx, hid, -, op, hop, -, hinvolves⟩ := mem_affected.1 hmem
    rw [hid] at hop
    rw [hun htenant op hop] at hinvolves
    cases hinvolves
  · intro hnot htenant op hop
    obtain ⟨hmem, hid⟩ := List.mem_filter.1 hop
    rw [decide_eq_true_eq] at hid
    obtain ⟨hoptenant, -⟩ := (h.operations op hmem).board_eq h.boardIds hb hid
    cases hinvolves : involves userId op with
    | false => rfl
    | true => exact absurd (mem_affected.2 ⟨b, hb, rfl, htenant, op, hop, hoptenant ▸ htenant, hinvolves⟩) (hnot htenant)

/-- The log of such a board stays. -/
theorem Unaffected.operationsOf (h : StoreInv s) (hb : b ∈ s.boards) (hun : Unaffected tenantId userId s b) :
    (eraseUser tenantId userId s).operationsOf b.id = s.operationsOf b.id := by
  rw [operationsOf_eraseUser]
  conv_rhs => rw [← List.map_id (s.operationsOf b.id)]
  apply List.map_congr_left
  intro op hop
  apply neutralize_eq
  intro htenant
  obtain ⟨hmem, hid⟩ := List.mem_filter.1 hop
  rw [decide_eq_true_eq] at hid
  obtain ⟨hoptenant, -⟩ := (h.operations op hmem).board_eq h.boardIds hb hid
  exact hun (hoptenant.trans htenant) op hop

/-- A snapshot of a board stays if the board is unaffected. -/
theorem load_eraseUser (h : StoreInv s) (hb : b ∈ s.boards) (tenantId userId : String) :
    (Unaffected tenantId userId s b → Snapshots.load (eraseUser tenantId userId s) b.id = Snapshots.load s b.id) ∧
      (Snapshots.load (eraseUser tenantId userId s) b.id ≠ none → Unaffected tenantId userId s b) := by
  have hkeep : ∀ snapshot ∈ s.snapshots, snapshot.whiteboardId = b.id →
      ((¬ (snapshot.tenantId = tenantId ∧ snapshot.whiteboardId ∈ affected tenantId userId s)) ↔
        Unaffected tenantId userId s b) := by
    intro snapshot hmem hid
    obtain ⟨htenant, -⟩ := (h.snapshots snapshot hmem).board_eq h.boardIds hb hid
    rw [unaffected_iff h hb, ← htenant, hid, not_and]
  constructor
  · intro hun
    unfold Snapshots.load eraseUser
    dsimp only
    rw [List.find?_filter]
    apply List.find?_congr
    intro snapshot hmem
    by_cases hid : snapshot.whiteboardId = b.id
    · have := (hkeep snapshot hmem hid).2 hun
      rw [hid] at this ⊢
      simp [this]
    · simp [hid]
  · intro hsome
    obtain ⟨snapshot, hload⟩ := Option.ne_none_iff_exists'.1 hsome
    obtain ⟨hmem, hid⟩ := load_mem hload
    obtain ⟨hmem, hcond⟩ := List.mem_filter.1 hmem
    rw [decide_eq_true_eq] at hcond
    exact (hkeep snapshot hmem hid).1 hcond

theorem Owned.eraseUser {tenantId' conversationId : String} (h : Owned s whiteboardId tenantId' conversationId) :
    Owned (eraseUser tenantId userId s) whiteboardId tenantId' conversationId := by
  obtain ⟨x, hx, hid, htenant, hconversation⟩ := h
  refine ⟨_, List.mem_map_of_mem hx, ?_⟩
  split
  · exact ⟨hid, htenant, hconversation⟩
  · exact ⟨hid, htenant, hconversation⟩

theorem BoardInv.eraseUser (h : StoreInv s) (hb : b ∈ s.boards) (tenantId userId : String) :
    BoardInv (eraseUser tenantId userId s) b := by
  have hboard := h.board b hb
  obtain ⟨hsame, hun⟩ := load_eraseUser h hb tenantId userId
  refine ⟨?_, fun snapshot hload => ?_⟩
  · rw [operationsOf_eraseUser, List.map_map, ← hboard.sequences]
    apply List.map_congr_left
    intro op _
    simp
  · have hunaffected := hun (by rw [hload]; simp)
    rw [hsame hunaffected] at hload
    rw [hunaffected.operationsOf h hb]
    exact hboard.snapshot snapshot hload

/-- An erasure keeps what is known of the store. -/
theorem StoreInv.eraseUser (h : StoreInv s) (tenantId userId : String) : StoreInv (eraseUser tenantId userId s) := by
  refine ⟨?_, ?_, ?_, ?_, ?_, ?_, ?_⟩
  · unfold Erasure.eraseUser
    dsimp only
    rw [List.map_map]
    have hid : (Whiteboard.id ∘ fun b : Whiteboard =>
        if b.tenantId = tenantId ∧ b.titleActorUserId = some userId then
          { b with title := "Untitled board", titleActorUserId := none, libraryVersion := b.libraryVersion + 1 }
        else b) = Whiteboard.id := by
      funext b
      simp only [Function.comp]
      split <;> rfl
    rw [hid]
    exact h.boardIds
  · change ((s.operations.map (neutralize tenantId userId)).map Operation.id).Nodup
    have hid : Operation.id ∘ neutralize tenantId userId = Operation.id := by
      funext op
      simp
    rw [List.map_map, hid]
    exact h.operationIds
  · exact h.versionIds.sublist (List.filter_sublist.map _)
  · intro op hop
    obtain ⟨op', hop', rfl⟩ := List.mem_map.1 (show op ∈ s.operations.map (neutralize tenantId userId) from hop)
    simp only [neutralize_whiteboardId, neutralize_tenantId, neutralize_conversationId]
    exact (h.operations op' hop').eraseUser
  · intro snapshot hmem
    exact (h.snapshots snapshot (List.mem_of_mem_filter hmem)).eraseUser
  · intro op hop e he
    obtain ⟨op', hop', rfl⟩ := List.mem_map.1 (show op ∈ s.operations.map (neutralize tenantId userId) from hop)
    exact h.valid op' hop' e (mem_neutralize he)
  · intro b hb
    obtain ⟨b', hb', rfl⟩ := List.mem_map.1 hb
    have hinv := BoardInv.eraseUser h hb' tenantId userId
    split
    · exact hinv
    · exact hinv

theorem ProvenanceInv.eraseUser (h : ProvenanceInv s p) (tenantId userId : String) :
    ProvenanceInv (eraseUser tenantId userId s) p := by
  have hoperation : ∀ op ∈ (Erasure.eraseUser tenantId userId s).operations, ∃ op' ∈ s.operations,
      neutralize tenantId userId op' = op := fun op hop =>
    List.mem_map.1 (show op ∈ s.operations.map (neutralize tenantId userId) from hop)
  have hversion : ∀ v ∈ (Erasure.eraseUser tenantId userId s).versions, v ∈ s.versions :=
    fun v hv => List.mem_of_mem_filter hv
  refine ⟨h.store.eraseUser tenantId userId, h.snapshotIds.sublist (List.filter_sublist.map _), ?_, ?_, ?_, ?_, ?_, ?_, ?_⟩
  · intro op hop hclear
    obtain ⟨op', hop', rfl⟩ := hoperation op hop
    rw [neutralize_kind] at hclear
    rw [List.eq_nil_iff_forall_not_mem]
    intro e he
    have hempty := h.operationClear op' hop' hclear
    have hmem := mem_neutralize he
    rw [hempty] at hmem
    cases hmem
  · intro op hop e users hways
    obtain ⟨op', hop', rfl⟩ := hoperation op hop
    rw [neutralize_id] at hways
    rw [neutralize_authors]
    exact h.operationAuthors op' hop' e users hways
  · intro op hop e he
    obtain ⟨op', hop', rfl⟩ := hoperation op hop
    rw [neutralize_id]
    exact h.operationSome op' hop' e (mem_neutralize he)
  · exact fun v hv => h.versionAuthors v (hversion v hv)
  · exact fun v hv => h.versionSome v (hversion v hv)
  · exact fun v hv => (h.versionOwned v (hversion v hv)).eraseUser
  · intro v hv user huser
    obtain ⟨op, hop, hmem⟩ := h.versionSources v (hversion v hv) user huser
    rw [operationsOf_eraseUser]
    exact ⟨_, List.mem_map_of_mem hop, by rw [neutralize_authors]; exact hmem⟩

/-! ### Erased conversations -/

section Conversation

variable {conversationId : String}

theorem mem_boards_eraseConversation : b ∈ (eraseConversation tenantId conversationId s).boards ↔
    b ∈ s.boards ∧ ¬ (b.tenantId = tenantId ∧ b.conversationId = conversationId) := by
  unfold eraseConversation
  dsimp only
  rw [List.mem_filter, decide_eq_true_eq]

/-- Which rows stay with their boards. -/
private theorem mem_gone (h : StoreInv s) (hb : b ∈ s.boards) :
    b.id ∈ (s.boards.filter fun b => b.tenantId = tenantId ∧ b.conversationId = conversationId).map Whiteboard.id ↔
      b.tenantId = tenantId ∧ b.conversationId = conversationId := by
  rw [List.mem_map]
  constructor
  · rintro ⟨x, hx, hid⟩
    obtain ⟨hmem, hcond⟩ := List.mem_filter.1 hx
    rw [decide_eq_true_eq] at hcond
    rwa [List.inj_on_of_nodup_map h.boardIds hmem hb hid] at hcond
  · intro hcond
    exact ⟨b, List.mem_filter.2 ⟨hb, by rwa [decide_eq_true_eq]⟩, rfl⟩

theorem Owned.eraseConversation (h : StoreInv s) {tenantId' conversationId' : String}
    (howned : Owned s whiteboardId tenantId' conversationId')
    (hstays : whiteboardId ∉
      (s.boards.filter fun b => b.tenantId = tenantId ∧ b.conversationId = conversationId).map Whiteboard.id) :
    Owned (eraseConversation tenantId conversationId s) whiteboardId tenantId' conversationId' := by
  obtain ⟨x, hx, rfl, htenant, hconversation⟩ := howned
  rw [mem_gone h hx] at hstays
  exact ⟨x, mem_boards_eraseConversation.2 ⟨hx, hstays⟩, rfl, htenant, hconversation⟩

/-- A board that stays keeps its log and its snapshot. -/
theorem eraseConversation_board (h : StoreInv s) (hb : b ∈ (eraseConversation tenantId conversationId s).boards) :
    (eraseConversation tenantId conversationId s).operationsOf b.id = s.operationsOf b.id ∧
      Snapshots.load (eraseConversation tenantId conversationId s) b.id = Snapshots.load s b.id := by
  obtain ⟨hmem, hstays⟩ := mem_boards_eraseConversation.1 hb
  have hnot := mt (mem_gone h hmem).1 hstays
  constructor
  · unfold Store.operationsOf Erasure.eraseConversation
    dsimp only
    rw [List.filter_filter]
    apply List.filter_congr
    intro op hop
    by_cases hid : op.whiteboardId = b.id
    · obtain ⟨htenant, hconversation⟩ := (h.operations op hop).board_eq h.boardIds hmem hid
      rw [htenant, hconversation] at hstays
      rw [hid]
      simp only [hstays, hnot, not_false_eq_true, and_self, decide_true, Bool.and_self]
    · simp [hid]
  · unfold Snapshots.load Erasure.eraseConversation
    dsimp only
    rw [List.find?_filter]
    apply List.find?_congr
    intro snapshot _
    by_cases hid : snapshot.whiteboardId = b.id
    · rw [hid]
      simp only [hnot, not_false_eq_true, and_self, decide_true]
    · simp [hid]

theorem StoreInv.eraseConversation (h : StoreInv s) (tenantId conversationId : String) :
    StoreInv (eraseConversation tenantId conversationId s) := by
  refine ⟨h.boardIds.sublist (List.filter_sublist.map _), h.operationIds.sublist (List.filter_sublist.map _),
    h.versionIds.sublist (List.filter_sublist.map _), ?_, ?_, ?_, ?_⟩
  · intro op hop
    obtain ⟨hmem, hcond⟩ := List.mem_filter.1 hop
    rw [decide_eq_true_eq] at hcond
    exact (h.operations op hmem).eraseConversation h hcond.2
  · intro snapshot hsnapshot
    obtain ⟨hmem, hcond⟩ := List.mem_filter.1 hsnapshot
    rw [decide_eq_true_eq] at hcond
    exact (h.snapshots snapshot hmem).eraseConversation h hcond
  · exact fun op hop => h.valid op (List.mem_of_mem_filter hop)
  · intro b hb
    obtain ⟨hlog, hload⟩ := eraseConversation_board h hb
    unfold BoardInv
    rw [hlog, hload]
    exact h.board b (mem_boards_eraseConversation.1 hb).1

theorem ProvenanceInv.eraseConversation (h : ProvenanceInv s p) (tenantId conversationId : String) :
    ProvenanceInv (eraseConversation tenantId conversationId s) p := by
  have hoperation : ∀ op ∈ (Erasure.eraseConversation tenantId conversationId s).operations, op ∈ s.operations :=
    fun op hop => List.mem_of_mem_filter hop
  have hversion : ∀ v ∈ (Erasure.eraseConversation tenantId conversationId s).versions, v ∈ s.versions :=
    fun v hv => List.mem_of_mem_filter hv
  have howned : ∀ v ∈ (Erasure.eraseConversation tenantId conversationId s).versions,
      Owned (Erasure.eraseConversation tenantId conversationId s) v.whiteboardId v.tenantId v.conversationId := by
    intro v hv
    obtain ⟨hmem, hcond⟩ := List.mem_filter.1 hv
    rw [decide_eq_true_eq] at hcond
    exact (h.versionOwned v hmem).eraseConversation h.store hcond
  refine ⟨h.store.eraseConversation tenantId conversationId, h.snapshotIds.sublist (List.filter_sublist.map _),
    ?_, ?_, ?_, ?_, ?_, howned, ?_⟩
  · exact fun op hop => h.operationClear op (hoperation op hop)
  · exact fun op hop => h.operationAuthors op (hoperation op hop)
  · exact fun op hop => h.operationSome op (hoperation op hop)
  · exact fun v hv => h.versionAuthors v (hversion v hv)
  · exact fun v hv => h.versionSome v (hversion v hv)
  · intro v hv user huser
    obtain ⟨b, hb, hid, -⟩ := howned v hv
    obtain ⟨op, hop, hmem⟩ := h.versionSources v (hversion v hv) user huser
    rw [← hid] at hop ⊢
    rw [(eraseConversation_board h.store hb).1]
    exact ⟨op, hop, hmem⟩

end Conversation

/-! ### Runs -/

theorem provenanceInv_empty : ProvenanceInv Store.empty Provenance.empty := by
  refine ⟨storeInv_empty, List.nodup_nil, ?_, ?_, ?_, ?_, ?_, ?_, ?_⟩ <;> intro x hx <;> cases hx

theorem Traced.inv_accepted (h : Traced rt s p) :
    ProvenanceInv s p ∧ AcceptedInv rt s := by
  induction h with
  | empty => exact ⟨provenanceInv_empty, fun op hop => (by cases hop), fun v hv => (by cases hv)⟩
  | command _ _ _ _ changes ih => exact ProvenanceInv.changes ih.1 ih.2 changes
  | erase tenantId userId _ ih =>
    refine ⟨ih.1.eraseUser tenantId userId, fun op hop e he => ?_,
      fun v hv => ih.2.versions v (List.mem_of_mem_filter hv)⟩
    obtain ⟨op, hmem, rfl⟩ := List.mem_map.1 (show op ∈ _ from hop)
    exact ih.2.operations op hmem e (Erasure.mem_neutralize he)
  | eraseConversation tenantId conversationId _ ih =>
    exact ⟨ih.1.eraseConversation tenantId conversationId,
      fun op hop => ih.2.operations op (List.mem_of_mem_filter hop),
      fun v hv => ih.2.versions v (List.mem_of_mem_filter hv)⟩

theorem Traced.inv (h : Traced rt s p) : ProvenanceInv s p := h.inv_accepted.1

theorem Traced.accepted (h : Traced rt s p) : AcceptedInv rt s :=
  h.inv_accepted.2

/-- An accepted command goes on with the record. -/
theorem Traced.exec {s' : Store} (h : Traced rt s p) {call : Call} {command : Command}
    (accepted : exec rt call s command = .ok s') : ∃ p', Traced rt s' p' := by
  obtain ⟨p', hchanges⟩ := exists_tracedChanges (p := p) (exec_changes h.inv.store.versionIds accepted)
  exact ⟨p', .command call command h accepted hchanges⟩

/-! ### Recomputed scenes -/

/-- What a page shows on what was shown before. -/
def showView (m : OrderedMap String Element) (view : OperationView) : OrderedMap String Element :=
  match view.kind with
  | .boardClear => OrderedMap.empty
  | .sceneUpdate => LatestWins.merge Element.id Scene.incomingWins m view.elements

/-- What the snapshot of a page shows. -/
def Page.base (page : Page) : OrderedMap String Element :=
  match page.snapshot with
  | some snapshot => LatestWins.merge Element.id Scene.incomingWins OrderedMap.empty snapshot.elements
  | none => OrderedMap.empty

/-- Every recomputation of the scene of a board gives what its log shows: `scene!`, `prepare`, and a reader of the pages
of the history, who has read up to `k` and goes on to the end. -/
structure ScenesAgree (rt : Runtime) (s : Store) (b : Whiteboard) : Prop where
  scene : ∀ elements, sceneOf rt s b = .ok elements → elements = (shown (s.operationsOf b.id)).values
  fits : Fitting rt (s.operationsOf b.id) → sceneOf rt s b = .ok (shown (s.operationsOf b.id)).values
  prepare : ∀ elements prepared, Snapshots.prepare rt s b (s.latestClear b.id) .sceneUpdate elements = .ok prepared →
    ∃ scene generation existing, prepared = .update scene generation existing ∧
      scene.board = LatestWins.merge Element.id Scene.incomingWins (shown (s.operationsOf b.id)) elements
  first : ∀ limit wanted, 1 ≤ limit → let page := History.page s b 0 limit wanted
    page.operations.foldl showView page.base = shown ((s.operationsOf b.id).take page.nextAfterSequence)
  next : ∀ k limit wanted, 0 < k → k ≤ b.sequence → 1 ≤ limit → let page := History.page s b k limit wanted
    page.operations.foldl showView (shown ((s.operationsOf b.id).take k)) =
      shown ((s.operationsOf b.id).take page.nextAfterSequence)
  last : ∀ k limit wanted, k ≤ b.sequence → 1 ≤ limit → let page := History.page s b k limit wanted
    page.nextAfterSequence ≤ b.sequence ∧ (page.hasMore = false → page.nextAfterSequence = b.sequence)

private theorem foldl_showView (ops : List Operation) (m : OrderedMap String Element) :
    (ops.map Projector.operation).foldl showView m = ops.foldl showOperation m := by
  rw [List.foldl_map]
  rfl

/-- A stretch of the log on what is shown before it. -/
private theorem foldl_stretch (ops : List Operation) (start limit : Nat) :
    ((ops.drop start).take limit).foldl showOperation (shown (ops.take start)) =
      shown (ops.take (min (start + limit) ops.length)) := by
  rw [← shown_append, ← List.take_add]
  by_cases hle : start + limit ≤ ops.length
  · rw [Nat.min_eq_left hle]
  · rw [Nat.min_eq_right (by omega), List.take_of_length_le (by omega), List.take_of_length_le (le_refl _)]

/-- A stretch that starts just before the latest clear shows the same on any start. -/
private theorem foldl_stretch_clear {ops : List Operation} (h : Numbered Operation.sequence 1 ops) {limit : Nat}
    (hlimit : 1 ≤ limit) : ((ops.drop (latestClear ops - 1)).take limit).foldl showOperation OrderedMap.empty =
      shown (ops.take (min (latestClear ops - 1 + limit) ops.length)) := by
  rw [← foldl_stretch]
  by_cases hpos : 0 < latestClear ops
  · obtain ⟨op, -, hclear, htake⟩ := take_latestClear h hpos
    have hle := latestClear_le h
    have hwhole := List.take_append_drop (latestClear ops) ops
    rw [htake, List.append_assoc, List.singleton_append] at hwhole
    have hrest : (ops.take (latestClear ops - 1) ++ op :: ops.drop (latestClear ops)).drop (latestClear ops - 1) =
        op :: ops.drop (latestClear ops) := List.drop_left' (by rw [List.length_take]; omega)
    rw [hwhole] at hrest
    obtain ⟨n, rfl⟩ : ∃ n, limit = n + 1 := ⟨limit - 1, by omega⟩
    have hany : ∀ m, showOperation m op = OrderedMap.empty := by
      intro m
      unfold showOperation
      rw [hclear]
    rw [hrest, List.take_succ_cons, List.foldl_cons, List.foldl_cons, hany, hany]
  · rw [show latestClear ops - 1 = 0 by omega, List.take_zero]
    rfl

theorem scenesAgree (h : BoardInv s b) : ScenesAgree rt s b := by
  have hlength := h.length
  refine ⟨fun elements => sceneOf_ok h, sceneOf_fits h, ?_, ?_, ?_, ?_⟩
  · intro elements prepared hp
    obtain ⟨scene, rfl, -, hboard, -⟩ := prepare_ok h hp
    exact ⟨scene, _, _, rfl, hboard⟩
  · intro limit wanted hlimit
    dsimp only
    rw [page_operations h, foldl_showView, page_next h (by omega) hlimit]
    cases hs : History.snapshotFor s b 0 wanted with
    | some snapshot =>
      obtain ⟨-, hinv, hstart⟩ := snapshotFor_some h hs
      have hbase : (History.page s b 0 limit wanted).base =
          shown ((s.operationsOf b.id).take (pageStart s b 0 wanted)) := by
        unfold Page.base History.page
        dsimp only
        rw [hs, hstart]
        dsimp only [Option.map_some]
        rw [hinv.elements, LatestWins.merge_values (keyed_shown _)]
      rw [hbase, foldl_stretch]
    | none =>
      have hstart := pageStart_of_none hs
      rw [if_pos rfl] at hstart
      have hbase : (History.page s b 0 limit wanted).base = OrderedMap.empty := by
        unfold Page.base History.page
        dsimp only
        rw [hs]
        rfl
      rw [hbase, hstart]
      exact foldl_stretch_clear h.numbered hlimit
  · intro k limit wanted hk hle hlimit
    dsimp only
    rw [page_operations h, foldl_showView, page_next h (by omega) hlimit]
    have hnone : History.snapshotFor s b k wanted = none := by
      cases hs : History.snapshotFor s b k wanted with
      | none => rfl
      | some snapshot =>
        obtain ⟨hzero, -, -⟩ := snapshotFor_some h hs
        omega
    have hstart := pageStart_of_none hnone
    rw [if_neg (by omega)] at hstart
    rw [hstart, foldl_stretch]
  · intro k limit wanted hle hlimit
    dsimp only
    rw [page_next h (by omega) hlimit]
    refine ⟨by omega, fun hmore => ?_⟩
    have hnot := mt (page_hasMore h k limit wanted).2 (by rw [hmore]; simp)
    omega

/-! ### After an erasure -/

/-- The element is in the operation, and has not come through the hands of the user. -/
def Provenance.OperationFree (p : Provenance) (userId id : String) (e : Element) : Prop :=
  (∃ users, p.operation id e users) ∧ ∀ users, p.operation id e users → userId ∉ users

/-- The element is in the checkpoint, and has not come through the hands of the user. -/
def Provenance.VersionFree (p : Provenance) (userId id : String) (e : Element) : Prop :=
  (∃ users, p.version id e users) ∧ ∀ users, p.version id e users → userId ∉ users

/-- The title of a board that the user has named. -/
def resetTitle (tenantId userId : String) (b : Whiteboard) : Whiteboard :=
  if b.tenantId = tenantId ∧ b.titleActorUserId = some userId then
    { b with title := "Untitled board", titleActorUserId := none, libraryVersion := b.libraryVersion + 1 }
  else b

/-- A board of `s` is the same in `t`, up to what is the user's own beside the drawing. -/
structure Kept (tenantId userId : String) (s t : Store) (b : Whiteboard) : Prop where
  row : resetTitle tenantId userId b ∈ t.boards
  log : t.operationsOf b.id = s.operationsOf b.id
  snapshot : Snapshots.load t b.id = Snapshots.load s b.id
  versions : ∀ v ∈ s.versions, v.whiteboardId = b.id →
    (v ∈ t.versions ↔ ¬ (v.tenantId = tenantId ∧ v.actorUserId = userId))
  assets : ∀ a ∈ s.assets, a ∈ t.assets ↔ ¬ (a.tenantId = tenantId ∧ a.actorUserId = userId)

/-- What an erasure makes of the store `s` with the record `p`. -/
structure Erased (rt : Runtime) (p : Provenance) (tenantId userId : String) (s t : Store) : Prop where
  operations : ∀ op ∈ t.operations, op.tenantId = tenantId → ∀ e ∈ op.elements, p.OperationFree userId op.id e
  snapshots : ∀ snapshot ∈ t.snapshots, snapshot.tenantId = tenantId → ∀ e ∈ snapshot.elements,
    ∃ op ∈ t.operationsOf snapshot.whiteboardId, e ∈ op.elements ∧ p.OperationFree userId op.id e
  versions : ∀ v ∈ t.versions, v.tenantId = tenantId → ∀ e ∈ v.elements, p.VersionFree userId v.id e
  scenes : ∀ b ∈ t.boards, ScenesAgree rt t b
  boards : ∀ b ∈ s.boards, Unaffected tenantId userId s b → Kept tenantId userId s t b

theorem operationFree (h : ProvenanceInv s p) (hop : op ∈ (eraseUser tenantId userId s).operations)
    (htenant : op.tenantId = tenantId) (he : e ∈ op.elements) : p.OperationFree userId op.id e := by
  obtain ⟨op, hmem, rfl⟩ := List.mem_map.1 (show op ∈ s.operations.map (neutralize tenantId userId) from hop)
  rw [neutralize_tenantId] at htenant
  rw [neutralize_id]
  refine ⟨h.operationSome op hmem e (mem_neutralize he), fun users hways huser => ?_⟩
  have hkind : op.kind = .sceneUpdate := by
    cases hkind : op.kind with
    | sceneUpdate => rfl
    | boardClear =>
      have hempty := mem_neutralize he
      rw [h.operationClear op hmem hkind] at hempty
      cases hempty
  exact not_mem_authors htenant hkind he (h.operationAuthors op hmem e users hways huser)

theorem versionFree (h : ProvenanceInv s p) {v : Version} (hv : v ∈ (eraseUser tenantId userId s).versions)
    (htenant : v.tenantId = tenantId) (he : e ∈ v.elements) : p.VersionFree userId v.id e := by
  obtain ⟨hmem, hcond⟩ := List.mem_filter.1 hv
  rw [decide_eq_true_eq] at hcond
  refine ⟨h.versionSome v hmem e he, fun users hways huser => hcond ⟨htenant, Or.inr (Or.inr ?_)⟩⟩
  rw [List.contains_iff_mem]
  exact h.versionAuthors v hmem e users hways huser

theorem snapshotFree (h : ProvenanceInv s p) {snapshot : Snapshot}
    (hsnapshot : snapshot ∈ (eraseUser tenantId userId s).snapshots) (htenant : snapshot.tenantId = tenantId)
    (he : e ∈ snapshot.elements) :
    ∃ op ∈ (eraseUser tenantId userId s).operationsOf snapshot.whiteboardId,
      e ∈ op.elements ∧ p.OperationFree userId op.id e := by
  have hafter := h.eraseUser tenantId userId
  obtain ⟨b, hb, hid, hboardTenant, -⟩ := hafter.store.snapshots snapshot hsnapshot
  have hboard := hafter.store.board b hb
  have hload : Snapshots.load (eraseUser tenantId userId s) b.id = some snapshot := by
    cases hload : Snapshots.load (eraseUser tenantId userId s) b.id with
    | none =>
      have hnone := List.find?_eq_none.1 hload snapshot hsnapshot
      rw [decide_eq_true_eq] at hnone
      exact absurd hid.symm hnone
    | some other =>
      obtain ⟨hmem, hother⟩ := load_mem hload
      rw [List.inj_on_of_nodup_map hafter.snapshotIds hmem hsnapshot (hother.trans hid)]
  rw [(hboard.snapshot snapshot hload).elements] at he
  obtain ⟨op, hop, -, he⟩ := mem_shown (hboard.numbered.take _) he
  have hop := List.mem_of_mem_take hop
  obtain ⟨hmem, hopid⟩ := List.mem_filter.1 hop
  rw [decide_eq_true_eq] at hopid
  obtain ⟨hoptenant, -⟩ := (hafter.store.operations op hmem).board_eq hafter.store.boardIds hb hopid
  rw [← hid]
  exact ⟨op, hop, he, operationFree h hmem (by rw [← hoptenant, hboardTenant, htenant]) he⟩

theorem kept (h : ProvenanceInv s p) (hb : b ∈ s.boards)
    (hun : Unaffected tenantId userId s b) : Kept tenantId userId s (eraseUser tenantId userId s) b := by
  refine ⟨List.mem_map.2 ⟨b, hb, rfl⟩, hun.operationsOf h.store hb, (load_eraseUser h.store hb _ _).1 hun, ?_, ?_⟩
  · intro v hv hid
    obtain ⟨htenant, -⟩ := (h.versionOwned v hv).board_eq h.store.boardIds hb hid
    have hboard : v.tenantId = tenantId → v.whiteboardId ∉ affected tenantId userId s := by
      intro heq
      rw [hid]
      exact (unaffected_iff h.store hb).1 hun (htenant.trans heq)
    have hsources : v.tenantId = tenantId → userId ∉ v.sourceActorUserIds := by
      intro heq hmem
      obtain ⟨op, hop, hauthor⟩ := h.versionSources v hv userId hmem
      rw [hid] at hop
      have hnot := hun (htenant.trans heq) op hop
      rw [involves_iff.2 hauthor] at hnot
      cases hnot
    have hmem : v ∈ (eraseUser tenantId userId s).versions ↔ ¬ (v.tenantId = tenantId ∧
        (v.whiteboardId ∈ affected tenantId userId s ∨ v.actorUserId = userId ∨
          v.sourceActorUserIds.contains userId)) := by
      unfold eraseUser
      dsimp only
      rw [List.mem_filter, decide_eq_true_eq]
      exact and_iff_right hv
    rw [hmem, List.contains_iff_mem]
    apply not_congr
    apply and_congr_right
    intro heq
    have := hboard heq
    have := hsources heq
    tauto
  · intro a ha
    unfold eraseUser
    dsimp only
    rw [List.mem_filter, decide_eq_true_eq]
    exact and_iff_right ha

/-- After the erasure of a user, in any run, nothing in the tenant has come through the hands of the user, all scenes
agree, and boards without work of the user have kept their drawing. -/
theorem erase_user (rt : Runtime) (s : Store) (p : Provenance) (run : Traced rt s p) (tenantId userId : String) :
    Erased rt p tenantId userId s (eraseUser tenantId userId s) := by
  have h := run.inv
  refine ⟨?_, ?_, ?_, ?_, ?_⟩
  · exact fun op hop htenant e he => operationFree h hop htenant he
  · exact fun snapshot hsnapshot htenant e he => snapshotFree h hsnapshot htenant he
  · exact fun v hv htenant e he => versionFree h hv htenant he
  · exact fun b hb => scenesAgree ((h.store.eraseUser tenantId userId).board b hb)
  · exact fun b hb hun => kept h hb hun

theorem exists_traced_next (h : ∃ p, Traced rt s p) (call : Call) (command : Command) :
    ∃ p, Traced rt (next rt call s command) p := by
  obtain ⟨p, hp⟩ := h
  unfold next
  cases hexec : exec rt call s command with
  | ok s' => exact hp.exec hexec
  | error e => exact ⟨p, hp⟩

/-- The commands of users, from the empty store. -/
def passedOnCommands : List (String × Command) :=
  [("user-1", plainUpdate "operation-0" "element-1" 0 1 7),
   ("user-2", .checkpoint "conversation-1" (some "first") (some 1)),
   ("user-3", .restore "conversation-1" "id-[1, 0]" (some 1)),
   ("user-4", plainUpdate "operation-3" "element-2" 3 1 7),
   ("user-2", .checkpoint "conversation-1" (some "second") (some 4)),
   ("user-5", .rename "conversation-1" (some "Plan") (some 1))]

/-- A drawing that goes through a checkpoint, its restore and another checkpoint. -/
def passedOn : Nat → Store
  | 0 => Store.empty
  | n + 1 =>
    match passedOnCommands[n]? with
    | none => passedOn n
    | some (userId, command) => next (plainRuntime 1) (plainCall n userId) (passedOn n) command

theorem traced_passedOn (n : Nat) : ∃ p, Traced (plainRuntime 1) (passedOn n) p := by
  induction n with
  | zero => exact ⟨_, .empty⟩
  | succ n ih =>
    unfold passedOn
    cases passedOnCommands[n]? with
    | none => exact ih
    | some entry => exact exists_traced_next ih _ entry.2

theorem erase_user_passedOn : ∃ p, Erased (plainRuntime 1) p "tenant-1" "user-1" (passedOn 6)
      (eraseUser "tenant-1" "user-1" (passedOn 6)) ∧
    (passedOn 6).operations.map (fun op => op.elements.map Element.id) =
      [["element-1"], [], ["element-1"], ["element-2"]] ∧
    (eraseUser "tenant-1" "user-1" (passedOn 6)).operations.map (fun op => op.elements.map Element.id) =
      [[], [], [], ["element-2"]] := by
  obtain ⟨p, hp⟩ := traced_passedOn 6
  exact ⟨p, erase_user (plainRuntime 1) (passedOn 6) p hp "tenant-1" "user-1", by decide, by decide⟩

/-- A board without operations of the user that is not the same afterwards. -/
theorem erase_user_renames : (∃ p, Traced (plainRuntime 1) (passedOn 6) p) ∧
    (∀ op ∈ (passedOn 6).operations, Erasure.involves "user-5" op = false) ∧
    ∃ b ∈ (passedOn 6).boards, b ∉ (eraseUser "tenant-1" "user-5" (passedOn 6)).boards :=
  ⟨traced_passedOn 6, by decide, by decide⟩

end KComms.Whiteboards
