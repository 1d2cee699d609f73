import KComms.Whiteboards.Runs

/-!
# Where elements come from

A run of the server with a record beside it: through whose hands each element of an operation or of a checkpoint has come
(`Provenance`).  An element of an update has come from its author; an element of a restored operation has come from who
restored it, and in the ways in which it had come into the checkpoint; an element of a checkpoint has come in the ways of
the operations that show it.  The server records only sets of authors with operations and checkpoints; they cover every
such way, through any chain of checkpoints and restores (`ProvenanceInv`).
-/

namespace KComms.Whiteboards

open FallibleLoop (bind_ok foldlM_cons_ok)

/-- The users through whose hands an element has come, by the id of the operation or of the checkpoint it is in. -/
structure Provenance where
  operation : String → Element → List String → Prop
  version : String → Element → List String → Prop

namespace Provenance

def empty : Provenance := ⟨fun _ _ _ => False, fun _ _ _ => False⟩

/-- An update that its author has drawn. -/
def drawn (p : Provenance) (op : Operation) : Provenance :=
  { p with
    operation := fun id e users =>
      if id = op.id then e ∈ op.elements ∧ users = [op.actorUserId] else p.operation id e users }

/-- An update that restores the checkpoint `v`. -/
def restored (p : Provenance) (op : Operation) (v : Version) : Provenance :=
  { p with
    operation := fun id e users =>
      if id = op.id then e ∈ op.elements ∧ ∃ earlier, p.version v.id e earlier ∧ users = op.actorUserId :: earlier
      else p.operation id e users }

/-- A checkpoint of the board `b`, which shows the operations since the latest clear. -/
def checkpoint (p : Provenance) (s : Store) (b : Whiteboard) (v : Version) : Provenance :=
  { p with
    version := fun id e users =>
      if id = v.id then
        e ∈ v.elements ∧ ∃ op ∈ s.operationsOf b.id, s.latestClear b.id < op.sequence ∧ e ∈ op.elements ∧
          p.operation op.id e users
      else p.version id e users }

end Provenance

/-- A change with its record. -/
inductive TracedChange (rt : Runtime) (s : Store) (p : Provenance) : Store → Provenance → Prop
  | draw (b : Whiteboard) (op : Operation) (prepared : Snapshots.Prepared) (mem : b ∈ s.boards) (h : Appended rt s b op)
      (prepare : Snapshots.prepare rt s b (s.latestClear b.id) op.kind op.elements = .ok prepared)
      (plain : op.sourceActorUserIds = []) : TracedChange rt s p (s.appended rt b op prepared) (p.drawn op)
  | restore (b : Whiteboard) (op : Operation) (prepared : Snapshots.Prepared) (v : Version) (mem : b ∈ s.boards)
      (h : Appended rt s b op)
      (prepare : Snapshots.prepare rt s b (s.latestClear b.id) op.kind op.elements = .ok prepared)
      (version : v ∈ s.versions) (restored : Restored rt v op) :
      TracedChange rt s p (s.appended rt b op prepared) (p.restored op v)
  | checkpoint (b : Whiteboard) (v : Version) (mem : b ∈ s.boards) (h : Checkpointed rt s b v) :
      TracedChange rt s p { s with versions := s.versions ++ [v] } (p.checkpoint s b v)
  | other (s' : Store) (h : Change rt s s') (operations : s'.operations = s.operations)
      (versions : s'.versions = s.versions) : TracedChange rt s p s' p

abbrev TracedChanges (rt : Runtime) : Store × Provenance → Store × Provenance → Prop :=
  Relation.ReflTransGen fun a b => TracedChange rt a.1 a.2 b.1 b.2

/-- A run of commands and erasures of users and of conversations, from the empty store. -/
inductive Traced (rt : Runtime) : Store → Provenance → Prop
  | empty : Traced rt Store.empty Provenance.empty
  | command {s s' : Store} {p p' : Provenance} (call : Call) (command : Command) (run : Traced rt s p)
      (accepted : exec rt call s command = .ok s') (changes : TracedChanges rt (s, p) (s', p')) : Traced rt s' p'
  | erase {s : Store} {p : Provenance} (tenantId userId : String) (run : Traced rt s p) :
      Traced rt (Erasure.eraseUser tenantId userId s) p
  | eraseConversation {s : Store} {p : Provenance} (tenantId conversationId : String) (run : Traced rt s p) :
      Traced rt (Erasure.eraseConversation tenantId conversationId s) p

/-! ### Every run has a record -/

section Record

variable {rt : Runtime} {s s' : Store} {p : Provenance}

theorem TracedChange.change {p' : Provenance} (h : TracedChange rt s p s' p') : Change rt s s' := by
  cases h with
  | draw b op prepared mem h prepare plain => exact .append b op prepared mem h prepare
  | restore b op prepared v mem h prepare version restored => exact .append b op prepared mem h prepare
  | checkpoint b v mem h => exact .checkpoint b v mem h
  | other _ hc operations versions => exact hc

theorem exists_tracedChange (p : Provenance) (h : Change rt s s') : ∃ p', TracedChange rt s p s' p' := by
  cases h with
  | create b fresh first sequence => exact ⟨p, .other _ (.create b fresh first sequence) rfl rfl⟩
  | append b op prepared mem h prepare =>
    rcases h.sources with hplain | ⟨v, hv, hrestored⟩
    · exact ⟨_, .draw b op prepared mem h prepare hplain⟩
    · exact ⟨_, .restore b op prepared v mem h prepare hv hrestored⟩
  | rename b title userId mem => exact ⟨p, .other _ (.rename b title userId mem) rfl rfl⟩
  | checkpoint b v mem h => exact ⟨_, .checkpoint b v mem h⟩
  | addAsset b a mem whiteboardId tenantId => exact ⟨p, .other _ (.addAsset b a mem whiteboardId tenantId) rfl rfl⟩

theorem exists_tracedChanges (h : Changes rt s s') : ∃ p', TracedChanges rt (s, p) (s', p') := by
  induction h with
  | refl => exact ⟨p, .refl⟩
  | tail _ hc ih =>
    obtain ⟨q, hq⟩ := ih
    obtain ⟨q', hq'⟩ := exists_tracedChange q hc
    exact ⟨q', hq.tail hq'⟩

end Record

/-! ### The invariant -/

/-- The recorded authors of an operation. -/
def Operation.authors (op : Operation) : List String := op.actorUserId :: op.sourceActorUserIds

structure ProvenanceInv (s : Store) (p : Provenance) : Prop where
  store : StoreInv s
  snapshotIds : (s.snapshots.map Snapshot.whiteboardId).Nodup
  operationClear : ∀ op ∈ s.operations, op.kind = .boardClear → op.elements = []
  operationAuthors : ∀ op ∈ s.operations, ∀ e users, p.operation op.id e users → users ⊆ op.authors
  operationSome : ∀ op ∈ s.operations, ∀ e ∈ op.elements, ∃ users, p.operation op.id e users
  versionAuthors : ∀ v ∈ s.versions, ∀ e users, p.version v.id e users → users ⊆ v.sourceActorUserIds
  versionSome : ∀ v ∈ s.versions, ∀ e ∈ v.elements, ∃ users, p.version v.id e users
  versionOwned : ∀ v ∈ s.versions, Owned s v.whiteboardId v.tenantId v.conversationId
  versionSources : ∀ v ∈ s.versions, ∀ user ∈ v.sourceActorUserIds,
    ∃ op ∈ s.operationsOf v.whiteboardId, user ∈ op.authors

/-- The checkpoint shows a scene, of elements that have been accepted. -/
structure Version.Shows (rt : Runtime) (v : Version) : Prop where
  ids : (v.elements.map Element.id).Nodup
  fits : Scene.Fits rt.encodedBytes v.elements
  accepted : ∀ e ∈ v.elements, Accepted rt e

/-- What stands in logs and checkpoints has been accepted. -/
structure AcceptedInv (rt : Runtime) (s : Store) : Prop where
  operations : ∀ op ∈ s.operations, ∀ e ∈ op.elements, Accepted rt e
  versions : ∀ v ∈ s.versions, v.Shows rt

section Scenes

variable {rt : Runtime} {s : Store} {b : Whiteboard}

/-- What is shown has come with an operation since the latest clear. -/
theorem mem_shown {ops : List Operation} (h : Consecutive.Numbered Operation.sequence 1 ops) {e : Element}
    (he : e ∈ (shown ops).values) : ∃ op ∈ ops, latestClear ops < op.sequence ∧ e ∈ op.elements := by
  have hsplit : shown ops = LatestWins.merge Element.id Scene.incomingWins OrderedMap.empty
      ((ops.drop (latestClear ops)).flatMap Operation.elements) := by
    rw [← foldl_showOperation_updates (updates_of_latestClear h (le_refl _)), ← shown_latestClear h, ← shown_append,
      List.take_append_drop]
  rw [hsplit] at he
  rcases LatestWins.mem_values_merge he with he | he
  · cases he
  · obtain ⟨op, hop, he⟩ := List.mem_flatMap.1 he
    have hfilter := h.filter_gt (k := latestClear ops) (by omega)
    rw [Nat.add_sub_cancel] at hfilter
    rw [← hfilter, List.mem_filter, decide_eq_true_eq] at hop
    exact ⟨op, hop.1, hop.2, he⟩

/-- `scene!` starts from the snapshot or from the latest clear. -/
theorem sceneOf_start (h : BoardInv s b) : ∃ base k, Start (s.operationsOf b.id) base k ∧ sceneOf rt s b = (do
    let initial ← Scene.new rt.encodedBytes base
    let scene ← Snapshots.projectTail rt s b.id k b.sequence initial
    Except.ok (Scene.elements rt.entries scene)) := by
  unfold sceneOf
  cases hcurrent : Snapshots.current s b.id with
  | none => exact ⟨[], _, start_latestClear h.numbered, rfl⟩
  | some snapshot =>
    have hload := load_of_current hcurrent
    dsimp only
    split
    · exact ⟨_, _, (h.snapshot snapshot hload).start, rfl⟩
    · exact ⟨[], _, start_latestClear h.numbered, rfl⟩

/-- `scene!` gives what the board shows. -/
theorem sceneOf_ok (h : BoardInv s b) {elements : List Element} (hscene : sceneOf rt s b = .ok elements) :
    elements = (shown (s.operationsOf b.id)).values := by
  obtain ⟨base, k, hstart, heq⟩ := sceneOf_start h
  rw [heq] at hscene
  obtain ⟨initial, hinitial, hscene⟩ := bind_ok.1 hscene
  obtain ⟨scene, htail, hscene⟩ := bind_ok.1 hscene
  obtain ⟨hwf, hboard⟩ := hstart.scene h hinitial htail
  rw [← Except.ok.inj hscene, hwf.elements, hboard]

theorem scene_new_fits {l : List Element} {scene : Scene} (h : Scene.new rt.encodedBytes l = .ok scene) :
    Scene.Fits rt.encodedBytes scene.board.values := by
  have hloop : ∀ (l : List Element) (t : Scene), Scene.Wf rt.encodedBytes t →
      Scene.Fits rt.encodedBytes t.board.values →
      l.foldlM (fun scene element => Scene.merge rt.encodedBytes scene [element]) t = .ok scene →
      Scene.Fits rt.encodedBytes scene.board.values := by
    intro l
    induction l with
    | nil =>
      intro t _ hfits hl
      obtain rfl := Except.ok.inj hl
      exact hfits
    | cons element l ih =>
      intro t hwf _ hl
      obtain ⟨u, hu, hl⟩ := foldlM_cons_ok.1 hl
      obtain ⟨huwf, -, hufits⟩ := hwf.merge.1 hu
      exact ih u huwf hufits hl
  exact hloop l Scene.empty Scene.wf_empty Scene.fits_nil h

/-- A scene that is rebuilt fits. -/
theorem fits_of_sceneOf (h : BoardInv s b) {elements : List Element} (hscene : sceneOf rt s b = .ok elements) :
    Scene.Fits rt.encodedBytes elements := by
  rw [sceneOf_ok h hscene]
  obtain ⟨base, k, hstart, heq⟩ := sceneOf_start h
  rw [heq] at hscene
  obtain ⟨initial, hinitial, hscene⟩ := bind_ok.1 hscene
  obtain ⟨scene, htail, -⟩ := bind_ok.1 hscene
  have hlength := h.length
  obtain ⟨hwf, hboard⟩ := scene_new_ok hinitial
  rw [hstart.elements, LatestWins.merge_values (keyed_shown _)] at hboard
  by_cases hk : k < b.sequence
  · have hfits := ((projectTail_ok h hstart.clear hwf hboard).1 htail).2.2 b.sequence hk (Nat.le_refl _)
    rwa [List.take_of_length_le (by omega)] at hfits
  · have hfits := scene_new_fits hinitial
    rwa [hboard, List.take_of_length_le (by omega)] at hfits

/-- A scene that fits at every operation is not refused. -/
theorem sceneOf_fits (h : BoardInv s b) (hfitting : Fitting rt (s.operationsOf b.id)) :
    sceneOf rt s b = .ok (shown (s.operationsOf b.id)).values := by
  obtain ⟨base, k, hstart, heq⟩ := sceneOf_start h
  have hkeyed := keyed_shown ((s.operationsOf b.id).take k)
  obtain ⟨initial, hinitial⟩ := scene_new_values hkeyed (hfitting k)
  rw [← hstart.elements] at hinitial
  obtain ⟨hwf, hboard⟩ := scene_new_ok hinitial
  rw [hstart.elements, LatestWins.merge_values hkeyed] at hboard
  have hbuilt := Scene.foldl_put_board rt.encodedBytes (shown (s.operationsOf b.id)).values Scene.empty
  rw [show Scene.empty.board = OrderedMap.empty from rfl, LatestWins.merge_values (keyed_shown _)] at hbuilt
  have htail : Snapshots.projectTail rt s b.id k b.sequence initial =
      .ok ((shown (s.operationsOf b.id)).values.foldl (Scene.put rt.encodedBytes) Scene.empty) :=
    (projectTail_ok h hstart.clear hwf hboard).2 ⟨Scene.wf_empty.foldl_put, hbuilt, fun n _ _ => hfitting n⟩
  rw [heq, hinitial]
  change (do
    let scene ← Snapshots.projectTail rt s b.id k b.sequence initial
    Except.ok (Scene.elements rt.entries scene)) = _
  rw [htail]
  change Except.ok (Scene.elements rt.entries _) = _
  rw [Scene.Wf.elements Scene.wf_empty.foldl_put, hbuilt]

/-- `scene_authors!` gives the recorded authors of the operations that are shown. -/
theorem mem_sceneAuthors (h : BoardInv s b) {user : String} : user ∈ sceneAuthors s b ↔
    ∃ op ∈ s.operationsOf b.id, s.latestClear b.id < op.sequence ∧ user ∈ op.authors := by
  unfold sceneAuthors
  dsimp only
  rw [List.mem_insertionSort, List.mem_eraseDups, List.mem_flatMap]
  constructor
  · rintro ⟨op, hop, huser⟩
    rw [List.mem_filter, decide_eq_true_eq] at hop
    exact ⟨op, hop.1, hop.2.1, huser⟩
  · rintro ⟨op, hop, hlater, huser⟩
    have hbounds := h.numbered.bounds hop
    have hlength := h.length
    have hkind : op.kind = .sceneUpdate := by
      cases hkind : op.kind with
      | sceneUpdate => rfl
      | boardClear =>
        have := le_latestClear hop hkind
        rw [store_latestClear] at hlater
        omega
    refine ⟨op, ?_, huser⟩
    rw [List.mem_filter, decide_eq_true_eq]
    exact ⟨hop, hlater, by omega, hkind⟩

end Scenes

section Changes

variable {rt : Runtime} {s s' : Store} {p p' : Provenance}

/-- A board has one row of snapshots. -/
private theorem snapshotIds_persist (h : (s.snapshots.map Snapshot.whiteboardId).Nodup) (b : Whiteboard) (scene : Scene)
    (sequence generation : Nat) :
    ((Snapshots.persist rt s b scene sequence generation).snapshots.map Snapshot.whiteboardId).Nodup := by
  unfold Snapshots.persist
  dsimp only
  split
  · rename_i hload
    rw [List.map_append, List.nodup_append]
    refine ⟨h, List.nodup_singleton _, ?_⟩
    intro id hid id' hid'
    rw [List.map_singleton, List.mem_singleton] at hid'
    subst hid'
    rintro rfl
    obtain ⟨snapshot, hmem, heq⟩ := List.mem_map.1 hid
    have hnone := List.find?_eq_none.1 hload snapshot hmem
    rw [decide_eq_true_eq] at hnone
    exact hnone heq
  · rw [List.map_map]
    have hsame : (Snapshot.whiteboardId ∘ fun old : Snapshot => if old.whiteboardId = b.id then
        ({ whiteboardId := b.id, tenantId := b.tenantId, conversationId := b.conversationId, throughSequence := sequence,
           generationSequence := generation, elements := Scene.elements rt.entries scene } : Snapshot) else old) =
        Snapshot.whiteboardId := by
      funext old
      simp only [Function.comp]
      split
      · rename_i heq
        exact heq.symm
      · rfl
    rw [hsame]
    exact h

theorem snapshotIds_appended (h : (s.snapshots.map Snapshot.whiteboardId).Nodup) (b : Whiteboard) (op : Operation)
    (prepared : Snapshots.Prepared) : ((s.appended rt b op prepared).snapshots.map Snapshot.whiteboardId).Nodup := by
  have hput : (({ s with operations := s.operations ++ [op] }.putBoard
      { b with sequence := b.sequence + 1 }).snapshots.map Snapshot.whiteboardId).Nodup := h
  unfold Store.appended Snapshots.maintain
  cases prepared with
  | clear scene => exact snapshotIds_persist hput b scene _ _
  | update scene generation existing =>
    dsimp only
    split
    · exact snapshotIds_persist hput b scene _ _
    · exact hput

/-- Boards keep their columns. -/
theorem Change.owned (h : StoreInv s) (hc : Change rt s s') {whiteboardId tenantId conversationId : String}
    (howned : Owned s whiteboardId tenantId conversationId) : Owned s' whiteboardId tenantId conversationId := by
  cases hc with
  | create b =>
    obtain ⟨x, hx, hxs⟩ := howned
    exact ⟨x, List.mem_append_left _ hx, hxs⟩
  | append b op prepared mem =>
    have hput : Owned (s.putBoard { b with sequence := b.sequence + 1 }) whiteboardId tenantId conversationId :=
      howned.putBoard h.boardIds mem rfl rfl rfl
    unfold Owned
    rw [appended_boards]
    exact hput
  | rename b title userId mem => exact howned.putBoard h.boardIds mem rfl rfl rfl
  | checkpoint => exact howned
  | addAsset => exact howned

theorem Change.snapshotIds (hc : Change rt s s') (h : (s.snapshots.map Snapshot.whiteboardId).Nodup) :
    (s'.snapshots.map Snapshot.whiteboardId).Nodup := by
  cases hc with
  | create => exact h
  | append b op prepared => exact snapshotIds_appended h b op prepared
  | rename => exact h
  | checkpoint => exact h
  | addAsset => exact h

/-- One more operation, with the record `ways` of its elements. -/
theorem ProvenanceInv.append (h : ProvenanceInv s p) {b : Whiteboard} {op : Operation} {prepared : Snapshots.Prepared}
    (hb : b ∈ s.boards) (hop : Appended rt s b op)
    (hp : Snapshots.prepare rt s b (s.latestClear b.id) op.kind op.elements = .ok prepared)
    (ways : Element → List String → Prop) (hauthors : ∀ e users, ways e users → users ⊆ op.authors)
    (hsome : ∀ e ∈ op.elements, ∃ users, ways e users) :
    ProvenanceInv (s.appended rt b op prepared)
      { p with operation := fun id e users => if id = op.id then ways e users else p.operation id e users } := by
  have hchange : Change rt s (s.appended rt b op prepared) := .append b op prepared hb hop hp
  have hold : ∀ op' ∈ s.operations, op'.id ≠ op.id := by
    intro op' hop' heq
    exact hop.fresh (heq ▸ List.mem_map_of_mem hop')
  refine ⟨h.store.change hchange, snapshotIds_appended h.snapshotIds b op prepared, ?_, ?_, ?_, ?_, ?_, ?_, ?_⟩
  · intro op' hop' hclear
    rw [appended_operations] at hop'
    rcases List.mem_append.1 hop' with hop' | hop'
    · exact h.operationClear op' hop' hclear
    · rw [List.mem_singleton.1 hop'] at hclear ⊢
      exact hop.clear hclear
  · intro op' hop' e users hways
    rw [appended_operations] at hop'
    rcases List.mem_append.1 hop' with hop' | hop'
    · dsimp only at hways
      rw [if_neg (hold op' hop')] at hways
      exact h.operationAuthors op' hop' e users hways
    · rw [List.mem_singleton.1 hop'] at hways ⊢
      dsimp only at hways
      rw [if_pos rfl] at hways
      exact hauthors e users hways
  · intro op' hop' e he
    rw [appended_operations] at hop'
    rcases List.mem_append.1 hop' with hop' | hop'
    · obtain ⟨users, hways⟩ := h.operationSome op' hop' e he
      refine ⟨users, ?_⟩
      dsimp only
      rw [if_neg (hold op' hop')]
      exact hways
    · rw [List.mem_singleton.1 hop'] at he ⊢
      obtain ⟨users, hways⟩ := hsome e he
      refine ⟨users, ?_⟩
      dsimp only
      rw [if_pos rfl]
      exact hways
  · rw [appended_versions]
    exact h.versionAuthors
  · rw [appended_versions]
    exact h.versionSome
  · rw [appended_versions]
    exact fun v hv => hchange.owned h.store (h.versionOwned v hv)
  · rw [appended_versions]
    intro v hv user huser
    obtain ⟨op', hop', hmem⟩ := h.versionSources v hv user huser
    exact ⟨op', (hchange.log v.whiteboardId).subset hop', hmem⟩

theorem ProvenanceInv.checkpoint (h : ProvenanceInv s p) {b : Whiteboard} {v : Version} (hb : b ∈ s.boards)
    (hv : Checkpointed rt s b v) :
    ProvenanceInv { s with versions := s.versions ++ [v] } (p.checkpoint s b v) := by
  have hboard := h.store.board b hb
  have hold : ∀ v' ∈ s.versions, v'.id ≠ v.id := by
    intro v' hv' heq
    exact hv.fresh (heq ▸ List.mem_map_of_mem hv')
  have helements := sceneOf_ok hboard hv.elements
  have hshown : ∀ e ∈ v.elements, ∃ op ∈ s.operationsOf b.id, s.latestClear b.id < op.sequence ∧ e ∈ op.elements := by
    intro e he
    rw [helements] at he
    exact mem_shown hboard.numbered he
  refine ⟨h.store.change (.checkpoint b v hb hv), h.snapshotIds, h.operationClear, h.operationAuthors, h.operationSome,
    ?_, ?_, ?_, ?_⟩ <;>
    intro v' hv' <;> rcases List.mem_append.1 hv' with hv' | hv'
  · intro e users hways
    unfold Provenance.checkpoint at hways
    dsimp only at hways
    rw [if_neg (hold v' hv')] at hways
    exact h.versionAuthors v' hv' e users hways
  · obtain rfl := List.mem_singleton.1 hv'
    intro e users hways
    unfold Provenance.checkpoint at hways
    dsimp only at hways
    rw [if_pos rfl] at hways
    obtain ⟨-, op, hop, hlater, -, hways⟩ := hways
    intro user huser
    rw [hv.sources]
    exact (mem_sceneAuthors hboard).2
      ⟨op, hop, hlater, h.operationAuthors op (List.mem_of_mem_filter hop) e users hways huser⟩
  · intro e he
    obtain ⟨users, hways⟩ := h.versionSome v' hv' e he
    refine ⟨users, ?_⟩
    unfold Provenance.checkpoint
    dsimp only
    rw [if_neg (hold v' hv')]
    exact hways
  · obtain rfl := List.mem_singleton.1 hv'
    intro e he
    obtain ⟨op, hop, hlater, heop⟩ := hshown e he
    obtain ⟨users, hways⟩ := h.operationSome op (List.mem_of_mem_filter hop) e heop
    refine ⟨users, ?_⟩
    unfold Provenance.checkpoint
    dsimp only
    rw [if_pos rfl]
    exact ⟨he, op, hop, hlater, heop, hways⟩
  · exact h.versionOwned v' hv'
  · obtain rfl := List.mem_singleton.1 hv'
    exact ⟨b, hb, hv.whiteboardId.symm, hv.tenantId.symm, hv.conversationId.symm⟩
  · exact h.versionSources v' hv'
  · obtain rfl := List.mem_singleton.1 hv'
    intro user huser
    rw [hv.sources] at huser
    obtain ⟨op, hop, -, hmem⟩ := (mem_sceneAuthors hboard).1 huser
    refine ⟨op, ?_, hmem⟩
    rw [hv.whiteboardId]
    exact hop

/-- The sources of a restored operation are those of its checkpoint. -/
theorem ProvenanceInv.change (h : ProvenanceInv s p) (haccepted : AcceptedInv rt s) (hc : TracedChange rt s p s' p') :
    ProvenanceInv s' p' := by
  cases hc with
  | draw b op prepared mem hop prepare plain =>
    refine h.append mem hop prepare (fun e users => e ∈ op.elements ∧ users = [op.actorUserId]) ?_ ?_
    · rintro e users ⟨-, rfl⟩ user huser
      rw [List.mem_singleton.1 huser]
      exact List.mem_cons_self ..
    · exact fun e he => ⟨_, he, rfl⟩
  | restore b op prepared v mem hop prepare version restored =>
    refine h.append mem hop prepare (fun e users => e ∈ op.elements ∧ ∃ earlier, p.version v.id e earlier ∧
      users = op.actorUserId :: earlier) ?_ ?_
    · rintro e users ⟨-, earlier, hways, rfl⟩ user huser
      rcases List.mem_cons.1 huser with rfl | huser
      · exact List.mem_cons_self ..
      · unfold Operation.authors
        rw [restored.sources]
        exact List.mem_cons_of_mem _ (h.versionAuthors v version e earlier hways huser)
    · intro e he
      obtain ⟨earlier, hways⟩ := h.versionSome v version e (restored.mem (haccepted.versions v version).accepted he)
      exact ⟨_, he, earlier, hways, rfl⟩
  | checkpoint b v mem hv => exact h.checkpoint mem hv
  | other _ hc operations versions =>
    refine ⟨h.store.change hc, hc.snapshotIds h.snapshotIds, ?_, ?_, ?_, ?_, ?_, ?_, ?_⟩
    · rw [operations]
      exact h.operationClear
    · rw [operations]
      exact h.operationAuthors
    · rw [operations]
      exact h.operationSome
    · rw [versions]
      exact h.versionAuthors
    · rw [versions]
      exact h.versionSome
    · rw [versions]
      exact fun v hv => hc.owned h.store (h.versionOwned v hv)
    · rw [versions]
      unfold Store.operationsOf
      rw [operations]
      exact h.versionSources

theorem AcceptedInv.change (h : AcceptedInv rt s) (hinv : StoreInv s) (hc : Change rt s s') : AcceptedInv rt s' := by
  cases hc with
  | create b fresh first sequence => exact ⟨h.operations, h.versions⟩
  | append b op prepared mem hop prepare =>
    refine ⟨fun o ho => ?_, ?_⟩
    · rw [appended_operations] at ho
      rcases List.mem_append.1 ho with ho | ho
      · exact h.operations o ho
      · rw [List.mem_singleton.1 ho]
        exact hop.accepted
    · rw [appended_versions]
      exact h.versions
  | rename b title userId mem => exact ⟨h.operations, h.versions⟩
  | checkpoint b v mem hv =>
    refine ⟨h.operations, fun v' hv' => ?_⟩
    rcases List.mem_append.1 hv' with hv' | hv'
    · exact h.versions v' hv'
    · obtain rfl := List.mem_singleton.1 hv'
      have hboard := hinv.board b mem
      have helements := sceneOf_ok hboard hv.elements
      refine ⟨?_, fits_of_sceneOf hboard hv.elements, fun e he => ?_⟩
      · rw [helements, (keyed_shown _).map_key]
        exact OrderedMap.keys_nodup _
      · rw [helements] at he
        obtain ⟨op, hop, -, heop⟩ := mem_shown hboard.numbered he
        exact h.operations op (List.mem_of_mem_filter hop) e heop
  | addAsset b a mem whiteboardId tenantId => exact ⟨h.operations, h.versions⟩

theorem ProvenanceInv.changes {a b : Store × Provenance} (h : ProvenanceInv a.1 a.2) (haccepted : AcceptedInv rt a.1)
    (hc : TracedChanges rt a b) : ProvenanceInv b.1 b.2 ∧ AcceptedInv rt b.1 := by
  induction hc with
  | refl => exact ⟨h, haccepted⟩
  | tail _ hc ih => exact ⟨ih.1.change ih.2 hc, ih.2.change ih.1.store hc.change⟩

end Changes

end KComms.Whiteboards
