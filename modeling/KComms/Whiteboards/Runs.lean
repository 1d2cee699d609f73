import Mathlib.Data.List.Find
import Mathlib.Data.String.Basic
import KComms.Whiteboards.BoardLog

/-!
# Runs of the server

The invariant of the store (`StoreInv`) holds along every sequence of changes, and so along every run of commands from
the empty store.  Without erasures the log of a board only grows (`Steps.log`) and its scene fits at every operation
(`Reachable.fitting`).
-/

namespace KComms.Whiteboards

open FallibleLoop (bind_ok map_ok)

/-- The row of a board with these columns. -/
def Owned (s : Store) (whiteboardId tenantId conversationId : String) : Prop :=
  ∃ b ∈ s.boards, b.id = whiteboardId ∧ b.tenantId = tenantId ∧ b.conversationId = conversationId

structure StoreInv (s : Store) : Prop where
  boardIds : (s.boards.map Whiteboard.id).Nodup
  operationIds : (s.operations.map Operation.id).Nodup
  versionIds : s.VersionIds
  operations : ∀ op ∈ s.operations, Owned s op.whiteboardId op.tenantId op.conversationId
  snapshots : ∀ snapshot ∈ s.snapshots, Owned s snapshot.whiteboardId snapshot.tenantId snapshot.conversationId
  valid : ∀ op ∈ s.operations, ∀ e ∈ op.elements, e.Valid
  board : ∀ b ∈ s.boards, BoardInv s b

/-- The scene of every board fits at every operation. -/
def StoreFitting (rt : Runtime) (s : Store) : Prop := ∀ b ∈ s.boards, Fitting rt (s.operationsOf b.id)

/-! ### Rows of boards -/

variable {rt : Runtime} {s s' : Store} {b b' : Whiteboard} {snapshot : Snapshot} {tenantId conversationId : String}
  {ops : List Operation}

theorem putBoard_ids (s : Store) (b : Whiteboard) :
    (s.putBoard b).boards.map Whiteboard.id = s.boards.map Whiteboard.id := by
  unfold Store.putBoard
  rw [List.map_map]
  apply List.map_congr_left
  intro x _
  simp only [Function.comp]
  split
  · rename_i h
    exact h.symm
  · rfl

theorem mem_putBoard (h : b' ∈ (s.putBoard b).boards) : b' = b ∨ b' ∈ s.boards ∧ b'.id ≠ b.id := by
  obtain ⟨x, hx, heq⟩ := List.mem_map.1 h
  split at heq
  · exact Or.inl heq.symm
  · rename_i hne
    rw [← heq]
    exact Or.inr ⟨hx, hne⟩

/-- The row that is replaced gives way to one of the same board. -/
theorem Owned.putBoard {whiteboardId : String} (hids : (s.boards.map Whiteboard.id).Nodup) (hb : b ∈ s.boards)
    (hid : b'.id = b.id) (htenant : b'.tenantId = b.tenantId) (hconversation : b'.conversationId = b.conversationId)
    (h : Owned s whiteboardId tenantId conversationId) :
    Owned (s.putBoard b') whiteboardId tenantId conversationId := by
  obtain ⟨x, hx, hxid, hxtenant, hxconversation⟩ := h
  by_cases hsame : x.id = b'.id
  · have hxb : x = b := List.inj_on_of_nodup_map hids hx hb (hsame.trans hid)
    subst hxb
    refine ⟨b', List.mem_map.2 ⟨x, hx, if_pos hsame⟩, hid.trans hxid, htenant.trans hxtenant,
      hconversation.trans hxconversation⟩
  · exact ⟨x, List.mem_map.2 ⟨x, hx, if_neg hsame⟩, hxid, hxtenant, hxconversation⟩

theorem load_mem {id : String} (h : Snapshots.load s id = some snapshot) :
    snapshot ∈ s.snapshots ∧ snapshot.whiteboardId = id := by
  have hprop := List.find?_some h
  rw [decide_eq_true_eq] at hprop
  exact ⟨List.mem_of_find?_eq_some h, hprop⟩

theorem load_of_current {id : String} (h : Snapshots.current s id = some snapshot) :
    Snapshots.load s id = some snapshot := by
  unfold Snapshots.current at h
  split at h
  · cases h
  · rename_i found hfound
    dsimp only at h
    split at h
    · rw [← h]
      exact hfound
    · cases h

/-- A board that is not there has neither operations nor a snapshot. -/
theorem StoreInv.fresh (h : StoreInv s) {id : String} (hid : id ∉ s.boards.map Whiteboard.id) :
    s.operationsOf id = [] ∧ Snapshots.load s id = none := by
  have howned : ∀ {tenantId conversationId : String}, ¬ Owned s id tenantId conversationId := by
    rintro tenantId conversationId ⟨x, hx, hxid, -⟩
    exact hid (hxid ▸ List.mem_map_of_mem hx)
  constructor
  · apply List.filter_eq_nil_iff.2
    intro op hop heq
    rw [decide_eq_true_eq] at heq
    exact howned (heq ▸ h.operations op hop)
  · cases hload : Snapshots.load s id with
    | none => rfl
    | some snapshot =>
      obtain ⟨hmem, heq⟩ := load_mem hload
      exact absurd (heq ▸ h.snapshots snapshot hmem) howned

/-! ### One more operation -/

section Append

variable {op : Operation} {prepared : Snapshots.Prepared}

theorem appended_boards : (s.appended rt b op prepared).boards =
    (s.putBoard { b with sequence := b.sequence + 1 }).boards := by
  unfold Store.appended
  rw [maintain_frame]
  rfl

theorem appended_operations : (s.appended rt b op prepared).operations = s.operations ++ [op] := by
  unfold Store.appended
  rw [maintain_frame]
  rfl

theorem appended_versions : (s.appended rt b op prepared).versions = s.versions := by
  unfold Store.appended
  rw [maintain_frame]
  rfl

theorem operationsOf_appended (hop : op.whiteboardId = b.id) (id : String) :
    (s.appended rt b op prepared).operationsOf id =
      if id = b.id then s.operationsOf b.id ++ [op] else s.operationsOf id := by
  unfold Store.operationsOf
  rw [appended_operations, List.filter_append]
  by_cases h : id = b.id
  · rw [if_pos h, h, List.filter_cons_of_pos (by simpa using hop), List.filter_nil]
  · rw [if_neg h, List.filter_cons_of_neg (by simpa [hop] using fun heq : b.id = id => h heq.symm), List.filter_nil,
      List.append_nil]

/-- The row that `persist` writes. -/
def snapshotRow (rt : Runtime) (b : Whiteboard) (scene : Scene) (sequence generation : Nat) : Snapshot :=
  { whiteboardId := b.id, tenantId := b.tenantId, conversationId := b.conversationId, throughSequence := sequence,
    generationSequence := generation, elements := Scene.elements rt.entries scene }

theorem load_persist (scene : Scene) (sequence generation : Nat) (id : String) :
    Snapshots.load (Snapshots.persist rt s b scene sequence generation) id =
      if id = b.id then some (snapshotRow rt b scene sequence generation) else Snapshots.load s id := by
  unfold Snapshots.persist
  dsimp only
  split
  · rename_i hnone
    unfold Snapshots.load at hnone ⊢
    rw [List.find?_append]
    by_cases h : id = b.id
    · rw [if_pos h, h, hnone]
      simp [snapshotRow]
    · rw [if_neg h]
      have hnot : ¬ b.id = id := fun heq => h heq.symm
      simp [hnot]
  · rename_i old hold
    obtain ⟨hmem, hid⟩ := load_mem hold
    unfold Snapshots.load
    rw [List.find?_map]
    have hcongr : (fun snapshot : Snapshot => decide (snapshot.whiteboardId = id)) ∘
        (fun old => if old.whiteboardId = b.id then snapshotRow rt b scene sequence generation else old) =
        fun snapshot => decide (snapshot.whiteboardId = id) := by
      funext snapshot
      simp only [Function.comp]
      split
      · rename_i heq
        rw [heq]
        rfl
      · rfl
    change Option.map _ (List.find? ((fun snapshot : Snapshot => decide (snapshot.whiteboardId = id)) ∘
      (fun old => if old.whiteboardId = b.id then snapshotRow rt b scene sequence generation else old)) _) = _
    rw [hcongr]
    by_cases h : id = b.id
    · rw [if_pos h, h]
      have hfind : s.snapshots.find? (fun snapshot => decide (snapshot.whiteboardId = b.id)) = some old := hold
      rw [hfind, Option.map_some, if_pos hid]
      rfl
    · rw [if_neg h]
      cases hfind : s.snapshots.find? (fun snapshot => decide (snapshot.whiteboardId = id)) with
      | none => rfl
      | some snapshot =>
        have hprop := List.find?_some hfind
        rw [decide_eq_true_eq] at hprop
        rw [Option.map_some, if_neg (by rw [hprop]; exact h)]

theorem mem_persist {scene : Scene} {sequence generation : Nat}
    (h : snapshot ∈ (Snapshots.persist rt s b scene sequence generation).snapshots) :
    snapshot = snapshotRow rt b scene sequence generation ∨ snapshot ∈ s.snapshots := by
  unfold Snapshots.persist at h
  dsimp only at h
  split at h
  · rcases List.mem_append.1 h with h | h
    · exact Or.inr h
    · exact Or.inl (List.mem_singleton.1 h)
  · obtain ⟨old, hold, heq⟩ := List.mem_map.1 h
    split at heq
    · exact Or.inl heq.symm
    · rw [← heq]
      exact Or.inr hold

/-- What the board shows after the operation. -/
theorem prepared_scene (h : BoardInv s b)
    (hp : Snapshots.prepare rt s b (s.latestClear b.id) op.kind op.elements = .ok prepared) :
    ∃ scene, Scene.Wf rt.encodedBytes scene ∧ scene.board = shown (s.operationsOf b.id ++ [op]) ∧
      Scene.Fits rt.encodedBytes scene.board.values ∧
      prepared = match op.kind with
        | .boardClear => .clear scene
        | .sceneUpdate => .update scene (s.latestClear b.id) (Snapshots.load s b.id) := by
  rw [shown_snoc]
  unfold showOperation
  cases hkind : op.kind with
  | boardClear =>
    rw [hkind] at hp
    obtain ⟨scene, hscene, hp⟩ := bind_ok.1 hp
    obtain rfl := Except.ok.inj hscene
    exact ⟨Scene.empty, Scene.wf_empty, rfl, Scene.fits_nil, (Except.ok.inj hp).symm⟩
  | sceneUpdate =>
    rw [hkind] at hp
    obtain ⟨scene, rfl, hwf, hboard, hfits⟩ := prepare_ok h hp
    exact ⟨scene, hwf, hboard, hfits, rfl⟩

theorem latestClear_snoc (hnum : Consecutive.Numbered Operation.sequence 1 ops)
    (hsequence : op.sequence = ops.length + 1) :
    latestClear (ops ++ [op]) = match op.kind with
      | .boardClear => op.sequence
      | .sceneUpdate => latestClear ops := by
  have hle := latestClear_le hnum
  unfold latestClear at hle ⊢
  rw [List.filter_append, List.map_append, List.foldl_append]
  cases hkind : op.kind with
  | boardClear =>
    rw [List.filter_cons_of_pos (by simpa using hkind)]
    simp only [List.filter_nil, List.map_cons, List.map_nil, List.foldl_cons, List.foldl_nil]
    omega
  | sceneUpdate =>
    rw [List.filter_cons_of_neg (by simp [hkind])]
    rfl

private theorem load_written (op : Operation) (scene : Scene) (sequence generation : Nat) (id : String) :
    Snapshots.load (Snapshots.persist rt
      ({ s with operations := s.operations ++ [op] }.putBoard { b with sequence := b.sequence + 1 }) b scene sequence
        generation) id = if id = b.id then some (snapshotRow rt b scene sequence generation) else Snapshots.load s id :=
  load_persist ..

/-- The snapshots of other boards stay. -/
theorem load_appended_of_ne {id : String} (hid : id ≠ b.id) :
    Snapshots.load (s.appended rt b op prepared) id = Snapshots.load s id := by
  unfold Store.appended
  cases prepared with
  | clear scene =>
    unfold Snapshots.maintain
    rw [load_written, if_neg hid]
  | update scene generation existing =>
    unfold Snapshots.maintain
    dsimp only
    split
    · rw [load_written, if_neg hid]
    · rfl

/-- A snapshot that is taken after the operation. -/
theorem snapshotInv_row (h : BoardInv s b) (hop : Appended rt s b op) {scene : Scene}
    (hwf : Scene.Wf rt.encodedBytes scene) (hboard : scene.board = shown (s.operationsOf b.id ++ [op])) :
    SnapshotInv (s.operationsOf b.id ++ [op])
      (snapshotRow rt b scene (b.sequence + 1) (latestClear (s.operationsOf b.id ++ [op]))) := by
  have hlen := h.length
  have hlen' : (s.operationsOf b.id ++ [op]).length = b.sequence + 1 := by
    rw [List.length_append, hlen]
    rfl
  refine ⟨rfl, ?_, hlen'.ge, ?_⟩
  · have hnum := h.numbered
    have hle := latestClear_le hnum
    have hnext : op.sequence = (s.operationsOf b.id).length + 1 := by rw [hop.sequence, hlen]
    have hclear := latestClear_snoc hnum hnext
    have hsequence := hop.sequence
    change latestClear (s.operationsOf b.id ++ [op]) ≤ b.sequence + 1
    rw [hclear]
    split <;> omega
  · change Scene.elements rt.entries scene = (shown ((s.operationsOf b.id ++ [op]).take (b.sequence + 1))).values
    rw [hwf.elements, hboard, List.take_of_length_le hlen'.le]

/-- The snapshot of the board after the operation. -/
theorem load_appended (h : BoardInv s b) (hop : Appended rt s b op)
    (hp : Snapshots.prepare rt s b (s.latestClear b.id) op.kind op.elements = .ok prepared)
    (hload : Snapshots.load (s.appended rt b op prepared) b.id = some snapshot) :
    SnapshotInv (s.operationsOf b.id ++ [op]) snapshot := by
  have hnext : op.sequence = (s.operationsOf b.id).length + 1 := by rw [hop.sequence, h.length]
  have hclear := latestClear_snoc h.numbered hnext
  obtain ⟨scene, hwf, hboard, -, hprepared⟩ := prepared_scene h hp
  have hrow := snapshotInv_row h hop hwf hboard
  unfold Store.appended at hload
  rw [hprepared] at hload
  cases hkind : op.kind with
  | boardClear =>
    simp only [hkind] at hclear hload
    unfold Snapshots.maintain at hload
    rw [load_written, if_pos rfl] at hload
    rw [hclear, hop.sequence] at hrow
    exact Option.some.inj hload ▸ hrow
  | sceneUpdate =>
    simp only [hkind] at hclear hload
    unfold Snapshots.maintain at hload
    dsimp only at hload
    split at hload
    · rw [load_written, if_pos rfl, store_latestClear, ← hclear] at hload
      exact Option.some.inj hload ▸ hrow
    · have hinv := h.snapshot snapshot hload
      have hthrough := hinv.through
      refine ⟨hinv.generation.trans hclear.symm, hclear.le.trans hinv.clear, ?_, ?_⟩
      · rw [List.length_append]
        omega
      · rw [List.take_append_of_le_length hthrough]
        exact hinv.elements

theorem mem_appended_snapshots (h : snapshot ∈ (s.appended rt b op prepared).snapshots) :
    snapshot ∈ s.snapshots ∨ snapshot.whiteboardId = b.id ∧ snapshot.tenantId = b.tenantId ∧
      snapshot.conversationId = b.conversationId := by
  unfold Store.appended at h
  cases prepared with
  | clear scene =>
    rcases mem_persist h with rfl | h
    · exact Or.inr ⟨rfl, rfl, rfl⟩
    · exact Or.inl h
  | update scene generation existing =>
    unfold Snapshots.maintain at h
    dsimp only at h
    split at h
    · rcases mem_persist h with rfl | h
      · exact Or.inr ⟨rfl, rfl, rfl⟩
      · exact Or.inl h
    · exact Or.inl h

theorem StoreInv.append (h : StoreInv s) (hb : b ∈ s.boards) (hop : Appended rt s b op)
    (hp : Snapshots.prepare rt s b (s.latestClear b.id) op.kind op.elements = .ok prepared) :
    StoreInv (s.appended rt b op prepared) := by
  have hboard := h.board b hb
  have howned : ∀ {whiteboardId tenantId conversationId}, Owned s whiteboardId tenantId conversationId →
      Owned (s.appended rt b op prepared) whiteboardId tenantId conversationId := by
    intro whiteboardId tenantId conversationId hx
    have hput : Owned (s.putBoard { b with sequence := b.sequence + 1 }) whiteboardId tenantId conversationId :=
      hx.putBoard h.boardIds hb rfl rfl rfl
    unfold Owned
    rw [appended_boards]
    exact hput
  refine ⟨?_, ?_, ?_, ?_, ?_, ?_, ?_⟩
  · rw [appended_boards, putBoard_ids]
    exact h.boardIds
  · rw [appended_operations, List.map_append, List.nodup_append]
    refine ⟨h.operationIds, List.nodup_singleton _, fun x hx y hy => ?_⟩
    rw [List.map_singleton, List.mem_singleton] at hy
    rintro rfl
    exact hop.fresh (hy ▸ hx)
  · unfold Store.VersionIds
    rw [appended_versions]
    exact h.versionIds
  · intro o ho
    rw [appended_operations, List.mem_append, List.mem_singleton] at ho
    rcases ho with ho | rfl
    · exact howned (h.operations o ho)
    · exact howned ⟨b, hb, hop.whiteboardId.symm, hop.tenantId.symm, hop.conversationId.symm⟩
  · intro snapshot hsnapshot
    rcases mem_appended_snapshots hsnapshot with hold | ⟨hid, htenant, hconversation⟩
    · exact howned (h.snapshots snapshot hold)
    · exact howned ⟨b, hb, hid.symm, htenant.symm, hconversation.symm⟩
  · intro o ho
    rw [appended_operations, List.mem_append, List.mem_singleton] at ho
    rcases ho with ho | rfl
    · exact h.valid o ho
    · exact fun e he => (hop.accepted e he).valid
  · intro x hx
    rw [appended_boards] at hx
    unfold BoardInv
    rw [operationsOf_appended hop.whiteboardId]
    rcases mem_putBoard hx with rfl | ⟨hx, hne⟩
    · rw [if_pos rfl]
      refine ⟨?_, fun snapshot hsnapshot => load_appended hboard hop hp hsnapshot⟩
      change _ = List.range' 1 (b.sequence + 1)
      rw [List.map_append, hboard.sequences, List.range'_concat, List.map_singleton, hop.sequence]
      simp [Nat.add_comm]
    · have hne' : x.id ≠ b.id := hne
      rw [if_neg hne', load_appended_of_ne hne']
      exact h.board x hx

end Append

/-! ### All changes -/

private theorem boardInv_congr (hoperations : s'.operations = s.operations) (hsnapshots : s'.snapshots = s.snapshots)
    (hid : b'.id = b.id) (hsequence : b'.sequence = b.sequence) (h : BoardInv s b) : BoardInv s' b' := by
  unfold BoardInv Store.operationsOf Snapshots.load at *
  rw [hoperations, hsnapshots, hid, hsequence]
  exact h

theorem StoreInv.change (h : StoreInv s) (hc : Change rt s s') : StoreInv s' := by
  cases hc with
  | create b fresh first sequence =>
    have howned : ∀ {whiteboardId tenantId conversationId}, Owned s whiteboardId tenantId conversationId →
        Owned { s with boards := s.boards ++ [b] } whiteboardId tenantId conversationId := by
      rintro whiteboardId tenantId conversationId ⟨x, hx, hxs⟩
      exact ⟨x, List.mem_append_left _ hx, hxs⟩
    refine ⟨?_, h.operationIds, h.versionIds, fun op hop => howned (h.operations op hop),
      fun snapshot hsnapshot => howned (h.snapshots snapshot hsnapshot), h.valid, fun x hx => ?_⟩
    · change ((s.boards ++ [b]).map Whiteboard.id).Nodup
      rw [List.map_append, List.nodup_append]
      refine ⟨h.boardIds, List.nodup_singleton _, fun x hx y hy => ?_⟩
      rw [List.map_singleton, List.mem_singleton] at hy
      rintro rfl
      exact fresh (hy ▸ hx)
    · rcases List.mem_append.1 hx with hx | hx
      · exact h.board x hx
      · obtain rfl := List.mem_singleton.1 hx
        obtain ⟨hoperations, hload⟩ := h.fresh fresh
        have hoperations' : Store.operationsOf { s with boards := s.boards ++ [x] } x.id = [] := hoperations
        have hload' : Snapshots.load { s with boards := s.boards ++ [x] } x.id = none := hload
        unfold BoardInv
        rw [hoperations', hload', sequence]
        exact ⟨rfl, fun snapshot hsnapshot => (by cases hsnapshot)⟩
  | append b op prepared mem hop prepare => exact h.append mem hop prepare
  | rename b title userId mem =>
    have howned : ∀ {whiteboardId tenantId conversationId}, Owned s whiteboardId tenantId conversationId →
        Owned (s.putBoard { b with title := title, titleActorUserId := some userId,
                                   libraryVersion := b.libraryVersion + 1 }) whiteboardId tenantId conversationId :=
      fun hx => hx.putBoard h.boardIds mem rfl rfl rfl
    refine ⟨?_, h.operationIds, h.versionIds, fun op hop => howned (h.operations op hop),
      fun snapshot hsnapshot => howned (h.snapshots snapshot hsnapshot), h.valid, fun x hx => ?_⟩
    · rw [putBoard_ids]
      exact h.boardIds
    · rcases mem_putBoard hx with rfl | ⟨hx, -⟩
      · exact boardInv_congr rfl rfl rfl rfl (h.board b mem)
      · exact h.board x hx
  | checkpoint b v mem hv =>
    refine ⟨h.boardIds, h.operationIds, ?_, h.operations, h.snapshots, h.valid, h.board⟩
    change ((s.versions ++ [v]).map Version.id).Nodup
    rw [List.map_append, List.nodup_append]
    refine ⟨h.versionIds, List.nodup_singleton _, fun x hx y hy => ?_⟩
    rw [List.map_singleton, List.mem_singleton] at hy
    rintro rfl
    exact hv.fresh (hy ▸ hx)
  | addAsset b a mem => exact ⟨h.boardIds, h.operationIds, h.versionIds, h.operations, h.snapshots, h.valid, h.board⟩

theorem StoreInv.changes (h : StoreInv s) (hc : Changes rt s s') : StoreInv s' := by
  induction hc with
  | refl => exact h
  | tail _ hc ih => exact ih.change hc

private theorem fitting_snoc {op : Operation} (h : Fitting rt ops)
    (hop : Scene.Fits rt.encodedBytes (shown (ops ++ [op])).values) : Fitting rt (ops ++ [op]) := by
  intro n
  by_cases hn : n ≤ ops.length
  · rw [List.take_append_of_le_length hn]
    exact h n
  · rw [List.take_of_length_le (by rw [List.length_append, List.length_singleton]; omega)]
    exact hop

theorem StoreFitting.change (h : StoreInv s) (hfitting : StoreFitting rt s) (hc : Change rt s s') :
    StoreFitting rt s' := by
  cases hc with
  | create b fresh first sequence =>
    intro x hx
    rcases List.mem_append.1 hx with hx | hx
    · exact hfitting x hx
    · obtain rfl := List.mem_singleton.1 hx
      have hoperations : Store.operationsOf { s with boards := s.boards ++ [x] } x.id = [] := (h.fresh fresh).1
      rw [hoperations]
      intro n
      rw [List.take_nil]
      exact Scene.fits_nil
  | append b op prepared mem hop prepare =>
    intro x hx
    rw [appended_boards] at hx
    rw [operationsOf_appended hop.whiteboardId]
    rcases mem_putBoard hx with rfl | ⟨hx, hne⟩
    · rw [if_pos rfl]
      obtain ⟨scene, -, hboard, hfits, -⟩ := prepared_scene (h.board b mem) prepare
      exact fitting_snoc (hfitting b mem) (hboard ▸ hfits)
    · rw [if_neg hne]
      exact hfitting x hx
  | rename b title userId mem =>
    intro x hx
    rcases mem_putBoard hx with rfl | ⟨hx, -⟩
    · exact hfitting b mem
    · exact hfitting x hx
  | checkpoint => exact hfitting
  | addAsset => exact hfitting

/-- A change appends to logs. -/
theorem Change.log (hc : Change rt s s') (id : String) : s.operationsOf id <+: s'.operationsOf id := by
  cases hc with
  | append b op prepared mem hop prepare =>
    rw [operationsOf_appended hop.whiteboardId]
    by_cases hid : id = b.id
    · rw [if_pos hid, hid]
      exact List.prefix_append ..
    · simp [hid]
  | create => exact List.prefix_rfl
  | rename => exact List.prefix_rfl
  | checkpoint => exact List.prefix_rfl
  | addAsset => exact List.prefix_rfl

private theorem board?_putBoard (hids : (s.boards.map Whiteboard.id).Nodup) (hb : b ∈ s.boards) (hid : b'.id = b.id)
    (htenant : b'.tenantId = b.tenantId) (hconversation : b'.conversationId = b.conversationId) :
    (s.putBoard b').board? tenantId conversationId =
      (s.board? tenantId conversationId).map fun x => if x.id = b'.id then b' else x := by
  unfold Store.board? Store.putBoard
  rw [List.find?_map]
  congr 1
  apply List.find?_congr
  intro x hx
  simp only [Function.comp]
  split
  · rename_i heq
    have hxb : x = b := List.inj_on_of_nodup_map hids hx hb (heq.trans hid)
    rw [hxb, htenant, hconversation]
  · rfl

/-- The board of a conversation stays. -/
theorem Change.board? (h : StoreInv s) (hc : Change rt s s') (hb : s.board? tenantId conversationId = some b) :
    ∃ b', s'.board? tenantId conversationId = some b' ∧ b'.id = b.id := by
  have hput : ∀ {x y : Whiteboard}, x ∈ s.boards → y.id = x.id → y.tenantId = x.tenantId →
      y.conversationId = x.conversationId →
      ∃ b', (s.putBoard y).board? tenantId conversationId = some b' ∧ b'.id = b.id := by
    intro x y hx hid htenant hconversation
    rw [board?_putBoard h.boardIds hx hid htenant hconversation, hb]
    refine ⟨_, rfl, ?_⟩
    dsimp only
    split
    · rename_i heq
      exact heq.symm
    · rfl
  cases hc with
  | create x fresh first sequence =>
    refine ⟨b, ?_, rfl⟩
    unfold Store.board? at hb ⊢
    rw [List.find?_append, hb]
    rfl
  | append x op prepared mem hop prepare =>
    unfold Store.board?
    rw [appended_boards]
    have hx := hput (y := { x with sequence := x.sequence + 1 }) mem rfl rfl rfl
    exact hx
  | rename x title userId mem =>
    have hx := hput (y := { x with title := title, titleActorUserId := some userId,
                                   libraryVersion := x.libraryVersion + 1 }) mem rfl rfl rfl
    exact hx
  | checkpoint => exact ⟨b, hb, rfl⟩
  | addAsset => exact ⟨b, hb, rfl⟩

/-! ### Runs -/

/-- Accepted commands lead from one store to another. -/
inductive Steps (rt : Runtime) (s : Store) : Store → Prop
  | refl : Steps rt s s
  | step {t s' : Store} (call : Call) (command : Command) (steps : Steps rt s t)
      (accepted : exec rt call t command = .ok s') : Steps rt s s'

/-- A store that commands make of the empty one. -/
def Reachable (rt : Runtime) (s : Store) : Prop := Steps rt Store.empty s

theorem Steps.trans {t u : Store} (h : Steps rt s t) (h' : Steps rt t u) : Steps rt s u := by
  induction h' with
  | refl => exact h
  | step call command _ accepted ih => exact .step call command ih accepted

theorem storeInv_empty : StoreInv Store.empty := by
  refine ⟨List.nodup_nil, List.nodup_nil, List.nodup_nil, ?_, ?_, ?_, ?_⟩ <;> intro x hx <;> cases hx

theorem Steps.changes (h : StoreInv s) (hs : Steps rt s s') : Changes rt s s' := by
  induction hs with
  | refl => exact .refl
  | step call command _ accepted ih => exact ih.trans (exec_changes (h.changes ih).versionIds accepted)

theorem Reachable.inv (h : Reachable rt s) : StoreInv s := storeInv_empty.changes (h.changes storeInv_empty)

theorem Reachable.fitting (h : Reachable rt s) : StoreFitting rt s := by
  have hempty : StoreFitting rt Store.empty := fun b hb => (by cases hb)
  have hchanges := h.changes storeInv_empty
  clear h
  induction hchanges with
  | refl => exact hempty
  | tail hc hlast ih => exact ih.change (storeInv_empty.changes hc) hlast

/-- Logs only grow. -/
theorem Steps.log (h : StoreInv s) (hs : Steps rt s s') (id : String) : s.operationsOf id <+: s'.operationsOf id := by
  have hchanges := hs.changes h
  clear hs
  induction hchanges with
  | refl => exact List.prefix_rfl
  | tail _ hlast ih => exact ih.trans (hlast.log id)

theorem Steps.board? (h : StoreInv s) (hs : Steps rt s s') (hb : s.board? tenantId conversationId = some b) :
    ∃ b', s'.board? tenantId conversationId = some b' ∧ b'.id = b.id := by
  have hchanges := hs.changes h
  clear hs
  induction hchanges with
  | refl => exact ⟨b, hb, rfl⟩
  | tail hc hlast ih =>
    obtain ⟨b', hb', hid⟩ := ih
    obtain ⟨b'', hb'', hid'⟩ := hlast.board? (h.changes hc) hb'
    exact ⟨b'', hb'', hid'.trans hid⟩

/-! ### A server to run -/

/-- The size of an element with no other members, as JSON. -/
def plainBytes (e : Element) : Nat :=
  let digits (n : Option Int) : Nat := match n with
    | some n => (Nat.toDigits 10 n.natAbs).length + if n < 0 then 1 else 0
    | none => 4
  91 + e.id.utf8ByteSize + digits e.version + digits e.versionNonce

def plainRuntime (snapshotInterval : Nat) : Runtime where
  entries := Enumeration.byKey String Scene.Entry
  encodedBytes := plainBytes
  jsonb := ⟨id, fun _ => rfl, fun elements elements' => decide (elements = elements')⟩
  uuidCast := some
  graphemes := String.length
  snapshotInterval := snapshotInterval

/-- The `n`-th command, of a user. -/
def plainCall (n : Nat) (userId : String) : Call where
  subject := ⟨"tenant-1", userId, "device-" ++ userId⟩
  refusal _ := none
  readable _ _ := true
  newId path := "id-" ++ toString (n :: path)

/-- An update by one rectangle. -/
def plainUpdate (clientOperationId id : String) (baseSequence version versionNonce : Int) : Command :=
  .append "conversation-1"
    { clientOperationId := some clientOperationId, kind := some .sceneUpdate, baseSequence := some baseSequence,
      elements := some [{ id := some id, type := some .rectangle, version := some version,
                          versionNonce := some versionNonce, linked := false, isDeleted := .bool false, fileId := none,
                          sourced := false, rest := "" }],
      payloadEmpty := false }

/-- The store after a command, or the one before if it is refused. -/
def next (rt : Runtime) (call : Call) (s : Store) (command : Command) : Store :=
  (exec rt call s command).toOption.getD s

theorem steps_next {t : Store} (h : Steps rt s t) (call : Call) (command : Command) :
    Steps rt s (next rt call t command) := by
  unfold next
  cases hexec : exec rt call t command with
  | ok t' => exact .step call command h hexec
  | error e => exact h

end KComms.Whiteboards
