import Mathlib.Logic.Relation
import KComms.Whiteboards.Library

/-!
# What commands change

Every accepted command is a sequence of changes of five kinds (`exec_changes`): a new board, one more operation on a
board with the upkeep of its snapshot, a new title, a new checkpoint, a new image.  What holds along the runs of the
server is proved change by change.
-/

namespace KComms.Whiteboards

open ElixirString (trim trim_trim)
open FallibleLoop (bind_ok map_ok foldlM_cons_ok)

/-- What `normalize_element` makes sure of. -/
structure Element.Valid (e : Element) : Prop where
  id : trim e.id = e.id ∧ 8 ≤ e.id.utf8ByteSize ∧ e.id.utf8ByteSize ≤ 128
  version : ∃ version, e.version = some version ∧ 0 < version
  versionNonce : ∃ versionNonce, e.versionNonce = some versionNonce

/-- The element has been accepted and is read back. -/
def Accepted (rt : Runtime) (e : Element) : Prop :=
  ∃ attrs sent, Payload.normalizeElement rt attrs = some sent ∧ rt.jsonb.element sent = e

/-- The elements of a restored operation are sent again from the checkpoint, with its authors. -/
structure Restored (rt : Runtime) (v : Version) (op : Operation) : Prop where
  whiteboardId : v.whiteboardId = op.whiteboardId
  tenantId : v.tenantId = op.tenantId
  sources : op.sourceActorUserIds = v.sourceActorUserIds
  elements : ∀ e ∈ op.elements, ∃ e' ∈ v.elements, (Payload.normalizeElement rt e'.attrs).map rt.jsonb.element = some e

/-- The operation `op` comes next on the board `b`. -/
structure Appended (rt : Runtime) (s : Store) (b : Whiteboard) (op : Operation) : Prop where
  fresh : op.id ∉ s.operations.map Operation.id
  whiteboardId : op.whiteboardId = b.id
  tenantId : op.tenantId = b.tenantId
  conversationId : op.conversationId = b.conversationId
  sequence : op.sequence = b.sequence + 1
  accepted : ∀ e ∈ op.elements, Accepted rt e
  clear : op.kind = .boardClear → op.elements = []
  sources : op.sourceActorUserIds = [] ∨ ∃ v ∈ s.versions, Restored rt v op

/-- The store after the operation `op` on the board `b`. -/
def Store.appended (rt : Runtime) (s : Store) (b : Whiteboard) (op : Operation) (prepared : Snapshots.Prepared) : Store :=
  Snapshots.maintain rt ({ s with operations := s.operations ++ [op] }.putBoard { b with sequence := b.sequence + 1 }) b
    (b.sequence + 1) prepared

/-- The checkpoint `v` shows the board `b` as it stands. -/
structure Checkpointed (rt : Runtime) (s : Store) (b : Whiteboard) (v : Version) : Prop where
  fresh : v.id ∉ s.versions.map Version.id
  whiteboardId : v.whiteboardId = b.id
  tenantId : v.tenantId = b.tenantId
  conversationId : v.conversationId = b.conversationId
  throughSequence : v.throughSequence = b.sequence
  elements : sceneOf rt s b = .ok v.elements
  sources : v.sourceActorUserIds = sceneAuthors s b

inductive Change (rt : Runtime) (s : Store) : Store → Prop
  | create (b : Whiteboard) (fresh : b.id ∉ s.boards.map Whiteboard.id)
      (first : s.board? b.tenantId b.conversationId = none) (sequence : b.sequence = 0) :
      Change rt s { s with boards := s.boards ++ [b] }
  | append (b : Whiteboard) (op : Operation) (prepared : Snapshots.Prepared) (mem : b ∈ s.boards)
      (h : Appended rt s b op)
      (prepare : Snapshots.prepare rt s b (s.latestClear b.id) op.kind op.elements = .ok prepared) :
      Change rt s (s.appended rt b op prepared)
  | rename (b : Whiteboard) (title userId : String) (mem : b ∈ s.boards) :
      Change rt s (s.putBoard { b with title := title, titleActorUserId := some userId,
                                       libraryVersion := b.libraryVersion + 1 })
  | checkpoint (b : Whiteboard) (v : Version) (mem : b ∈ s.boards) (h : Checkpointed rt s b v) :
      Change rt s { s with versions := s.versions ++ [v] }
  | addAsset (b : Whiteboard) (a : Asset) (mem : b ∈ s.boards) (whiteboardId : a.whiteboardId = b.id)
      (tenantId : a.tenantId = b.tenantId) : Change rt s { s with assets := s.assets ++ [a] }

/-- A number of changes. -/
abbrev Changes (rt : Runtime) : Store → Store → Prop := Relation.ReflTransGen (Change rt)

/-! ### The payload -/

variable {s s' : Store} {conversationId : String} {e : Element} {attrs : AppendAttrs} {op : Operation} {b : Whiteboard}
  {elements : List Element} {kind : OperationKind} {sourceVersionId : Option String}

theorem mem_mapM {α β : Type} {f : α → Option β} {l : List α} : ∀ {l' : List β}, l.mapM f = some l' →
    (∀ b ∈ l', ∃ a ∈ l, f a = some b) ∧ ∀ a ∈ l, ∃ b ∈ l', f a = some b := by
  induction l with
  | nil =>
    intro l' h
    obtain rfl : [] = l' := by simpa using h
    exact ⟨fun b hb => (by cases hb), fun a ha => (by cases ha)⟩
  | cons a l ih =>
    intro l' h
    rw [List.mapM_cons] at h
    obtain ⟨c, hc, h⟩ := Option.bind_eq_some_iff.1 h
    obtain ⟨l'', hl, h⟩ := Option.bind_eq_some_iff.1 h
    obtain rfl : c :: l'' = l' := Option.some.inj h
    obtain ⟨hfrom, hto⟩ := ih hl
    rw [List.forall_mem_cons, List.forall_mem_cons]
    refine ⟨⟨⟨a, by simp, hc⟩, fun b hb => ?_⟩, ⟨c, by simp, hc⟩, fun a' ha' => ?_⟩
    · obtain ⟨a', ha', hf⟩ := hfrom b hb
      exact ⟨a', by simp [ha'], hf⟩
    · obtain ⟨b, hb, hf⟩ := hto a' ha'
      exact ⟨b, by simp [hb], hf⟩

section Payload

variable {rt : Runtime}

theorem identifier_eq {value : Option String} {id : String} (h : Payload.identifier value = some id) :
    ∃ raw, value = some raw ∧ id = trim raw ∧ 8 ≤ id.utf8ByteSize ∧ id.utf8ByteSize ≤ 128 := by
  cases value with
  | none => cases h
  | some raw =>
    simp only [Payload.identifier] at h
    split at h
    · rename_i hsize
      obtain rfl := Option.some.inj h
      exact ⟨raw, rfl, rfl, hsize⟩
    · cases h

/-- The members of a normalised element. -/
theorem normalizeElement_eq {attrs : ElementAttrs} (h : Payload.normalizeElement rt attrs = some e) :
    Payload.identifier attrs.id = some e.id ∧ attrs.type = some e.type ∧ attrs.version = e.version ∧
      attrs.versionNonce = e.versionNonce ∧ (∃ version, e.version = some version ∧ 0 < version) ∧
      (∃ versionNonce, e.versionNonce = some versionNonce) ∧
      attrs.isDeleted = e.isDeleted ∧ attrs.fileId = e.fileId ∧ attrs.rest = e.rest := by
  unfold Payload.normalizeElement at h
  split at h
  · rename_i id type version versionNonce hid htype hversion hnonce
    split at h
    · rename_i hcond
      dsimp only at h
      split at h
      · obtain rfl := Option.some.inj h
        exact ⟨hid, htype, hversion, hnonce, ⟨version, rfl, hcond.1⟩, ⟨versionNonce, rfl⟩, rfl, rfl, rfl⟩
      · cases h
    · cases h
  · cases h

theorem normalizeElement_valid {attrs : ElementAttrs} (h : Payload.normalizeElement rt attrs = some e) : e.Valid := by
  obtain ⟨hid, -, -, -, hversion, hnonce, -⟩ := normalizeElement_eq h
  obtain ⟨raw, -, heq, hsize⟩ := identifier_eq hid
  exact ⟨⟨by rw [heq, trim_trim], hsize⟩, hversion, hnonce⟩

/-- A valid element is sent again as it is. -/
theorem normalizeElement_attrs {e' : Element} (h : e.Valid)
    (h' : Payload.normalizeElement rt e.attrs = some e') : e' = e := by
  obtain ⟨hid, htype, hversion, hnonce, -, -, hdeleted, hfile, hrest⟩ := normalizeElement_eq h'
  obtain ⟨raw, hraw, heq, -⟩ := identifier_eq hid
  obtain rfl : e.id = raw := Option.some.inj hraw
  have hid' : e'.id = e.id := heq.trans h.id.1
  have htype' : e'.type = e.type := (Option.some.inj htype).symm
  have hversion' : e'.version = e.version := hversion.symm
  have hnonce' : e'.versionNonce = e.versionNonce := hnonce.symm
  have hdeleted' : e'.isDeleted = e.isDeleted := hdeleted.symm
  have hfile' : e'.fileId = e.fileId := hfile.symm
  have hrest' : e'.rest = e.rest := hrest.symm
  cases e
  cases e'
  simp only at hid' htype' hversion' hnonce' hdeleted' hfile' hrest'
  subst hid' htype' hversion' hnonce' hdeleted' hfile' hrest'
  rfl

theorem Accepted.valid (h : Accepted rt e) : e.Valid := by
  obtain ⟨attrs, sent, hsent, rfl⟩ := h
  have hvalid := normalizeElement_valid hsent
  exact ⟨hvalid.id, hvalid.version, hvalid.versionNonce⟩

/-- What is read back is not changed when it is written again. -/
theorem Accepted.stored (h : Accepted rt e) : rt.jsonb.element e = e := by
  obtain ⟨attrs, sent, -, rfl⟩ := h
  unfold Jsonb.element
  dsimp only
  rw [rt.jsonb.rest_rest]

/-- What is restored is what is in the checkpoint. -/
theorem Restored.mem {v : Version} (h : Restored rt v op) (haccepted : ∀ e ∈ v.elements, Accepted rt e)
    (he : e ∈ op.elements) : e ∈ v.elements := by
  obtain ⟨e', he', hsent⟩ := h.elements e he
  obtain ⟨sent, hnormal, rfl⟩ := Option.map_eq_some_iff.1 hsent
  rw [normalizeElement_attrs (haccepted e' he').valid hnormal, (haccepted e' he').stored]
  exact he'

/-- What an accepted payload holds. -/
theorem validate_ok (h : Payload.validate rt attrs = .ok (kind, elements)) :
    (kind = .boardClear → elements = []) ∧
      ∀ e ∈ elements, ∃ sent, attrs.elements = some sent ∧ ∃ a ∈ sent, Payload.normalizeElement rt a = some e := by
  unfold Payload.validate at h
  split at h
  · rename_i sent hkind hsent
    split at h
    · split at h
      · rename_i normalized hnormalized
        split at h
        · obtain ⟨rfl, rfl⟩ := Prod.mk.inj (Except.ok.inj h)
          refine ⟨fun hclear => (by cases hclear), fun e he => ⟨sent, hsent, ?_⟩⟩
          exact (mem_mapM hnormalized).1 e he
        · cases h
      · cases h
    · cases h
  · split at h
    · obtain ⟨rfl, rfl⟩ := Prod.mk.inj (Except.ok.inj h)
      exact ⟨fun _ => rfl, fun e he => (by cases he)⟩
    · cases h
  · cases h

/-- Every element that has been sent is accepted with the payload. -/
theorem validate_normalized {sent : List ElementAttrs} (h : Payload.validate rt attrs = .ok (kind, elements))
    (hkind : attrs.kind = some .sceneUpdate) (hsent : attrs.elements = some sent) :
    ∀ a ∈ sent, ∃ e, Payload.normalizeElement rt a = some e := by
  unfold Payload.validate at h
  rw [hkind, hsent] at h
  dsimp only at h
  split at h
  · split at h
    · rename_i normalized hnormalized
      intro a ha
      obtain ⟨e, -, he⟩ := (mem_mapM hnormalized).2 a ha
      exact ⟨e, he⟩
    · cases h
  · cases h

private theorem flatten_chunkElement (state : List (List Element) × List Element × Nat) (e : Element) :
    (chunkElement rt state e).1.flatten ++ (chunkElement rt state e).2.1 = state.1.flatten ++ state.2.1 ++ [e] := by
  unfold chunkElement
  dsimp only
  by_cases hfull : state.2.1.length = Payload.maximumElementsPerUpdate ∨
      Payload.maximumEncodedBytes < state.2.2 + rt.encodedBytes e + if 0 < state.2.1.length then 1 else 0
  · rw [if_pos hfull, List.flatten_append, List.flatten_singleton]
  · rw [if_neg hfull, List.append_assoc]

/-- The chunks are the elements in their order. -/
theorem flatten_chunkElements (rt : Runtime) (elements : List Element) :
    (chunkElements rt elements).flatten = elements := by
  have hfold : ∀ (l : List Element) (state : List (List Element) × List Element × Nat),
      (l.foldl (chunkElement rt) state).1.flatten ++ (l.foldl (chunkElement rt) state).2.1 =
        state.1.flatten ++ state.2.1 ++ l := by
    intro l
    induction l with
    | nil => intro state; rw [List.append_nil]; rfl
    | cons e l ih =>
      intro state
      rw [List.foldl_cons, ih, flatten_chunkElement, List.append_assoc, List.singleton_append]
  have hall := hfold elements ([], [], 15)
  rw [List.flatten_nil, List.nil_append, List.nil_append] at hall
  unfold chunkElements
  dsimp only
  split
  · rename_i hempty
    rwa [hempty, List.append_nil] at hall
  · rwa [List.flatten_append, List.flatten_singleton]

/-- The chunks of a checkpoint have no other elements. -/
theorem mem_chunkElements {chunk : List Element} (hchunk : chunk ∈ chunkElements rt elements) :
    ∀ e ∈ chunk, e ∈ elements := by
  intro e he
  rw [← flatten_chunkElements rt elements]
  exact List.mem_flatten_of_mem hchunk he

end Payload

/-! ### The commands -/

section Commands

variable {rt : Runtime} {call : Call}

theorem board?_some {tenantId : String} (h : s.board? tenantId conversationId = some b) :
    b ∈ s.boards ∧ b.tenantId = tenantId ∧ b.conversationId = conversationId := by
  have hprop := List.find?_some h
  rw [decide_eq_true_eq] at hprop
  exact ⟨List.mem_of_find?_eq_some h, hprop⟩

theorem lockOrCreate_changes (rt : Runtime) (h : lockOrCreateWhiteboard call s conversationId = .ok (s', b)) :
    Changes rt s s' ∧ b ∈ s'.boards ∧ b.tenantId = call.subject.tenantId ∧ b.conversationId = conversationId := by
  unfold lockOrCreateWhiteboard at h
  split at h
  · rename_i b' hb
    obtain ⟨rfl, rfl⟩ := Prod.mk.inj (Except.ok.inj h)
    exact ⟨.refl, board?_some hb⟩
  · rename_i hnone
    dsimp only at h
    split at h
    · cases h
    · rename_i hfresh
      obtain ⟨rfl, rfl⟩ := Prod.mk.inj (Except.ok.inj h)
      refine ⟨.single (.create _ hfresh hnone rfl), ?_, rfl, rfl⟩
      rw [List.mem_append]
      exact Or.inr (List.mem_singleton.2 rfl)

theorem sourceAuthors_ok {sources : List String} (h : sourceAuthors s b sourceVersionId = .ok sources) :
    sourceVersionId = none ∧ sources = [] ∨ ∃ v ∈ s.versions, sourceVersionId = some v.id ∧
      v.tenantId = b.tenantId ∧ v.whiteboardId = b.id ∧ sources = v.sourceActorUserIds := by
  unfold sourceAuthors at h
  split at h
  · exact Or.inl ⟨rfl, (Except.ok.inj h).symm⟩
  · rename_i versionId
    split at h
    · rename_i v hv
      have hprop := List.find?_some hv
      rw [decide_eq_true_eq] at hprop
      exact Or.inr ⟨v, List.mem_of_find?_eq_some hv, by rw [hprop.1], hprop.2.1, hprop.2.2, (Except.ok.inj h).symm⟩
    · cases h

theorem appendNew_ok {clientOperationId : String} {sources : List String} {baseSequence : Nat}
    (h : appendNew rt call s conversationId clientOperationId b kind elements sources baseSequence = .ok (s', op)) :
    ∃ prepared, op = newOperation call conversationId clientOperationId b kind (elements.map rt.jsonb.element) sources ∧
      op.id ∉ s.operations.map Operation.id ∧
      Snapshots.prepare rt s b (s.latestClear b.id) kind (elements.map rt.jsonb.element) = .ok prepared ∧
      s' = s.appended rt b op prepared := by
  unfold appendNew at h
  dsimp only at h
  obtain ⟨_, -, h⟩ := bind_ok.1 h
  obtain ⟨prepared, hprepare, h⟩ := bind_ok.1 h
  obtain ⟨_, -, h⟩ := bind_ok.1 h
  split at h
  · cases h
  · rename_i hfresh
    obtain ⟨rfl, rfl⟩ := Prod.mk.inj (Except.ok.inj h)
    exact ⟨prepared, rfl, hfresh, hprepare, rfl⟩

/-- An append with the elements of a checkpoint names the checkpoint. -/
def SentFrom (s : Store) (attrs : AppendAttrs) (sourceVersionId : Option String) : Prop :=
  ∀ v ∈ s.versions, sourceVersionId = some v.id →
    ∀ sent, attrs.elements = some sent → ∀ a ∈ sent, ∃ e ∈ v.elements, a = e.attrs

theorem lockOrCreate_versions
    (h : lockOrCreateWhiteboard call s conversationId = .ok (s', b)) : s'.versions = s.versions := by
  unfold lockOrCreateWhiteboard at h
  split at h
  · obtain ⟨rfl, rfl⟩ := Prod.mk.inj (Except.ok.inj h)
    rfl
  · dsimp only at h
    split at h
    · cases h
    · obtain ⟨rfl, rfl⟩ := Prod.mk.inj (Except.ok.inj h)
      rfl

/-- The upkeep of the snapshots touches nothing else. -/
theorem maintain_frame (s : Store) (b : Whiteboard) (sequence : Nat) (prepared : Snapshots.Prepared) :
    Snapshots.maintain rt s b sequence prepared =
      { s with snapshots := (Snapshots.maintain rt s b sequence prepared).snapshots } := by
  have hpersist : ∀ scene generation, Snapshots.persist rt s b scene sequence generation =
      { s with snapshots := (Snapshots.persist rt s b scene sequence generation).snapshots } := by
    intro scene generation
    unfold Snapshots.persist
    dsimp only
    split <;> rfl
  cases prepared with
  | clear scene => exact hpersist scene sequence
  | update scene generation existing =>
    unfold Snapshots.maintain
    dsimp only
    split
    · exact hpersist scene generation
    · rfl

theorem appendWithSource_changes {status : Status} (hsent : SentFrom s attrs sourceVersionId)
    (h : appendWithSource rt call conversationId attrs sourceVersionId s = .ok (s', op, status)) :
    Changes rt s s' ∧ s'.versions = s.versions := by
  unfold appendWithSource at h
  obtain ⟨_, -, h⟩ := bind_ok.1 h
  obtain ⟨clientOperationId, -, h⟩ := bind_ok.1 h
  obtain ⟨baseSequence, -, h⟩ := bind_ok.1 h
  obtain ⟨⟨kind, elements⟩, hvalidate, h⟩ := bind_ok.1 h
  obtain ⟨_, -, h⟩ := bind_ok.1 h
  obtain ⟨⟨locked, b⟩, hlock, h⟩ := bind_ok.1 h
  obtain ⟨_, -, h⟩ := bind_ok.1 h
  obtain ⟨sources, hsources, h⟩ := bind_ok.1 h
  obtain ⟨_, -, h⟩ := bind_ok.1 h
  obtain ⟨result, hresult, h⟩ := bind_ok.1 h
  obtain ⟨_, -, h⟩ := bind_ok.1 h
  obtain rfl := Except.ok.inj h
  have hversions := lockOrCreate_versions hlock
  obtain ⟨hchanges, hmem, htenant, hconversation⟩ := lockOrCreate_changes rt hlock
  unfold appendOrReplay at hresult
  split at hresult
  · split at hresult
    · obtain ⟨rfl, -⟩ := Prod.mk.inj (Except.ok.inj hresult)
      exact ⟨hchanges, hversions⟩
    · cases hresult
  · obtain ⟨⟨after, op'⟩, hnew, hresult⟩ := bind_ok.1 hresult
    obtain ⟨rfl, hpair⟩ := Prod.mk.inj (Except.ok.inj hresult)
    obtain ⟨prepared, rfl, hfresh, hprepare, rfl⟩ := appendNew_ok hnew
    obtain ⟨hclear, hvalid⟩ := validate_ok hvalidate
    refine ⟨hchanges.tail (.append b _ prepared hmem ?_ hprepare), ?_⟩
    · refine ⟨hfresh, rfl, htenant.symm, hconversation.symm, rfl, fun e he => ?_, fun hkind => ?_, ?_⟩
      · obtain ⟨n, hn, rfl⟩ := List.mem_map.1 (show e ∈ elements.map rt.jsonb.element from he)
        obtain ⟨sent, -, a, -, ha⟩ := hvalid n hn
        exact ⟨a, n, ha, rfl⟩
      · show elements.map rt.jsonb.element = []
        rw [hclear hkind]
        rfl
      · rcases sourceAuthors_ok hsources with ⟨-, hnone⟩ | ⟨v, hv, hid, hvtenant, hvboard, heq⟩
        · exact Or.inl hnone
        · refine Or.inr ⟨v, hv, hvboard, hvtenant.trans htenant, heq, fun e he => ?_⟩
          obtain ⟨n, hn, rfl⟩ := List.mem_map.1 (show e ∈ elements.map rt.jsonb.element from he)
          obtain ⟨sent, hattrs, a, ha, hnormal⟩ := hvalid n hn
          obtain ⟨e', he', rfl⟩ := hsent v (hversions ▸ hv) hid sent hattrs a ha
          exact ⟨e', he', by rw [hnormal]; rfl⟩
    · unfold Store.appended
      rw [maintain_frame]
      exact hversions

theorem append_changes {status : Status}
    (h : append rt call conversationId attrs s = .ok (s', op, status)) : Changes rt s s' :=
  (appendWithSource_changes (fun _ _ hid => (by cases hid)) h).1

theorem withBoard_ok {β : Type} {f : Whiteboard → Except WhiteboardError β} {r : β}
    (h : withBoard call s conversationId f = .ok r) : ∃ b ∈ s.boards, b.tenantId = call.subject.tenantId ∧
      b.conversationId = conversationId ∧ f b = .ok r := by
  unfold withBoard at h
  obtain ⟨_, -, h⟩ := bind_ok.1 h
  obtain ⟨_, -, h⟩ := bind_ok.1 h
  split at h
  · cases h
  · rename_i b hb
    obtain ⟨_, -, h⟩ := bind_ok.1 h
    obtain ⟨result, hresult, h⟩ := bind_ok.1 h
    obtain ⟨_, -, h⟩ := bind_ok.1 h
    obtain rfl := Except.ok.inj h
    obtain ⟨hmem, htenant, hconversation⟩ := board?_some hb
    exact ⟨b, hmem, htenant, hconversation, hresult⟩

theorem rename_changes {title : Option String} {expectedVersion : Option Nat}
    (h : rename rt call conversationId title expectedVersion s = .ok s') : Changes rt s s' := by
  unfold rename at h
  split at h
  · obtain ⟨b, hb, -, -, h⟩ := withBoard_ok h
    split at h
    · cases h
    · obtain rfl := Except.ok.inj h
      exact .single (.rename b _ _ hb)
  · cases h

theorem checkpoint_changes {label : Option String} {expectedSequence : Option Nat}
    (h : checkpoint rt call conversationId label expectedSequence s = .ok s') :
    Changes rt s s' := by
  unfold checkpoint at h
  split at h
  · obtain ⟨b, hb, -, -, h⟩ := withBoard_ok h
    split at h
    · cases h
    · split at h
      · cases h
      · obtain ⟨elements, helements, h⟩ := bind_ok.1 h
        obtain ⟨_, -, h⟩ := bind_ok.1 h
        dsimp only at h
        split at h
        · cases h
        · rename_i hfresh
          obtain rfl := Except.ok.inj h
          exact .single (.checkpoint b _ hb ⟨hfresh, rfl, rfl, rfl, rfl, helements, rfl⟩)
  · cases h

theorem addAsset_changes {attachmentId : String} {receipt : Option (String × String)}
    (h : addAsset rt call conversationId attachmentId receipt s = .ok s') : Changes rt s s' := by
  unfold addAsset at h
  split at h
  · cases h
  · obtain ⟨b, hb, -, -, h⟩ := withBoard_ok h
    split at h
    · cases h
    · split at h
      · cases h
      · obtain ⟨_, -, h⟩ := bind_ok.1 h
        split at h
        · obtain rfl := Except.ok.inj h
          exact .refl
        · dsimp only at h
          split at h
          · cases h
          · obtain rfl := Except.ok.inj h
            exact .single (.addAsset b _ hb rfl rfl)

theorem appendCreated_changes (hsent : SentFrom s attrs sourceVersionId)
    (h : appendCreated rt call conversationId attrs sourceVersionId s = .ok (s', op)) :
    Changes rt s s' ∧ s'.versions = s.versions := by
  unfold appendCreated at h
  obtain ⟨⟨after, op', status⟩, happend, h⟩ := bind_ok.1 h
  dsimp only at h
  split at h
  · obtain ⟨rfl, rfl⟩ := Prod.mk.inj (Except.ok.inj h)
    exact appendWithSource_changes hsent happend
  · cases h

/-- Ids of checkpoints are unique. -/
def Store.VersionIds (s : Store) : Prop := (s.versions.map Version.id).Nodup

theorem restore_changes {versionId : String} {expectedSequence : Option Nat} (hids : s.VersionIds)
    (h : restore rt call conversationId versionId expectedSequence s = .ok s') :
    Changes rt s s' := by
  unfold restore at h
  split at h
  · cases h
  · rename_i versionId' _
    obtain ⟨b, hb, -, -, h⟩ := withBoard_ok h
    split at h
    · cases h
    · split at h
      · cases h
      · rename_i version hversion
        obtain ⟨_, -, h⟩ := bind_ok.1 h
        obtain ⟨⟨cleared, clear⟩, hclear, h⟩ := bind_ok.1 h
        have hmem := List.mem_of_find?_eq_some hversion
        obtain ⟨hchanges, hversions⟩ := appendCreated_changes (fun _ _ hid => (by cases hid)) hclear
        -- the loop over the chunks keeps the checkpoints
        have key : ∀ (l : List (List Element × Nat)) (t : Store), (∀ entry ∈ l, ∀ e ∈ entry.1, e ∈ version.elements) →
            Changes rt s t → t.versions = s.versions →
            (l.foldlM (fun s entry => do
              let call := call.part (entry.2 + 1)
              let created ← appendCreated rt call conversationId (restoreScene call clear.sequence entry.1)
                (some version.id) s
              Except.ok created.1) t) = .ok s' → Changes rt s s' := by
          intro l
          induction l with
          | nil =>
            intro t _ ht _ hl
            obtain rfl := Except.ok.inj hl
            exact ht
          | cons entry l ih =>
            intro t hentries ht htversions hl
            obtain ⟨u, hu, hl⟩ := foldlM_cons_ok.1 hl
            obtain ⟨⟨u', op⟩, hcreated, hu⟩ := bind_ok.1 hu
            obtain rfl := Except.ok.inj hu
            obtain ⟨hstep, huversions⟩ := appendCreated_changes (fun v hv hid sent hsent a ha => by
              have hsame : v = version := by
                have hv' : v ∈ s.versions := htversions ▸ hv
                exact List.inj_on_of_nodup_map hids hv' hmem (Option.some.inj hid).symm
              obtain rfl := Option.some.inj hsent
              obtain ⟨e, he, rfl⟩ := List.mem_map.1 ha
              exact ⟨e, hsame ▸ hentries entry (by simp) e he, rfl⟩) hcreated
            exact ih u' (fun entry' h' => hentries entry' (by simp [h'])) (ht.trans hstep)
              (huversions.trans htversions) hl
        refine key _ cleared (fun entry hentry e he => ?_) hchanges hversions h
        exact mem_chunkElements (List.mem_zipIdx' hentry |>.2 ▸ List.getElem_mem _) e he

/-- An accepted command is a number of changes. -/
theorem exec_changes {command : Command} (hids : s.VersionIds)
    (h : exec rt call s command = .ok s') : Changes rt s s' := by
  cases command with
  | append conversationId attrs =>
    obtain ⟨⟨s'', op, status⟩, hr, rfl⟩ := map_ok.1 h
    exact append_changes hr
  | rename => exact rename_changes h
  | checkpoint => exact checkpoint_changes h
  | restore => exact restore_changes hids h
  | addAsset => exact addAsset_changes h

end Commands

end KComms.Whiteboards
