import KComms.Whiteboards.Erasure

/-!
# Elements that can be sent again

A restore sends the elements of a checkpoint in chunks.  Each chunk keeps within the bounds of a payload
(`chunkElements_bounded`), and an element that has been accepted once is accepted again as it is (`Sendable`), unless the
database gives it back longer than an element may be (`Accepted.sendable`).  So a chunk without such an element is never
refused by `Payload.validate` (`validate_chunk`).
-/

namespace KComms.Whiteboards

open ElixirString (trim trim_trim)
open FallibleLoop (bind_ok map_ok foldlM_cons_ok)

/-! ### Chunks -/

variable {conversationId : String}

section Chunks

variable {rt : Runtime}

/-- In `chunk_elements`. -/
private structure ChunkInv (rt : Runtime) (state : List (List Element) × List Element × Nat) : Prop where
  chunks : ∀ chunk ∈ state.1, chunk ≠ [] ∧ chunk.length ≤ Payload.maximumElementsPerUpdate ∧
    Payload.encodedBytes rt chunk ≤ Payload.maximumEncodedBytes
  count : state.2.1.length ≤ Payload.maximumElementsPerUpdate
  bytes : state.2.2 = Payload.encodedBytes rt state.2.1
  bound : state.2.2 ≤ Payload.maximumEncodedBytes

private theorem encodedBytes_concat (current : List Element) (e : Element) :
    Payload.encodedBytes rt (current ++ [e]) =
      Payload.encodedBytes rt current + rt.encodedBytes e + if 0 < current.length then 1 else 0 := by
  unfold Payload.encodedBytes
  rw [List.map_append, List.sum_append, List.length_append, List.map_singleton, List.sum_singleton, List.length_singleton]
  split <;> omega

private theorem ChunkInv.step {state : List (List Element) × List Element × Nat} (h : ChunkInv rt state) {e : Element}
    (he : rt.encodedBytes e ≤ Payload.maximumElementBytes) : ChunkInv rt (chunkElement rt state e) := by
  obtain ⟨chunks, current, bytes⟩ := state
  obtain ⟨hchunks, hcount, hbytes, hbound⟩ := h
  dsimp only at hchunks hcount hbytes hbound
  have hsingle : Payload.encodedBytes rt [e] = 15 + rt.encodedBytes e := by
    unfold Payload.encodedBytes
    simp
  have hmaximum : Payload.maximumElementBytes + 15 ≤ Payload.maximumEncodedBytes := by decide
  unfold chunkElement
  dsimp only
  by_cases hfull : current.length = Payload.maximumElementsPerUpdate ∨
      Payload.maximumEncodedBytes < bytes + rt.encodedBytes e + if 0 < current.length then 1 else 0
  · rw [if_pos hfull]
    -- an empty chunk has room for any element
    have hcurrent : current ≠ [] := by
      rintro rfl
      unfold Payload.encodedBytes at hbytes
      simp only [List.map_nil, List.sum_nil, List.length_nil] at hbytes
      simp only [List.length_nil, Nat.lt_irrefl, if_false] at hfull
      rcases hfull with hfull | hfull
      · exact absurd hfull (by decide)
      · omega
    have hone : 1 ≤ Payload.maximumElementsPerUpdate := by decide
    refine ⟨?_, hone, hsingle.symm, ?_⟩
    · intro chunk hchunk
      rcases List.mem_append.1 hchunk with hold | hnew
      · exact hchunks chunk hold
      · rw [List.mem_singleton.1 hnew]
        exact ⟨hcurrent, hcount, hbytes ▸ hbound⟩
    · dsimp only
      omega
  · rw [if_neg hfull]
    rw [not_or, Nat.not_lt] at hfull
    refine ⟨hchunks, ?_, ?_, hfull.2⟩
    · dsimp only
      rw [List.length_append, List.length_singleton]
      omega
    · dsimp only
      rw [encodedBytes_concat, ← hbytes]

/-- Each chunk keeps within the bounds of a payload. -/
theorem chunkElements_bounded {elements : List Element}
    (h : ∀ e ∈ elements, rt.encodedBytes e ≤ Payload.maximumElementBytes) :
    ∀ chunk ∈ chunkElements rt elements, chunk ≠ [] ∧ chunk.length ≤ Payload.maximumElementsPerUpdate ∧
      Payload.encodedBytes rt chunk ≤ Payload.maximumEncodedBytes := by
  have hfold : ∀ (l : List Element) (state : List (List Element) × List Element × Nat), ChunkInv rt state →
      (∀ e ∈ l, rt.encodedBytes e ≤ Payload.maximumElementBytes) → ChunkInv rt (l.foldl (chunkElement rt) state) := by
    intro l
    induction l with
    | nil => intro state hstate _; exact hstate
    | cons e l ih =>
      intro state hstate hl
      exact ih _ (hstate.step (hl e List.mem_cons_self)) fun x hx => hl x (List.mem_cons_of_mem _ hx)
  have hend := hfold elements ([], [], 15) ⟨(fun _ hchunk => by cases hchunk), Nat.zero_le _, rfl, by decide⟩ h
  unfold chunkElements
  dsimp only
  generalize elements.foldl (chunkElement rt) ([], [], 15) = state at hend
  obtain ⟨chunks, current, bytes⟩ := state
  obtain ⟨hchunks, hcount, hbytes, hbound⟩ := hend
  dsimp only at hchunks hcount hbytes hbound
  dsimp only
  split
  · exact hchunks
  · rename_i hnonempty
    intro chunk hchunk
    rcases List.mem_append.1 hchunk with hold | hnew
    · exact hchunks chunk hold
    · rw [List.mem_singleton.1 hnew]
      exact ⟨hnonempty, hcount, hbytes ▸ hbound⟩

end Chunks

/-! ### Elements that have been accepted -/

/-- `normalize_element` accepts the element as it is. -/
def Sendable (rt : Runtime) (e : Element) : Prop := Payload.normalizeElement rt e.attrs = some e

section Sendable

variable {rt : Runtime} {call : Call} {s s' : Store}

theorem normalizeElement_size {attrs : ElementAttrs} {e : Element} (h : Payload.normalizeElement rt attrs = some e) :
    rt.encodedBytes e ≤ Payload.maximumElementBytes ∧
      (e.type ≠ .image ∨ (e.fileId.bind rt.uuidCast).isSome = true) := by
  unfold Payload.normalizeElement at h
  split at h
  · rename_i id type version versionNonce hid htype hversion hnonce
    split at h
    · rename_i hcond
      dsimp only at h
      split at h
      · rename_i hsize
        obtain rfl := Option.some.inj h
        refine ⟨hsize, ?_⟩
        obtain ⟨-, -, himage⟩ := hcond
        unfold Payload.validImageReference at himage
        rw [Bool.or_eq_true, Bool.and_eq_true, decide_eq_true_eq] at himage
        rcases himage with hother | ⟨hcast, -⟩
        · exact Or.inl hother
        · exact Or.inr hcast
      · cases h
    · cases h
  · cases h

/-- What is accepted once is accepted again, unless it is read back too long. -/
theorem Accepted.sendable {e : Element} (h : Accepted rt e) (hsize : rt.encodedBytes e ≤ Payload.maximumElementBytes) :
    Sendable rt e := by
  obtain ⟨hid, ⟨version, hversion, hpositive⟩, ⟨versionNonce, hnonce⟩⟩ := h.valid
  have himage : e.type ≠ .image ∨ (e.fileId.bind rt.uuidCast).isSome = true := by
    obtain ⟨attrs, sent, hsent, rfl⟩ := h
    exact (normalizeElement_size hsent).2
  have hidentifier : Payload.identifier e.attrs.id = some e.id := by
    change (if 8 ≤ (trim e.id).utf8ByteSize ∧ (trim e.id).utf8ByteSize ≤ 128 then some (trim e.id) else none) = some e.id
    rw [hid.1, if_pos hid.2]
  have htype : e.attrs.type = some e.type := rfl
  have hversion' : e.attrs.version = some version := hversion
  have hnonce' : e.attrs.versionNonce = some versionNonce := hnonce
  have hreference : Payload.validImageReference rt e.type e.attrs = true := by
    unfold Payload.validImageReference Element.attrs
    rcases himage with hother | hcast
    · simp [hother]
    · simp [hcast]
  have hsame : (⟨e.id, e.type, some version, some versionNonce, e.attrs.isDeleted, e.attrs.fileId, e.attrs.rest⟩ : Element) =
      e := by
    rw [← hversion, ← hnonce]
    rfl
  unfold Sendable Payload.normalizeElement
  rw [hidentifier, htype, hversion', hnonce']
  dsimp only
  rw [hsame, if_pos ⟨hpositive, rfl, hreference⟩, if_pos hsize]

theorem mapM_sendable {l : List Element} (h : ∀ e ∈ l, Sendable rt e) :
    (l.map Element.attrs).mapM (Payload.normalizeElement rt) = some l := by
  induction l with
  | nil => rfl
  | cons e l ih =>
    have he : Payload.normalizeElement rt e.attrs = some e := h e List.mem_cons_self
    rw [List.map_cons, List.mapM_cons, he, ih fun x hx => h x (List.mem_cons_of_mem _ hx)]
    rfl

/-- A chunk of such elements passes. -/
theorem validate_chunk (call : Call) (sequence : Nat) {chunk : List Element} (hsend : ∀ e ∈ chunk, Sendable rt e)
    (hne : chunk ≠ []) (hcount : chunk.length ≤ Payload.maximumElementsPerUpdate)
    (hbytes : Payload.encodedBytes rt chunk ≤ Payload.maximumEncodedBytes) :
    Payload.validate rt (restoreScene call sequence chunk) = .ok (.sceneUpdate, chunk) := by
  have hlength : 1 ≤ (chunk.map Element.attrs).length ∧
      (chunk.map Element.attrs).length ≤ Payload.maximumElementsPerUpdate := by
    rw [List.length_map]
    exact ⟨List.length_pos_iff.2 hne, hcount⟩
  unfold Payload.validate restoreScene
  dsimp only
  rw [if_pos hlength, mapM_sendable hsend]
  dsimp only
  rw [if_pos hbytes]

/-- The checkpoint can be sent again, as a scene. -/
structure Version.Restorable (rt : Runtime) (v : Version) : Prop extends v.Shows rt where
  sendable : ∀ e ∈ v.elements, Sendable rt e

theorem Version.Shows.restorable {v : Version} (h : v.Shows rt)
    (hsize : ∀ e ∈ v.elements, rt.encodedBytes e ≤ Payload.maximumElementBytes) : v.Restorable rt :=
  ⟨h, fun e he => (h.accepted e he).sendable (hsize e he)⟩

/-- The elements of the checkpoint stay as they are when they are written again. -/
theorem Version.Shows.stored {v : Version} (h : v.Shows rt) {chunk : List Element} (hchunk : ∀ e ∈ chunk, e ∈ v.elements) :
    chunk.map rt.jsonb.element = chunk := by
  refine (List.map_congr_left fun e he => ?_).trans (List.map_id chunk)
  exact (h.accepted e (hchunk e he)).stored

end Sendable

/-! ### The commands -/

section Commands

variable {rt : Runtime} {call : Call} {s s' : Store}

theorem appendWithSource_ok {attrs : AppendAttrs} {sourceVersionId : Option String} {op : Operation} {status : Status}
    (h : appendWithSource rt call conversationId attrs sourceVersionId s = .ok (s', op, status)) :
    ∃ t b clientOperationId kind elements sources, lockOrCreateWhiteboard call s conversationId = .ok (t, b) ∧
      Payload.validate rt attrs = .ok (kind, elements) ∧ sourceAuthors t b sourceVersionId = .ok sources ∧
      (status = .duplicate ∧ s' = t ∨ ∃ prepared, status = .created ∧
        op = newOperation call conversationId clientOperationId b kind (elements.map rt.jsonb.element) sources ∧
        op.id ∉ t.operations.map Operation.id ∧
        Snapshots.prepare rt t b (t.latestClear b.id) kind (elements.map rt.jsonb.element) = .ok prepared ∧
        s' = t.appended rt b op prepared) := by
  unfold appendWithSource at h
  obtain ⟨_, -, h⟩ := bind_ok.1 h
  obtain ⟨clientOperationId, -, h⟩ := bind_ok.1 h
  obtain ⟨baseSequence, -, h⟩ := bind_ok.1 h
  obtain ⟨⟨kind, elements⟩, hvalidate, h⟩ := bind_ok.1 h
  obtain ⟨_, -, h⟩ := bind_ok.1 h
  obtain ⟨⟨locked, b⟩, hlock, h⟩ := bind_ok.1 h
  obtain ⟨_, -, h⟩ := bind_ok.1 h
  obtain ⟨sources, hsources, h⟩ := bind_ok.1 h
  obtain ⟨_, -, h⟩ := bind_ok.1 h
  obtain ⟨result, hresult, h⟩ := bind_ok.1 h
  obtain ⟨_, -, h⟩ := bind_ok.1 h
  obtain rfl := Except.ok.inj h
  refine ⟨locked, b, clientOperationId, kind, elements, sources, hlock, hvalidate, hsources, ?_⟩
  unfold appendOrReplay at hresult
  split at hresult
  · split at hresult
    · cases hresult
      exact Or.inl ⟨rfl, rfl⟩
    · cases hresult
  · obtain ⟨⟨after, op'⟩, hnew, hresult⟩ := bind_ok.1 hresult
    cases hresult
    obtain ⟨prepared, hop, hfresh, hprepare, hafter⟩ := appendNew_ok hnew
    exact Or.inr ⟨prepared, rfl, hop, hfresh, hprepare, hafter⟩

/-- An append that is accepted and is no duplicate. -/
theorem appendCreated_ok {attrs : AppendAttrs} {sourceVersionId : Option String} {op : Operation}
    (h : appendCreated rt call conversationId attrs sourceVersionId s = .ok (s', op)) :
    appendWithSource rt call conversationId attrs sourceVersionId s = .ok (s', op, .created) := by
  unfold appendCreated at h
  obtain ⟨⟨after, op', status⟩, happend, h⟩ := bind_ok.1 h
  dsimp only at h
  split at h
  · obtain ⟨rfl, rfl⟩ := Prod.mk.inj (Except.ok.inj h)
    exact happend
  · cases h

theorem withBoard_found {β : Type} {f : Whiteboard → Except WhiteboardError β} {r : β}
    (h : withBoard call s conversationId f = .ok r) :
    ∃ b, s.board? call.subject.tenantId conversationId = some b ∧ f b = .ok r := by
  unfold withBoard at h
  obtain ⟨_, -, h⟩ := bind_ok.1 h
  obtain ⟨_, -, h⟩ := bind_ok.1 h
  split at h
  · cases h
  · rename_i b hb
    obtain ⟨_, -, h⟩ := bind_ok.1 h
    obtain ⟨r', hr, h⟩ := bind_ok.1 h
    obtain ⟨_, -, h⟩ := bind_ok.1 h
    obtain rfl := Except.ok.inj h
    exact ⟨b, hb, hr⟩

theorem checkpoint_ok {label : Option String} {expectedSequence : Option Nat}
    (h : checkpoint rt call conversationId label expectedSequence s = .ok s') :
    ∃ b v, s.board? call.subject.tenantId conversationId = some b ∧ Checkpointed rt s b v ∧
      s' = { s with versions := s.versions ++ [v] } := by
  unfold checkpoint at h
  split at h
  · obtain ⟨b, hb, h⟩ := withBoard_found h
    split at h
    · cases h
    · split at h
      · cases h
      · obtain ⟨elements, helements, h⟩ := bind_ok.1 h
        obtain ⟨_, -, h⟩ := bind_ok.1 h
        dsimp only at h
        split at h
        · cases h
        · rename_i hfresh
          obtain rfl := Except.ok.inj h
          exact ⟨b, _, hb, ⟨hfresh, rfl, rfl, rfl, rfl, helements, rfl⟩, rfl⟩
  · cases h

/-- One round of the loop of `restore`. -/
def restoreChunk (rt : Runtime) (call : Call) (conversationId versionId : String) (sequence : Nat) (s : Store)
    (entry : List Element × Nat) : Except WhiteboardError Store := do
  let call := call.part (entry.2 + 1)
  let (s, _) ← appendCreated rt call conversationId (restoreScene call sequence entry.1) (some versionId) s
  .ok s

/-- What a restore does on its board. -/
def restoreOn (rt : Runtime) (call : Call) (conversationId : String) (s : Store) (board : Whiteboard)
    (version : Version) : Except WhiteboardError Store := do
  validateAssets rt call s board version.elements
  let (s, clear) ← appendCreated rt (call.part 0) conversationId (restoreClear (call.part 0)) none s
  (chunkElements rt version.elements).zipIdx.foldlM (restoreChunk rt call conversationId version.id clear.sequence) s

theorem restore_eq (rt : Runtime) (call : Call) (conversationId versionId : String) (expectedSequence : Option Nat)
    (s : Store) : restore rt call conversationId versionId expectedSequence s =
      match rt.uuidCast versionId with
      | none => .error .notFound
      | some versionId =>
        withBoard call s conversationId fun board =>
          if expectedSequence ≠ some board.sequence then .error .staleBoardVersion
          else
            match s.versions.find? fun v => v.id = versionId ∧ v.tenantId = board.tenantId ∧ v.whiteboardId = board.id with
            | none => .error .notFound
            | some version => restoreOn rt call conversationId s board version := rfl

theorem restore_ok {versionId : String} {expectedSequence : Option Nat}
    (h : restore rt call conversationId versionId expectedSequence s = .ok s') :
    ∃ b, ∃ v ∈ s.versions, s.board? call.subject.tenantId conversationId = some b ∧
      rt.uuidCast versionId = some v.id ∧ restoreOn rt call conversationId s b v = .ok s' := by
  rw [restore_eq] at h
  split at h
  · cases h
  · rename_i id hid
    obtain ⟨b, hb, hon⟩ := withBoard_found h
    split at hon
    · cases hon
    · split at hon
      · cases hon
      · rename_i v hv
        have hprop := List.find?_some hv
        rw [decide_eq_true_eq] at hprop
        obtain ⟨rfl, -⟩ := hprop
        exact ⟨b, v, List.mem_of_find?_eq_some hv, hb, hid, hon⟩

end Commands


end KComms.Whiteboards
