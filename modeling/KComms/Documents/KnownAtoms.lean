import KComms.Documents.Agreement

/-!
# The atoms the server knows

A document never loses an atom (`Lineage.ids_mono`), and it has the atoms of every edit that is stored
(`Lineage.edit_ids`).  An edit whose anchors and deleted atoms the document has is not refused for an unknown atom
(`applyOperation_ne_unknown`).
-/

namespace KComms.Documents

open FallibleLoop (bind_ok bind_error foldlM_cons_ok)

/-! ### What the rows of a document keep -/

variable {rt : Runtime} {d : Document} {changes : List Change} {line : List Document} {ops : List Operation}
  {generation baseVersion : Nat} {call : Call} {s : Store} {op : Operation} {request : OperationRequest}

theorem Lineage.nodup_versions (h : Lineage rt line ops) :
    (line.map Document.version).Nodup := by
  obtain ⟨hrows, hops⟩ := h.versions
  cases h with
  | created _ _ => simp
  | committed lineage fresh h =>
    rename_i d d' op line ops
    have := hops d' (by simp)
    rw [hrows, ← List.nodup_reverse, ← List.map_reverse, this]
    exact List.nodup_range'

/-- The operation of the next version takes a row to the next one. -/
theorem Lineage.next (h : Lineage rt line ops) :
    ∀ d ∈ line, ∀ op ∈ ops, op.version = d.version + 1 → ∃ d' ∈ line, Committed rt d op d' := by
  induction h with
  | created h valid =>
    intro d hd op hop hv
    obtain rfl := List.mem_singleton.1 hd
    obtain rfl := List.mem_singleton.1 hop
    have h1 := h.version
    have h2 := h.operationVersion
    omega
  | committed lineage fresh h ih =>
    rename_i d₀ d₁ op₀ line ops
    have hall := Lineage.committed lineage fresh h
    intro d hd op hop hv
    rcases List.mem_cons.1 hd with rfl | hd
    · have := hall.version_le op hop
      omega
    · rcases List.mem_cons.1 hop with rfl | hop
      · have hsame : d.version = d₀.version := by
          have := h.operationVersion
          omega
        have hdd : d = d₀ := List.inj_on_of_nodup_map lineage.nodup_versions hd List.mem_cons_self hsame
        exact ⟨d₁, List.mem_cons_self, hdd ▸ h⟩
      · obtain ⟨d', hd', hc⟩ := ih d hd op hop hv
        exact ⟨d', List.mem_cons_of_mem _ hd', hc⟩

/-- The ids of the atoms that the changes of an edit insert. -/
def insertedIds (operationId : String) (changes : List Change) : List String :=
  (List.range' 0 (Rga.insertedLength changes)).map (Rga.atomId operationId)

theorem Committed.insertedIds {d' : Document} (h : Committed rt d op d')
    (hinput : op.input = .edit generation baseVersion changes) :
    op.payload.insertedAtoms.map Atom.id = insertedIds op.clientOperationId changes := by
  obtain ⟨updated, happly, -⟩ := h.effect
  rw [hinput] at happly
  obtain ⟨r, hr, happly⟩ := bind_ok.1 happly
  obtain ⟨-, hrest⟩ := Prod.mk.inj (Except.ok.inj happly)
  obtain ⟨hpayload, -⟩ := Prod.mk.inj hrest
  rw [← hpayload, (Rga.apply_spec hr).inserted, Rga.insertedAtoms_ids]
  rfl

theorem Committed.ids_subset {d' : Document} (h : Committed rt d op d')
    (hd : Valid d) : d.atoms.map Atom.id ⊆ d'.atoms.map Atom.id ∧
      op.payload.insertedAtoms.map Atom.id ⊆ d'.atoms.map Atom.id := by
  obtain ⟨-, -, hperm, -⟩ := h.payload hd
  have hids := hperm.map Atom.id
  rw [Rga.map_mark_id, List.map_append] at hids
  exact ⟨fun id hid => hids.mem_iff.1 (List.mem_append_left _ hid),
    fun id hid => hids.mem_iff.1 (List.mem_append_right _ hid)⟩

/-- No atom of an earlier row is gone, and no atom that an edit inserted. -/
theorem Lineage.contains (h : Lineage rt line ops) :
    ∀ d ∈ line.head?, (∀ e ∈ line, e.atoms.map Atom.id ⊆ d.atoms.map Atom.id) ∧
      ∀ op ∈ ops, ∀ generation baseVersion changes, op.input = .edit generation baseVersion changes →
        insertedIds op.clientOperationId changes ⊆ d.atoms.map Atom.id := by
  induction h with
  | created h valid =>
    rename_i d op
    intro e he
    obtain rfl : d = e := by simpa using he
    refine ⟨fun e' he' => ?_, fun o ho generation baseVersion changes hinput => ?_⟩
    · obtain rfl := List.mem_singleton.1 he'
      exact fun _ h => h
    · obtain rfl := List.mem_singleton.1 ho
      obtain ⟨title, source, hcreate⟩ := h.input
      rw [hinput] at hcreate
      cases hcreate
  | committed lineage fresh h ih =>
    rename_i d d' op line ops
    intro e he
    obtain rfl : d' = e := by simpa using he
    obtain ⟨hrows, hops⟩ := ih d (by simp)
    obtain ⟨hold, hnew⟩ := h.ids_subset (lineage.valid d (by simp))
    refine ⟨fun e' he' => ?_, fun o ho generation baseVersion changes hinput => ?_⟩
    · rcases List.mem_cons.1 he' with rfl | he'
      · exact fun _ h => h
      · exact List.Subset.trans (hrows e' he') hold
    · rcases List.mem_cons.1 ho with rfl | ho
      · rw [← h.insertedIds hinput]
        exact hnew
      · exact List.Subset.trans (hops o ho generation baseVersion changes hinput) hold

theorem Lineage.ids_mono (h : Lineage rt line ops) {e : Document} (hd : d ∈ line) (he : e ∈ line)
    (hle : d.version ≤ e.version) :
    d.atoms.map Atom.id ⊆ e.atoms.map Atom.id := by
  obtain ⟨rest, ops', hl, -, hrest⟩ := h.upTo e he
  exact (hl.contains e (by simp)).1 d (hrest d hd hle)

theorem Lineage.edit_ids (h : Lineage rt line ops) {e : Document} (hop : op ∈ ops) (he : e ∈ line)
    (hle : op.version ≤ e.version) (hinput : op.input = .edit generation baseVersion changes) :
    insertedIds op.clientOperationId changes ⊆ e.atoms.map Atom.id := by
  obtain ⟨rest, ops', hl, hops, -⟩ := h.upTo e he
  have hmem : op ∈ ops' := by
    rw [← List.mem_reverse, hops, List.mem_filter]
    exact ⟨List.mem_reverse.2 hop, by simpa using hle⟩
  exact (hl.contains e (by simp)).2 op hmem generation baseVersion changes hinput

/-! ### When the server knows the atoms -/

/-- The atoms that the changes of an edit refer to. -/
def references (changes : List Change) : List String :=
  changes.flatMap fun change => change.afterId.toList ++ change.deleteIds

private theorem foldlM_applyChange_isOk {operationId : String} {version : Nat} :
    ∀ {p : Rga.Progress}, (∀ id ∈ references changes, id ∈ p.nodes.keys) →
      ∃ p', changes.foldlM (Rga.applyChange operationId version) p = .ok p' := by
  induction changes with
  | nil => intro p _; exact ⟨p, rfl⟩
  | cons change changes ih =>
    intro p hp
    have hchange : ∀ id ∈ change.afterId.toList ++ change.deleteIds, id ∈ p.nodes.keys := fun id hid =>
      hp id (by rw [references, List.flatMap_cons]; exact List.mem_append_left _ hid)
    obtain ⟨q, hq⟩ : ∃ q, Rga.applyChange operationId version p change = .ok q :=
      Rga.applyChange_isOk (fun id hid => hchange id (by simp [hid])) fun id hid => hchange id (by simp [hid])
    obtain ⟨-, -, hn, -⟩ := Rga.applyChange_ok hq
    have hkeys : ∀ id ∈ references changes, id ∈ q.nodes.keys := by
      intro id hid
      rw [hn, OrderedMap.mem_keys_setAll, Rga.keys_foldl_markDeleted]
      exact Or.inl (hp id (by rw [references, List.flatMap_cons]; exact List.mem_append_right _ hid))
    obtain ⟨p', hp'⟩ := ih hkeys
    exact ⟨p', foldlM_cons_ok.2 ⟨q, hq, hp'⟩⟩

/-- An edit that only refers to atoms of the document is not refused for an unknown atom. -/
theorem apply_ne_unknown {values : Enumeration String Atom} {atoms : List Atom} {operationId : String} {version : Nat}
    (h : ∀ id ∈ references changes, id ∈ atoms.map Atom.id) :
    Rga.apply values atoms changes operationId version ≠ .error .unknownDocumentAtom := by
  unfold Rga.apply
  split
  · have hkeys : ∀ id ∈ references changes, id ∈ (OrderedMap.ofList (atoms.map Rga.keyed)).keys := by
      intro id hid
      rw [OrderedMap.ofList, OrderedMap.mem_keys_setAll, Rga.map_keyed_fst]
      exact Or.inr (h id hid)
    obtain ⟨p, hp⟩ : ∃ p, changes.foldlM (Rga.applyChange operationId version)
        ⟨OrderedMap.ofList (atoms.map Rga.keyed), [], [], 0⟩ = .ok p := foldlM_applyChange_isOk hkeys
    change (changes.foldlM (Rga.applyChange operationId version) ⟨OrderedMap.ofList (atoms.map Rga.keyed), [], [], 0⟩ >>=
      _) ≠ _
    rw [hp]
    change (if _ then _ else _) ≠ _
    split
    · simp
    · split <;> simp
  · simp

private theorem authorize_ne_unknown (call : Call) (check : Check) :
    call.authorize check ≠ .error .unknownDocumentAtom := by
  unfold Call.authorize
  split <;> simp

private theorem castUuid_ne_unknown (rt : Runtime) (value : Option String) :
    castUuid rt value ≠ .error .unknownDocumentAtom := by
  unfold castUuid
  split <;> simp

private theorem normalizeTitle_ne_unknown (title : Option String) :
    normalizeTitle title ≠ .error .unknownDocumentAtom := by
  unfold normalizeTitle
  split
  · simp
  · dsimp only
    split <;> simp

private theorem normalizeInput_ne_unknown (kind : EditKind) (attrs : OperationAttrs) (generation baseVersion : Nat) :
    normalizeInput kind attrs generation baseVersion ≠ .error .unknownDocumentAtom := by
  cases kind with
  | edit =>
    simp only [normalizeInput]
    split <;> simp
  | rename =>
    intro h
    rcases bind_error.1 h with h | ⟨_, -, h⟩
    · exact normalizeTitle_ne_unknown _ h
    · cases h

private theorem normalizeRequest_ne_unknown (rt : Runtime) (attrs : OperationAttrs) :
    normalizeRequest rt attrs ≠ .error .unknownDocumentAtom := by
  intro h
  rcases bind_error.1 h with h | ⟨clientId, -, h⟩
  · exact castUuid_ne_unknown rt _ h
  · split at h
    · split at h
      · rcases bind_error.1 h with h | ⟨_, -, h⟩
        · exact normalizeInput_ne_unknown _ _ _ _ h
        · cases h
      · cases h
    · cases h

private theorem authorityDocument_ne_unknown (rt : Runtime) (call : Call) (d : Document) :
    authorityDocument rt call d ≠ .error .unknownDocumentAtom := by
  unfold authorityDocument
  split
  · simp
  split
  · exact authorize_ne_unknown call _
  · simp

private theorem insertOperation_ne_unknown {clientId : String} {kind : OperationKind} {input : OperationInput}
    {payload : Payload} {version : Nat} :
    insertOperation rt call s d clientId kind input payload version ≠ .error .unknownDocumentAtom := by
  unfold insertOperation
  dsimp only
  split <;> simp

/-- The request that carries an edit. -/
def editAttrs (input : Model.DocumentEdit) : OperationAttrs :=
  ⟨some input.clientOperationId, some input.generation, some input.baseVersion, some .edit, some input.changes, none⟩

theorem normalizeRequest_edit {input : Model.DocumentEdit} (h : normalizeRequest rt (editAttrs input) = .ok request) :
    rt.uuidCast input.clientOperationId = some request.clientId ∧
      request.input = .edit input.generation input.baseVersion input.changes := by
  obtain ⟨clientId, hclient, h⟩ := bind_ok.1 h
  have hcast : rt.uuidCast input.clientOperationId = some clientId := by
    unfold castUuid at hclient
    split at hclient
    · rename_i id hid
      obtain rfl := Except.ok.inj hclient
      simpa [editAttrs] using hid
    · exact absurd hclient (by simp)
  dsimp only [editAttrs] at h
  split at h
  · obtain ⟨_, hinput, h⟩ := bind_ok.1 h
    obtain rfl := Except.ok.inj h
    obtain rfl := Except.ok.inj hinput
    exact ⟨hcast, rfl⟩
  · exact absurd h (by simp)

private theorem commitOperation_ne_unknown (hinput : request.input = .edit generation baseVersion changes)
    (hrefs : ∀ id ∈ references changes, id ∈ d.atoms.map Atom.id) :
    commitOperation rt call s d request ≠ .error .unknownDocumentAtom := by
  unfold commitOperation
  dsimp only
  split
  · simp
  split
  · simp
  split
  · simp
  split
  · simp
  intro h
  rcases bind_error.1 h with h | ⟨_, -, h⟩
  · rw [hinput] at h
    rcases bind_error.1 h with h | ⟨_, -, h⟩
    · exact apply_ne_unknown hrefs h
    · cases h
  rcases bind_error.1 h with h | ⟨_, -, h⟩
  · exact authorize_ne_unknown call _ h
  rcases bind_error.1 h with h | ⟨_, -, h⟩
  · exact insertOperation_ne_unknown h
  · cases h

private theorem resolveOperation_ne_unknown (hinput : request.input = .edit generation baseVersion changes)
    (hrefs : ∀ id ∈ references changes, id ∈ d.atoms.map Atom.id) :
    resolveOperation rt call s d request ≠ .error .unknownDocumentAtom := by
  unfold resolveOperation
  split
  · split <;> simp
  · exact commitOperation_ne_unknown hinput hrefs

theorem applyOperation_ne_unknown {documentId : String} {input : Model.DocumentEdit}
    (hrefs : ∀ d ∈ s.documents, rt.uuidCast documentId = some d.id → d.erasedAt = none →
      ∀ id ∈ references input.changes, id ∈ d.atoms.map Atom.id) :
    applyOperation rt call documentId (editAttrs input) s ≠ .error .unknownDocumentAtom := by
  intro h
  rcases bind_error.1 h with h | ⟨request, hrequest, h⟩
  · exact normalizeRequest_ne_unknown rt _ h
  unfold withDocument at h
  split at h
  · cases h
  rename_i d hd
  obtain ⟨id, hid, hfind⟩ := Option.bind_eq_some_iff.1 hd
  have hmem := List.mem_of_find?_eq_some hfind
  have hsome := List.find?_some hfind
  simp only [decide_eq_true_eq] at hsome
  rcases bind_error.1 h with h | ⟨_, -, h⟩
  · exact authorize_ne_unknown call _ h
  rcases bind_error.1 h with h | ⟨_, hauth, h⟩
  · exact authorityDocument_ne_unknown rt call d h
  rcases bind_error.1 h with h | ⟨_, -, h⟩
  · dsimp only at h
    split at h
    · cases h
    rcases bind_error.1 h with h | ⟨_, -, h⟩
    · exact resolveOperation_ne_unknown (normalizeRequest_edit hrequest).2
        (hrefs d hmem (by rw [hid, hsome.1]) (authorityDocument_ok hauth)) h
    rcases bind_error.1 h with h | ⟨_, -, h⟩
    · exact authorize_ne_unknown call _ h
    · cases h
  rcases bind_error.1 h with h | ⟨_, -, h⟩
  · exact authorize_ne_unknown call _ h
  · cases h

end KComms.Documents
