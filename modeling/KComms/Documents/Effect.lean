import KComms.Documents.Commands
import KComms.Lib.FallibleLoop

/-!
# The effect of a command on the store

Every accepted command has one of four effects on the store (`exec_effect`): none, a new document with its first
operation, one more operation on a document, or the erasure of some documents.
-/

namespace KComms.Documents

open FallibleLoop (bind_ok map_ok)

/-- A new document and the operation that records it. -/
structure Created (d : Document) (op : Operation) : Prop where
  documentId : op.documentId = d.id
  generation : op.generation = d.generation
  operationVersion : op.version = 1
  version : d.version = 1
  generation' : 1 ≤ d.generation
  live : d.erasedAt = none
  atoms : ∃ clientId, d.atoms = copyAtoms d.content clientId
  input : ∃ title source, op.input = .create title source

/-- The row `d` becomes `d'` by the operation `op`. -/
structure Committed (rt : Runtime) (d : Document) (op : Operation) (d' : Document) : Prop where
  documentId : op.documentId = d.id
  generation : op.generation = d.generation
  operationVersion : op.version = d.version + 1
  early : d.version < 4000
  id : d'.id = d.id
  generation' : d'.generation = d.generation
  version : d'.version = d.version + 1
  live : d'.erasedAt = none
  effect : ∃ updated, applyInput rt d op.clientOperationId (d.version + 1) op.input = .ok (updated, op.payload, op.kind) ∧
    d'.atoms = updated.atoms ∧ d'.content = updated.content ∧ d'.title = updated.title

inductive Effect (rt : Runtime) (s : Store) : Store → Prop
  | unchanged : Effect rt s s
  | created {d : Document} {op : Operation} (fresh : d.id ∉ s.documents.map Document.id) (h : Created d op)
      (content : d.content = "" ∨ ∃ source ∈ s.documents, source.erasedAt = none ∧ d.content = source.content) :
      Effect rt s ⟨s.documents ++ [d], s.operations ++ [op]⟩
  | committed {d d' : Document} {op : Operation} (mem : d ∈ s.documents) (live : d.erasedAt = none)
      (fresh : ∀ o ∈ s.operationsOf d.id, o.clientOperationId ≠ op.clientOperationId) (h : Committed rt d op d') :
      Effect rt s ⟨s.documents.map fun e => if e.id = d.id then d' else e, s.operations ++ [op]⟩
  | erased (ids : List String) (now : Nat) :
      Effect rt s ⟨s.documents.map fun e => if e.id ∈ ids then e.erased now else e,
        s.operations.filter fun op => op.documentId ∉ ids⟩

variable {rt : Runtime} {s s' : Store} {call : Call} {d : Document} {clientId : String} {input : OperationInput}
  {view : SharedDocument}

theorem authorityDocument_ok {u : Unit} (h : authorityDocument rt call d = .ok u) : d.erasedAt = none := by
  unfold authorityDocument at h
  by_cases he : d.erasedAt.isSome
  · simp [he] at h
  · simpa using he

theorem withDocument_ok {β : Type} {documentId : String} {operation : Document → Except DocumentError β} {b : β}
    (h : withDocument rt call s documentId operation = .ok b) :
    ∃ d ∈ s.documents, d.erasedAt = none ∧ rt.uuidCast documentId = some d.id ∧ operation d = .ok b := by
  unfold withDocument at h
  split at h
  · exact absurd h (by simp)
  · rename_i d hd
    obtain ⟨_, -, h⟩ := bind_ok.1 h
    obtain ⟨_, hauth, h⟩ := bind_ok.1 h
    obtain ⟨r, hr, h⟩ := bind_ok.1 h
    obtain ⟨_, -, h⟩ := bind_ok.1 h
    obtain rfl := Except.ok.inj h
    obtain ⟨id, hid, hfind⟩ := Option.bind_eq_some_iff.1 hd
    have hsome := List.find?_some hfind
    simp only [decide_eq_true_eq] at hsome
    exact ⟨d, List.mem_of_find?_eq_some hfind, authorityDocument_ok hauth, by rw [hid, hsome.1], hr⟩

/-- `insert_operation!` appends one operation and rewrites one column of the document. -/
theorem insertOperation_ok {kind : OperationKind} {payload : Payload} {version : Nat} {op : Operation}
    (h : insertOperation rt call s d clientId kind input payload version = .ok (s', op)) :
    s' = ({ s with operations := s.operations ++ [op] }).put
        { d with retainedOperationBytes := d.retainedOperationBytes + rt.encodedBytes input payload + 512 } ∧
      op.documentId = d.id ∧ op.generation = d.generation ∧ op.version = version ∧ op.clientOperationId = clientId ∧
      op.kind = kind ∧ op.input = input ∧ op.payload = payload := by
  unfold insertOperation at h
  dsimp only at h
  split at h
  · exact absurd h (by simp)
  · obtain ⟨rfl, rfl⟩ := Prod.mk.inj (Except.ok.inj h)
    exact ⟨rfl, rfl, rfl, rfl, rfl, rfl, rfl, rfl⟩

private theorem put_append {ops : List Operation} (bytes : Nat) (hfresh : d.id ∉ s.documents.map Document.id) :
    (Store.mk (s.documents ++ [d]) ops).put { d with retainedOperationBytes := bytes } =
      ⟨s.documents ++ [{ d with retainedOperationBytes := bytes }], ops⟩ := by
  have hold : (s.documents.map fun e => if e.id = d.id then { d with retainedOperationBytes := bytes } else e) =
      s.documents := by
    conv_rhs => rw [← List.map_id s.documents]
    apply List.map_congr_left
    intro e he
    have hne : e.id ≠ d.id := fun h => hfresh (h ▸ List.mem_map_of_mem he)
    rw [if_neg hne]
    rfl
  simp [Store.put, hold]

theorem createAgain_ok {existing : Document} (h : createAgain rt call s existing input = .ok (s', view)) : s' = s := by
  obtain ⟨_, -, h⟩ := bind_ok.1 h
  split at h
  · exact absurd h (by simp)
  split at h
  · obtain ⟨rfl, -⟩ := Prod.mk.inj (Except.ok.inj h)
    rfl
  · exact absurd h (by simp)

theorem createFresh_effect {conversationId title : String} {source : Option Document} (origin : Option Document)
    (hsource : ∀ d ∈ source, d ∈ s.documents ∧ d.erasedAt = none)
    (h : createFresh rt call s conversationId clientId title source (.create title (origin.map Document.id)) =
      .ok (s', view)) : Effect rt s s' := by
  unfold createFresh at h
  dsimp only at h
  split at h
  · exact absurd h (by simp)
  split at h
  · exact absurd h (by simp)
  split at h
  · exact absurd h (by simp)
  rename_i hfresh
  obtain ⟨⟨t, op⟩, hins, h⟩ := bind_ok.1 h
  obtain ⟨_, -, h⟩ := bind_ok.1 h
  split at h
  case h_2 => exact absurd h (by simp)
  obtain ⟨rfl, -⟩ := Prod.mk.inj (Except.ok.inj h)
  obtain ⟨rfl, hid, hgen, hver, -, -, hinput, -⟩ := insertOperation_ok hins
  dsimp only
  rw [put_append _ hfresh]
  refine .created hfresh ⟨hid, hgen, hver, rfl, le_refl 1, rfl, ⟨clientId, ?_⟩, _, _, hinput⟩ ?_
  · cases source <;> rfl
  · cases source with
    | none => exact Or.inl rfl
    | some source => exact Or.inr ⟨source, (hsource source rfl).1, (hsource source rfl).2, rfl⟩

theorem createLocked_effect {conversationId title : String} {source : Option Document}
    (hsource : ∀ d ∈ source, d ∈ s.documents ∧ d.erasedAt = none)
    (h : createLocked rt call s conversationId clientId title source = .ok (s', view)) : Effect rt s s' := by
  obtain ⟨_, -, h⟩ := bind_ok.1 h
  dsimp only at h
  split at h
  · rw [createAgain_ok h]
    exact .unchanged
  · exact createFresh_effect source hsource h

/-- The second write of a row covers the first one. -/
private theorem put_put {d' : Document} (hid : d.id = d'.id) :
    (s.put d).put d' = ⟨s.documents.map fun e => if e.id = d.id then d' else e, s.operations⟩ := by
  simp only [Store.put, List.map_map, Store.mk.injEq, and_true]
  apply List.map_congr_left
  intro e _
  by_cases he : e.id = d.id <;> simp [he, ← hid]

private theorem applyInput_frame {updated : Document} {version : Nat} {payload : Payload} {kind : OperationKind}
    (h : applyInput rt d clientId version input = .ok (updated, payload, kind)) :
    updated.id = d.id ∧ updated.generation = d.generation ∧ updated.erasedAt = d.erasedAt := by
  cases input with
  | create title source => simp [applyInput] at h
  | rename generation baseVersion title =>
    obtain ⟨rfl, -⟩ := Prod.mk.inj (Except.ok.inj h)
    exact ⟨rfl, rfl, rfl⟩
  | edit generation baseVersion changes =>
    obtain ⟨r, -, h⟩ := bind_ok.1 h
    obtain ⟨rfl, -⟩ := Prod.mk.inj (Except.ok.inj h)
    exact ⟨rfl, rfl, rfl⟩

theorem commitOperation_ok {request : OperationRequest} {view : DocumentOperation} {status : Status}
    (hlive : d.erasedAt = none) (h : commitOperation rt call s d request = .ok (s', view, status)) :
    ∃ d' op, Committed rt d op d' ∧ op.clientOperationId = request.clientId ∧ op.input = request.input ∧
      s' = ⟨s.documents.map fun e => if e.id = d.id then d' else e, s.operations ++ [op]⟩ ∧
      view = Projector.operation op := by
  unfold commitOperation at h
  dsimp only at h
  split at h
  · exact absurd h (by simp)
  rename_i hearly
  split at h
  · exact absurd h (by simp)
  split at h
  · exact absurd h (by simp)
  split at h
  · exact absurd h (by simp)
  obtain ⟨⟨updated, payload, kind⟩, happly, h⟩ := bind_ok.1 h
  obtain ⟨_, -, h⟩ := bind_ok.1 h
  obtain ⟨⟨t, op⟩, hins, h⟩ := bind_ok.1 h
  obtain ⟨rfl, hview⟩ := Prod.mk.inj (Except.ok.inj h)
  obtain ⟨rfl, -⟩ := Prod.mk.inj hview
  obtain ⟨rfl, hid, hgen, hver, hclient, hkind, hinput, hpayload⟩ := insertOperation_ok hins
  obtain ⟨hid', hgen', hlive'⟩ := applyInput_frame happly
  refine ⟨updated.revised (d.version + 1) _ _ call.now, op,
    ⟨hid, hgen, hver, by omega, hid', hgen', rfl, hlive'.trans hlive, updated, ?_, rfl, rfl, rfl⟩,
    hclient, hinput, put_put hid'.symm, rfl⟩
  rw [hclient, hinput, hpayload, hkind]
  exact happly

/-- An accepted operation is in the store afterwards, once, with the input that was sent. -/
theorem applyOperation_ok {documentId : String} {attrs : OperationAttrs} {view : DocumentOperation} {status : Status}
    (h : applyOperation rt call documentId attrs s = .ok (s', view, status)) :
    ∃ request, normalizeRequest rt attrs = .ok request ∧ ∃ d ∈ s.documents, d.erasedAt = none ∧
      rt.uuidCast documentId = some d.id ∧ ∃ op, op.documentId = d.id ∧ op.clientOperationId = request.clientId ∧
      op.input = request.input ∧ view = Projector.operation op ∧
      ((s' = s ∧ op ∈ s.operations) ∨ ∃ d', Committed rt d op d' ∧
        (∀ o ∈ s.operationsOf d.id, o.clientOperationId ≠ op.clientOperationId) ∧
        s' = ⟨s.documents.map fun e => if e.id = d.id then d' else e, s.operations ++ [op]⟩) := by
  obtain ⟨request, hrequest, h⟩ := bind_ok.1 h
  obtain ⟨d, hd, hlive, hcast, h⟩ := withDocument_ok h
  refine ⟨request, hrequest, d, hd, hlive, hcast, ?_⟩
  split at h
  · exact absurd h (by simp)
  obtain ⟨r, hr, h⟩ := bind_ok.1 h
  obtain ⟨_, -, h⟩ := bind_ok.1 h
  obtain rfl := Except.ok.inj h
  unfold resolveOperation at hr
  split at hr
  · rename_i op hop
    have hmem := List.mem_of_find?_eq_some hop
    have hfound := List.find?_some hop
    simp only [decide_eq_true_eq] at hfound
    split at hr
    · rename_i hsame
      obtain ⟨rfl, hview⟩ := Prod.mk.inj (Except.ok.inj hr)
      obtain ⟨rfl, -⟩ := Prod.mk.inj hview
      exact ⟨op, hfound.1, hfound.2, hsame.2.2, rfl, Or.inl ⟨rfl, hmem⟩⟩
    · exact absurd hr (by simp)
  · rename_i hnone
    obtain ⟨d', op, hc, hclient, hinput, hs, hv⟩ := commitOperation_ok hlive hr
    refine ⟨op, hc.documentId, hclient, hinput, hv, Or.inr ⟨d', hc, ?_, hs⟩⟩
    intro o ho heq
    obtain ⟨ho, hdoc⟩ := List.mem_filter.1 ho
    refine absurd (List.find?_eq_none.1 hnone o ho) ?_
    simpa [← hclient, heq] using hdoc

/-- What an accepted command does to the store. -/
theorem exec_effect {command : Command} (h : exec rt call s command = .ok s') : Effect rt s s' := by
  cases command with
  | create conversationId attrs =>
    obtain ⟨⟨t, view⟩, hc, rfl⟩ := map_ok.1 h
    obtain ⟨_, -, hc⟩ := bind_ok.1 hc
    obtain ⟨_, -, hc⟩ := bind_ok.1 hc
    obtain ⟨_, -, hc⟩ := bind_ok.1 hc
    obtain ⟨_, -, hc⟩ := bind_ok.1 hc
    exact createLocked_effect (by simp) hc
  | copy documentId attrs =>
    obtain ⟨⟨t, view⟩, hc, rfl⟩ := map_ok.1 h
    obtain ⟨_, -, hc⟩ := bind_ok.1 hc
    obtain ⟨_, -, hc⟩ := bind_ok.1 hc
    obtain ⟨source, hmem, hlive, -, hc⟩ := withDocument_ok hc
    refine createLocked_effect ?_ hc
    rintro d ⟨⟩
    exact ⟨hmem, hlive⟩
  | applyOperation documentId attrs =>
    obtain ⟨⟨t, view, status⟩, hc, rfl⟩ := map_ok.1 h
    obtain ⟨_, -, d, hd, hlive, -, op, -, -, -, -, ⟨rfl, -⟩ | ⟨d', hcommit, hfresh, rfl⟩⟩ := applyOperation_ok hc
    · exact .unchanged
    · exact .committed hd hlive hfresh hcommit
  | erase target =>
    obtain ⟨_, -, h⟩ := bind_ok.1 h
    dsimp only at h
    split at h
    · exact absurd h (by simp)
    · obtain ⟨_, -, h⟩ := bind_ok.1 h
      obtain rfl := Except.ok.inj h
      exact .erased _ _

end KComms.Documents
