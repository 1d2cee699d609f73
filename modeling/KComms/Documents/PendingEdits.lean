import KComms.Documents.KnownAtoms
import KComms.Documents.OptimisticEdit
import KComms.Documents.UseSharedDocument

/-!
# What a client may believe

The invariant of a client, relative to the stores that the server has been in.  Its snapshot is a row that the server
recorded (`Shown`), and what a pending edit refers to is known, either to the snapshot or to an edit before it in the
queue (`Queue`).  While the pump is at work the edit it submitted is the head of the queue, and what it waits to see
accepted is the stored operation of that edit (`Acknowledges`).
-/

namespace KComms.Documents.UseSharedDocument

open FallibleLoop (bind_ok foldlM_cons_ok)
open Model

/-! ### The queue and the snapshot -/

/-- The ids of the atoms that a pending edit inserts. -/
def editIds (input : DocumentEdit) : List String := insertedIds input.clientOperationId input.changes

/-- Every edit in the queue only refers to known atoms and to atoms of the edits before it. -/
def Queue : List String → List DocumentEdit → Prop
  | _, [] => True
  | known, input :: inputs => (∀ id ∈ references input.changes, id ∈ known) ∧ Queue (known ++ editIds input) inputs

variable {operation : DocumentOperation} {c : SharedDocument} {d : Document} {inputs : List DocumentEdit}
  {stores : List Store}

theorem Queue.mono : ∀ {known known' : List String}, known ⊆ known' →
    Queue known inputs → Queue known' inputs := by
  induction inputs with
  | nil => intro _ _ _ _; trivial
  | cons input inputs ih =>
    intro known known' hsub h
    refine ⟨fun id hid => hsub (h.1 id hid), ih ?_ h.2⟩
    intro id hid
    rcases List.mem_append.1 hid with hid | hid
    · exact List.mem_append_left _ (hsub hid)
    · exact List.mem_append_right _ hid

theorem Queue.snoc {input : DocumentEdit} : ∀ {known : List String}, Queue known inputs →
    (∀ id ∈ references input.changes, id ∈ known ++ inputs.flatMap editIds) → Queue known (inputs ++ [input]) := by
  induction inputs with
  | nil =>
    intro known _ h
    exact ⟨by simpa using h, trivial⟩
  | cons first inputs ih =>
    intro known h hrefs
    refine ⟨h.1, ih h.2 ?_⟩
    rwa [List.flatMap_cons, ← List.append_assoc] at hrefs

/-- The client shows the row `d` of the document that it is about. -/
structure Shown (rt : Runtime) (stores : List Store) (documentId : String) (c : SharedDocument) (d : Document) :
    Prop where
  recorded : Recorded stores d
  live : d.erasedAt = none
  cast : rt.uuidCast documentId = some d.id
  mirrors : Mirrors c d

def Reported (stores : List Store) (operation : DocumentOperation) : Prop :=
  ∃ op, Logged stores op ∧ operation = Projector.operation op

/-- The stored operation of a pending edit. -/
def Acknowledges (rt : Runtime) (stores : List Store) (documentId : String) (input : DocumentEdit)
    (operation : DocumentOperation) : Prop :=
  ∃ op, Logged stores op ∧ operation = Projector.operation op ∧ rt.uuidCast documentId = some op.documentId ∧
    op.clientOperationId = input.clientOperationId ∧
    op.input = .edit input.generation input.baseVersion input.changes

theorem Acknowledges.reported {rt : Runtime} {documentId : String} {input : DocumentEdit}
    (h : Acknowledges rt stores documentId input operation) :
    Reported stores operation := by
  obtain ⟨op, hlog, hop, -⟩ := h
  exact ⟨op, hlog, hop⟩

section Knowledge

variable {rt : Runtime} {lc : Collation} {s : Store} {past : List Store} {documentId : String}

/-- The history behind a row that a client shows. -/
theorem Shown.history (hc : Consistent rt s past)
    (h : Shown rt (s :: past) documentId c d) : ∃ line ops, History rt (s :: past) d.id line ops ∧ d ∈ line := by
  obtain ⟨e, he, hid⟩ := List.mem_map.1 (hc.kept d h.recorded)
  obtain ⟨line, ops, hh, -⟩ := hc.traced e he
  rw [hid] at hh
  exact ⟨line, ops, hh, (hh.rows d).1 ⟨h.recorded, rfl, h.live⟩⟩

/-- Replaying a stored operation, the client moves on to another row of its document or stays where it is. -/
theorem Shown.apply (hc : Consistent rt s past) {c' : SharedDocument} (h : Shown rt (s :: past) documentId c d)
    (hop : Reported (s :: past) operation) (happly : committedApply lc c operation = .ok c') :
    (∃ d', Shown rt (s :: past) documentId c' d') ∧ operation.version ≤ c'.version ∧ c.version ≤ c'.version ∧
      c.atoms.map Atom.id ⊆ c'.atoms.map Atom.id := by
  obtain ⟨op, hlog, rfl⟩ := hop
  by_cases hle : (Projector.operation op).version ≤ c.version
  · unfold committedApply at happly
    split at happly
    · exact absurd happly (by simp)
    obtain rfl := Except.ok.inj happly
    exact ⟨⟨d, h⟩, hle, le_refl _, fun _ hm => hm⟩
  · have hdoc : op.documentId = c.id ∧ op.version = c.version + 1 := by
      unfold committedApply at happly
      split at happly
      · exact absurd happly (by simp)
      rename_i hsame
      split at happly
      · exact absurd happly (by simp)
      rename_i hnext
      push Not at hsame hnext
      exact ⟨hsame.1, hnext⟩
    obtain ⟨line, ops, hh, hd⟩ := h.history hc
    have hops : op ∈ ops := (hh.logged op).1 ⟨hlog, hdoc.1.trans h.mirrors.id⟩
    obtain ⟨d', hd', hcommit⟩ := hh.lineage.next d hd op hops (by rw [hdoc.2, h.mirrors.version])
    obtain ⟨c'', hstep, hm⟩ := committedApply_step lc (hh.lineage.valid d hd) h.mirrors hcommit
    obtain rfl : c' = c'' := Except.ok.inj (happly.symm.trans hstep)
    obtain ⟨hrec, hid, hlive⟩ := (hh.rows d').2 hd'
    have hversion : c'.version = c.version + 1 := by rw [hm.version, hcommit.version, h.mirrors.version]
    refine ⟨⟨d', hrec, hlive, by rw [hid]; exact h.cast, hm⟩, ?_, by omega, ?_⟩
    · rw [hversion, ← hdoc.2]
      exact le_refl _
    · rw [h.mirrors.atoms, hm.atoms]
      exact (hcommit.ids_subset (hh.lineage.valid d hd)).1

/-- The snapshot contains the atoms of an acknowledged edit that it has caught up with. -/
theorem Shown.acknowledged (hc : Consistent rt s past) {input : DocumentEdit} (h : Shown rt (s :: past) documentId c d)
    (hack : Acknowledges rt (s :: past) documentId input operation) (hle : operation.version ≤ c.version) :
    editIds input ⊆ c.atoms.map Atom.id := by
  obtain ⟨op, hlog, rfl, hcast, hclient, hinput⟩ := hack
  obtain ⟨line, ops, hh, hd⟩ := h.history hc
  have hid : op.documentId = d.id := Option.some.inj (hcast.symm.trans h.cast)
  have hops : op ∈ ops := (hh.logged op).1 ⟨hlog, hid⟩
  rw [h.mirrors.version] at hle
  have := hh.lineage.edit_ids hops hd hle hinput
  rw [hclient] at this
  rw [h.mirrors.atoms]
  exact this

end Knowledge

/-- The invariant of an engine. -/
structure EngineInv (rt : Runtime) (stores : List Store) (documentId : String) (engine : Engine) : Prop where
  shown : ∃ d, Shown rt stores documentId engine.snapshot d
  queue : Queue (engine.snapshot.atoms.map Atom.id) engine.pending
  ids : (engine.pending.map DocumentEdit.clientOperationId).Nodup
  canonical : ∀ input ∈ engine.pending, rt.uuidCast input.clientOperationId = some input.clientOperationId

def PumpPhase.input : PumpPhase → Option DocumentEdit
  | .idle => none
  | .applying input | .accepting input | .settled input _ _ => some input

def Waiter.pumped : Waiter → Option DocumentOperation
  | .pump operation => some operation
  | _ => none

/-- The calls that have not gone on yet. -/
def Client.waiters (c : Client) : List Waiter := c.waiting ++ c.resumed.map Prod.fst

/-- The operations that the pump waits to see accepted. -/
def Client.pumped (c : Client) : List DocumentOperation := c.waiters.filterMap Waiter.pumped

/-- The invariant of a client. -/
structure ClientInv (rt : Runtime) (stores : List Store) (documentId : String) (c : Client) : Prop where
  engine : ∀ e, c.engine = some e → EngineInv rt stores documentId e
  scope : ∀ e, c.engine = some e → c.current = true
  getting : c.sync = .getting → c.engine = none
  fresh : c.current = true → c.engine = none → c.pump = .idle
  head : ∀ e input, c.engine = some e → c.pump.input = some input → ∃ rest, e.pending = input :: rest
  broadcasts : ∀ operation, Waiter.broadcast operation ∈ c.waiters → Reported stores operation
  pumped : c.pumped = [] ∨ ∃ input operation, c.pump = .accepting input ∧ c.pumped = [operation] ∧
    Acknowledges rt stores documentId input operation
  settled : ∀ input operation failure, c.pump = .settled input operation failure →
    Acknowledges rt stores documentId input operation ∧
      (failure = none → ∀ e, c.engine = some e → operation.version ≤ e.snapshot.version)

/-- What is known of a request that was sent. -/
def RequestInv (rt : Runtime) (stores : List Store) (documentId : String) : Request → Prop
  | .apply input => rt.uuidCast input.clientOperationId = some input.clientOperationId ∧
      ∃ d, Recorded stores d ∧ d.erasedAt = none ∧ rt.uuidCast documentId = some d.id ∧
        ∀ id ∈ references input.changes, id ∈ d.atoms.map Atom.id
  | _ => True

/-- The head of the queue. -/
def Client.head (c : Client) : Option DocumentEdit := c.engine.bind fun e => e.pending.head?

/-- The invariant of what a turn of the event loop leaves. -/
structure TurnInv (rt : Runtime) (stores : List Store) (documentId : String) (out : Client × List Request) : Prop where
  client : ClientInv rt stores documentId out.1
  requests : ∀ request ∈ out.2, RequestInv rt stores documentId request
  submitted : ∀ input, .apply input ∈ out.2 → out.1.head = some input

/-- A turn without requests. -/
theorem ClientInv.quiet {rt : Runtime} {documentId : String} {c : Client}
    (h : ClientInv rt stores documentId c) : TurnInv rt stores documentId (c, []) :=
  ⟨h, by simp, by simp⟩

theorem clientInv_initial (rt : Runtime) (stores : List Store) (documentId : String) :
    ClientInv rt stores documentId Client.initial :=
  ⟨by simp [Client.initial], by simp [Client.initial], fun _ => rfl, fun _ _ => rfl, by simp [Client.initial],
    by simp [Client.initial, Client.waiters], Or.inl rfl, by simp [Client.initial]⟩

end KComms.Documents.UseSharedDocument
