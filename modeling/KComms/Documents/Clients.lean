import Mathlib.Logic.Function.Basic
import KComms.Documents.ClientTurn

/-!
# Any number of clients and the server

The server, the clients and the network as one system.  A request may be served at any time after it was sent and any
number of times, its reply may come late, after a failure of the connection or never, and an operation that was ever
stored may be broadcast to any client at any time and again.  Other users run their commands on the server meanwhile.

Every reachable state keeps `SystemInv`: the clients keep their invariant relative to all stores the server has been
in, and a reply tells what one of them held.
-/

namespace KComms.Documents.UseSharedDocument

open FallibleLoop (bind_ok)
open Model

/-! ### The network -/

/-- A device that has a document open. -/
structure Participant where
  subject : Subject
  documentId : String

inductive Reply
  | document (document : SharedDocument)
  | page (page : OperationPage)
  | operation (operation : DocumentOperation)
  | refused (error : DocumentError)
  deriving DecidableEq, Repr

/-- The server's next store and its answer. -/
def serve (rt : Runtime) (call : Call) (documentId : String) (s : Store) : Request → Store × Reply
  | .get =>
    match Documents.get rt call documentId s with
    | .ok document => (s, .document document)
    | .error error => (s, .refused error)
  | .replay generation afterVersion =>
    match Documents.replay rt call documentId generation afterVersion 100 s with
    | .ok page => (s, .page page)
    | .error error => (s, .refused error)
  | .apply input =>
    match applyOperation rt call documentId (editAttrs input) s with
    | .ok (s', operation, _) => (s', .operation operation)
    | .error error => (s, .refused error)

/-- The client waits for the answer to the request. -/
def Client.awaits (c : Client) : Request → Bool
  | .get => c.sync = .getting
  | .replay generation afterVersion =>
    match c.sync with
    | .replaying generation' afterVersion' _ => generation = generation' && afterVersion = afterVersion'
    | _ => false
  | .apply input => c.pump = .applying input

/-- What an answer is to the client that waits for it. -/
def Reply.event (late : Bool) : Request → Reply → Option Event
  | .get, .document d => some (.syncReplied (.document d) late)
  | .replay _ _, .page p => some (.syncReplied (.page p) late)
  | .apply _, .operation o => some (.applyReplied (.ok o))
  | .apply _, .refused e => some (.applyReplied (.error (.response e)))
  | _, .refused e => some (.syncReplied (.failed (.response e)) late)
  | _, _ => none

structure System where
  store : Store
  past : List Store
  clients : Nat → Client
  requests : List (Nat × Request)
  replies : List (Nat × Request × Reply)

def System.stores (sys : System) : List Store := sys.store :: sys.past

def System.initial : System :=
  { store := Store.empty, past := [], clients := fun _ => Client.initial, requests := [], replies := [] }

inductive Action
  /-- A command of whoever on the server. -/
  | command (call : Call) (command : Command)
  /-- The server gets a request. -/
  | serve (i : Nat) (call : Call) (request : Request)
  /-- A client gets an answer. -/
  | deliver (i : Nat) (request : Request) (reply : Reply) (late : Bool)
  /-- Everything else that happens at a client: the user, the socket, the timers, a failed connection. -/
  | event (i : Nat) (event : Event)

/-- The events that are no answers.  `crypto.randomUUID` draws a UUID in its canonical form that is not in use. -/
def System.admits (rt : Runtime) (sys : System) (i : Nat) : Event → Bool
  | .broadcast operation => sys.stores.any fun s => s.operations.any fun op => operation = Projector.operation op
  | .edit id _ => decide (rt.uuidCast id = some id) &&
      (sys.clients i).engine.all fun e => decide (id ∉ e.pending.map DocumentEdit.clientOperationId)
  | .syncReplied (.failed .network) _ => (sys.clients i).sync ≠ .idle
  | .applyReplied (.error .network) => true
  | .syncReplied _ _ | .applyReplied _ => false
  | _ => true

/-- A turn of the event loop of one client. -/
def System.turn (lc : Collation) (sys : System) (i : Nat) (event : Event) : System :=
  let (c, requests) := handle lc (sys.clients i) event
  { sys with clients := Function.update sys.clients i c, requests := sys.requests ++ requests.map fun r => (i, r) }

def System.next (rt : Runtime) (lc : Collation) (who : Nat → Participant) (sys : System) : Action → Option System
  | .command call command =>
    match exec rt call sys.store command with
    | .ok s => some { sys with store := s, past := sys.stores }
    | .error _ => none
  | .serve i call request =>
    if (i, request) ∈ sys.requests ∧ call.subject = (who i).subject then
      let (s, reply) := serve rt call (who i).documentId sys.store request
      some { sys with store := s, past := sys.stores, replies := sys.replies ++ [(i, request, reply)] }
    else none
  | .deliver i request reply late =>
    if (i, request, reply) ∈ sys.replies ∧ (sys.clients i).awaits request then
      (reply.event late request).map (sys.turn lc i)
    else none
  | .event i event => if sys.admits rt i event then some (sys.turn lc i event) else none

/-- The states of the system. -/
inductive Reachable (rt : Runtime) (lc : Collation) (who : Nat → Participant) : System → Prop
  | initial : Reachable rt lc who System.initial
  | step {sys sys' : System} (action : Action) :
      Reachable rt lc who sys → sys.next rt lc who action = some sys' → Reachable rt lc who sys'

/-! ### The invariant of the system -/

/-- What is known of an answer that the server gave. -/
def ReplyInv (rt : Runtime) (stores : List Store) (documentId : String) : Request → Reply → Prop
  | .get, .document document => SyncReplyInv rt stores documentId (.document document)
  | .replay _ _, .page page => SyncReplyInv rt stores documentId (.page page)
  | .apply input, .operation operation => Acknowledges rt stores documentId input operation
  | .apply _, .refused error => error ≠ .unknownDocumentAtom
  | _, _ => True

structure SystemInv (rt : Runtime) (who : Nat → Participant) (sys : System) : Prop where
  consistent : Consistent rt sys.store sys.past
  clients : ∀ i, ClientInv rt sys.stores (who i).documentId (sys.clients i)
  requests : ∀ i request, (i, request) ∈ sys.requests → RequestInv rt sys.stores (who i).documentId request
  replies : ∀ i request reply, (i, request, reply) ∈ sys.replies →
    ReplyInv rt sys.stores (who i).documentId request reply
  /-- An edit that was submitted is the head of the queue until it is stored. -/
  submitted : ∀ i input, (i, .apply input) ∈ sys.requests → (sys.clients i).current = true →
    (sys.clients i).head = some input ∨ ∃ operation, Acknowledges rt sys.stores (who i).documentId input operation

/-! What is known in terms of stores stays known when there are more of them. -/

variable {request : Request}

section Stores

variable {rt : Runtime} {stores stores' : List Store} {documentId : String}

theorem Reported.mono (hsub : stores ⊆ stores') {operation : DocumentOperation} (h : Reported stores operation) :
    Reported stores' operation := by
  obtain ⟨op, ⟨s, hs, hop⟩, heq⟩ := h
  exact ⟨op, ⟨s, hsub hs, hop⟩, heq⟩

theorem Acknowledges.mono (hsub : stores ⊆ stores') {input : DocumentEdit} {operation : DocumentOperation}
    (h : Acknowledges rt stores documentId input operation) : Acknowledges rt stores' documentId input operation := by
  obtain ⟨op, ⟨s, hs, hop⟩, hrest⟩ := h
  exact ⟨op, ⟨s, hsub hs, hop⟩, hrest⟩

theorem recorded_mono (hsub : stores ⊆ stores') {d : Document} (h : Recorded stores d) : Recorded stores' d := by
  obtain ⟨s, hs, hd⟩ := h
  exact ⟨s, hsub hs, hd⟩

theorem ClientInv.mono (hsub : stores ⊆ stores') {c : Client} (h : ClientInv rt stores documentId c) :
    ClientInv rt stores' documentId c := by
  refine ⟨fun e he => ?_, h.scope, h.getting, h.fresh, h.head, fun o ho => (h.broadcasts o ho).mono hsub, ?_,
    fun input operation failure hp => ?_⟩
  · obtain ⟨⟨d, hd⟩, hqueue, hids, hcanonical⟩ := h.engine e he
    exact ⟨⟨d, recorded_mono hsub hd.recorded, hd.live, hd.cast, hd.mirrors⟩, hqueue, hids, hcanonical⟩
  · rcases h.pumped with hnil | ⟨input, operation, hphase, hone, hack⟩
    · exact Or.inl hnil
    · exact Or.inr ⟨input, operation, hphase, hone, hack.mono hsub⟩
  · obtain ⟨hack, hle⟩ := h.settled input operation failure hp
    exact ⟨hack.mono hsub, hle⟩

theorem RequestInv.mono (hsub : stores ⊆ stores') (h : RequestInv rt stores documentId request) :
    RequestInv rt stores' documentId request := by
  cases request with
  | get => trivial
  | replay _ _ => trivial
  | apply input =>
    obtain ⟨hid, d, hd, hrest⟩ := h
    exact ⟨hid, d, recorded_mono hsub hd, hrest⟩

theorem SyncReplyInv.mono (hsub : stores ⊆ stores') {reply : SyncReply} (h : SyncReplyInv rt stores documentId reply) :
    SyncReplyInv rt stores' documentId reply := by
  cases reply with
  | document document =>
    obtain ⟨d, hd, hrest⟩ := h
    exact ⟨d, recorded_mono hsub hd, hrest⟩
  | page page => exact fun o ho => (h o ho).mono hsub
  | failed _ => trivial

theorem ReplyInv.mono (hsub : stores ⊆ stores') {reply : Reply}
    (h : ReplyInv rt stores documentId request reply) : ReplyInv rt stores' documentId request reply := by
  unfold ReplyInv at h ⊢
  split
  · exact SyncReplyInv.mono hsub h
  · exact SyncReplyInv.mono hsub h
  · exact Acknowledges.mono hsub h
  · exact h
  · trivial

/-- The server's document has the atoms that a submitted edit refers to. -/
theorem RequestInv.known {s : Store} {past : List Store} (hc : Consistent rt s past) {input : DocumentEdit}
    (h : RequestInv rt (s :: past) documentId (.apply input)) : ∀ d ∈ s.documents, rt.uuidCast documentId = some d.id →
      d.erasedAt = none → ∀ id ∈ references input.changes, id ∈ d.atoms.map Atom.id := by
  intro d hd hcast hlive id hid
  obtain ⟨-, d₀, hrec, hlive₀, hcast₀, hrefs⟩ := h
  obtain ⟨line, ops, hh, hcur⟩ := hc.traced d hd
  obtain ⟨⟨rest, rfl⟩, -, -⟩ := hcur hlive
  have hmem : d₀ ∈ d :: rest := (hh.rows d₀).1 ⟨hrec, Option.some.inj (hcast₀.symm.trans hcast), hlive₀⟩
  have hle : d₀.version ≤ d.version := by
    rcases List.mem_cons.1 hmem with rfl | hmem'
    · exact le_refl _
    · exact (hh.lineage.row_le d₀ hmem).2
  exact hh.lineage.ids_mono hmem List.mem_cons_self hle (hrefs id hid)

end Stores

/-! ### Every step keeps it -/

section Steps

variable {rt : Runtime} {lc : Collation} {who : Nat → Participant} {sys : System}

/-- A new store that a command or a request leaves. -/
theorem SystemInv.restore (h : SystemInv rt who sys) {s : Store} (hc : Consistent rt s sys.stores)
    {replies : List (Nat × Request × Reply)} (hreplies : ∀ i request reply, (i, request, reply) ∈ replies →
      ReplyInv rt (s :: sys.stores) (who i).documentId request reply) :
    SystemInv rt who { sys with store := s, past := sys.stores, replies := replies } := by
  have hsub : sys.stores ⊆ s :: sys.stores := List.subset_cons_self _ _
  refine ⟨hc, fun i => (h.clients i).mono hsub, fun i request hr => (h.requests i request hr).mono hsub, hreplies,
    fun i input hr hcurrent => ?_⟩
  rcases h.submitted i input hr hcurrent with hhead | ⟨operation, hack⟩
  · exact Or.inl hhead
  · exact Or.inr ⟨operation, hack.mono hsub⟩

theorem SystemInv.turn (h : SystemInv rt who sys) {i : Nat} {event : Event}
    (hevent : EventInv rt sys.stores (who i).documentId (sys.clients i) event) :
    SystemInv rt who (sys.turn lc i event) := by
  have hturn := handle_inv lc h.consistent (h.clients i) hevent
  have hkept := handle_kept lc (h.clients i) event
  refine ⟨h.consistent, fun j => ?_, fun j request hr => ?_, h.replies, fun j input hr hcurrent => ?_⟩
  · by_cases hj : j = i
    · subst hj
      simp only [System.turn, Function.update_self]
      exact hturn.client
    · simp only [System.turn, Function.update_of_ne hj]
      exact h.clients j
  · rcases List.mem_append.1 hr with hr | hr
    · exact h.requests j request hr
    · obtain ⟨r, hmem, heq⟩ := List.mem_map.1 hr
      obtain ⟨rfl, rfl⟩ := Prod.mk.inj heq
      exact hturn.requests r hmem
  · by_cases hj : j = i
    · subst hj
      simp only [System.turn, Function.update_self] at hcurrent ⊢
      rcases List.mem_append.1 hr with hr | hr
      · obtain ⟨hstart, hhead⟩ := hkept hcurrent
        rcases h.submitted j input hr hstart with hfirst | hack
        · exact hhead input hfirst
        · exact Or.inr hack
      · obtain ⟨r, hmem, heq⟩ := List.mem_map.1 hr
        obtain ⟨-, rfl⟩ := Prod.mk.inj heq
        exact Or.inl (hturn.submitted input hmem)
    · simp only [System.turn, Function.update_of_ne hj] at hcurrent ⊢
      rcases List.mem_append.1 hr with hr | hr
      · exact h.submitted j input hr hcurrent
      · obtain ⟨r, hr, heq⟩ := List.mem_map.1 hr
        exact absurd (Prod.mk.inj heq).1.symm hj

/-- An event that the environment may cause. -/
theorem admits_inv {i : Nat} {event : Event} (h : sys.admits rt i event = true) :
    EventInv rt sys.stores (who i).documentId (sys.clients i) event := by
  cases event with
  | broadcast operation =>
    simp only [System.admits, List.any_eq_true, decide_eq_true_eq] at h
    obtain ⟨s, hs, op, hop, rfl⟩ := h
    exact ⟨op, ⟨s, hs, hop⟩, rfl⟩
  | edit id changes =>
    simp only [System.admits, Bool.and_eq_true, decide_eq_true_eq] at h
    refine ⟨h.1, fun e he => ?_⟩
    have := h.2
    rw [he, Option.all_some] at this
    simpa using this
  | syncReplied reply late =>
    cases reply with
    | failed failure => trivial
    | document document => cases h
    | page page => cases h
  | applyReplied reply =>
    intro input operation _ hreply
    rw [hreply] at h
    cases h
  | _ => trivial

/-- An answer that the client waits for. -/
theorem event_inv {i : Nat} {reply : Reply} {late : Bool} {event : Event}
    (hreply : ReplyInv rt sys.stores (who i).documentId request reply) (hawaits : (sys.clients i).awaits request = true)
    (h : reply.event late request = some event) :
    EventInv rt sys.stores (who i).documentId (sys.clients i) event := by
  unfold Reply.event at h
  split at h
  · obtain rfl := Option.some.inj h
    exact hreply
  · obtain rfl := Option.some.inj h
    exact hreply
  · obtain rfl := Option.some.inj h
    intro input operation hphase heq
    obtain rfl := Except.ok.inj heq
    simp only [Client.awaits, decide_eq_true_eq] at hawaits
    obtain rfl := PumpPhase.applying.inj (hawaits.symm.trans hphase)
    exact hreply
  · obtain rfl := Option.some.inj h
    intro input operation _ heq
    cases heq
  · obtain rfl := Option.some.inj h
    trivial
  · cases h

/-- Whatever the server answers, it tells what one of its stores holds. -/
theorem serve_inv (call : Call) (hc : Consistent rt sys.store sys.past) {documentId : String}
    (hrequest : RequestInv rt sys.stores documentId request) :
    Consistent rt (serve rt call documentId sys.store request).1 sys.stores ∧
      ReplyInv rt ((serve rt call documentId sys.store request).1 :: sys.stores) documentId request
        (serve rt call documentId sys.store request).2 := by
  cases request with
  | get =>
    unfold serve
    dsimp only
    split
    · rename_i document hget
      obtain ⟨d, hd, hlive, hcast, hview⟩ := withDocument_ok hget
      obtain rfl := Except.ok.inj hview
      exact ⟨hc.unchanged, d, recorded_cons.2 (Or.inl hd), hlive, hcast, rfl⟩
    · exact ⟨hc.unchanged, trivial⟩
  | replay generation afterVersion =>
    unfold serve
    dsimp only
    split
    · rename_i page hreplay
      refine ⟨hc.unchanged, fun operation hoperation => ?_⟩
      unfold Documents.replay at hreplay
      split at hreplay
      · obtain ⟨d, -, -, -, hpage⟩ := withDocument_ok hreplay
        split at hpage
        · exact absurd hpage (by simp)
        split at hpage
        · exact absurd hpage (by simp)
        obtain rfl := Except.ok.inj hpage
        obtain ⟨op, hop, rfl⟩ := List.mem_map.1 hoperation
        have hop := List.take_subset _ _ (List.take_subset _ _ hop)
        rw [List.mem_insertionSort] at hop
        have hop := (List.mem_filter.1 (List.mem_filter.1 hop).1).1
        exact ⟨op, logged_cons.2 (Or.inl hop), rfl⟩
      · exact absurd hreplay (by simp)
    · exact ⟨hc.unchanged, trivial⟩
  | apply input =>
    unfold serve
    dsimp only
    split
    · rename_i s' operation status happly
      have hexec : exec rt call sys.store (.applyOperation documentId (editAttrs input)) = .ok s' := by
        rw [exec, happly]
        rfl
      refine ⟨hc.step (exec_effect hexec), ?_⟩
      obtain ⟨req, hreq, d, -, -, hcast, op, hdoc, hclient, hinput, hview, hstore⟩ := applyOperation_ok happly
      obtain ⟨hid, hedit⟩ := normalizeRequest_edit hreq
      refine ⟨op, logged_cons.2 (Or.inl ?_), hview, by rw [hcast, hdoc], ?_, by rw [hinput, hedit]⟩
      · rcases hstore with ⟨rfl, hmem⟩ | ⟨d', -, -, rfl⟩
        · exact hmem
        · simp
      · rw [hclient]
        exact Option.some.inj (hid.symm.trans hrequest.1)
    · rename_i error happly
      refine ⟨hc.unchanged, ?_⟩
      rintro rfl
      exact applyOperation_ne_unknown (hrequest.known hc) happly

theorem SystemInv.next (h : SystemInv rt who sys) {sys' : System} {action : Action}
    (hnext : sys.next rt lc who action = some sys') : SystemInv rt who sys' := by
  cases action with
  | command call command =>
    simp only [System.next] at hnext
    split at hnext
    · rename_i s hexec
      obtain rfl := Option.some.inj hnext
      exact h.restore (h.consistent.step (exec_effect hexec)) fun i request reply hr =>
        (h.replies i request reply hr).mono (List.subset_cons_self _ _)
    · cases hnext
  | serve i call request =>
    simp only [System.next] at hnext
    split at hnext
    · rename_i hrequest
      obtain rfl := Option.some.inj hnext
      obtain ⟨hc, hreply⟩ := serve_inv call h.consistent (h.requests i request hrequest.1)
      refine h.restore hc fun j request' reply hr => ?_
      rcases List.mem_append.1 hr with hr | hr
      · exact (h.replies j request' reply hr).mono (List.subset_cons_self _ _)
      · obtain ⟨rfl, heq⟩ := Prod.mk.inj (List.mem_singleton.1 hr)
        obtain ⟨rfl, rfl⟩ := Prod.mk.inj heq
        exact hreply
    · cases hnext
  | deliver i request reply late =>
    simp only [System.next] at hnext
    split at hnext
    · rename_i hdeliver
      obtain ⟨event, hevent, rfl⟩ := Option.map_eq_some_iff.1 hnext
      exact h.turn (event_inv (h.replies i request reply hdeliver.1) hdeliver.2 hevent)
    · cases hnext
  | event i event =>
    simp only [System.next] at hnext
    split at hnext
    · rename_i hadmits
      obtain rfl := Option.some.inj hnext
      exact h.turn (admits_inv hadmits)
    · cases hnext

theorem Reachable.inv (h : Reachable rt lc who sys) : SystemInv rt who sys := by
  induction h with
  | initial =>
    exact ⟨consistent_empty rt, fun i => clientInv_initial rt _ _, by simp [System.initial], by simp [System.initial],
      by simp [System.initial]⟩
  | step action _ hnext ih => exact ih.next hnext

end Steps

/-! ### The protocol -/

/-- The protocol of pending edits, in every state that any number of clients reach.

A snapshot is the document of the server at its version.  An edit that was submitted, and not only the first time, refers
to atoms that the server has now; it is not refused for an unknown atom; as long as the client has its document it is
the head of the queue or stored.  No edit is stored twice. -/
theorem pending_edits_protocol {rt : Runtime} {lc : Collation} {who : Nat → Participant} {sys : System}
    (h : Reachable rt lc who sys) :
    (∀ i e, (sys.clients i).engine = some e → ∃ d, Recorded sys.stores d ∧ d.erasedAt = none ∧
      rt.uuidCast (who i).documentId = some d.id ∧ d.generation = e.snapshot.generation ∧
      d.version = e.snapshot.version ∧
      ∀ d', Recorded sys.stores d' → d'.id = d.id → d'.erasedAt = none → d'.version = e.snapshot.version →
        e.snapshot.atoms = d'.atoms ∧ e.snapshot.content = d'.content ∧ e.snapshot.title = d'.title) ∧
    (∀ i input, (i, .apply input) ∈ sys.requests →
      (∀ d ∈ sys.store.documents, rt.uuidCast (who i).documentId = some d.id → d.erasedAt = none →
        ∀ id ∈ references input.changes, id ∈ d.atoms.map Atom.id) ∧
      (∀ call, applyOperation rt call (who i).documentId (editAttrs input) sys.store ≠ .error .unknownDocumentAtom) ∧
      (i, .apply input, .refused .unknownDocumentAtom) ∉ sys.replies ∧
      ((sys.clients i).current = true → (sys.clients i).head = some input ∨
        ∃ op, Logged sys.stores op ∧ rt.uuidCast (who i).documentId = some op.documentId ∧
          op.clientOperationId = input.clientOperationId ∧
          op.input = .edit input.generation input.baseVersion input.changes)) ∧
    ∀ op op', Logged sys.stores op → Logged sys.stores op' → op.documentId = op'.documentId →
      op.clientOperationId = op'.clientOperationId → op = op' := by
  have hinv := h.inv
  have hc := hinv.consistent
  refine ⟨fun i e he => ?_, fun i input hr => ?_, fun op op' hop hop' hdoc hclient =>
    hc.committed_once hop hop' hdoc hclient⟩
  · obtain ⟨d, hd⟩ := ((hinv.clients i).engine e he).shown
    obtain ⟨line, ops, hh, hline⟩ := hd.history hc
    refine ⟨d, hd.recorded, hd.live, hd.cast, hd.mirrors.generation.symm, hd.mirrors.version.symm,
      fun d' hrec hid hlive hversion => ?_⟩
    have hline' : d' ∈ line := (hh.rows d').1 ⟨hrec, hid, hlive⟩
    obtain rfl : d' = d := List.inj_on_of_nodup_map hh.lineage.nodup_versions hline' hline
      (hversion.trans hd.mirrors.version)
    exact ⟨hd.mirrors.atoms, hd.mirrors.content, hd.mirrors.title⟩
  · have hrequest := hinv.requests i _ hr
    refine ⟨hrequest.known hc, fun call => applyOperation_ne_unknown (hrequest.known hc), fun hm => ?_,
      fun hcurrent => ?_⟩
    · exact hinv.replies i _ _ hm rfl
    · rcases hinv.submitted i input hr hcurrent with hhead | ⟨operation, op, hlog, -, hcast, hclient, hinput⟩
      · exact Or.inl hhead
      · exact Or.inr ⟨op, hlog, hcast, hclient, hinput⟩

/-! An edit whose acknowledgement is lost, and its retry. -/

section Sample

def sampleWho (_ : Nat) : Participant := ⟨(sampleCall 0).subject, "00000000-0000-4000-8000-0000000000d0"⟩

def samplePending : DocumentEdit :=
  ⟨"00000000-0000-4000-8000-000000000002", 1, 1, [⟨none, [], "hi"⟩]⟩

def sampleActions : List Action :=
  [.command (sampleCall 0) sampleCreate, .event 0 .synchronize, .serve 0 (sampleCall 1) .get,
    .deliver 0 .get (serve plainRuntime (sampleCall 1) (sampleWho 0).documentId sampleStore1 .get).2 false,
    .event 0 (.edit samplePending.clientOperationId [⟨0, 0, "hi"⟩]), .event 0 .connected,
    .serve 0 (sampleCall 2) (.apply samplePending), .event 0 (.applyReplied (.error .network)), .event 0 .connected,
    .serve 0 (sampleCall 3) (.apply samplePending)]

def sampleSystem : System :=
  (sampleActions.foldlM (System.next plainRuntime codePointCollation sampleWho) System.initial).getD System.initial

private theorem reachable_foldlM {rt : Runtime} {lc : Collation} {who : Nat → Participant} {actions : List Action} :
    ∀ {sys sys' : System}, Reachable rt lc who sys → actions.foldlM (System.next rt lc who) sys = some sys' →
      Reachable rt lc who sys' := by
  induction actions with
  | nil =>
    intro sys sys' h heq
    obtain rfl := Option.some.inj heq
    exact h
  | cons action actions ih =>
    intro sys sys' h heq
    rw [List.foldlM_cons, Option.bind_eq_bind, Option.bind_eq_some_iff] at heq
    obtain ⟨mid, hmid, heq⟩ := heq
    exact ih (h.step action hmid) heq

theorem reachable_sample : Reachable plainRuntime codePointCollation sampleWho sampleSystem := by
  unfold sampleSystem
  cases h : sampleActions.foldlM (System.next plainRuntime codePointCollation sampleWho) System.initial with
  | none => exact .initial
  | some sys => exact reachable_foldlM .initial h

theorem pending_edits_protocol_sample : ∃ e d, (sampleSystem.clients 0).engine = some e ∧
    e.snapshot.version = 1 ∧ e.pending = [samplePending] ∧ Recorded sampleSystem.stores d ∧
    d.version = e.snapshot.version ∧ (0, .apply samplePending) ∈ sampleSystem.requests ∧
    sampleSystem.store.operations.length = 2 ∧
    applyOperation plainRuntime (sampleCall 4) (sampleWho 0).documentId (editAttrs samplePending) sampleSystem.store ≠
      .error .unknownDocumentAtom := by
  have hengine : (sampleSystem.clients 0).engine.map (fun e => (e.snapshot.version, e.pending)) =
    some (1, [samplePending]) := by decide
  have hrequest : (0, .apply samplePending) ∈ sampleSystem.requests := by decide
  have hlength : sampleSystem.store.operations.length = 2 := by decide
  obtain ⟨e, he, heq⟩ := Option.map_eq_some_iff.1 hengine
  obtain ⟨hversion, hpending⟩ := Prod.mk.inj heq
  obtain ⟨hsnapshot, hsubmitted, -⟩ := pending_edits_protocol reachable_sample
  obtain ⟨d, hd, -, -, -, hv, -⟩ := hsnapshot 0 e he
  exact ⟨e, d, he, hversion, hpending, hd, hv, hrequest, hlength, (hsubmitted 0 samplePending hrequest).2.1 _⟩

end Sample

end KComms.Documents.UseSharedDocument
