import KComms.Documents.PendingEdits

/-!
# One turn of the event loop

Every function of the hook keeps the invariant of a client, so `handle` does (`handle_inv`).  The pump only removes an
edit whose operation the snapshot has caught up with; what remains in the queue then refers to atoms of the snapshot or
of the edits before it.
-/

namespace KComms.Documents.UseSharedDocument

open FallibleLoop (bind_ok foldlM_cons_ok)
open Model

variable {rt : Runtime} {stores : List Store} {documentId : String} {c c' : Client} {operation : DocumentOperation}
  {e : Engine} {input : DocumentEdit} {waiter : Waiter} {failure : Option Failure}

section Functions

variable {lc : Collation} {s : Store} {past : List Store}

/-- Changes that leave the calls in flight alone and keep the engine or drop it. -/
theorem ClientInv.congr (h : ClientInv rt stores documentId c) (hpump : c'.pump = c.pump) (hsync : c'.sync = c.sync)
    (hwaiting : c'.waiting = c.waiting) (hresumed : c'.resumed = c.resumed)
    (hengine : c'.engine = none ∧ c'.current = false ∨ c'.engine = c.engine ∧ c'.current = c.current) :
    ClientInv rt stores documentId c' := by
  have hwaiters : c'.waiters = c.waiters := by rw [Client.waiters, hwaiting, hresumed]; rfl
  have hsome : ∀ e, c'.engine = some e → c.engine = some e ∧ c'.current = c.current := by
    intro e he
    rcases hengine with ⟨hnone, -⟩ | ⟨hsame, hcurrent⟩
    · rw [hnone] at he; cases he
    · exact ⟨hsame ▸ he, hcurrent⟩
  refine ⟨fun e he => h.engine e (hsome e he).1, fun e he => ?_, fun hg => ?_, fun hcurrent hnone => ?_,
    fun e input he hi => ?_, ?_, ?_, ?_⟩
  · obtain ⟨he', hcurrent⟩ := hsome e he
    rw [hcurrent]
    exact h.scope e he'
  · rcases hengine with ⟨hnone, -⟩ | ⟨hsame, -⟩
    · exact hnone
    · rw [hsame]
      exact h.getting (hsync ▸ hg)
  · rcases hengine with ⟨-, hlost⟩ | ⟨hsame, hsame'⟩
    · rw [hlost] at hcurrent; cases hcurrent
    · rw [hpump]
      exact h.fresh (hsame' ▸ hcurrent) (hsame ▸ hnone)
  · exact h.head e input (hsome e he).1 (hpump ▸ hi)
  · rw [hwaiters]
    exact h.broadcasts
  · rw [Client.pumped, hwaiters, hpump]
    exact h.pumped
  · intro input operation failure hp
    obtain ⟨hack, hle⟩ := h.settled input operation failure (hpump ▸ hp)
    exact ⟨hack, fun hf e he => hle hf e (hsome e he).1⟩

theorem pumped_congr (hwaiting : c'.waiting = c.waiting) (hresumed : c'.resumed = c.resumed) :
    c'.pumped = c.pumped := by
  unfold Client.pumped Client.waiters
  rw [hwaiting, hresumed]

theorem unavailable_inv (h : ClientInv rt stores documentId c) :
    ClientInv rt stores documentId (unavailable c) := by
  unfold unavailable
  split
  · exact h.congr rfl rfl rfl rfl (Or.inl ⟨rfl, rfl⟩)
  · exact h

theorem unavailable_frame (c : Client) : (unavailable c).pump = c.pump ∧ (unavailable c).waiting = c.waiting ∧
    (unavailable c).resumed = c.resumed ∧ ((unavailable c).engine = none ∨ (unavailable c).engine = c.engine) := by
  unfold unavailable
  split
  · exact ⟨rfl, rfl, rfl, Or.inl rfl⟩
  · exact ⟨rfl, rfl, rfl, Or.inr rfl⟩

theorem broadcastFailed_inv (h : ClientInv rt stores documentId c) (failure : Failure) :
    ClientInv rt stores documentId (broadcastFailed c failure) := by
  unfold broadcastFailed
  split
  · exact unavailable_inv h
  · exact h

theorem observerFailed_inv (h : ClientInv rt stores documentId c) (failure : Failure) :
    ClientInv rt stores documentId (observerFailed c failure) := by
  unfold observerFailed
  split
  · exact unavailable_inv h
  split
  · exact h.congr rfl rfl rfl rfl (Or.inr ⟨rfl, rfl⟩)
  · exact h

theorem pumpFailed_inv (h : ClientInv rt stores documentId c) (failure : Failure) :
    ClientInv rt stores documentId (pumpFailed c failure) ∧ (pumpFailed c failure).pump = c.pump := by
  unfold pumpFailed
  split
  · exact ⟨h, rfl⟩
  split
  · exact ⟨unavailable_inv h, (unavailable_frame c).1⟩
  split
  · exact ⟨h.congr rfl rfl rfl rfl (Or.inr ⟨rfl, rfl⟩), rfl⟩
  · exact ⟨h.congr rfl rfl rfl rfl (Or.inr ⟨rfl, rfl⟩), rfl⟩

/-- The engine moves on and the queue stays. -/
theorem ClientInv.advance (h : ClientInv rt stores documentId c) {e' : Engine} (he : c.engine = some e)
    (hinv : EngineInv rt stores documentId e') (hpending : e'.pending = e.pending)
    (hversion : e.snapshot.version ≤ e'.snapshot.version) :
    ClientInv rt stores documentId { c with engine := some e' } := by
  refine ⟨fun e₁ h₁ => ?_, fun _ _ => h.scope e he, fun hg => ?_, fun _ hnone => (by cases hnone),
    fun e₁ input h₁ hi => ?_, h.broadcasts, h.pumped, ?_⟩
  · obtain rfl := Option.some.inj h₁
    exact hinv
  · have := h.getting hg
    rw [he] at this
    cases this
  · obtain rfl := Option.some.inj h₁
    rw [hpending]
    exact h.head e input he hi
  · intro input operation failure hp
    obtain ⟨hack, hle⟩ := h.settled input operation failure hp
    refine ⟨hack, fun hf e₁ h₁ => ?_⟩
    obtain rfl := Option.some.inj h₁
    exact (hle hf e he).trans hversion

/-- Replaying a stored operation keeps the invariant of an engine. -/
theorem EngineInv.apply (hc : Consistent rt s past) (h : EngineInv rt (s :: past) documentId e)
    (hop : Reported (s :: past) operation) {snapshot : SharedDocument}
    (happly : committedApply lc e.snapshot operation = .ok snapshot) :
    EngineInv rt (s :: past) documentId { e with snapshot := snapshot } ∧ operation.version ≤ snapshot.version ∧
      e.snapshot.version ≤ snapshot.version := by
  obtain ⟨d, hd⟩ := h.shown
  obtain ⟨hshown, hle, hversion, hids⟩ := hd.apply hc hop happly
  exact ⟨⟨hshown, h.queue.mono hids, h.ids, h.canonical⟩, hle, hversion⟩

theorem acceptRest_inv (lc : Collation) (hc : Consistent rt s past) (h : ClientInv rt (s :: past) documentId c)
    (hop : Reported (s :: past) operation) :
    ClientInv rt (s :: past) documentId (acceptRest lc c operation).1 ∧
      (acceptRest lc c operation).1.pump = c.pump ∧ (acceptRest lc c operation).1.waiting = c.waiting ∧
      (acceptRest lc c operation).1.resumed = c.resumed ∧
      ((acceptRest lc c operation).2 = none → ∀ e, (acceptRest lc c operation).1.engine = some e →
        operation.version ≤ e.snapshot.version) := by
  unfold acceptRest
  split
  · rename_i e hcurrent he
    split
    · refine ⟨h, rfl, rfl, rfl, fun hf => by cases hf⟩
    · rename_i snapshot happly
      obtain ⟨hinv, hle, hversion⟩ := (h.engine e he).apply hc hop happly
      refine ⟨h.advance he hinv rfl hversion, rfl, rfl, rfl, fun _ e' he' => ?_⟩
      obtain rfl := Option.some.inj he'
      exact hle
  · rename_i hnot
    refine ⟨h, rfl, rfl, rfl, fun _ e he => ?_⟩
    exact absurd he (hnot e (h.scope e he))

/-- The promise of a synchronisation is settled: the calls that waited for it may go on. -/
theorem finishSync_inv (h : ClientInv rt stores documentId c) (failure : Option Failure) :
    ClientInv rt stores documentId (finishSync c failure) := by
  have hwaiters : (finishSync c failure).waiters.Perm c.waiters := by
    unfold Client.waiters finishSync
    simp only [List.nil_append, List.map_append, List.map_map]
    have hmap : (c.waiting.map (Prod.fst ∘ fun waiter => (waiter, failure))) = c.waiting := by
      conv_rhs => rw [← List.map_id c.waiting]
      rfl
    rw [hmap]
    exact List.perm_append_comm
  refine ⟨h.engine, h.scope, fun hg => (by cases hg), h.fresh, h.head,
    fun operation hm => h.broadcasts operation (hwaiters.mem_iff.1 hm), ?_, h.settled⟩
  have hpumped : (finishSync c failure).pumped.Perm c.pumped := hwaiters.filterMap _
  rcases h.pumped with hnil | ⟨input, operation, hp, hone, hack⟩
  · rw [hnil] at hpumped
    exact Or.inl hpumped.eq_nil
  · rw [hone] at hpumped
    exact Or.inr ⟨input, operation, hp, List.perm_singleton.1 hpumped, hack⟩

theorem pumped_snoc (c : Client) (waiter : Waiter) : ({ c with waiting := c.waiting ++ [waiter] } : Client).pumped.Perm
    (waiter.pumped.toList ++ c.pumped) := by
  unfold Client.pumped Client.waiters
  have hperm : (c.waiting ++ [waiter] ++ c.resumed.map Prod.fst).Perm ([waiter] ++ (c.waiting ++ c.resumed.map Prod.fst)) := by
    rw [← List.append_assoc]
    exact List.perm_append_comm.append_right _
  refine (hperm.filterMap _).trans (List.Perm.of_eq ?_)
  rw [List.filterMap_append]
  cases waiter <;> rfl

/-- The waiting call is the only change that `synchronize` makes to what the invariant speaks about. -/
theorem synchronize_frame (c : Client) (waiter : Waiter) :
    (synchronize c waiter).1.engine = c.engine ∧ (synchronize c waiter).1.current = c.current ∧
      (synchronize c waiter).1.pump = c.pump ∧ (synchronize c waiter).1.waiting = c.waiting ++ [waiter] ∧
      (synchronize c waiter).1.resumed = c.resumed ∧
      ((synchronize c waiter).1.sync = .getting → c.sync = .getting ∨ c.engine = none) ∧
      ∀ request ∈ (synchronize c waiter).2, ∀ input, request ≠ .apply input := by
  unfold synchronize
  dsimp only
  split <;> simp_all

/-- A call may wait for the synchronisation; if it is the pump, it is the only one in flight. -/
theorem synchronize_inv (h : ClientInv rt stores documentId c)
    (hw : ∀ operation, waiter = .broadcast operation → Reported stores operation)
    (hp : ∀ operation, waiter.pumped = some operation → c.pumped = [] ∧
      ∃ input, c.pump = .accepting input ∧ Acknowledges rt stores documentId input operation) :
    TurnInv rt stores documentId (synchronize c waiter) := by
  obtain ⟨hengine, hcurrent, hpump, hwaiting, hresumed, hgetting, hrequests⟩ := synchronize_frame c waiter
  refine ⟨⟨hengine ▸ h.engine, by rw [hengine, hcurrent]; exact h.scope, fun hg => ?_,
    by rw [hengine, hcurrent, hpump]; exact h.fresh, by rw [hengine, hpump]; exact h.head, ?_, ?_,
    by rw [hpump, hengine]; exact h.settled⟩, fun request hr => ?_, fun input hr => absurd rfl (hrequests _ hr input)⟩
  · rw [hengine]
    rcases hgetting hg with hg | hnone
    · exact h.getting hg
    · exact hnone
  · intro operation hm
    rw [Client.waiters, hwaiting, hresumed, List.append_assoc, List.mem_append, List.mem_append] at hm
    rcases hm with hm | hm | hm
    · exact h.broadcasts operation (List.mem_append_left _ hm)
    · exact hw operation (List.mem_singleton.1 hm).symm
    · exact h.broadcasts operation (List.mem_append_right _ hm)
  · have hperm := pumped_snoc c waiter
    have hsame : (synchronize c waiter).1.pumped = ({ c with waiting := c.waiting ++ [waiter] } : Client).pumped :=
      pumped_congr hwaiting hresumed
    rw [hsame, hpump]
    cases hw' : waiter.pumped with
    | none =>
      rw [hw', Option.toList_none, List.nil_append] at hperm
      rcases h.pumped with hnil | ⟨input, operation, hphase, hone, hack⟩
      · rw [hnil] at hperm
        exact Or.inl hperm.eq_nil
      · rw [hone] at hperm
        exact Or.inr ⟨input, operation, hphase, List.perm_singleton.1 hperm, hack⟩
    | some operation =>
      obtain ⟨hnil, input, hphase, hack⟩ := hp operation hw'
      rw [hw', hnil] at hperm
      exact Or.inr ⟨input, operation, hphase, List.perm_singleton.1 hperm, hack⟩
  · cases request with
    | get => trivial
    | replay _ _ => trivial
    | apply input => exact absurd rfl (hrequests _ hr input)

/-- The pump submits the head of the queue, which only refers to atoms of the snapshot. -/
theorem startPump_inv (h : ClientInv rt stores documentId c) :
    TurnInv rt stores documentId (startPump c) := by
  unfold startPump
  split
  · rename_i snapshot input rest he
    split
    · rename_i hstart
      obtain ⟨hcurrent, hidle, -⟩ := hstart
      have hinv := h.engine _ he
      refine ⟨⟨h.engine, h.scope, h.getting, fun _ hnone => (by rw [he] at hnone; cases hnone),
        fun e input' he' hi => ?_, h.broadcasts, ?_, fun _ _ _ hp => by cases hp⟩, fun request hr => ?_,
        fun input' hr => ?_⟩
      · rw [he] at he'
        obtain rfl := Option.some.inj he'
        obtain rfl := Option.some.inj hi
        exact ⟨rest, rfl⟩
      · rcases h.pumped with hnil | ⟨_, _, hphase, -⟩
        · exact Or.inl hnil
        · rw [hidle] at hphase
          cases hphase
      · obtain rfl := List.mem_singleton.1 hr
        obtain ⟨d, hd⟩ := hinv.shown
        refine ⟨hinv.canonical input List.mem_cons_self, d, hd.recorded, hd.live, hd.cast, ?_⟩
        rw [← hd.mirrors.atoms]
        exact hinv.queue.1
      · obtain rfl := Request.apply.inj (List.mem_singleton.1 hr)
        unfold Client.head
        rw [he]
        rfl
    · exact h.quiet
  · exact h.quiet

/-- The pump leaves a phase in which it does not wait for `accept`. -/
theorem finishPump_inv (h : ClientInv rt stores documentId c)
    (hphase : ∀ input, c.pump ≠ .accepting input) : TurnInv rt stores documentId (finishPump c) := by
  apply startPump_inv
  refine ⟨h.engine, h.scope, h.getting, fun _ _ => rfl, fun _ _ _ hi => (by cases hi), h.broadcasts, ?_,
    fun _ _ _ hp => (by cases hp)⟩
  rcases h.pumped with hnil | ⟨input, _, hp, -⟩
  · exact Or.inl hnil
  · exact absurd hp (hphase input)

private theorem filter_head {rest : List DocumentEdit}
    (hnd : ((input :: rest).map DocumentEdit.clientOperationId).Nodup) :
    ((input :: rest).filter fun item => item.clientOperationId ≠ input.clientOperationId) = rest := by
  rw [List.map_cons, List.nodup_cons] at hnd
  rw [List.filter_cons_of_neg (by simp), List.filter_eq_self]
  intro item hitem
  have hne : item.clientOperationId ≠ input.clientOperationId := fun heq => hnd.1 (heq ▸ List.mem_map_of_mem hitem)
  simpa using hne

/-- The acknowledged head leaves the queue: the snapshot has its atoms. -/
theorem EngineInv.pop (hc : Consistent rt s past) (h : EngineInv rt (s :: past) documentId e) {rest : List DocumentEdit}
    (hhead : e.pending = input :: rest) (hack : Acknowledges rt (s :: past) documentId input operation)
    (hle : operation.version ≤ e.snapshot.version) :
    EngineInv rt (s :: past) documentId { e with pending := rest } := by
  obtain ⟨d, hd⟩ := h.shown
  have hqueue := h.queue
  have hids := h.ids
  rw [hhead] at hqueue hids
  refine ⟨h.shown, ?_, (List.nodup_cons.1 hids).2, fun item hitem => h.canonical item (by rw [hhead]; simp [hitem])⟩
  refine hqueue.2.mono fun id hid => ?_
  rcases List.mem_append.1 hid with hid | hid
  · exact hid
  · exact hd.acknowledged hc hack hle hid

/-- The `finally` of the pump forgets the phase. -/
private theorem finishPump_pumpFailed (c : Client) (failure : Failure) :
    finishPump (pumpFailed { c with pump := .idle } failure) = finishPump (pumpFailed c failure) := by
  unfold pumpFailed unavailable
  dsimp only
  split_ifs <;> rfl

theorem settlePump_inv (hc : Consistent rt s past) (h : ClientInv rt (s :: past) documentId c)
    (hphase : c.pump = .settled input operation failure) :
    TurnInv rt (s :: past) documentId (settlePump lc c input failure) := by
  have hnot : ∀ input', c.pump ≠ .accepting input' := fun input' heq => by rw [hphase] at heq; cases heq
  have hfail : ∀ {c' : Client} (f : Failure), ClientInv rt (s :: past) documentId c' →
      (∀ input', c'.pump ≠ .accepting input') →
      TurnInv rt (s :: past) documentId (finishPump (pumpFailed c' f)) := by
    intro c' f h' hp
    obtain ⟨hinv, hframe⟩ := pumpFailed_inv h' f
    exact finishPump_inv hinv fun input' heq => hp input' (by rw [← hframe]; exact heq)
  obtain ⟨hack, hle⟩ := h.settled input operation failure hphase
  cases failure with
  | some failure => exact hfail failure h hnot
  | none =>
    rw [settlePump]
    split
    · rename_i e hcurrent he
      obtain ⟨rest, hhead⟩ := h.head e input he (by rw [hphase]; rfl)
      have hinv := h.engine e he
      have hpop := hinv.pop hc hhead hack (hle rfl e he)
      have hfilter : (e.pending.filter fun item => item.clientOperationId ≠ input.clientOperationId) = rest := by
        have hids := hinv.ids
        rw [hhead] at hids ⊢
        exact filter_head hids
      dsimp only
      rw [hfilter]
      have hdone : ClientInv rt (s :: past) documentId
          { c with pump := .idle, engine := some { e with pending := rest } } := by
        refine ⟨fun e' he' => ?_, fun _ _ => hcurrent, fun hg => ?_, fun _ _ => rfl, fun _ _ _ hi => (by cases hi),
          h.broadcasts, ?_, fun _ _ _ hp => (by cases hp)⟩
        · obtain rfl := Option.some.inj he'
          exact hpop
        · have := h.getting hg
          rw [he] at this
          cases this
        · rcases h.pumped with hnil | ⟨_, _, hp, -⟩
          · exact Or.inl hnil
          · exact absurd hp (hnot _)
      split
      · rw [← finishPump_pumpFailed]
        exact hfail _ hdone fun _ heq => (by cases heq)
      · have := finishPump_inv hdone fun _ heq => (by cases heq)
        exact this
    · exact finishPump_inv h hnot

theorem replayPage_inv (lc : Collation) (hc : Consistent rt s past) {operations : List DocumentOperation} : ∀ {e : Engine},
    EngineInv rt (s :: past) documentId e → (∀ operation ∈ operations, Reported (s :: past) operation) →
      EngineInv rt (s :: past) documentId { e with snapshot := (replayPage lc e.snapshot operations).1 } ∧
        e.snapshot.version ≤ (replayPage lc e.snapshot operations).1.version := by
  induction operations with
  | nil => intro e h _; exact ⟨h, le_refl _⟩
  | cons operation operations ih =>
    intro e h hops
    rw [replayPage]
    split
    · exact ⟨h, le_refl _⟩
    · rename_i snapshot happly
      obtain ⟨hinv, -, hversion⟩ := h.apply hc (hops operation (by simp)) happly
      obtain ⟨hrest, hle⟩ := ih (e := { e with snapshot := snapshot }) hinv fun o ho => hops o (by simp [ho])
      exact ⟨hrest, hversion.trans hle⟩

/-- What is known of the answer to a request for the document or a page. -/
def SyncReplyInv (rt : Runtime) (stores : List Store) (documentId : String) : SyncReply → Prop
  | .document document => ∃ d, Recorded stores d ∧ d.erasedAt = none ∧ rt.uuidCast documentId = some d.id ∧
      document = Projector.document d
  | .page page => ∀ operation ∈ page.operations, Reported stores operation
  | .failed _ => True

theorem syncReplied_inv (hc : Consistent rt s past) (h : ClientInv rt (s :: past) documentId c) (late : Bool)
    {reply : SyncReply} (hreply : SyncReplyInv rt (s :: past) documentId reply) :
    TurnInv rt (s :: past) documentId (syncReplied lc c late reply) := by
  cases reply with
  | failed failure => exact (finishSync_inv h _).quiet
  | document document =>
    rw [syncReplied]
    split
    · rename_i hphase
      split
      · rename_i hcurrent
        obtain ⟨d, hrec, hlive, hcast, rfl⟩ := hreply
        have hidle := h.fresh hcurrent (h.getting hphase)
        have hstart : ClientInv rt (s :: past) documentId
            { c with sync := .idle, engine := some ⟨Projector.document d, []⟩ } := by
          refine ⟨fun e he => ?_, fun _ _ => hcurrent, fun hg => (by cases hg), fun _ _ => hidle,
            fun e input _ hi => ?_, h.broadcasts, h.pumped, fun input operation failure hp => ?_⟩
          · obtain rfl := Option.some.inj he
            exact ⟨⟨d, hrec, hlive, hcast, mirrors_projection d⟩, trivial, List.nodup_nil, by simp⟩
          · dsimp only at hi
            rw [hidle] at hi
            cases hi
          · dsimp only at hp
            rw [hidle] at hp
            cases hp
        exact (finishSync_inv hstart _).quiet
      · exact (finishSync_inv h _).quiet
    · exact h.quiet
  | page page =>
    rw [syncReplied]
    split
    · rename_i generation afterVersion pageIndex e hphase hcurrent he
      split
      · exact (finishSync_inv h _).quiet
      obtain ⟨hinv, hversion⟩ := replayPage_inv lc hc (h.engine e he) hreply
      have hadv := h.advance he hinv rfl hversion
      dsimp only
      split
      · exact (finishSync_inv hadv _).quiet
      split
      · exact (finishSync_inv hadv _).quiet
      split
      · exact (finishSync_inv hadv _).quiet
      · refine ⟨⟨hadv.engine, hadv.scope, fun hg => (by cases hg), hadv.fresh, hadv.head, hadv.broadcasts, hadv.pumped,
          hadv.settled⟩, fun request hr => ?_, fun input hr => (by cases List.mem_singleton.1 hr)⟩
        obtain rfl := List.mem_singleton.1 hr
        trivial
    · exact (finishSync_inv h _).quiet
    · exact h.quiet

/-- A call of `accept` that does not have to wait. -/
theorem accept_done (hc : Consistent rt s past) (h : ClientInv rt (s :: past) documentId c)
    (hop : Reported (s :: past) operation) {requests : List Request}
    (haccept : accept lc c operation waiter = (c', requests, .done failure)) :
    ClientInv rt (s :: past) documentId c' ∧ requests = [] ∧ c'.pump = c.pump ∧ c'.pumped = c.pumped ∧
      (failure = none → ∀ e, c'.engine = some e → operation.version ≤ e.snapshot.version) := by
  unfold accept at haccept
  split at haccept
  · rename_i e hcurrent he
    split at haccept
    · obtain ⟨rfl, rfl, -⟩ : unavailable c = c' ∧ [] = requests ∧ _ := by simpa using haccept
      obtain ⟨hpump, hwaiting, hresumed, -⟩ := unavailable_frame c
      refine ⟨unavailable_inv h, rfl, hpump, pumped_congr hwaiting hresumed, fun _ e' he' => ?_⟩
      unfold unavailable at he'
      rw [if_pos hcurrent] at he'
      cases he'
    split at haccept
    · simp at haccept
    · obtain ⟨hinv, hpump, hwaiting, hresumed, hle⟩ := acceptRest_inv lc hc h hop
      obtain ⟨rfl, rfl, rfl⟩ : (acceptRest lc c operation).1 = c' ∧ [] = requests ∧
        (acceptRest lc c operation).2 = failure := by simpa using haccept
      exact ⟨hinv, rfl, hpump, pumped_congr hwaiting hresumed, hle⟩
  · rename_i hnot
    obtain ⟨rfl, rfl, -⟩ : c = c' ∧ [] = requests ∧ _ := by simpa using haccept
    exact ⟨h, rfl, rfl, rfl, fun _ e he => absurd he (hnot e (h.scope e he))⟩

theorem accept_waits {requests : List Request}
    (haccept : accept lc c operation waiter = (c', requests, .waits)) : (c', requests) = synchronize c waiter := by
  unfold accept at haccept
  split at haccept
  · split at haccept
    · simp at haccept
    split at haccept
    · obtain ⟨h1, h2⟩ : (synchronize c waiter).1 = c' ∧ (synchronize c waiter).2 = requests := by simpa using haccept
      rw [← h1, ← h2]
    · simp at haccept
  · simp at haccept

/-- A broadcast operation arrives. -/
theorem broadcast_inv (hc : Consistent rt s past) (h : ClientInv rt (s :: past) documentId c)
    (hop : Reported (s :: past) operation) :
    TurnInv rt (s :: past) documentId (broadcast lc c operation) := by
  unfold broadcast
  split
  · rename_i c' requests failure haccept
    obtain ⟨hinv, rfl, -⟩ := accept_done hc h hop haccept
    exact (broadcastFailed_inv hinv failure).quiet
  · rename_i c' requests accepted hnot haccept
    cases accepted with
    | done failure =>
      obtain ⟨hinv, rfl, -⟩ := accept_done hc h hop haccept
      exact hinv.quiet
    | waits =>
      rw [accept_waits haccept]
      exact synchronize_inv h (fun o ho => by cases ho; exact hop) (by simp [Waiter.pumped])

private theorem synchronize_pump (c : Client) (waiter : Waiter) (phase : PumpPhase) :
    synchronize { c with pump := phase } waiter =
      ({ (synchronize c waiter).1 with pump := phase }, (synchronize c waiter).2) := by
  obtain ⟨engine, current, live, conflicted, sync, pump, waiting, resumed⟩ := c
  cases sync <;> cases engine <;> rfl

/-- The pump moves on with the same edit. -/
theorem ClientInv.enter (h : ClientInv rt stores documentId c) (hphase : c.pump.input = some input)
    (hpumped : c.pumped = []) {phase : PumpPhase} (hinput : phase.input = some input)
    (hsettled : ∀ input' operation failure, phase = .settled input' operation failure →
      Acknowledges rt stores documentId input' operation ∧
        (failure = none → ∀ e, c.engine = some e → operation.version ≤ e.snapshot.version)) :
    ClientInv rt stores documentId { c with pump := phase } := by
  refine ⟨h.engine, h.scope, h.getting, fun hcurrent hnone => ?_, fun e input' he hi => ?_, h.broadcasts,
    Or.inl hpumped, hsettled⟩
  · rw [h.fresh hcurrent hnone] at hphase
    cases hphase
  · exact h.head e input' he (hphase.trans (hinput.symm.trans hi))

/-- The pump has its answer. -/
theorem applyReplied_inv (hc : Consistent rt s past) (h : ClientInv rt (s :: past) documentId c)
    {reply : Except Failure DocumentOperation}
    (hreply : ∀ input operation, c.pump = .applying input → reply = .ok operation →
      Acknowledges rt (s :: past) documentId input operation) :
    TurnInv rt (s :: past) documentId (applyReplied lc c reply) := by
  unfold applyReplied
  split
  · rename_i input failure hphase
    obtain ⟨hinv, hpump⟩ := pumpFailed_inv h failure
    exact finishPump_inv hinv fun _ heq => by rw [hpump, hphase] at heq; cases heq
  · rename_i input operation hphase
    have hack := hreply input operation hphase rfl
    have hnot : ∀ input', c.pump ≠ .accepting input' := fun _ heq => by rw [hphase] at heq; cases heq
    have hnil : c.pumped = [] := by
      rcases h.pumped with hnil | ⟨_, _, hp, -⟩
      · exact hnil
      · exact absurd hp (hnot _)
    split
    · exact finishPump_inv h hnot
    split
    · rename_i c' requests failure haccept
      obtain ⟨hinv, rfl, hpump, hpumped, hle⟩ := accept_done hc h hack.reported haccept
      refine ⟨hinv.enter (by rw [hpump, hphase]; rfl) (hpumped.trans hnil) rfl
        fun input' operation' failure' heq => ?_, by simp, by simp⟩
      obtain ⟨rfl, rfl, rfl⟩ := PumpPhase.settled.inj heq
      exact ⟨hack, hle⟩
    · rename_i c' requests haccept
      have hstart : ClientInv rt (s :: past) documentId { c with pump := .accepting input } :=
        h.enter (by rw [hphase]; rfl) hnil rfl fun _ _ _ heq => (by cases heq)
      have hsync := synchronize_pump c (.pump operation) (.accepting input)
      rw [← accept_waits haccept] at hsync
      rw [← hsync]
      refine synchronize_inv hstart (fun o ho => (by cases ho)) fun o ho => ?_
      obtain rfl := Option.some.inj ho
      exact ⟨hnil, input, rfl, hack⟩
  · exact h.quiet

/-- A call that waited goes on; if it is the pump, it was the only one. -/
theorem resumed_inv (h : ClientInv rt stores documentId c) {index : Nat}
    (hget : c.resumed[index]? = some (waiter, failure)) :
    ClientInv rt stores documentId { c with resumed := c.resumed.eraseIdx index } ∧
      (∀ operation, waiter = .broadcast operation → Reported stores operation) ∧
      ∀ operation, waiter = .pump operation → ({ c with resumed := c.resumed.eraseIdx index } : Client).pumped = [] ∧
        ∃ input, c.pump = .accepting input ∧ Acknowledges rt stores documentId input operation := by
  obtain ⟨hlt, hget⟩ := List.getElem?_eq_some_iff.1 hget
  have hperm : (c.waiting ++ c.resumed.map Prod.fst).Perm
      (waiter :: (c.waiting ++ (c.resumed.eraseIdx index).map Prod.fst)) := by
    have := (List.getElem_cons_eraseIdx_perm hlt).map Prod.fst
    rw [hget, List.map_cons] at this
    exact (this.symm.append_left _).trans List.perm_middle
  have hpumped : c.pumped.Perm
      (waiter.pumped.toList ++ ({ c with resumed := c.resumed.eraseIdx index } : Client).pumped) := by
    refine (hperm.filterMap _).trans (List.Perm.of_eq ?_)
    cases waiter <;> rfl
  refine ⟨⟨h.engine, h.scope, h.getting, h.fresh, h.head, fun operation hm => ?_, ?_, h.settled⟩, ?_, ?_⟩
  · exact h.broadcasts operation (hperm.mem_iff.2 (List.mem_cons_of_mem _ hm))
  · rcases h.pumped with hnil | ⟨input, operation, hphase, hone, hack⟩
    · rw [hnil] at hpumped
      exact Or.inl (List.append_eq_nil_iff.1 hpumped.symm.eq_nil).2
    · rw [hone] at hpumped
      rcases List.append_eq_singleton_iff.1 (List.perm_singleton.1 hpumped.symm) with ⟨-, hrest⟩ | ⟨-, hrest⟩
      · exact Or.inr ⟨input, operation, hphase, hrest, hack⟩
      · exact Or.inl hrest
  · rintro operation rfl
    exact h.broadcasts operation (hperm.mem_iff.2 List.mem_cons_self)
  · rintro operation rfl
    rcases h.pumped with hnil | ⟨input, operation', hphase, hone, hack⟩
    · rw [hnil] at hpumped
      cases (List.append_eq_nil_iff.1 hpumped.symm.eq_nil).1
    · rw [hone] at hpumped
      obtain ⟨rfl, hrest⟩ := List.cons.inj (List.perm_singleton.1 hpumped.symm)
      exact ⟨hrest, input, hphase, hack⟩

theorem resume_inv (hc : Consistent rt s past) (h : ClientInv rt (s :: past) documentId c) {index : Nat}
    (hget : c.resumed[index]? = some (waiter, failure)) :
    ClientInv rt (s :: past) documentId
      (resume lc { c with resumed := c.resumed.eraseIdx index } waiter failure) := by
  obtain ⟨hinv, hbroadcast, hpump⟩ := resumed_inv h hget
  cases waiter with
  | observer =>
    cases failure with
    | none => exact hinv
    | some failure => exact observerFailed_inv hinv failure
  | broadcast operation =>
    cases failure with
    | some failure => exact broadcastFailed_inv hinv failure
    | none =>
      have hrest := (acceptRest_inv lc hc hinv (hbroadcast operation rfl)).1
      rw [resume]
      split
      · rename_i c' failure heq
        rw [heq] at hrest
        exact broadcastFailed_inv hrest failure
      · rename_i c' heq
        rw [heq] at hrest
        exact hrest
  | pump operation =>
    obtain ⟨hnil, input, hphase, hack⟩ := hpump operation rfl
    have hsettled : ∀ (c' : Client) (failure : Option Failure), ClientInv rt (s :: past) documentId c' →
        c'.pump = c.pump → c'.pumped = [] →
        (failure = none → ∀ e, c'.engine = some e → operation.version ≤ e.snapshot.version) →
        ClientInv rt (s :: past) documentId { c' with pump := .settled input operation failure } := by
      intro c' failure h' hp hn hle
      refine h'.enter (by rw [hp, hphase]; rfl) hn rfl fun input' operation' failure' heq => ?_
      obtain ⟨rfl, rfl, rfl⟩ := PumpPhase.settled.inj heq
      exact ⟨hack, hle⟩
    cases failure with
    | some failure =>
      rw [resume]
      split
      · rename_i input' hphase'
        obtain rfl := PumpPhase.accepting.inj (hphase.symm.trans hphase')
        exact hsettled _ _ hinv rfl hnil fun hf => (by cases hf)
      · exact hinv
    | none =>
      obtain ⟨hrest, hp, hw, hr, hle⟩ := acceptRest_inv lc hc hinv hack.reported
      rw [resume]
      split
      · rename_i input' hphase'
        obtain rfl := PumpPhase.accepting.inj (hphase.symm.trans hphase')
        exact hsettled _ _ hrest hp ((pumped_congr hw hr).trans hnil) hle
      · exact hinv

/-! ### Editing -/

/-- The ids of the atoms that a client displays. -/
theorem display_ids {atoms : List Atom} (hnd : (e.snapshot.atoms.map Atom.id).Nodup) (h : e.display lc = .ok atoms) :
    atoms.map Atom.id ⊆ e.snapshot.atoms.map Atom.id ++ e.pending.flatMap editIds := by
  have key : ∀ (pending : List DocumentEdit) (k : Nat) (atoms atoms' : List Atom), (atoms.map Atom.id).Nodup →
      (pending.zipIdx k).foldlM (fun atoms entry =>
        optimisticApply lc atoms entry.1 (e.snapshot.version + entry.2 + 1)) atoms = .ok atoms' →
      atoms'.map Atom.id ⊆ atoms.map Atom.id ++ pending.flatMap editIds := by
    intro pending
    induction pending with
    | nil =>
      intro k atoms atoms' _ h
      obtain rfl := Except.ok.inj h
      simp
    | cons input pending ih =>
      intro k atoms atoms' hnd h
      rw [List.zipIdx_cons] at h
      obtain ⟨mid, hmid, h⟩ := foldlM_cons_ok.1 h
      obtain ⟨hmid, -⟩ := optimisticApply_ok (e := (input, e.snapshot.version + k + 1)) hnd hmid
      have hperm := orderAtoms_perm hmid
      have hmidnd : (mid.map Atom.id).Nodup := ((hperm.map Atom.id).nodup_iff).2 (orderAtoms_ok.1 hmid).1.ids
      have hsub : mid.map Atom.id ⊆ atoms.map Atom.id ++ editIds input := by
        intro id hid
        rw [(hperm.map Atom.id).mem_iff, optimisticMerged, Rga.map_mark_id, List.map_append] at hid
        rcases List.mem_append.1 hid with hid | hid
        · exact List.mem_append_left _ hid
        · obtain ⟨a, ha, rfl⟩ := List.mem_map.1 hid
          refine List.mem_append_right _ ?_
          have := List.mem_map_of_mem (f := Atom.id) (List.mem_filter.1 ha).1
          rwa [insertedBy, Rga.insertedAtoms_ids] at this
      intro id hid
      have := ih (k + 1) mid atoms' hmidnd h hid
      rw [List.flatMap_cons, ← List.append_assoc]
      rcases List.mem_append.1 this with this | this
      · exact List.mem_append_left _ (hsub this)
      · exact List.mem_append_right _ this
  exact key e.pending 0 _ _ hnd h

private theorem textChange_ok {visible : List Atom} {state state' : Int × List Change} {change : TextChange}
    (h : textChange visible state change = .ok state') :
    ∃ change', state'.2 = state.2 ++ [change'] ∧
      ∀ id ∈ change'.afterId.toList ++ change'.deleteIds, id ∈ visible.map Atom.id := by
  unfold textChange at h
  split at h
  · rename_i start stop _ _
    split at h
    · exact absurd h (by simp)
    obtain rfl := Except.ok.inj h
    refine ⟨_, rfl, fun id hid => ?_⟩
    rcases List.mem_append.1 hid with hid | hid
    · dsimp only at hid
      split at hid
      · cases hid
      · rw [Option.mem_toList, Option.map_eq_some_iff] at hid
        obtain ⟨a, ha, rfl⟩ := hid
        exact List.mem_map_of_mem (List.mem_of_getElem? ha)
    · obtain ⟨a, ha, rfl⟩ := List.mem_map.1 hid
      exact List.mem_map_of_mem (List.drop_subset _ _ (List.take_subset _ _ ha))
  · exact absurd h (by simp)

/-- The editor can only refer to atoms that it displays. -/
theorem textChanges_references {atoms : List Atom} {changes : List TextChange} {result : List Change}
    (h : textChanges lc atoms changes = .ok result) : ∀ id ∈ references result, id ∈ atoms.map Atom.id := by
  obtain ⟨visible, hvisible, h⟩ := bind_ok.1 h
  split at h
  · exact absurd h (by simp)
  obtain ⟨⟨last, result'⟩, hloop, h⟩ := bind_ok.1 h
  dsimp only at h
  split at h
  · exact absurd h (by simp)
  obtain rfl := Except.ok.inj h
  obtain ⟨ordered, hordered, hvisible⟩ := bind_ok.1 hvisible
  obtain rfl := Except.ok.inj hvisible
  have key : ∀ (changes : List TextChange) (state state' : Int × List Change),
      changes.foldlM (textChange (ordered.filter fun atom => !atom.deleted)) state = .ok state' →
      (∀ id ∈ references state.2, id ∈ atoms.map Atom.id) → ∀ id ∈ references state'.2, id ∈ atoms.map Atom.id := by
    intro changes
    induction changes with
    | nil =>
      intro state state' h hrefs
      obtain rfl := Except.ok.inj h
      exact hrefs
    | cons change changes ih =>
      intro state state' h hrefs
      obtain ⟨mid, hmid, h⟩ := foldlM_cons_ok.1 h
      obtain ⟨change', hsnoc, hids⟩ := textChange_ok hmid
      refine ih mid state' h fun id hid => ?_
      rw [hsnoc, references, List.flatMap_append, List.mem_append] at hid
      rcases hid with hid | hid
      · exact hrefs id hid
      · rw [List.flatMap_singleton] at hid
        obtain ⟨a, ha, rfl⟩ := List.mem_map.1 (hids id hid)
        exact List.mem_map_of_mem ((orderAtoms_perm hordered).mem_iff.1 (List.mem_filter.1 ha).1)
  exact key changes (-1, []) (last, result') hloop (by simp [references])

theorem EngineInv.push (h : EngineInv rt stores documentId e)
    (hrefs : ∀ id ∈ references input.changes, id ∈ e.snapshot.atoms.map Atom.id ++ e.pending.flatMap editIds)
    (hnew : input.clientOperationId ∉ e.pending.map DocumentEdit.clientOperationId)
    (hid : rt.uuidCast input.clientOperationId = some input.clientOperationId) :
    EngineInv rt stores documentId { e with pending := e.pending ++ [input] } := by
  refine ⟨h.shown, h.queue.snoc hrefs, ?_, fun item hitem => ?_⟩
  · rw [List.map_append, List.nodup_append]
    refine ⟨h.ids, by simp, fun x hx y hy heq => hnew ?_⟩
    obtain rfl := List.mem_singleton.1 hy
    exact heq ▸ hx
  · rcases List.mem_append.1 hitem with hitem | hitem
    · exact h.canonical item hitem
    · obtain rfl := List.mem_singleton.1 hitem
      exact hid

/-- An edit joins the queue. -/
theorem edit_inv (hc : Consistent rt s past) (h : ClientInv rt (s :: past) documentId c) {id : String}
    (changes : List TextChange) (hid : rt.uuidCast id = some id)
    (hnew : ∀ e, c.engine = some e → id ∉ e.pending.map DocumentEdit.clientOperationId) :
    TurnInv rt (s :: past) documentId (edit lc c id changes) := by
  unfold edit
  split
  · rename_i e hcurrent he
    have hinv := h.engine e he
    obtain ⟨d, hd⟩ := hinv.shown
    obtain ⟨line, ops, hh, hline⟩ := hd.history hc
    have hnd : (e.snapshot.atoms.map Atom.id).Nodup := by
      rw [hd.mirrors.atoms]
      exact (hh.lineage.valid d hline).wellFormed.ids
    split
    · exact h.quiet
    dsimp only
    split
    · exact h.quiet
    rename_i input hinput
    obtain ⟨atoms, hdisplay, hinput⟩ := bind_ok.1 hinput
    obtain ⟨result, hresult, hinput⟩ := bind_ok.1 hinput
    obtain ⟨_, -, hinput⟩ := bind_ok.1 hinput
    obtain rfl := Except.ok.inj hinput
    have hrefs : ∀ id ∈ references result, id ∈ e.snapshot.atoms.map Atom.id ++ e.pending.flatMap editIds :=
      fun id hid => display_ids hnd hdisplay (textChanges_references hresult id hid)
    have hnext : ClientInv rt (s :: past) documentId { c with engine := some { e with
        pending := e.pending ++ [⟨id, e.snapshot.generation, e.snapshot.version, result⟩] } } := by
      refine ⟨fun e' he' => ?_, fun _ _ => hcurrent, fun hg => ?_, fun _ hnone => (by cases hnone),
        fun e' input he' hi => ?_, h.broadcasts, h.pumped, fun input operation failure hp => ?_⟩
      · obtain rfl := Option.some.inj he'
        exact hinv.push hrefs (hnew e he) hid
      · have := h.getting hg
        rw [he] at this
        cases this
      · obtain rfl := Option.some.inj he'
        obtain ⟨rest, hrest⟩ := h.head e input he hi
        exact ⟨_, by rw [hrest, List.cons_append]⟩
      · obtain ⟨hack, hle⟩ := h.settled input operation failure hp
        refine ⟨hack, fun hf e' he' => ?_⟩
        obtain rfl := Option.some.inj he'
        exact hle hf e he
    split
    · exact hnext.quiet
    · exact startPump_inv hnext
  · exact h.quiet

/-- What the environment guarantees about an event. -/
def EventInv (rt : Runtime) (stores : List Store) (documentId : String) (c : Client) : Event → Prop
  | .broadcast operation => Reported stores operation
  | .syncReplied reply _ => SyncReplyInv rt stores documentId reply
  | .applyReplied reply => ∀ input operation, c.pump = .applying input → reply = .ok operation →
      Acknowledges rt stores documentId input operation
  | .edit id _ => rt.uuidCast id = some id ∧
      ∀ e, c.engine = some e → id ∉ e.pending.map DocumentEdit.clientOperationId
  | _ => True

/-- One turn of the event loop keeps the invariant. -/
theorem handle_inv (lc : Collation) (hc : Consistent rt s past) (h : ClientInv rt (s :: past) documentId c) {event : Event}
    (hevent : EventInv rt (s :: past) documentId c event) :
    TurnInv rt (s :: past) documentId (handle lc c event) := by
  have hlive : ∀ live, ClientInv rt (s :: past) documentId { c with live := live } := fun live =>
    h.congr rfl rfl rfl rfl (Or.inr ⟨rfl, rfl⟩)
  cases event with
  | synchronize =>
    simp only [handle]
    split
    · exact synchronize_inv h (fun _ ho => (by cases ho)) (fun _ ho => (by cases ho))
    · exact h.quiet
  | connected =>
    simp only [handle]
    split
    · exact h.quiet
    split
    · exact (hlive false).quiet
    · exact startPump_inv (hlive true)
  | closed => exact (hlive false).quiet
  | denied => exact (unavailable_inv h).quiet
  | left => exact (h.congr rfl rfl rfl rfl (Or.inl ⟨rfl, rfl⟩) :
    ClientInv rt (s :: past) documentId { c with current := false, live := false, engine := none }).quiet
  | broadcast operation => exact broadcast_inv hc h hevent
  | syncReplied reply late => exact syncReplied_inv hc h late hevent
  | applyReplied reply => exact applyReplied_inv hc h hevent
  | resumed index =>
    simp only [handle]
    split
    · rename_i hget
      exact (resume_inv hc h hget).quiet
    · exact h.quiet
  | pumpResumed =>
    simp only [handle]
    split
    · rename_i hphase
      exact settlePump_inv hc h hphase
    · exact h.quiet
  | edit id changes => exact edit_inv hc h changes hevent.1 hevent.2

end Functions

/-! ### The head of the queue -/

/-- The head of the queue stays as long as the client has its document. -/
def Kept (c c' : Client) : Prop :=
  c'.current = true → c.current = true ∧ ∀ input, c.head = some input → c'.head = some input

theorem Kept.refl (c : Client) : Kept c c := fun h => ⟨h, fun _ hi => hi⟩

theorem Kept.trans {c'' : Client} (h : Kept c c') (h' : Kept c' c'') : Kept c c'' := fun hcurrent => by
  obtain ⟨hmid, hhead'⟩ := h' hcurrent
  obtain ⟨hstart, hhead⟩ := h hmid
  exact ⟨hstart, fun input hi => hhead' input (hhead input hi)⟩

theorem kept_of_frame (hcurrent : c'.current = c.current) (hengine : c'.engine = c.engine) :
    Kept c c' := fun h => ⟨hcurrent ▸ h, fun input hi => by unfold Client.head at hi ⊢; rwa [hengine]⟩

theorem kept_of_pending {e' : Engine} (hcurrent : c'.current = c.current) (he : c.engine = some e)
    (he' : c'.engine = some e') (hhead : ∀ input, e.pending.head? = some input → e'.pending.head? = some input) :
    Kept c c' := fun h => by
  refine ⟨hcurrent ▸ h, fun input hi => ?_⟩
  rw [Client.head, he] at hi
  rw [Client.head, he']
  exact hhead input hi

theorem kept_of_lost (h : c'.current = false) : Kept c c' := fun hcurrent => by
  rw [h] at hcurrent
  cases hcurrent

theorem unavailable_kept (c : Client) : Kept c (unavailable c) := by
  unfold unavailable
  split
  · exact kept_of_lost rfl
  · exact Kept.refl c

theorem broadcastFailed_kept (c : Client) (failure : Failure) : Kept c (broadcastFailed c failure) := by
  unfold broadcastFailed
  split
  · exact unavailable_kept c
  · exact Kept.refl c

theorem observerFailed_kept (c : Client) (failure : Failure) : Kept c (observerFailed c failure) := by
  unfold observerFailed
  split
  · exact unavailable_kept c
  split
  · exact kept_of_frame rfl rfl
  · exact Kept.refl c

theorem pumpFailed_kept (c : Client) (failure : Failure) : Kept c (pumpFailed c failure) := by
  unfold pumpFailed
  split
  · exact Kept.refl c
  split
  · exact unavailable_kept c
  split
  · exact kept_of_frame rfl rfl
  · exact kept_of_frame rfl rfl

theorem startPump_kept (c : Client) : Kept c (startPump c).1 := by
  unfold startPump
  split
  · split
    · exact kept_of_frame rfl rfl
    · exact Kept.refl c
  · exact Kept.refl c

theorem finishPump_kept (c : Client) : Kept c (finishPump c).1 :=
  (kept_of_frame rfl rfl : Kept c { c with pump := .idle }).trans (startPump_kept _)

theorem synchronize_kept (c : Client) (waiter : Waiter) : Kept c (synchronize c waiter).1 := by
  obtain ⟨hengine, hcurrent, -⟩ := synchronize_frame c waiter
  exact kept_of_frame hcurrent hengine

theorem acceptRest_kept (lc : Collation) (c : Client) (operation : DocumentOperation) :
    Kept c (acceptRest lc c operation).1 := by
  unfold acceptRest
  split
  · rename_i he
    split
    · exact Kept.refl c
    · exact kept_of_pending rfl he rfl fun _ hi => hi
  · exact Kept.refl c

theorem accept_kept (lc : Collation) (c : Client) (operation : DocumentOperation) (waiter : Waiter) :
    Kept c (accept lc c operation waiter).1 := by
  unfold accept
  split
  · split
    · exact unavailable_kept c
    split
    · exact synchronize_kept c waiter
    · exact acceptRest_kept lc c operation
  · exact Kept.refl c

theorem broadcast_kept (lc : Collation) (c : Client) (operation : DocumentOperation) :
    Kept c (broadcast lc c operation).1 := by
  have h := accept_kept lc c operation (.broadcast operation)
  unfold broadcast
  split
  · rename_i heq
    rw [heq] at h
    exact h.trans (broadcastFailed_kept _ _)
  · rename_i heq
    rw [heq] at h
    exact h

theorem applyReplied_kept (lc : Collation) (c : Client) (reply : Except Failure DocumentOperation) :
    Kept c (applyReplied lc c reply).1 := by
  unfold applyReplied
  split
  · exact (pumpFailed_kept c _).trans (finishPump_kept _)
  · rename_i operation _
    have h := accept_kept lc c operation (.pump operation)
    split
    · exact finishPump_kept c
    split
    · rename_i heq
      rw [heq] at h
      exact h.trans (kept_of_frame rfl rfl)
    · rename_i heq
      rw [heq] at h
      exact h.trans (kept_of_frame rfl rfl)
  · exact Kept.refl c

theorem resume_kept (lc : Collation) (c : Client) (waiter : Waiter) (failure : Option Failure) :
    Kept c (resume lc c waiter failure) := by
  cases waiter with
  | observer =>
    cases failure with
    | none => exact Kept.refl c
    | some failure => exact observerFailed_kept c failure
  | broadcast operation =>
    cases failure with
    | some failure => exact broadcastFailed_kept c failure
    | none =>
      have h := acceptRest_kept lc c operation
      rw [resume]
      split
      · rename_i heq
        rw [heq] at h
        exact h.trans (broadcastFailed_kept _ _)
      · rename_i heq
        rw [heq] at h
        exact h
  | pump operation =>
    cases failure with
    | some failure =>
      rw [resume]
      split
      · exact kept_of_frame rfl rfl
      · exact Kept.refl c
    | none =>
      rw [resume]
      split
      · exact (acceptRest_kept lc c operation).trans (kept_of_frame rfl rfl)
      · exact Kept.refl c

theorem edit_kept (lc : Collation) (c : Client) (id : String) (changes : List TextChange) :
    Kept c (edit lc c id changes).1 := by
  unfold edit
  split
  · rename_i e hcurrent he
    split
    · exact Kept.refl c
    dsimp only
    split
    · exact Kept.refl c
    rename_i input _
    have hnext : Kept c { c with engine := some { e with pending := e.pending ++ [input] } } :=
      kept_of_pending rfl he rfl fun first hi => by rw [List.head?_append, hi]; rfl
    split
    · exact hnext
    · exact hnext.trans (startPump_kept _)
  · exact Kept.refl c

/-- A synchronisation does not touch the queue. -/
theorem syncReplied_kept (lc : Collation) (h : ClientInv rt stores documentId c) (late : Bool)
    (reply : SyncReply) : Kept c (syncReplied lc c late reply).1 := by
  cases reply with
  | failed failure => exact kept_of_frame rfl rfl
  | document document =>
    rw [syncReplied]
    split
    · rename_i hphase
      have hnone := h.getting hphase
      split
      · refine fun hcurrent => ⟨hcurrent, fun input hi => ?_⟩
        rw [Client.head, hnone] at hi
        cases hi
      · exact kept_of_frame rfl rfl
    · exact Kept.refl c
  | page page =>
    rw [syncReplied]
    split
    · rename_i he
      split
      · exact kept_of_frame rfl rfl
      dsimp only
      split
      · exact kept_of_pending rfl he rfl fun _ hi => hi
      split
      · exact kept_of_pending rfl he rfl fun _ hi => hi
      split
      · exact kept_of_pending rfl he rfl fun _ hi => hi
      · exact kept_of_pending rfl he rfl fun _ hi => hi
    · exact kept_of_frame rfl rfl
    · exact Kept.refl c

/-- What the pump removes is the edit it submitted. -/
theorem settlePump_kept (lc : Collation) (h : ClientInv rt stores documentId c)
    (hphase : c.pump = .settled input operation failure) (hcurrent : (settlePump lc c input failure).1.current = true) :
    c.current = true ∧ ∀ first, c.head = some first → (settlePump lc c input failure).1.head = some first ∨
      ∃ operation, Acknowledges rt stores documentId first operation := by
  have hkept : Kept c (settlePump lc c input failure).1 → c.current = true ∧ ∀ first, c.head = some first →
      (settlePump lc c input failure).1.head = some first ∨
        ∃ operation, Acknowledges rt stores documentId first operation := by
    intro hk
    obtain ⟨hstart, hhead⟩ := hk hcurrent
    exact ⟨hstart, fun first hi => Or.inl (hhead first hi)⟩
  cases failure with
  | some failure => exact hkept ((pumpFailed_kept c failure).trans (finishPump_kept _))
  | none =>
    cases he : c.engine with
    | none =>
      apply hkept
      rw [settlePump]
      split
      · rename_i hsome
        rw [he] at hsome
        cases hsome
      · exact finishPump_kept c
    | some e =>
      obtain ⟨rest, hrest⟩ := h.head e input he (by rw [hphase]; rfl)
      refine ⟨h.scope e he, fun first hi => Or.inr ⟨operation, ?_⟩⟩
      rw [Client.head, he, Option.bind_some, hrest] at hi
      obtain rfl := Option.some.inj hi
      exact (h.settled _ _ _ hphase).1

/-- A turn only drops the head of the queue if its operation is stored. -/
theorem handle_kept (lc : Collation) (h : ClientInv rt stores documentId c) (event : Event)
    (hcurrent : (handle lc c event).1.current = true) :
    c.current = true ∧ ∀ input, c.head = some input → (handle lc c event).1.head = some input ∨
      ∃ operation, Acknowledges rt stores documentId input operation := by
  have hkept : Kept c (handle lc c event).1 → c.current = true ∧ ∀ input, c.head = some input →
      (handle lc c event).1.head = some input ∨ ∃ operation, Acknowledges rt stores documentId input operation := by
    intro hk
    obtain ⟨hstart, hhead⟩ := hk hcurrent
    exact ⟨hstart, fun input hi => Or.inl (hhead input hi)⟩
  cases event with
  | synchronize =>
    apply hkept
    simp only [handle]
    split
    · exact synchronize_kept c _
    · exact Kept.refl c
  | connected =>
    apply hkept
    simp only [handle]
    split
    · exact Kept.refl c
    split
    · exact kept_of_frame rfl rfl
    · exact (kept_of_frame rfl rfl : Kept c { c with live := true }).trans (startPump_kept _)
  | closed => exact hkept (kept_of_frame rfl rfl)
  | denied => exact hkept (unavailable_kept c)
  | left => exact hkept (kept_of_lost rfl)
  | broadcast operation => exact hkept (broadcast_kept lc c operation)
  | syncReplied reply late => exact hkept (syncReplied_kept lc h late reply)
  | applyReplied reply => exact hkept (applyReplied_kept lc c reply)
  | resumed index =>
    apply hkept
    simp only [handle]
    split
    · exact (kept_of_frame rfl rfl : Kept c { c with resumed := c.resumed.eraseIdx index }).trans
        (resume_kept lc _ _ _)
    · exact Kept.refl c
  | pumpResumed =>
    cases hphase : c.pump with
    | settled input operation failure =>
      simp only [handle, hphase] at hcurrent ⊢
      exact settlePump_kept lc h hphase hcurrent
    | idle => exact hkept (by simp only [handle, hphase]; exact Kept.refl c)
    | applying input => exact hkept (by simp only [handle, hphase]; exact Kept.refl c)
    | accepting input => exact hkept (by simp only [handle, hphase]; exact Kept.refl c)
  | edit id changes => exact hkept (edit_kept lc c id changes)

end KComms.Documents.UseSharedDocument
