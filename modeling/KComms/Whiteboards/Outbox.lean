import KComms.Whiteboards.Persistence

/-!
# No unsent edit is lost (`WhiteboardPersistence.ts`)

The containers of unsent edits and the calls that wait, without the rest of the client, form an automaton (`Core`,
`Move`).  Every turn of the client that brings neither a clear nor a `stale_whiteboard_generation` reply is a sequence of
its moves (`step_moves`), and each move keeps every admitted revision (`Kept`) and the identity of every batch
(`CoreInv`).  `edits_retained` is the statement about whole runs.
-/

namespace KComms.Whiteboards.Persistence

open OperationStream

/-! ### The automaton -/

structure Core where
  pending : OrderedMap String ElementData
  outbox : List WhiteboardOutboxEntry
  inFlight : Option WhiteboardOutboxEntry
  flushes : List Flush
  flushCompletion : Bool
  retryTimer : Bool
  clears : List ClearStage
  clearRequested : Bool
  generation : Nat
  drawn : Nat

def Client.core (c : Client) : Core :=
  { pending := c.pending, outbox := c.outbox, inFlight := c.inFlight, flushes := c.flushes,
    flushCompletion := c.flushCompletion, retryTimer := c.retryTimer, clears := c.clears,
    clearRequested := c.clearRequested, generation := c.generation, drawn := c.drawn }

/-- The call at `index` of `flushes` comes to the next stage. -/
def Core.atStage (k : Core) (index : Nat) (stage : FlushStage) : Core :=
  { k with flushes := k.flushes.modify index fun flush => { flush with stage := stage } }

section Moves

variable (uuid : Nat → String)

/-- One move, with the notes that it leaves. -/
inductive Move : Core → List Note → Core → Prop
  | admits (k : Core) (changed : List ElementData) :
      Move k (changed.map .admitted)
        { k with pending := changed.foldl (fun pending element => pending.set element.id element) k.pending }
  | batch (k : Core) (entries : List WhiteboardOutboxEntry)
      (elements : entries.flatMap WhiteboardOutboxEntry.elements = k.pending.values)
      (ids : entries.map WhiteboardOutboxEntry.id = (List.range' k.drawn entries.length).map uuid) :
      Move k (entries.map .batched)
        { k with
          pending := OrderedMap.empty, outbox := k.outbox ++ entries, drawn := k.drawn + entries.length }
  | take (k : Core) (batch : WhiteboardOutboxEntry) (outbox : List WhiteboardOutboxEntry)
      (free : k.flushCompletion = false) (timer : k.retryTimer = false) (clear : k.clearRequested = false)
      (first : k.outbox = batch :: outbox) :
      Move k []
        { k with
          outbox := outbox, inFlight := some batch, flushCompletion := true,
          flushes := k.flushes ++ [⟨batch, k.generation, .storing⟩] }
  | request (k : Core) (index : Nat) (batch : WhiteboardOutboxEntry) (generation : Nat)
      (storing : k.flushes[index]? = some ⟨batch, generation, .storing⟩) :
      Move k [.appendRequested batch.id batch.baseSequence batch.elements] (k.atStage index .requested)
  | acknowledge (k : Core) (index : Nat) (batch : WhiteboardOutboxEntry) (generation : Nat)
      (requested : k.flushes[index]? = some ⟨batch, generation, .requested⟩) :
      Move k [.acknowledged batch] (Core.atStage { k with inFlight := none } index .ended)
  | putBack (k : Core) (index : Nat) (batch : WhiteboardOutboxEntry) (generation : Nat) (timer : Bool)
      (requested : k.flushes[index]? = some ⟨batch, generation, .requested⟩) :
      Move k []
        (Core.atStage { k with outbox := batch :: k.outbox, inFlight := none, retryTimer := timer } index .ended)
  | resume (k : Core) (index : Nat) (batch : WhiteboardOutboxEntry) (generation : Nat)
      (ended : k.flushes[index]? = some ⟨batch, generation, .ended⟩) :
      Move k [] { k with flushes := k.flushes.eraseIdx index, flushCompletion := false }
  | cancel (k : Core) : Move k [] { k with retryTimer := false }
  | clearBoard (k : Core) (free : k.clearRequested = false) :
      Move k [] { k with clearRequested := true, clears := k.clears ++ [.flushing] }
  | clearSend (k : Core) (index : Nat) (clearedElements : List ElementData)
      (flushing : k.clears[index]? = some .flushing) (ended : ∀ flush ∈ k.flushes, flush.stage = .ended) :
      Move k [.clearRequested (uuid k.drawn)]
        { k with clears := k.clears.set index (.requested clearedElements), drawn := k.drawn + 1 }
  | clearFail (k : Core) (index : Nat) (clearedElements : List ElementData)
      (requested : k.clears[index]? = some (.requested clearedElements)) :
      Move k [] { k with clears := k.clears.eraseIdx index, clearRequested := false }

inductive Moves : Core → List Note → Core → Prop
  | nil (k : Core) : Moves k [] k
  | cons {k k' k'' : Core} {notes later : List Note} (first : Move uuid k notes k') (rest : Moves k' later k'') :
      Moves k (notes ++ later) k''

end Moves

variable {uuid : Nat → String} {index generation drawn : Nat} {batch : WhiteboardOutboxEntry} {e : ElementData}
  {k k' : Core} {c c' : Client} {notes before : List Note} {pending : OrderedMap String ElementData}
  {values : List ElementData} {state : Sealing}
  {later : List Note}

theorem Move.moves (h : Move uuid k notes k') : Moves uuid k notes k' := by
  have := Moves.cons h (Moves.nil k')
  rwa [List.append_nil] at this

theorem Moves.trans {k'' : Core} (h : Moves uuid k notes k')
    (h' : Moves uuid k' later k'') : Moves uuid k (notes ++ later) k'' := by
  induction h with
  | nil => exact h'
  | cons first _ ih =>
    rw [List.append_assoc]
    exact .cons first (ih h')

/-! ### No admitted revision is lost -/

/-- The revision waits to be acknowledged. -/
def Held (k : Core) (e : ElementData) : Prop :=
  e ∈ k.pending.values ∨ (∃ entry ∈ k.outbox, e ∈ entry.elements) ∨ ∃ entry, k.inFlight = some entry ∧ e ∈ entry.elements

def Superseded (later : List Note) (e : ElementData) : Prop := ∃ e', Note.admitted e' ∈ later ∧ e'.id = e.id

def Acknowledged (notes : List Note) (e : ElementData) : Prop := ∃ entry, Note.acknowledged entry ∈ notes ∧ e ∈ entry.elements

def Kept (notes : List Note) (k : Core) : Prop :=
  ∀ before e later, notes = before ++ .admitted e :: later → Superseded later e ∨ Held k e ∨ Acknowledged notes e

/-- The shape of the core: at most one flush, which has the batch that is in flight, and at most one clear, which is sent
when the flush has ended. -/
structure CoreShape (k : Core) : Prop where
  keyed : LatestWins.Keyed ElementData.id k.pending
  flush : (k.flushes = [] ∧ k.flushCompletion = false ∧ k.inFlight = none) ∨
    ∃ f, k.flushes = [f] ∧ k.flushCompletion = true ∧ f.generation = k.generation ∧
      k.inFlight = if f.stage = .ended then none else some f.batch
  clear : (k.clears = [] ∧ k.clearRequested = false) ∨
    ∃ stage, k.clears = [stage] ∧ k.clearRequested = true ∧
      (stage ≠ .flushing → ∀ f ∈ k.flushes, f.stage = .ended)
  -- so the retry timer is never set over another one
  timer : ∀ f ∈ k.flushes, f.stage ≠ .ended → k.retryTimer = false

/-- The flush at some place is the only one. -/
theorem CoreShape.flush_eq (h : CoreShape k) {f : Flush} (hf : k.flushes[index]? = some f) :
    index = 0 ∧ k.flushes = [f] ∧ k.flushCompletion = true ∧ f.generation = k.generation ∧
      k.inFlight = if f.stage = .ended then none else some f.batch := by
  rcases h.flush with ⟨hnil, -⟩ | ⟨g, hg, hrest⟩
  · rw [hnil] at hf
    cases hf
  · rw [hg] at hf
    cases index with
    | zero =>
      have : g = f := Option.some.inj hf
      subst this
      exact ⟨rfl, hg, hrest⟩
    | succ index => cases hf

theorem CoreShape.clear_eq (h : CoreShape k) {stage : ClearStage} (hs : k.clears[index]? = some stage) :
    index = 0 ∧ k.clears = [stage] ∧ k.clearRequested = true ∧
      (stage ≠ .flushing → ∀ f ∈ k.flushes, f.stage = .ended) := by
  rcases h.clear with ⟨hnil, -⟩ | ⟨stage', hstage, hrest⟩
  · rw [hnil] at hs
    cases hs
  · rw [hstage] at hs
    cases index with
    | zero =>
      have : stage' = stage := Option.some.inj hs
      subst this
      exact ⟨rfl, hstage, hrest⟩
    | succ index => cases hs

theorem keyed_setAll {changed : List ElementData} : ∀ {pending : OrderedMap String ElementData},
    LatestWins.Keyed ElementData.id pending →
    LatestWins.Keyed ElementData.id
      (changed.foldl (fun pending element => pending.set element.id element) pending) := by
  induction changed with
  | nil => intro pending h; exact h
  | cons e changed ih => intro pending h; exact ih (h.set e)

/-- A request has been answered. -/
theorem CoreShape.endSend (h : CoreShape k) (requested : k.flushes[index]? = some ⟨batch, generation, .requested⟩)
    (outbox : List WhiteboardOutboxEntry) (timer : Bool) :
    CoreShape (Core.atStage { k with outbox := outbox, inFlight := none, retryTimer := timer } index .ended) := by
  obtain ⟨rfl, hone, hcompletion, hgeneration, -⟩ := h.flush_eq requested
  have hflushes : k.flushes.modify 0 (fun flush => { flush with stage := .ended }) = [⟨batch, generation, .ended⟩] := by
    rw [hone]
    rfl
  have hended : ∀ f ∈ k.flushes.modify 0 (fun flush => { flush with stage := .ended }), f.stage = .ended := by
    intro f hf
    rw [hflushes, List.mem_singleton] at hf
    rw [hf]
  refine ⟨h.keyed, Or.inr ⟨⟨batch, generation, .ended⟩, hflushes, hcompletion, hgeneration, rfl⟩, ?_,
    fun f hf hne => absurd (hended f hf) hne⟩
  rcases h.clear with hclear | ⟨stage, hstage, hrequested, -⟩
  · exact Or.inl hclear
  · exact Or.inr ⟨stage, hstage, hrequested, fun _ => hended⟩

theorem Move.shape (h : CoreShape k) (hmove : Move uuid k notes k') : CoreShape k' := by
  cases hmove with
  | admits changed => exact ⟨keyed_setAll h.keyed, h.flush, h.clear, h.timer⟩
  | batch entries => exact ⟨LatestWins.keyed_empty, h.flush, h.clear, h.timer⟩
  | take batch outbox free timer clear first =>
    rcases h.flush with ⟨hnil, -, -⟩ | ⟨f, -, hbusy, -⟩
    · refine ⟨h.keyed, Or.inr ⟨⟨batch, k.generation, .storing⟩, ?_, rfl, rfl, rfl⟩, Or.inl ?_, fun _ _ _ => timer⟩
      · show k.flushes ++ _ = _
        rw [hnil, List.nil_append]
      · rcases h.clear with hclear | ⟨stage, -, hrequested, -⟩
        · exact hclear
        · rw [clear] at hrequested
          cases hrequested
    · rw [free] at hbusy
      cases hbusy
  | request index batch generation storing =>
    obtain ⟨rfl, hone, hcompletion, hgeneration, hflight⟩ := h.flush_eq storing
    have hmem : ⟨batch, generation, .storing⟩ ∈ k.flushes := List.mem_of_getElem? storing
    refine ⟨h.keyed, Or.inr ⟨⟨batch, generation, .requested⟩, ?_, hcompletion, hgeneration, hflight⟩, ?_,
      fun _ _ _ => h.timer _ hmem (by simp)⟩
    · show k.flushes.modify 0 _ = _
      rw [hone]
      rfl
    · rcases h.clear with hclear | ⟨stage, hstage, hrequested, hended⟩
      · exact Or.inl hclear
      · refine Or.inr ⟨stage, hstage, hrequested, fun hne => ?_⟩
        -- a clear that is sent waits for no flush
        have := hended hne _ hmem
        cases this
  | acknowledge index batch generation requested => exact h.endSend requested k.outbox k.retryTimer
  | putBack index batch generation timer requested => exact h.endSend requested (batch :: k.outbox) timer
  | resume index batch generation ended =>
    obtain ⟨rfl, hone, -, -, hflight⟩ := h.flush_eq ended
    have hflushes : k.flushes.eraseIdx 0 = [] := by
      rw [hone]
      rfl
    have hnone : ∀ f, f ∉ k.flushes.eraseIdx 0 := by
      intro f hf
      rw [hflushes] at hf
      cases hf
    refine ⟨h.keyed, Or.inl ⟨hflushes, rfl, hflight⟩, ?_, fun f hf => absurd hf (hnone f)⟩
    rcases h.clear with hclear | ⟨stage, hstage, hrequested, -⟩
    · exact Or.inl hclear
    · exact Or.inr ⟨stage, hstage, hrequested, fun _ f hf => absurd hf (hnone f)⟩
  | cancel => exact ⟨h.keyed, h.flush, h.clear, fun _ _ _ => rfl⟩
  | clearBoard free =>
    refine ⟨h.keyed, h.flush, Or.inr ⟨.flushing, ?_, rfl, fun hne => absurd rfl hne⟩, h.timer⟩
    rcases h.clear with ⟨hnil, -⟩ | ⟨stage, -, hrequested, -⟩
    · show k.clears ++ _ = _
      rw [hnil, List.nil_append]
    · rw [free] at hrequested
      cases hrequested
  | clearSend index clearedElements flushing ended =>
    obtain ⟨rfl, hone, hrequested, -⟩ := h.clear_eq flushing
    refine ⟨h.keyed, h.flush, Or.inr ⟨.requested clearedElements, ?_, hrequested, fun _ => ended⟩, h.timer⟩
    show k.clears.set 0 _ = _
    rw [hone]
    rfl
  | clearFail index clearedElements requested =>
    obtain ⟨rfl, hone, -, -⟩ := h.clear_eq requested
    refine ⟨h.keyed, h.flush, Or.inl ⟨?_, rfl⟩, h.timer⟩
    show k.clears.eraseIdx 0 = _
    rw [hone]
    rfl

theorem Superseded.append (h : Superseded later e) (more : List Note) :
    Superseded (later ++ more) e := by
  obtain ⟨e', he', hid⟩ := h
  exact ⟨e', List.mem_append_left _ he', hid⟩

/-- Where an admitted revision stands after another one. -/
theorem mem_values_setAll {changed : List ElementData} : ∀ {pending : OrderedMap String ElementData},
    LatestWins.Keyed ElementData.id pending → e ∈ pending.values →
    (∃ e' ∈ changed, e'.id = e.id) ∨
      e ∈ (changed.foldl (fun pending element => pending.set element.id element) pending).values := by
  induction changed with
  | nil => intro pending _ he; exact Or.inr he
  | cons a changed ih =>
    intro pending hkeyed he
    rw [List.foldl_cons]
    by_cases hid : a.id = e.id
    · exact Or.inl ⟨a, by simp, hid⟩
    · have hset : e ∈ (pending.set a.id a).values := by
        obtain ⟨key, hget⟩ := OrderedMap.mem_values.1 he
        have hkey : key = e.id := hkeyed.get? hget
        apply OrderedMap.mem_values.2
        refine ⟨key, ?_⟩
        rw [OrderedMap.get?_set, if_neg (by rw [hkey]; exact hid)]
        exact hget
      rcases ih (hkeyed.set a) hset with ⟨e', he', hid'⟩ | h
      · exact Or.inl ⟨e', by simp [he'], hid'⟩
      · exact Or.inr h

/-- An admitted revision is pending, unless a later one of the same turn has replaced it. -/
theorem admitted_pending (hkeyed : LatestWins.Keyed ElementData.id pending) (before : List ElementData)
    (e : ElementData) (after : List ElementData) :
    (∃ e' ∈ after, e'.id = e.id) ∨
      e ∈ ((before ++ e :: after).foldl (fun pending element => pending.set element.id element) pending).values := by
  rw [List.foldl_append, List.foldl_cons]
  apply mem_values_setAll ((keyed_setAll hkeyed).set e)
  exact OrderedMap.mem_values.2 ⟨e.id, by simp⟩

/-- What a move does to what waits. -/
theorem Move.held (h : CoreShape k) (hmove : Move uuid k notes k') (he : Held k e) :
    Superseded notes e ∨ Held k' e ∨ Acknowledged notes e := by
  cases hmove with
  | admits changed =>
    rcases he with he | he
    · rcases mem_values_setAll h.keyed he with ⟨e', he', hid⟩ | he'
      · exact Or.inl ⟨e', List.mem_map_of_mem he', hid⟩
      · exact Or.inr (Or.inl (Or.inl he'))
    · exact Or.inr (Or.inl (Or.inr he))
  | batch entries elements ids =>
    right; left; right
    rcases he with he | ⟨entry, hentry, he⟩ | he
    · rw [← elements, List.mem_flatMap] at he
      obtain ⟨entry, hentry, he⟩ := he
      exact Or.inl ⟨entry, List.mem_append_right _ hentry, he⟩
    · exact Or.inl ⟨entry, List.mem_append_left _ hentry, he⟩
    · exact Or.inr he
  | take batch outbox free timer clear first =>
    right; left
    rcases he with he | ⟨entry, hentry, he⟩ | ⟨entry, hflight, -⟩
    · exact Or.inl he
    · rw [first, List.mem_cons] at hentry
      rcases hentry with rfl | hentry
      · exact Or.inr (Or.inr ⟨_, rfl, he⟩)
      · exact Or.inr (Or.inl ⟨entry, hentry, he⟩)
    · rcases h.flush with ⟨-, -, hnone⟩ | ⟨f, -, hbusy, -⟩
      · rw [hnone] at hflight
        cases hflight
      · rw [free] at hbusy
        cases hbusy
  | request => exact Or.inr (Or.inl he)
  | acknowledge index batch generation requested =>
    rcases he with he | he | ⟨entry, hflight, he⟩
    · exact Or.inr (Or.inl (Or.inl he))
    · exact Or.inr (Or.inl (Or.inr (Or.inl he)))
    · obtain ⟨-, -, -, -, hbatch⟩ := h.flush_eq requested
      rw [hflight] at hbatch
      have : entry = batch := Option.some.inj hbatch
      subst this
      exact Or.inr (Or.inr ⟨entry, by simp, he⟩)
  | putBack index batch generation timer requested =>
    right; left
    rcases he with he | ⟨entry, hentry, he⟩ | ⟨entry, hflight, he⟩
    · exact Or.inl he
    · exact Or.inr (Or.inl ⟨entry, List.mem_cons_of_mem _ hentry, he⟩)
    · obtain ⟨-, -, -, -, hbatch⟩ := h.flush_eq requested
      rw [hflight] at hbatch
      have : entry = batch := Option.some.inj hbatch
      subst this
      exact Or.inr (Or.inl ⟨entry, List.mem_cons_self .., he⟩)
  | resume => exact Or.inr (Or.inl he)
  | cancel => exact Or.inr (Or.inl he)
  | clearBoard => exact Or.inr (Or.inl he)
  | clearSend => exact Or.inr (Or.inl he)
  | clearFail => exact Or.inr (Or.inl he)

/-- Only `admits` leaves notes of admissions. -/
theorem Move.admitted (h : CoreShape k) (hmove : Move uuid k notes k')
    (hnotes : notes = before ++ .admitted e :: later) : Superseded later e ∨ Held k' e := by
  have hmem : Note.admitted e ∈ notes := by rw [hnotes]; simp
  cases hmove with
  | admits changed =>
    obtain ⟨l₁, l₂, rfl, hbefore, hrest⟩ := List.map_eq_append_iff.1 hnotes
    obtain ⟨e', l₃, rfl, he', hlater⟩ := List.map_eq_cons_iff.1 hrest
    have : e' = e := Note.admitted.inj he'
    subst this
    rcases admitted_pending h.keyed l₁ e' l₃ with ⟨a, ha, hid⟩ | hpending
    · refine Or.inl ⟨a, ?_, hid⟩
      rw [← hlater]
      exact List.mem_map_of_mem ha
    · exact Or.inr (Or.inl hpending)
  | batch entries => simp at hmem
  | request => simp at hmem
  | acknowledge => simp at hmem
  | clearSend => simp at hmem
  | take => cases hmem
  | putBack => cases hmem
  | resume => cases hmem
  | cancel => cases hmem
  | clearBoard => cases hmem
  | clearFail => cases hmem

theorem Kept.move (h : CoreShape k) (hkept : Kept before k) (hmove : Move uuid k notes k') :
    Kept (before ++ notes) k' := by
  intro n₁ e n₂ hsplit
  rcases List.append_eq_append_iff.1 hsplit with ⟨m, rfl, hm⟩ | ⟨m, hm, hm'⟩
  · rcases hmove.admitted h hm with hsup | hheld
    · exact Or.inl hsup
    · exact Or.inr (Or.inl hheld)
  · cases m with
    | nil =>
      have hfirst : notes = [] ++ .admitted e :: n₂ := hm'.symm
      rcases hmove.admitted h hfirst with hsup | hheld
      · exact Or.inl hsup
      · exact Or.inr (Or.inl hheld)
    | cons note m =>
      rw [List.cons_append] at hm'
      obtain ⟨rfl, rfl⟩ := List.cons.inj hm'
      rcases hkept n₁ e m hm with hsup | hheld | ⟨entry, hentry, he⟩
      · exact Or.inl (hsup.append notes)
      · rcases hmove.held h hheld with ⟨e', he', hid⟩ | hheld | ⟨entry, hentry, he⟩
        · exact Or.inl ⟨e', List.mem_append_right _ he', hid⟩
        · exact Or.inr (Or.inl hheld)
        · exact Or.inr (Or.inr ⟨entry, List.mem_append_right _ hentry, he⟩)
      · exact Or.inr (Or.inr ⟨entry, List.mem_append_left _ hentry, he⟩)

/-! ### Batches keep their identity -/

def batchedEntries (notes : List Note) : List WhiteboardOutboxEntry :=
  notes.filterMap fun note =>
    match note with
    | .batched entry => some entry
    | _ => none

/-- All batches there have been: those that were restored and those that were made since. -/
def known (restored : List WhiteboardOutboxEntry) (notes : List Note) : List WhiteboardOutboxEntry :=
  restored ++ batchedEntries notes

structure BatchInv (uuid : Nat → String) (restored : List WhiteboardOutboxEntry) (notes : List Note) (k : Core) : Prop where
  outbox : ∀ entry ∈ k.outbox, entry ∈ known restored notes
  flushes : ∀ f ∈ k.flushes, f.batch ∈ known restored notes
  ids : ((known restored notes).map WhiteboardOutboxEntry.id).Nodup
  fresh : ∀ entry ∈ known restored notes, ∀ n, k.drawn ≤ n → entry.id ≠ uuid n
  requests : ∀ id baseSequence elements, Note.appendRequested id baseSequence elements ∈ notes →
    ∃ entry ∈ known restored notes, entry.id = id ∧ entry.baseSequence = baseSequence ∧ entry.elements = elements

section Identity

variable {restored : List WhiteboardOutboxEntry}

theorem known_append (more : List Note) : known restored (before ++ more) = known restored before ++ batchedEntries more := by
  unfold known batchedEntries
  rw [List.filterMap_append, List.append_assoc]

theorem batchedEntries_batched (entries : List WhiteboardOutboxEntry) : batchedEntries (entries.map .batched) = entries := by
  unfold batchedEntries
  rw [List.filterMap_map]
  exact List.filterMap_some

/-- A move that makes no batch. -/
theorem BatchInv.same (h : BatchInv uuid restored before k) (hnone : batchedEntries notes = [])
    (houtbox : ∀ entry ∈ k'.outbox, entry ∈ k.outbox ∨ ∃ f ∈ k.flushes, f.batch = entry)
    (hflushes : ∀ f ∈ k'.flushes, f.batch ∈ k.outbox ∨ ∃ g ∈ k.flushes, g.batch = f.batch) (hdrawn : k.drawn ≤ k'.drawn)
    (hrequests : ∀ id baseSequence elements, Note.appendRequested id baseSequence elements ∈ notes →
      ∃ f ∈ k.flushes, f.batch.id = id ∧ f.batch.baseSequence = baseSequence ∧ f.batch.elements = elements) :
    BatchInv uuid restored (before ++ notes) k' := by
  have hknown : known restored (before ++ notes) = known restored before := by
    rw [known_append, hnone, List.append_nil]
  refine ⟨?_, ?_, ?_, ?_, ?_⟩ <;> rw [hknown]
  · intro entry hentry
    rcases houtbox entry hentry with hentry | ⟨f, hf, rfl⟩
    · exact h.outbox entry hentry
    · exact h.flushes f hf
  · intro f hf
    rcases hflushes f hf with hentry | ⟨g, hg, hbatch⟩
    · exact h.outbox _ hentry
    · rw [← hbatch]
      exact h.flushes g hg
  · exact h.ids
  · intro entry hentry n hn
    exact h.fresh entry hentry n (hdrawn.trans hn)
  · intro id baseSequence elements hrequest
    rcases List.mem_append.1 hrequest with hrequest | hrequest
    · exact h.requests id baseSequence elements hrequest
    · obtain ⟨f, hf, hrest⟩ := hrequests id baseSequence elements hrequest
      exact ⟨f.batch, h.flushes f hf, hrest⟩

/-- Flushes at another stage have the same batches. -/
theorem batch_atStage {stage : FlushStage} {f : Flush} (hf : f ∈ (k.atStage index stage).flushes) :
    ∃ g ∈ k.flushes, g.batch = f.batch := by
  change f ∈ k.flushes.modify index _ at hf
  obtain ⟨i, hi, hget⟩ := List.mem_iff_getElem.1 hf
  rw [List.getElem_modify] at hget
  have hbound : i < k.flushes.length := by simpa using hi
  refine ⟨k.flushes[i], List.getElem_mem hbound, ?_⟩
  rw [← hget]
  split <;> rfl

theorem Move.batches (hmove : Move uuid k notes k') (huuid : Function.Injective uuid)
    (h : BatchInv uuid restored before k) : BatchInv uuid restored (before ++ notes) k' := by
  cases hmove with
  | admits changed =>
    refine h.same ?_ (fun entry hentry => Or.inl hentry) (fun f hf => Or.inr ⟨f, hf, rfl⟩) (le_refl _) ?_
    · unfold batchedEntries
      rw [List.filterMap_map]
      apply List.filterMap_eq_nil_iff.2
      intro e _
      rfl
    · intro id baseSequence elements hrequest
      simp at hrequest
  | batch entries elements ids =>
    have hknown : known restored (before ++ entries.map .batched) = known restored before ++ entries := by
      rw [known_append, batchedEntries_batched]
    have hnew : ∀ entry ∈ entries, ∃ n, k.drawn ≤ n ∧ n < k.drawn + entries.length ∧ uuid n = entry.id := by
      intro entry hentry
      have hmem := List.mem_map_of_mem (f := WhiteboardOutboxEntry.id) hentry
      rw [ids, List.mem_map] at hmem
      obtain ⟨n, hn, hid⟩ := hmem
      rw [List.mem_range'_1] at hn
      exact ⟨n, hn.1, hn.2, hid⟩
    refine ⟨?_, ?_, ?_, ?_, ?_⟩ <;> rw [hknown]
    · intro entry hentry
      rcases List.mem_append.1 hentry with hentry | hentry
      · exact List.mem_append_left _ (h.outbox entry hentry)
      · exact List.mem_append_right _ hentry
    · exact fun f hf => List.mem_append_left _ (h.flushes f hf)
    · rw [List.map_append, List.nodup_append]
      refine ⟨h.ids, ?_, ?_⟩
      · rw [ids]
        have hrange : (List.range' k.drawn entries.length).Nodup := List.nodup_range'
        exact hrange.map huuid
      · rintro id hid id' hid' rfl
        obtain ⟨entry, hentry, rfl⟩ := List.mem_map.1 hid
        obtain ⟨entry', hentry', heq⟩ := List.mem_map.1 hid'
        obtain ⟨n, hn, -, hn'⟩ := hnew entry' hentry'
        exact h.fresh entry hentry n hn (by rw [hn', heq])
    · intro entry hentry n hn
      rcases List.mem_append.1 hentry with hentry | hentry
      · exact h.fresh entry hentry n (by change k.drawn + _ ≤ n at hn; omega)
      · obtain ⟨m, -, hm, hid⟩ := hnew entry hentry
        rw [← hid]
        intro heq
        have := huuid heq
        change k.drawn + entries.length ≤ n at hn
        omega
    · intro id baseSequence elements hrequest
      rcases List.mem_append.1 hrequest with hrequest | hrequest
      · obtain ⟨entry, hentry, hrest⟩ := h.requests id baseSequence elements hrequest
        exact ⟨entry, List.mem_append_left _ hentry, hrest⟩
      · simp at hrequest
  | take batch outbox free timer clear first =>
    refine h.same rfl (fun entry hentry => Or.inl ?_) (fun f hf => ?_) (le_refl _) (fun _ _ _ hn => by cases hn)
    · rw [first]
      exact List.mem_cons_of_mem _ hentry
    · rcases List.mem_append.1 hf with hf | hf
      · exact Or.inr ⟨f, hf, rfl⟩
      · rw [List.mem_singleton.1 hf, first]
        exact Or.inl (List.mem_cons_self ..)
  | request index batch generation storing =>
    refine h.same rfl (fun entry hentry => Or.inl hentry) (fun f hf => Or.inr (batch_atStage hf)) (le_refl _) ?_
    intro id baseSequence elements hrequest
    simp only [List.mem_singleton, Note.appendRequested.injEq] at hrequest
    obtain ⟨rfl, rfl, rfl⟩ := hrequest
    exact ⟨_, List.mem_of_getElem? storing, rfl, rfl, rfl⟩
  | acknowledge index batch generation requested =>
    refine h.same rfl (fun entry hentry => Or.inl hentry) (fun f hf => Or.inr ?_) (le_refl _) ?_
    · exact batch_atStage (k := { k with inFlight := none }) hf
    · intro id baseSequence elements hrequest
      simp at hrequest
  | putBack index batch generation timer requested =>
    refine h.same rfl (fun entry hentry => ?_) (fun f hf => Or.inr ?_) (le_refl _) (fun _ _ _ hn => by cases hn)
    · rcases List.mem_cons.1 hentry with rfl | hentry
      · exact Or.inr ⟨_, List.mem_of_getElem? requested, rfl⟩
      · exact Or.inl hentry
    · exact batch_atStage (k := { k with outbox := batch :: k.outbox, inFlight := none, retryTimer := timer }) hf
  | resume index batch generation ended =>
    refine h.same rfl (fun entry hentry => Or.inl hentry) (fun f hf => Or.inr ⟨f, ?_, rfl⟩) (le_refl _)
      (fun _ _ _ hn => by cases hn)
    exact List.mem_of_mem_eraseIdx hf
  | cancel =>
    exact h.same rfl (fun entry hentry => Or.inl hentry) (fun f hf => Or.inr ⟨f, hf, rfl⟩) (le_refl _)
      (fun _ _ _ hn => by cases hn)
  | clearBoard =>
    exact h.same rfl (fun entry hentry => Or.inl hentry) (fun f hf => Or.inr ⟨f, hf, rfl⟩) (le_refl _)
      (fun _ _ _ hn => by cases hn)
  | clearSend =>
    refine h.same rfl (fun entry hentry => Or.inl hentry) (fun f hf => Or.inr ⟨f, hf, rfl⟩) (Nat.le_succ _) ?_
    intro id baseSequence elements hrequest
    simp at hrequest
  | clearFail =>
    exact h.same rfl (fun entry hentry => Or.inl hentry) (fun f hf => Or.inr ⟨f, hf, rfl⟩) (le_refl _)
      (fun _ _ _ hn => by cases hn)

end Identity

/-! ### Turns of the client -/

/-- A turn that brings neither a clear nor a `stale_whiteboard_generation` reply, nor the end of the instance. -/
def Event.Ordinary : Event → Prop
  | .receive operations => ∀ a ∈ operations, a.kind = .sceneUpdate
  | .reply _ (.ok operation) => operation.kind = .sceneUpdate
  | .reply _ (.error reason) => reason.code ≠ .staleWhiteboardGeneration
  | .clearReply _ (.ok _) => False
  | .dispose => False
  | _ => True

/-- What no ordinary turn but `receive` and `reply` changes: whether the instance is stopped, and the queue. -/
def Client.outer (c : Client) : Bool × Queue := (c.stopped, c.stream.queued)

/-- The instance is in use, and no clear waits in the queue. -/
structure Calm (outer : Bool × Queue) : Prop where
  active : outer.1 = false
  queue : ∀ k a, outer.2.get? k = some a → a.kind = .sceneUpdate

section Frames

variable (c : Client)

@[simp] theorem core_notifyPending : (notifyPending c).core = c.core := by
  unfold notifyPending
  split <;> rfl

@[simp] theorem outer_notifyPending : (notifyPending c).outer = c.outer := by
  unfold notifyPending
  split <;> rfl

@[simp] theorem core_scheduleFlush : (scheduleFlush c).core = c.core := by
  unfold scheduleFlush
  split <;> rfl

@[simp] theorem outer_scheduleFlush : (scheduleFlush c).outer = c.outer := by
  unfold scheduleFlush
  split <;> rfl

theorem core_published (n : Nat) (status : SaveStatus) :
    ({ c with elementCount := n, saveStatus := status } : Client).core = c.core := rfl

theorem outer_published (n : Nat) (status : SaveStatus) :
    ({ c with elementCount := n, saveStatus := status } : Client).outer = c.outer := rfl

end Frames

section Turns

variable {encodedBytes : ElementData → Nat} {now : Nat}

theorem core_applyRemoteOperations (now : Nat) {ready : List WhiteboardOperation} : ∀ c : Client,
    (∀ a ∈ ready, a.kind = .sceneUpdate) →
    (ready.foldl (applyRemoteOperation now) c).core = c.core ∧ (ready.foldl (applyRemoteOperation now) c).outer = c.outer := by
  induction ready with
  | nil => intro c _; exact ⟨rfl, rfl⟩
  | cons a ready ih =>
    intro c h
    have hfirst : (applyRemoteOperation now c a).core = c.core ∧ (applyRemoteOperation now c a).outer = c.outer := by
      unfold applyRemoteOperation
      simp only [h a (by simp)]
      exact ⟨rfl, rfl⟩
    obtain ⟨hcore, houter⟩ := ih (applyRemoteOperation now c a) fun b hb => h b (by simp [hb])
    rw [List.foldl_cons, hcore, houter]
    exact hfirst

theorem acceptOperations_calm (now : Nat) (h : Calm c.outer) {operations : List WhiteboardOperation}
    (hoperations : ∀ a ∈ operations, a.kind = .sceneUpdate) :
    (acceptOperations now c operations).core = c.core ∧ Calm (acceptOperations now c operations).outer := by
  have hqueue : ∀ k a, c.stream.queued.get? k = some a → a.kind = .sceneUpdate := h.queue
  obtain ⟨hqueued, hready⟩ := order_forall c.stream.latestSequence hqueue hoperations
  obtain ⟨hcore, houter⟩ := core_applyRemoteOperations now
    { c with stream := ⟨c.stream.scene,
      (orderWhiteboardOperations c.stream.latestSequence c.stream.queued operations).latestSequence,
      (orderWhiteboardOperations c.stream.latestSequence c.stream.queued operations).queued⟩ } hready
  unfold acceptOperations
  dsimp only
  rw [hcore, houter]
  exact ⟨rfl, h.active, hqueued⟩

/-- In `sealPending`: the elements so far, in batches under new ids and in the next one. -/
private structure SealingInv (uuid : Nat → String) (drawn : Nat) (values : List ElementData) (state : Sealing) : Prop where
  elements : state.entries.flatMap WhiteboardOutboxEntry.elements ++ state.elements = values
  ids : state.entries.map WhiteboardOutboxEntry.id = (List.range' drawn state.entries.length).map uuid

private theorem SealingInv.seal (h : SealingInv uuid drawn values state) (now base : Nat) :
    SealingInv uuid drawn values (state.seal uuid now drawn base) ∧ (state.seal uuid now drawn base).elements = [] := by
  unfold Sealing.seal
  split
  · rename_i hempty
    exact ⟨h, List.length_eq_zero_iff.1 hempty⟩
  · refine ⟨⟨?_, ?_⟩, rfl⟩
    · rw [← h.elements]
      simp
    · simp [h.ids, List.range'_concat]

private theorem SealingInv.add (h : SealingInv uuid drawn values state) (encodedBytes : ElementData → Nat)
    (now base : Nat) (e : ElementData) :
    SealingInv uuid drawn (values ++ [e]) (Sealing.add encodedBytes uuid now drawn base state e) := by
  unfold Sealing.add
  dsimp only
  split
  · obtain ⟨hseal, -⟩ := h.seal now base
    refine ⟨?_, hseal.ids⟩
    rw [← hseal.elements, List.append_assoc]
  · refine ⟨?_, h.ids⟩
    rw [← h.elements, List.append_assoc]

private theorem SealingInv.foldl (encodedBytes : ElementData → Nat) (now base : Nat)
    {elements : List ElementData} : ∀ {values : List ElementData} {state : Sealing}, SealingInv uuid drawn values state →
    SealingInv uuid drawn (values ++ elements) (elements.foldl (Sealing.add encodedBytes uuid now drawn base) state) := by
  induction elements with
  | nil =>
    intro values state h
    rw [List.append_nil]
    exact h
  | cons e elements ih =>
    intro values state h
    have hrest := ih (h.add encodedBytes now base e)
    rw [List.append_assoc] at hrest
    exact hrest

/-- The batches have the pending elements, in their order, under new ids. -/
theorem batches_spec (encodedBytes : ElementData → Nat) (uuid : Nat → String) (now : Nat) (c : Client) :
    (batches encodedBytes uuid now c).flatMap WhiteboardOutboxEntry.elements = c.pending.values ∧
    (batches encodedBytes uuid now c).map WhiteboardOutboxEntry.id =
      (List.range' c.drawn (batches encodedBytes uuid now c).length).map uuid := by
  have hstart : SealingInv uuid c.drawn [] ⟨[], [], 0⟩ := ⟨rfl, rfl⟩
  have hfold : SealingInv uuid c.drawn ([] ++ c.pending.values) _ :=
    hstart.foldl encodedBytes now (c.pendingBase.getD c.stream.latestSequence)
  obtain ⟨hend, hnil⟩ := hfold.seal now (c.pendingBase.getD c.stream.latestSequence)
  have helements := hend.elements
  rw [hnil, List.append_nil, List.nil_append] at helements
  exact ⟨helements, hend.ids⟩

theorem sealPending_moves (encodedBytes : ElementData → Nat) (uuid : Nat → String) (now : Nat) (c : Client) :
    Moves uuid c.core (sealPending encodedBytes uuid now c).2
    (sealPending encodedBytes uuid now c).1.core ∧ (sealPending encodedBytes uuid now c).1.outer = c.outer := by
  unfold sealPending
  split
  · exact ⟨.nil _, rfl⟩
  · obtain ⟨helements, hids⟩ := batches_spec encodedBytes uuid now c
    dsimp only
    rw [core_notifyPending, outer_notifyPending]
    exact ⟨(Move.batch c.core _ helements hids).moves, rfl⟩

theorem flushPending_moves (uuid : Nat → String) (timer : c.retryTimer = false) :
    Moves uuid c.core [] (flushPending c).core ∧ (flushPending c).outer = c.outer := by
  unfold flushPending
  split
  · exact ⟨.nil _, rfl⟩
  · rename_i hfree
    simp only [Bool.or_eq_true, not_or, Bool.not_eq_true] at hfree
    obtain ⟨⟨⟨-, hclear⟩, -⟩, hcompletion⟩ := hfree
    split
    · exact ⟨.nil _, rfl⟩
    · rename_i batch outbox houtbox
      have hmove : Move uuid c.core [] _ := Move.take c.core batch outbox hcompletion timer hclear houtbox
      refine ⟨?_, ?_⟩
      · convert hmove.moves using 1
        unfold notifyPending
        split <;> rfl
      · unfold notifyPending
        split <;> rfl

/-- What the client does between two turns of the automaton does not show in it. -/
theorem handleEditorChange_moves (elements : List EditorElement) :
    Moves uuid c.core (handleEditorChange now c elements).2 (handleEditorChange now c elements).1.core ∧
      (handleEditorChange now c elements).1.outer = c.outer := by
  unfold handleEditorChange
  split
  · exact ⟨.nil _, rfl⟩
  · dsimp only
    split
    · exact ⟨.nil _, rfl⟩
    · dsimp only
      rw [core_scheduleFlush, outer_scheduleFlush, core_published (notifyPending _), outer_published (notifyPending _),
        core_notifyPending, outer_notifyPending]
      exact ⟨(Move.admits c.core _).moves, rfl⟩

theorem flushTimerFires_moves : Moves uuid c.core (flushTimerFires encodedBytes uuid now c).2
    (flushTimerFires encodedBytes uuid now c).1.core ∧ (flushTimerFires encodedBytes uuid now c).1.outer = c.outer := by
  obtain ⟨hseal, houter⟩ := sealPending_moves encodedBytes uuid now { c with flushTimer := false }
  unfold flushTimerFires
  dsimp only
  split
  · exact ⟨hseal, houter⟩
  · rename_i htimer
    obtain ⟨hflush, houter'⟩ := flushPending_moves uuid (Bool.eq_false_iff.2 htimer)
    have hmoves := hseal.trans hflush
    rw [List.append_nil] at hmoves
    exact ⟨hmoves, houter'.trans houter⟩

theorem clearBoard_moves : Moves uuid c.core (clearBoard encodedBytes uuid now c).2
    (clearBoard encodedBytes uuid now c).1.core ∧ (clearBoard encodedBytes uuid now c).1.outer = c.outer := by
  unfold clearBoard
  split
  · exact ⟨.nil _, rfl⟩
  · rename_i hfree
    have hcancel : Moves uuid c.core [] _ := (Move.cancel c.core).moves
    have hclear : Moves uuid { c.core with retryTimer := false } [] _ :=
      (Move.clearBoard { c.core with retryTimer := false } (Bool.eq_false_iff.2 hfree)).moves
    have hstart := hcancel.trans hclear
    dsimp only
    unfold sealPending
    split
    · exact ⟨hstart, rfl⟩
    · obtain ⟨helements, hids⟩ := batches_spec encodedBytes uuid now
        (cancelTimers { c with clearRequested := true, saveStatus := .syncing })
      have hbatch := (Move.batch
        { c.core with retryTimer := false, clearRequested := true, clears := c.clears ++ [.flushing] } _ helements hids).moves
      dsimp only
      unfold notifyPending
      split
      · exact ⟨hstart.trans hbatch, rfl⟩
      · exact ⟨hstart.trans hbatch, rfl⟩

theorem sendStored_moves (hshape : CoreShape c.core) (hcalm : Calm c.outer)
    (hflush : c.flushes[index]? = some ⟨batch, generation, .storing⟩) :
    Moves uuid c.core (sendStored c index ⟨batch, generation, .storing⟩).2
      (sendStored c index ⟨batch, generation, .storing⟩).1.core ∧
      (sendStored c index ⟨batch, generation, .storing⟩).1.outer = c.outer := by
  obtain ⟨-, -, -, hgeneration, -⟩ := hshape.flush_eq hflush
  have hactive : c.stopped = false := hcalm.active
  have hgo : ¬ (generation ≠ c.generation ∨ c.stopped = true) := by
    rw [hactive]
    exact fun h => h.elim (fun hne => hne hgeneration) (by simp)
  unfold sendStored
  rw [if_neg hgo]
  exact ⟨(Move.request c.core index batch generation hflush).moves, rfl⟩

theorem sendAccepted_moves (uuid : Nat → String) (now : Nat) (hshape : CoreShape c.core) (hcalm : Calm c.outer)
    (hflush : c.flushes[index]? = some ⟨batch, generation, .requested⟩) {operation : WhiteboardOperation}
    (hkind : operation.kind = .sceneUpdate) :
    Moves uuid c.core (sendAccepted now c index ⟨batch, generation, .requested⟩ operation).2
      (sendAccepted now c index ⟨batch, generation, .requested⟩ operation).1.core ∧
      Calm (sendAccepted now c index ⟨batch, generation, .requested⟩ operation).1.outer := by
  obtain ⟨-, -, -, hgeneration, -⟩ := hshape.flush_eq hflush
  have hactive : c.stopped = false := hcalm.active
  have hgo : ¬ (generation ≠ c.generation ∨ c.stopped = true) := by
    rw [hactive]
    exact fun h => h.elim (fun hne => hne hgeneration) (by simp)
  obtain ⟨hcore, hcalm'⟩ := acceptOperations_calm now hcalm (show ∀ a ∈ [operation], _ by simpa using hkind)
  unfold sendAccepted
  rw [if_neg hgo]
  dsimp only
  generalize acceptOperations now c [operation] = d at hcore hcalm'
  refine ⟨?_, hcalm'⟩
  have hflush' : c.core.flushes[index]? = some ⟨batch, generation, .requested⟩ := hflush
  rw [← hcore] at hflush' ⊢
  exact (Move.acknowledge d.core index batch generation hflush').moves

theorem sendRefused_moves (hshape : CoreShape c.core)
    (hflush : c.flushes[index]? = some ⟨batch, generation, .requested⟩) {reason : Reason}
    (hcode : reason.code ≠ .staleWhiteboardGeneration) :
    Moves uuid c.core [] (endSend (sendRefused c ⟨batch, generation, .requested⟩ reason) index).core ∧
      (endSend (sendRefused c ⟨batch, generation, .requested⟩ reason) index).outer = c.outer := by
  obtain ⟨-, -, -, hgeneration, -⟩ := hshape.flush_eq hflush
  unfold sendRefused
  rw [if_neg (fun hne => hne hgeneration)]
  cases hreason : reason.code with
  | staleWhiteboardGeneration => exact absurd hreason hcode
  | whiteboardCapacityExceeded =>
    dsimp only
    split <;> exact ⟨(Move.putBack c.core index batch generation c.retryTimer hflush).moves, rfl⟩
  | other =>
    dsimp only
    split
    · exact ⟨(Move.putBack c.core index batch generation c.retryTimer hflush).moves, rfl⟩
    · exact ⟨(Move.putBack c.core index batch generation true hflush).moves, rfl⟩

theorem flushResumes_moves (hflush : c.flushes[index]? = some ⟨batch, generation, .ended⟩) :
    Moves uuid c.core [] (flushResumes c index).core ∧ (flushResumes c index).outer = c.outer := by
  have hmove : Moves uuid c.core [] _ := (Move.resume c.core index batch generation hflush).moves
  unfold flushResumes
  dsimp only
  split
  · exact ⟨hmove, rfl⟩
  · split
    · rw [core_scheduleFlush, outer_scheduleFlush, core_notifyPending, outer_notifyPending]
      exact ⟨hmove, rfl⟩
    · rw [core_notifyPending, outer_notifyPending]
      exact ⟨hmove, rfl⟩

theorem endClear_moves {clearedElements : List ElementData}
    (hclear : c.clears[index]? = some (.requested clearedElements)) :
    Moves uuid c.core [] (endClear c index).core ∧ (endClear c index).outer = c.outer := by
  have hmove : Moves uuid c.core [] _ := (Move.clearFail c.core index clearedElements hclear).moves
  unfold endClear
  dsimp only
  split
  · rw [core_scheduleFlush, outer_scheduleFlush]
    exact ⟨hmove, rfl⟩
  · exact ⟨hmove, rfl⟩

theorem start_moves (hcalm : Calm c.outer) : Moves uuid c.core [] (start c).core ∧ (start c).outer = c.outer := by
  have hactive : c.stopped = false := hcalm.active
  have hsame : ({ c with stopped := false } : Client) = c := by
    rw [← hactive]
  unfold start
  dsimp only
  rw [hsame]
  split
  · rw [core_scheduleFlush, outer_scheduleFlush]
    have hcore : ({ notifyPending c with saveStatus := .unsynced } : Client).core = (notifyPending c).core := rfl
    have houter : ({ notifyPending c with saveStatus := .unsynced } : Client).outer = (notifyPending c).outer := rfl
    rw [hcore, houter, core_notifyPending, outer_notifyPending]
    exact ⟨.nil _, rfl⟩
  · rw [core_notifyPending, outer_notifyPending]
    exact ⟨.nil _, rfl⟩

/-- One turn is a sequence of moves. -/
theorem step_moves (hshape : CoreShape c.core) (hcalm : Calm c.outer) {event : Event} (hordinary : event.Ordinary)
    (hstep : step encodedBytes uuid now c event = some (c', notes)) :
    Moves uuid c.core notes c'.core ∧ Calm c'.outer := by
  -- a turn that leaves the queue and `stopped` alone
  have hquiet : ∀ {d : Client × List Note}, d = (c', notes) → Moves uuid c.core d.2 d.1.core ∧ d.1.outer = c.outer →
      Moves uuid c.core notes c'.core ∧ Calm c'.outer := by
    rintro d rfl ⟨hmoves, houter⟩
    exact ⟨hmoves, houter ▸ hcalm⟩
  cases event with
  | editorChange elements => exact hquiet (Option.some.inj hstep) (handleEditorChange_moves elements)
  | armLocalChanges => exact hquiet (Option.some.inj hstep) ⟨.nil _, rfl⟩
  | frame => exact hquiet (Option.some.inj hstep) ⟨.nil _, rfl⟩
  | receive operations =>
    obtain ⟨rfl, rfl⟩ := Prod.mk.inj (Option.some.inj hstep)
    obtain ⟨hcore, hcalm'⟩ := acceptOperations_calm now hcalm hordinary
    rw [hcore]
    exact ⟨.nil _, hcalm'⟩
  | flushTimer =>
    simp only [step] at hstep
    split at hstep
    · exact hquiet (Option.some.inj hstep) flushTimerFires_moves
    · cases hstep
  | retryTimer =>
    simp only [step] at hstep
    split at hstep
    · have htimer : ({ c with retryTimer := false } : Client).retryTimer = false := rfl
      obtain ⟨hflush, houter⟩ := flushPending_moves uuid htimer
      exact hquiet (Option.some.inj hstep) ⟨(Move.cancel c.core).moves.trans hflush, houter⟩
    · cases hstep
  | checkpoint => exact hquiet (Option.some.inj hstep) (sealPending_moves encodedBytes uuid now c)
  | saved saved => exact hquiet (Option.some.inj hstep) ⟨.nil _, rfl⟩
  | stored index =>
    simp only [step] at hstep
    split at hstep
    · rename_i batch generation hflush
      exact hquiet (Option.some.inj hstep) (sendStored_moves hshape hcalm hflush)
    · cases hstep
  | reply index result =>
    simp only [step] at hstep
    split at hstep
    · rename_i batch generation hflush
      cases result with
      | ok operation =>
        obtain ⟨hmoves, hcalm'⟩ := sendAccepted_moves uuid now hshape hcalm hflush hordinary
        rw [Option.some.inj hstep] at hmoves hcalm'
        exact ⟨hmoves, hcalm'⟩
      | error reason => exact hquiet (Option.some.inj hstep) (sendRefused_moves hshape hflush hordinary)
    · cases hstep
  | resume index =>
    simp only [step] at hstep
    split at hstep
    · rename_i batch generation hflush
      exact hquiet (Option.some.inj hstep) (flushResumes_moves hflush)
    · cases hstep
  | clearBoard => exact hquiet (Option.some.inj hstep) clearBoard_moves
  | clearSend index =>
    simp only [step] at hstep
    split at hstep
    · rename_i hclear
      split at hstep
      · rename_i hended
        have hended' : ∀ f ∈ c.core.flushes, f.stage = .ended := by
          intro f hf
          have := List.all_eq_true.1 hended f hf
          simpa using this
        exact hquiet (Option.some.inj hstep)
          ⟨(Move.clearSend c.core index c.stream.scene.values hclear hended').moves, rfl⟩
      · cases hstep
    · cases hstep
  | clearReply index result =>
    simp only [step] at hstep
    split at hstep
    · rename_i clearedElements hclear
      cases result with
      | ok operation => exact absurd hordinary id
      | error reason =>
        exact hquiet (Option.some.inj hstep)
          (endClear_moves (c := { c with saveStatus := .error, error := some reason.text }) hclear)
    · cases hstep
  | start => exact hquiet (Option.some.inj hstep) (start_moves hcalm)
  | dispose => exact absurd hordinary id

end Turns

/-! ### Runs -/

/-- What holds after any number of ordinary turns. -/
structure OutboxInv (uuid : Nat → String) (restored : List WhiteboardOutboxEntry) (notes : List Note) (k : Core) : Prop where
  shape : CoreShape k
  kept : Kept notes k
  batches : BatchInv uuid restored notes k

section Runs

variable {restored : List WhiteboardOutboxEntry} {encodedBytes : ElementData → Nat}

theorem OutboxInv.moves (huuid : Function.Injective uuid) (hmoves : Moves uuid k notes k') :
    ∀ {before : List Note}, OutboxInv uuid restored before k → OutboxInv uuid restored (before ++ notes) k' := by
  induction hmoves with
  | nil =>
    intro before h
    rw [List.append_nil]
    exact h
  | cons first _ ih =>
    intro before h
    rw [← List.append_assoc]
    exact ih ⟨first.shape h.shape, h.kept.move h.shape first, first.batches huuid h.batches⟩

theorem OutboxInv.run (huuid : Function.Injective uuid) {events : List (Event × Nat)} :
    ∀ {before : List Note} {c final : Client} {notes : List Note}, OutboxInv uuid restored before c.core → Calm c.outer →
      (∀ e ∈ events, e.1.Ordinary) → run encodedBytes uuid c events = some (final, notes) →
      OutboxInv uuid restored (before ++ notes) final.core := by
  induction events with
  | nil =>
    intro before c final notes h _ _ hrun
    obtain ⟨rfl, rfl⟩ := Prod.mk.inj (Option.some.inj hrun)
    rw [List.append_nil]
    exact h
  | cons e events ih =>
    intro before c final notes h hcalm hordinary hrun
    obtain ⟨event, now⟩ := e
    unfold Persistence.run at hrun
    split at hrun
    · cases hrun
    · rename_i c' first hstep
      split at hrun
      · cases hrun
      · rename_i final' later hrest
        obtain ⟨rfl, rfl⟩ := Prod.mk.inj (Option.some.inj hrun)
        obtain ⟨hmoves, hcalm'⟩ := step_moves h.shape hcalm (hordinary _ (List.mem_cons_self ..)) hstep
        rw [← List.append_assoc]
        exact ih (h.moves huuid hmoves) hcalm' (fun e he => hordinary e (List.mem_cons_of_mem _ he)) hrest

/-- At most one request waits for a reply. -/
theorem CoreShape.requests_le (h : CoreShape c.core) : c.requests ≤ 1 := by
  have hflushes : c.core.flushes = c.flushes := rfl
  have hclears : c.core.clears = c.clears := rfl
  have hflush := h.flush
  have hclear := h.clear
  rw [hflushes] at hflush hclear
  rw [hclears] at hclear
  unfold Client.requests
  rcases hflush with ⟨hnil, -, -⟩ | ⟨f, hone, -, -, -⟩
  · rcases hclear with ⟨hnil', -⟩ | ⟨stage, hone', -, -⟩
    · rw [hnil, hnil']
      simp
    · rw [hnil, hone', List.filter_nil, List.length_nil, Nat.zero_add]
      exact List.length_filter_le ..
  · rcases hclear with ⟨hnil', -⟩ | ⟨stage, hone', -, hended⟩
    · rw [hone, hnil', List.filter_nil, List.length_nil, Nat.add_zero]
      exact List.length_filter_le ..
    · by_cases hstage : stage = .flushing
      · rw [hone, hone', hstage]
        have := List.length_filter_le (fun flush : Flush => decide (flush.stage = .requested)) [f]
        simpa using this
      · have hf := hended hstage f (by rw [hone]; simp)
        rw [hone, hone']
        simp [hf, hstage]

end Runs

/-- Along any ordinary turns from any restored client: an admitted revision is superseded, waits in `pending`, `outbox` or
`inFlight`, or has been acknowledged; at most one request is under way; every request is for a batch that has been restored
or made once, under an id of its own, and has exactly its id, base and elements. -/
theorem edits_retained (encodedBytes : ElementData → Nat) (uuid : Nat → String) (huuid : Function.Injective uuid)
    (stream : Stream) (hqueue : stream.queued = OrderedMap.empty) (revisions clearedRevisions : Revisions)
    (restored : List WhiteboardOutboxEntry) (hids : (restored.map WhiteboardOutboxEntry.id).Nodup)
    (hfresh : ∀ entry ∈ restored, ∀ n, entry.id ≠ uuid n) (events : List (Event × Nat))
    (hordinary : ∀ e ∈ events, e.1.Ordinary) (c : Client) (notes : List Note)
    (hrun : run encodedBytes uuid (Client.restored stream revisions clearedRevisions restored) events = some (c, notes)) :
    (∀ before e later, notes = before ++ .admitted e :: later →
      (∃ e', Note.admitted e' ∈ later ∧ e'.id = e.id) ∨
      (e ∈ c.pending.values ∨ (∃ entry ∈ c.outbox, e ∈ entry.elements) ∨
        ∃ entry, c.inFlight = some entry ∧ e ∈ entry.elements) ∨
      ∃ entry, Note.acknowledged entry ∈ notes ∧ e ∈ entry.elements) ∧
    c.requests ≤ 1 ∧
    (∀ id baseSequence elements, Note.appendRequested id baseSequence elements ∈ notes →
      ∃ entry, (entry ∈ restored ∨ Note.batched entry ∈ notes) ∧
        entry.id = id ∧ entry.baseSequence = baseSequence ∧ entry.elements = elements) ∧
    ((known restored notes).map WhiteboardOutboxEntry.id).Nodup ∧
    ∀ id baseSequence elements baseSequence' elements', Note.appendRequested id baseSequence elements ∈ notes →
      Note.appendRequested id baseSequence' elements' ∈ notes → baseSequence = baseSequence' ∧ elements = elements' := by
  have hstart : OutboxInv uuid restored [] (Client.restored stream revisions clearedRevisions restored).core := by
    refine ⟨⟨LatestWins.keyed_empty, Or.inl ⟨rfl, rfl, rfl⟩, Or.inl ⟨rfl, rfl⟩, fun f hf => by cases hf⟩, ?_, ?_⟩
    · intro before e later h
      have := congrArg List.length h
      simp at this
    · have hknown : known restored [] = restored := List.append_nil _
      refine ⟨?_, fun f hf => (by cases hf), ?_, ?_, fun _ _ _ h => (by cases h)⟩ <;> rw [hknown]
      · exact fun entry hentry => hentry
      · exact hids
      · exact fun entry hentry n _ => hfresh entry hentry n
  have hcalm : Calm (Client.restored stream revisions clearedRevisions restored).outer := by
    refine ⟨rfl, fun k a ha => ?_⟩
    change stream.queued.get? k = some a at ha
    rw [hqueue] at ha
    cases ha
  have hend := hstart.run huuid hcalm hordinary hrun
  rw [List.nil_append] at hend
  refine ⟨hend.kept, hend.shape.requests_le, ?_, hend.batches.ids, ?_⟩
  · intro id baseSequence elements hrequest
    obtain ⟨entry, hentry, hrest⟩ := hend.batches.requests id baseSequence elements hrequest
    refine ⟨entry, ?_, hrest⟩
    rcases List.mem_append.1 hentry with hentry | hentry
    · exact Or.inl hentry
    · obtain ⟨note, hnote, heq⟩ := List.mem_filterMap.1 hentry
      right
      split at heq
      · rw [← Option.some.inj heq]
        exact hnote
      · cases heq
  · intro id baseSequence elements baseSequence' elements' h h'
    obtain ⟨entry, hentry, hid, rfl, rfl⟩ := hend.batches.requests id baseSequence elements h
    obtain ⟨entry', hentry', hid', rfl, rfl⟩ := hend.batches.requests id baseSequence' elements' h'
    have : entry = entry' := List.inj_on_of_nodup_map hend.batches.ids hentry hentry' (hid.trans hid'.symm)
    rw [this]
    exact ⟨rfl, rfl⟩

/-- Ids of growing length. -/
def lengthUuid (n : Nat) : String := String.ofList (List.replicate n 'u')

theorem lengthUuid_injective : Function.Injective lengthUuid := by
  intro m n h
  have hlist := String.ofList_injective h
  have hlength := congrArg List.length hlist
  rwa [List.length_replicate, List.length_replicate] at hlength

/-- A revision of a rectangle. -/
def revision (version : Int) : ElementData := ⟨"element-1", .rectangle, some version, some 7, false, none, ""⟩

/-- The first batch gets no answer and is sent again, while a newer revision waits. -/
def retriedTurns : List (Event × Nat) :=
  [(.armLocalChanges, 0), (.editorChange [.allowed (revision 1)], 0), (.flushTimer, 350), (.stored 0, 351),
    (.editorChange [.allowed (revision 2)], 352), (.reply 0 (.error ⟨.other, "timeout"⟩), 900), (.resume 0, 901),
    (.retryTimer, 2900), (.stored 0, 2901)]

theorem edits_retained_retried : ∃ c notes,
    run (fun _ => 100) lengthUuid
      (Client.restored ⟨OrderedMap.empty, 0, OrderedMap.empty⟩ OrderedMap.empty OrderedMap.empty []) retriedTurns =
        some (c, notes) ∧
      (notes.length, c.pending.values, c.inFlight.map WhiteboardOutboxEntry.elements) =
        (5, [revision 2], some [revision 1]) ∧ c.requests ≤ 1 := by
  have hempty : ∀ entry ∈ ([] : List WhiteboardOutboxEntry), ∀ n, entry.id ≠ lengthUuid n := by simp
  have hordinary : ∀ e ∈ retriedTurns, e.1.Ordinary := by
    unfold retriedTurns
    simp [Event.Ordinary]
  have hmap : (run (fun _ => 100) lengthUuid
      (Client.restored ⟨OrderedMap.empty, 0, OrderedMap.empty⟩ OrderedMap.empty OrderedMap.empty []) retriedTurns).map
        (fun r => (r.2.length, r.1.pending.values, r.1.inFlight.map WhiteboardOutboxEntry.elements)) =
      some (5, [revision 2], some [revision 1]) := by decide
  obtain ⟨⟨c, notes⟩, hrun, hfacts⟩ := Option.map_eq_some_iff.1 hmap
  have hretained := edits_retained (fun _ => 100) lengthUuid lengthUuid_injective _ rfl _ _ [] List.nodup_nil hempty
    retriedTurns hordinary c notes hrun
  exact ⟨c, notes, hrun, hfacts, hretained.2.1⟩

end KComms.Whiteboards.Persistence
