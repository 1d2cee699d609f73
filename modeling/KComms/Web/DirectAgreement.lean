import KComms.Lib.CommandRuns
import KComms.Web.CallChannel
import Mathlib.Data.List.Nodup
import Mathlib.Logic.Function.Basic

/-!
# Agreement of the channels of a call

Any number of channel processes, whose callbacks run in any order.  A broadcast goes to the mailbox of every other process
that is there, and each of them handles it at most once, when it comes to it.  The facts of presence, of the call and of the
limits may change with every callback; a peer id is given once.  An offer, an answer and a state that expects a peer always
go back to a moment at which the channel of that peer expected this one (`Attested`), and a channel never expects another
peer than its first (`bound_run`): this is what the channels agree on (`signalling_agreement`).
-/

namespace KComms.Web.DirectAgreement

open CallChannel

abbrev ProcessId := Nat

inductive Status
  | unborn
  | running (socket : Socket)
  | stopped
  deriving DecidableEq, Repr

/-- `peerIds` says which process was given which id. -/
structure State where
  statuses : ProcessId → Status
  inboxes : ProcessId → List Message
  peerIds : List (String × ProcessId)

def initial : State := { statuses := fun _ => .unborn, inboxes := fun _ => [], peerIds := [] }

inductive Output
  | sent (process : ProcessId) (message : Message)
  | pushed (process : ProcessId) (push : Push)
  | replied (process : ProcessId) (reply : Reply)
  deriving DecidableEq, Repr

/-- The callbacks of the processes; `deliver` is `handle_out` of a message of the mailbox, and `exit` any other end. -/
inductive Action
  | join (process : ProcessId) (userId : String) (requested joinAllowed : Bool) (peerId : String) (facts : Facts)
  | track (process : ProcessId) (tracked : Bool) (facts : Facts)
  | disable (process : ProcessId) (payload : List (String × Json)) (facts : Facts)
  | signal (process : ProcessId) (payload : List (String × Json)) (facts : Facts)
  | deliver (process : ProcessId) (index : Nat) (facts : Facts)
  | presenceDiff (process : ProcessId) (facts : Facts)
  | exit (process : ProcessId)

def Status.isRunning : Status → Bool
  | .running _ => true
  | _ => false

def outputsOf (process : ProcessId) (handled : Handled) : List Output :=
  handled.broadcasts.map (.sent process) ++ handled.pushes.map (.pushed process) ++
    handled.reply.toList.map (.replied process)

/-- `broadcast_from!` leaves the sender out. -/
def finish (s : State) (process : ProcessId) (handled : Handled) : State × List Output :=
  ({ s with
      statuses := Function.update s.statuses process (match handled.socket with
        | some socket => .running socket
        | none => .stopped)
      inboxes := fun other =>
        if other ≠ process ∧ (s.statuses other).isRunning then s.inboxes other ++ handled.broadcasts else s.inboxes other },
    outputsOf process handled)

def callback (s : State) (process : ProcessId) (handle : Socket → Handled) : State × List Output :=
  match s.statuses process with
  | .running socket => finish s process (handle socket)
  | _ => (s, [])

variable {process process' : ProcessId} {actions before : List Action} {socket socket' : Socket} {own : String}
  {handled : Handled} {incoming : Option Message} {other : String} {output : Output}

section Steps

variable (highSpace : Nat → Bool)

def step (s : State) : Action → State × List Output
  | .join process userId requested joinAllowed peerId facts =>
    if s.statuses process = .unborn ∧ peerId ∉ s.peerIds.map Prod.fst then
      ({ s with
          statuses := Function.update s.statuses process
            (.running (CallChannel.join userId requested joinAllowed peerId facts))
          peerIds := (peerId, process) :: s.peerIds }, [])
    else (s, [])
  | .track process tracked facts => callback s process fun socket => handleTrack socket tracked facts
  | .disable process payload facts => callback s process fun socket => handleDisable socket payload facts
  | .signal process payload facts => callback s process fun socket => handleSignal highSpace socket payload facts
  | .deliver process index facts =>
    match s.statuses process, (s.inboxes process)[index]? with
    | .running socket, some message =>
      finish { s with inboxes := Function.update s.inboxes process ((s.inboxes process).eraseIdx index) } process
        (handleOutSignal socket message facts)
    | _, _ => (s, [])
  | .presenceDiff process facts => callback s process fun socket => handlePresenceDiff socket facts
  | .exit process => callback s process fun _ => { socket := none }

def run (actions : List Action) : State := runCommands (fun s a => (step highSpace s a).1) initial actions

def outputsFrom (s : State) : List Action → List Output
  | [] => []
  | a :: actions => (step highSpace s a).2 ++ outputsFrom (step highSpace s a).1 actions

def outputs (actions : List Action) : List Output := outputsFrom highSpace initial actions

theorem run_concat (history : List Action) (a : Action) :
    run highSpace (history ++ [a]) = (step highSpace (run highSpace history) a).1 := runCommands_append

theorem outputsFrom_append (s : State) (history actions : List Action) :
    outputsFrom highSpace s (history ++ actions) =
      outputsFrom highSpace s history ++ outputsFrom highSpace
        (runCommands (fun s a => (step highSpace s a).1) s history) actions := by
  induction history generalizing s with
  | nil => rfl
  | cons a history ih =>
    rw [List.cons_append, outputsFrom, outputsFrom, ih, List.append_assoc]
    rfl

theorem outputs_concat (history : List Action) (a : Action) :
    outputs highSpace (history ++ [a]) = outputs highSpace history ++ (step highSpace (run highSpace history) a).2 := by
  unfold outputs
  rw [outputsFrom_append]
  show _ ++ ((step highSpace (run highSpace history) a).2 ++ []) = _
  rw [List.append_nil]

/-! ### What a step does -/

/-- A process joins, or a callback of one runs; the mailboxes it runs with hold no message that was not there. -/
inductive Stepped (s : State) : State × List Output → Prop
  | kept : Stepped s (s, [])
  | joined (process : ProcessId) (socket : Socket) (peerId : String) (hunborn : s.statuses process = .unborn)
      (hfresh : peerId ∉ s.peerIds.map Prod.fst)
      (hsocket : (socket.directAudio = true ∧ socket.directPeerId = some peerId ∧ socket.directSignalState = .ready) ∨
        (socket.directAudio = false ∧ socket.directPeerId = none ∧ socket.directSignalState = .disabled))
      (hexpected : socket.directExpectedPeerId = none) :
      Stepped s ({ s with
        statuses := Function.update s.statuses process (.running socket), peerIds := (peerId, process) :: s.peerIds }, [])
  | handled (process : ProcessId) (socket : Socket) (incoming : Option Message) (inboxes : ProcessId → List Message)
      (handled : Handled) (hrunning : s.statuses process = .running socket) (hmoved : Moved socket incoming handled)
      (hincoming : ∀ message, incoming = some message → message ∈ s.inboxes process)
      (hinboxes : ∀ other, ∀ message ∈ inboxes other, message ∈ s.inboxes other) :
      Stepped s (finish { s with inboxes := inboxes } process handled)

/-- A callback that takes no message. -/
theorem callback_stepped {s : State} {handle : Socket → Handled}
    (hmoved : ∀ socket, Moved socket none (handle socket)) : Stepped s (callback s process handle) := by
  unfold callback
  split
  · rename_i socket hrunning
    exact .handled process socket none s.inboxes (handle socket) hrunning (hmoved socket) nofun fun _ _ h => h
  · exact .kept

theorem step_cases (s : State) (a : Action) : Stepped s (step highSpace s a) := by
  cases a with
  | join process userId requested joinAllowed peerId facts =>
    unfold step
    dsimp only
    split
    · rename_i hjoin
      refine .joined process _ peerId hjoin.1 hjoin.2 ?_ ?_
      · unfold CallChannel.join
        split
        · exact Or.inl ⟨rfl, rfl, rfl⟩
        · exact Or.inr ⟨rfl, rfl, rfl⟩
      · unfold CallChannel.join
        split
        · rfl
        · rfl
    · exact .kept
  | track process tracked facts => exact callback_stepped fun socket => handleTrack_moved socket tracked facts
  | disable process payload facts => exact callback_stepped fun socket => handleDisable_moved socket payload facts
  | signal process payload facts => exact callback_stepped fun socket => handleSignal_moved highSpace socket payload facts
  | deliver process index facts =>
    unfold step
    dsimp only
    split
    · rename_i socket message hrunning hmessage
      refine .handled process socket (some message) _ _ hrunning (handleOutSignal_moved socket message facts) ?_ ?_
      · rintro _ ⟨⟩
        exact List.mem_of_getElem? hmessage
      · intro other message' hmem
        by_cases heq : other = process
        · subst heq
          rw [Function.update_self] at hmem
          exact List.mem_of_mem_eraseIdx hmem
        · rwa [Function.update_of_ne heq] at hmem
    · exact .kept
  | presenceDiff process facts => exact callback_stepped fun socket => handlePresenceDiff_moved socket facts
  | exit process => exact callback_stepped fun _ => .stopped rfl rfl rfl

end Steps

/-! ### Peers that are expected -/

def negotiating : List SignalState := [.offerSent, .offerReceived, .connected]

/-- A channel with a peer id of its own expects a peer. -/
def Expecting (own other : String) (status : Status) : Prop :=
  ∃ socket, status = .running socket ∧ socket.directPeerId = some own ∧ socket.directSignalState ∈ negotiating ∧
    socket.directExpectedPeerId = some other

/-- A channel that has stopped, or whose direct audio is disabled. -/
def Over (status : Status) : Prop :=
  status = .stopped ∨ ∃ socket, status = .running socket ∧ socket.directAudio = false ∧
    socket.directSignalState = .disabled ∧ socket.directExpectedPeerId = none

/-- Direct audio is disabled, or there is a peer id. -/
structure Sound (socket : Socket) : Prop where
  off : socket.directAudio = false → socket.directSignalState = .disabled ∧ socket.directExpectedPeerId = none
  on : socket.directAudio = true → socket.directPeerId ≠ none ∧ socket.directSignalState ≠ .disabled

def statusAfter (handled : Handled) : Status :=
  match handled.socket with
  | some socket => .running socket
  | none => .stopped

theorem over_silent (socket : Socket) : Over (.running (silent socket)) := Or.inr ⟨_, rfl, rfl, rfl, rfl⟩

theorem sound_silent (socket : Socket) : Sound (silent socket) := ⟨fun _ => ⟨rfl, rfl⟩, nofun⟩

theorem Sound.moved (h : Sound socket) (hmoved : Moved socket incoming handled)
    (hsocket' : handled.socket = some socket') : Sound socket' := by
  cases hmoved with
  | stopped hsocket =>
    rw [hsocket] at hsocket'
    cases hsocket'
  | kept hsocket =>
    rw [hsocket] at hsocket'
    cases hsocket'
    exact h
  | silenced hsocket =>
    rw [hsocket] at hsocket'
    cases hsocket'
    exact sound_silent socket
  | offered message hready hdirect hlt hsocket =>
    rw [hsocket] at hsocket'
    cases hsocket'
    exact ⟨fun hoff => absurd (hdirect.symm.trans hoff) (by decide), fun _ => ⟨(h.on hdirect).1, nofun⟩⟩
  | answered message hstate hdirect hexpected hsocket =>
    rw [hsocket] at hsocket'
    cases hsocket'
    exact ⟨fun hoff => absurd (hdirect.symm.trans hoff) (by decide), fun _ => ⟨(h.on hdirect).1, nofun⟩⟩
  | relayed message hdirect hsocket =>
    rw [hsocket] at hsocket'
    cases hsocket'
    exact h
  | acceptedOffer message hincoming hdirect htarget hready hlt hkind hsocket =>
    rw [hsocket] at hsocket'
    cases hsocket'
    exact ⟨fun hoff => absurd (hdirect.symm.trans hoff) (by decide), fun _ => ⟨(h.on hdirect).1, nofun⟩⟩
  | acceptedAnswer message hincoming hdirect htarget hstate hexpected hkind hsocket =>
    rw [hsocket] at hsocket'
    cases hsocket'
    exact ⟨fun hoff => absurd (hdirect.symm.trans hoff) (by decide), fun _ => ⟨(h.on hdirect).1, nofun⟩⟩
  | accepted message hincoming hstate hexpected hkind hsocket =>
    rw [hsocket] at hsocket'
    cases hsocket'
    exact h

/-- A state that is neither `ready` nor expects a peer is `disabled`. -/
theorem not_negotiating_ready : SignalState.ready ∉ negotiating := by decide

theorem negotiating_connected : SignalState.connected ∈ negotiating := by decide

theorem not_negotiating_disabled : SignalState.disabled ∉ negotiating := by decide

/-- A channel that expects a peer goes on to expect it, or is over. -/
theorem Expecting.moved (h : Expecting own other (.running socket)) (hmoved : Moved socket incoming handled) :
    Expecting own other (statusAfter handled) ∨ Over (statusAfter handled) := by
  obtain ⟨_, ⟨⟩, hown, hstate, hother⟩ := h
  unfold statusAfter
  cases hmoved with
  | stopped hsocket =>
    rw [hsocket]
    exact Or.inr (Or.inl rfl)
  | kept hsocket =>
    rw [hsocket]
    exact Or.inl ⟨socket, rfl, hown, hstate, hother⟩
  | silenced hsocket =>
    rw [hsocket]
    exact Or.inr (over_silent socket)
  | offered message hready =>
    rw [hready] at hstate
    exact absurd hstate not_negotiating_ready
  | answered message hanswered hdirect hexpected hsocket =>
    rw [hsocket]
    exact Or.inl ⟨_, rfl, hown, negotiating_connected, hother⟩
  | relayed message hdirect hsocket =>
    rw [hsocket]
    exact Or.inl ⟨socket, rfl, hown, hstate, hother⟩
  | acceptedOffer message hincoming hdirect htarget hready =>
    rw [hready] at hstate
    exact absurd hstate not_negotiating_ready
  | acceptedAnswer message hincoming hdirect htarget hsent hexpected hkind hsocket =>
    rw [hsocket]
    exact Or.inl ⟨_, rfl, hown, negotiating_connected, hother⟩
  | accepted message hincoming haccepted hexpected hkind hsocket =>
    rw [hsocket]
    exact Or.inl ⟨socket, rfl, hown, hstate, hother⟩

/-- What is over stays over. -/
theorem Over.moved (h : Over (.running socket))
    (hmoved : Moved socket incoming handled) : Over (statusAfter handled) := by
  rcases h with h | ⟨_, ⟨⟩, hoff, hdisabled, hexpected⟩
  · cases h
  unfold statusAfter
  cases hmoved with
  | stopped hsocket =>
    rw [hsocket]
    exact Or.inl rfl
  | kept hsocket =>
    rw [hsocket]
    exact Or.inr ⟨socket, rfl, hoff, hdisabled, hexpected⟩
  | silenced hsocket =>
    rw [hsocket]
    exact over_silent socket
  | offered message hready => exact absurd (hdisabled.symm.trans hready) (by decide)
  | answered message hstate => exact absurd (hdisabled.symm.trans hstate) (by decide)
  | relayed message hdirect => exact absurd (hoff.symm.trans hdirect) (by decide)
  | acceptedOffer message hincoming hdirect => exact absurd (hoff.symm.trans hdirect) (by decide)
  | acceptedAnswer message hincoming hdirect => exact absurd (hoff.symm.trans hdirect) (by decide)
  | accepted message hincoming hstate =>
    rw [hdisabled] at hstate
    exact absurd hstate not_negotiating_disabled

section Runs

variable {highSpace : Nat → Bool}

/-- A status that every callback of a process keeps, whatever it is, is kept by every step, if no unborn process has it. -/
theorem status_step {P : Status → Prop} (hunborn : ¬ P .unborn)
    (hmoved : ∀ {socket incoming handled}, P (.running socket) → Moved socket incoming handled → P (statusAfter handled))
    {s : State} (a : Action) (h : P (s.statuses process)) :
    P ((step highSpace s a).1.statuses process) := by
  have hstepped := step_cases highSpace s a
  generalize step highSpace s a = result at hstepped
  cases hstepped with
  | kept => exact h
  | joined process' socket peerId hborn =>
    have hne : process ≠ process' := fun heq => hunborn (by rw [← hborn, ← heq]; exact h)
    show P (Function.update s.statuses process' _ process)
    rw [Function.update_of_ne hne]
    exact h
  | handled process' socket incoming inboxes handled hrunning hmoved' =>
    show P (Function.update s.statuses process' (statusAfter handled) process)
    by_cases heq : process = process'
    · subst heq
      rw [Function.update_self]
      rw [hrunning] at h
      exact hmoved h hmoved'
    · rw [Function.update_of_ne heq]
      exact h

/-- Such a status stays from any moment of a run on. -/
theorem status_run {P : Status → Prop} (hunborn : ¬ P .unborn)
    (hmoved : ∀ {socket incoming handled}, P (.running socket) → Moved socket incoming handled → P (statusAfter handled))
    (hbefore : before <+: actions)
    (h : P ((run highSpace before).statuses process)) : P ((run highSpace actions).statuses process) := by
  obtain ⟨after, rfl⟩ := hbefore
  induction after using List.reverseRecOn with
  | nil => rwa [List.append_nil]
  | append_singleton after a ih =>
    rw [← List.append_assoc, run_concat]
    exact status_step hunborn hmoved a ih

theorem over_run (hbefore : before <+: actions)
    (h : Over ((run highSpace before).statuses process)) : Over ((run highSpace actions).statuses process) := by
  refine status_run ?_ (fun h hmoved => h.moved hmoved) hbefore h
  rintro (h | ⟨socket, h, -⟩)
  · cases h
  · cases h

theorem bound_run (hbefore : before <+: actions) (h : Expecting own other ((run highSpace before).statuses process)) :
    Expecting own other ((run highSpace actions).statuses process) ∨ Over ((run highSpace actions).statuses process) := by
  refine status_run (P := fun status => Expecting own other status ∨ Over status) ?_ ?_ hbefore (Or.inl h)
  · rintro (⟨socket, h, -⟩ | h | ⟨socket, h, -⟩)
    · cases h
    · cases h
    · cases h
  · rintro socket incoming handled (h | h) hmoved
    · exact h.moved hmoved
    · exact Or.inr (h.moved hmoved)

/-! ### Where offers, answers and expected peers come from -/

variable (highSpace) in
/-- At some moment so far the channel with the id `own` expected `other`. -/
def Attested (history : List Action) (own other : String) : Prop :=
  ∃ process before, before <+: history ∧ Expecting own other ((run highSpace before).statuses process)

theorem Attested.concat {history : List Action} (h : Attested highSpace history own other) (a : Action) :
    Attested highSpace (history ++ [a]) own other := by
  obtain ⟨process, before, hbefore, hexpecting⟩ := h
  exact ⟨process, before, hbefore.trans (List.prefix_append history [a]), hexpecting⟩

variable (highSpace) in
/-- Peer ids belong to one process each, and what was sent or is expected is attested. -/
structure Traced (history : List Action) (s : State) : Prop where
  keys : (s.peerIds.map Prod.fst).Nodup
  named : ∀ process socket peerId, s.statuses process = .running socket → socket.directPeerId = some peerId →
    (peerId, process) ∈ s.peerIds
  sound : ∀ process socket, s.statuses process = .running socket → Sound socket
  inboxes : ∀ process, ∀ message ∈ s.inboxes process, ∃ own, message.fromPeerId = some own ∧
    (Describes message → Attested highSpace history own message.targetPeerId)
  attested : ∀ process socket peer, s.statuses process = .running socket →
    socket.directSignalState = .offerReceived ∨ socket.directSignalState = .connected →
      socket.directExpectedPeerId = some peer → ∃ own, socket.directPeerId = some own ∧ Attested highSpace history peer own

theorem traced_initial : Traced highSpace [] initial where
  keys := List.nodup_nil
  named := fun _ _ _ h => by cases h
  sound := fun _ _ h => by cases h
  inboxes := fun _ _ h => absurd h List.not_mem_nil
  attested := fun _ _ _ h => by cases h

theorem traced_step {history : List Action} (h : Traced highSpace history (run highSpace history)) (a : Action) :
    Traced highSpace (history ++ [a]) (run highSpace (history ++ [a])) := by
  have hself : ∀ {own other : String} {process : ProcessId},
      Expecting own other ((step highSpace (run highSpace history) a).1.statuses process) →
        Attested highSpace (history ++ [a]) own other := by
    intro own other process hexpecting
    rw [← run_concat] at hexpecting
    exact ⟨process, history ++ [a], List.prefix_refl _, hexpecting⟩
  have hbefore : ∀ {own other : String} {process : ProcessId},
      Expecting own other ((run highSpace history).statuses process) → Attested highSpace (history ++ [a]) own other :=
    fun hexpecting => ⟨_, history, List.prefix_append history [a], hexpecting⟩
  rw [run_concat]
  have hstepped := step_cases highSpace (run highSpace history) a
  generalize step highSpace (run highSpace history) a = result at hstepped hself
  generalize run highSpace history = s at h hstepped hbefore
  cases hstepped with
  | kept =>
    exact
      { keys := h.keys
        named := h.named
        sound := h.sound
        inboxes := fun process message hmem => by
          obtain ⟨own, hfrom, hattested⟩ := h.inboxes process message hmem
          exact ⟨own, hfrom, fun hdescribes => (hattested hdescribes).concat a⟩
        attested := fun process socket peer hrunning hstate hexpected => by
          obtain ⟨own, hown, hattested⟩ := h.attested process socket peer hrunning hstate hexpected
          exact ⟨own, hown, hattested.concat a⟩ }
  | joined process socket peerId hborn hfresh hsocket hexpected =>
    have hcases : ∀ {process' : ProcessId} {socket' : Socket},
        Function.update s.statuses process (.running socket) process' = .running socket' →
          (process' = process ∧ socket' = socket) ∨ (process' ≠ process ∧ s.statuses process' = .running socket') := by
      intro process' socket' hrunning
      by_cases heq : process' = process
      · subst heq
        rw [Function.update_self] at hrunning
        cases hrunning
        exact Or.inl ⟨rfl, rfl⟩
      · rw [Function.update_of_ne heq] at hrunning
        exact Or.inr ⟨heq, hrunning⟩
    refine
      { keys := List.nodup_cons.2 ⟨hfresh, h.keys⟩
        named := ?_
        sound := ?_
        inboxes := ?_
        attested := ?_ }
    · intro process' socket' peerId' hrunning hpeer
      rcases hcases hrunning with ⟨rfl, rfl⟩ | ⟨-, hrunning⟩
      · rcases hsocket with ⟨-, hpeer', -⟩ | ⟨-, hpeer', -⟩
        · cases hpeer.symm.trans hpeer'
          exact List.mem_cons_self
        · cases hpeer.symm.trans hpeer'
      · exact List.mem_cons_of_mem _ (h.named process' socket' peerId' hrunning hpeer)
    · intro process' socket' hrunning
      rcases hcases hrunning with ⟨rfl, rfl⟩ | ⟨-, hrunning⟩
      · rcases hsocket with ⟨hon, hpeer, hready⟩ | ⟨hoff, -, hdisabled⟩
        · refine ⟨fun hoff => absurd (hon.symm.trans hoff) (by decide), fun _ => ⟨?_, ?_⟩⟩
          · rw [hpeer]
            exact Option.some_ne_none peerId
          · rw [hready]
            decide
        · exact ⟨fun _ => ⟨hdisabled, hexpected⟩, fun hon => absurd (hoff.symm.trans hon) (by decide)⟩
      · exact h.sound process' socket' hrunning
    · intro process' message hmem
      obtain ⟨own, hfrom, hattested⟩ := h.inboxes process' message hmem
      exact ⟨own, hfrom, fun hdescribes => (hattested hdescribes).concat a⟩
    · intro process' socket' peer hrunning hstate hexpected'
      rcases hcases hrunning with ⟨rfl, rfl⟩ | ⟨-, hrunning⟩
      · cases hexpected.symm.trans hexpected'
      · obtain ⟨own, hown, hattested⟩ := h.attested process' socket' peer hrunning hstate hexpected'
        exact ⟨own, hown, hattested.concat a⟩
  | handled process socket incoming inboxes handled hrunning hmoved hincoming hinboxes =>
    have hcases : ∀ {process' : ProcessId} {socket' : Socket},
        Function.update s.statuses process (statusAfter handled) process' = .running socket' →
          (process' = process ∧ handled.socket = some socket') ∨
            (process' ≠ process ∧ s.statuses process' = .running socket') := by
      intro process' socket' hrunning
      by_cases heq : process' = process
      · subst heq
        rw [Function.update_self] at hrunning
        unfold statusAfter at hrunning
        split at hrunning
        · rename_i socket'' hsocket
          cases hrunning
          exact Or.inl ⟨rfl, hsocket⟩
        · cases hrunning
      · rw [Function.update_of_ne heq] at hrunning
        exact Or.inr ⟨heq, hrunning⟩
    have hsound := h.sound process socket hrunning
    refine
      { keys := h.keys
        named := ?_
        sound := ?_
        inboxes := ?_
        attested := ?_ }
    · intro process' socket' peerId hrunning' hpeer
      rcases hcases hrunning' with ⟨rfl, hsocket'⟩ | ⟨-, hrunning'⟩
      · rcases hmoved.peerId hsocket' with heq | heq
        · exact h.named process' socket peerId hrunning (heq.symm.trans hpeer)
        · cases heq.symm.trans hpeer
      · exact h.named process' socket' peerId hrunning' hpeer
    · intro process' socket' hrunning'
      rcases hcases hrunning' with ⟨rfl, hsocket'⟩ | ⟨-, hrunning'⟩
      · exact hsound.moved hmoved hsocket'
      · exact h.sound process' socket' hrunning'
    · intro process' message hmem
      have hold : message ∈ inboxes process' → ∃ own, message.fromPeerId = some own ∧
          (Describes message → Attested highSpace (history ++ [a]) own message.targetPeerId) := by
        intro hmem
        obtain ⟨own, hfrom, hattested⟩ := h.inboxes process' message (hinboxes process' message hmem)
        exact ⟨own, hfrom, fun hdescribes => (hattested hdescribes).concat a⟩
      have hmem : message ∈ if process' ≠ process ∧ (s.statuses process').isRunning then
          inboxes process' ++ handled.broadcasts else inboxes process' := hmem
      split at hmem
      · rcases List.mem_append.1 hmem with hmem | hmem
        · exact hold hmem
        · -- the channel expects the target when it has sent its offer, and expected it before it sent an answer
          obtain ⟨hdirect, hfrom, hdescribed⟩ := hmoved.broadcast hmem
          obtain ⟨own, hown⟩ := Option.ne_none_iff_exists'.1 (hsound.on hdirect).1
          refine ⟨own, hfrom.trans hown, fun hdescribes => ?_⟩
          rcases hdescribed hdescribes with ⟨hreceived, hexpected⟩ | hsocket
          · refine @hbefore _ _ process ⟨socket, hrunning, hown, ?_, hexpected⟩
            rw [hreceived]
            decide
          · refine @hself _ _ process ⟨{ socket with
              directSignalState := .offerSent, directExpectedPeerId := some message.targetPeerId }, ?_, hown, ?_, rfl⟩
            · show Function.update s.statuses process (statusAfter handled) process = _
              rw [Function.update_self, statusAfter, hsocket]
            · exact List.mem_cons_self
      · exact hold hmem
    · intro process' socket' peer hrunning' hstate hexpected
      rcases hcases hrunning' with ⟨rfl, hsocket'⟩ | ⟨-, hrunning'⟩
      · rcases hmoved.expects hsocket' hstate with ⟨hbefore, hsame, hpeer⟩ | ⟨message, hmessage, hdescribes, hfrom, htarget⟩
        · obtain ⟨own, hown, hattested⟩ := h.attested process' socket peer hrunning hbefore (hsame.symm.trans hexpected)
          exact ⟨own, hpeer.trans hown, hattested.concat a⟩
        · obtain ⟨own, hown, hattested⟩ := h.inboxes process' message (hincoming message hmessage)
          cases hown.symm.trans (hfrom.symm.trans hexpected)
          exact ⟨message.targetPeerId, htarget, (hattested hdescribes).concat a⟩
      · obtain ⟨own, hown, hattested⟩ := h.attested process' socket' peer hrunning' hstate hexpected
        exact ⟨own, hown, hattested.concat a⟩

theorem traced_run (actions : List Action) : Traced highSpace actions (run highSpace actions) := by
  induction actions using List.reverseRecOn with
  | nil => exact traced_initial
  | append_singleton history a ih => exact traced_step ih a

/-! ### Offers of a run -/

/-- The output is a signal that a process sends, or that it pushes to its client. -/
def Carries (output : Output) (process : ProcessId) (message : Message) : Prop :=
  output = .sent process message ∨ output = .pushed process (.signal message)

/-- An offer that a process sends or accepts. -/
def offerBy (process : ProcessId) : Output → Bool
  | .sent sender message => sender == process && isOffer message
  | .pushed receiver (.signal message) => receiver == process && isOffer message
  | _ => false

theorem carries_outputsOf {message : Message} (hmem : output ∈ outputsOf process handled)
    (hcarries : Carries output process' message) :
    process' = process ∧ ((output = .sent process' message ∧ message ∈ handled.broadcasts) ∨
      (output = .pushed process' (.signal message) ∧ message ∈ signals handled)) := by
  unfold outputsOf at hmem
  rcases List.mem_append.1 hmem with hmem | hmem
  · rcases List.mem_append.1 hmem with hmem | hmem
    · obtain ⟨sent, hsent, rfl⟩ := List.mem_map.1 hmem
      rcases hcarries with heq | heq
      · cases heq
        exact ⟨rfl, Or.inl ⟨rfl, hsent⟩⟩
      · cases heq
    · obtain ⟨push, hpush, rfl⟩ := List.mem_map.1 hmem
      rcases hcarries with heq | heq
      · cases heq
      · cases heq
        exact ⟨rfl, Or.inr ⟨rfl, List.mem_filterMap.2 ⟨_, hpush, rfl⟩⟩⟩
  · obtain ⟨reply, hreply, rfl⟩ := List.mem_map.1 hmem
    rcases hcarries with heq | heq
    · cases heq
    · cases heq

theorem countP_outputsOf (process process' : ProcessId) (handled : Handled) :
    (outputsOf process handled).countP (offerBy process') = if process = process' then offers handled else 0 := by
  have hsent : (handled.broadcasts.map (Output.sent process)).countP (offerBy process') =
      if process = process' then handled.broadcasts.countP isOffer else 0 := by
    rw [List.countP_map]
    by_cases heq : process = process'
    · rw [if_pos heq]
      exact List.countP_congr fun message _ => by simp [offerBy, heq]
    · rw [if_neg heq]
      exact List.countP_eq_zero.2 fun message _ => by simp [offerBy, heq]
  have hpushed : (handled.pushes.map (Output.pushed process)).countP (offerBy process') =
      if process = process' then (signals handled).countP isOffer else 0 := by
    unfold signals
    induction handled.pushes with
    | nil => simp
    | cons push pushes ih =>
      rw [List.map_cons, List.countP_cons, ih]
      cases push with
      | peers peers => simp [offerBy]
      | disabled reason => simp [offerBy]
      | signal message =>
        by_cases heq : process = process'
        · simp [offerBy, heq, List.countP_cons]
        · simp [offerBy, heq]
  have hreplied : (handled.reply.toList.map (Output.replied process)).countP (offerBy process') = 0 := by
    rw [List.countP_map]
    exact List.countP_eq_zero.2 fun reply _ => by simp [offerBy]
  unfold outputsOf offers
  rw [List.countP_append, List.countP_append, hsent, hpushed, hreplied]
  by_cases heq : process = process'
  · rw [if_pos heq, if_pos heq, if_pos heq]
    rfl
  · rw [if_neg heq, if_neg heq, if_neg heq]

/-- A process that may still send or accept an offer. -/
def Open (status : Status) : Prop :=
  status = .unborn ∨ ∃ socket, status = .running socket ∧ socket.directSignalState = .ready

/-- At most one offer so far, and none while another may come. -/
def OneOffer (s : State) (outs : List Output) (process : ProcessId) : Prop :=
  outs.countP (offerBy process) ≤ 1 ∧ (Open (s.statuses process) → outs.countP (offerBy process) = 0)

theorem oneOffer_run (actions : List Action) (process : ProcessId) :
    OneOffer (run highSpace actions) (outputs highSpace actions) process := by
  induction actions using List.reverseRecOn with
  | nil => exact ⟨Nat.zero_le _, fun _ => rfl⟩
  | append_singleton history a ih =>
    rw [run_concat, outputs_concat]
    have hstepped := step_cases highSpace (run highSpace history) a
    generalize step highSpace (run highSpace history) a = result at hstepped
    generalize run highSpace history = s at ih hstepped
    generalize outputs highSpace history = outs at ih
    obtain ⟨hle, hopen⟩ := ih
    cases hstepped with
    | kept =>
      rw [List.append_nil]
      exact ⟨hle, hopen⟩
    | joined process' socket peerId hborn =>
      rw [List.append_nil]
      refine ⟨hle, fun hopen' => hopen ?_⟩
      by_cases heq : process = process'
      · subst heq
        exact Or.inl hborn
      · have hopen' : Open (Function.update s.statuses process' (.running socket) process) := hopen'
        rwa [Function.update_of_ne heq] at hopen'
    | handled process' socket incoming inboxes handled hrunning hmoved =>
      have hcount : (outs ++ outputsOf process' handled).countP (offerBy process) =
          outs.countP (offerBy process) + if process' = process then offers handled else 0 := by
        rw [List.countP_append, countP_outputsOf]
      show _ ≤ 1 ∧ (Open (Function.update s.statuses process' (statusAfter handled) process) → _)
      unfold finish
      dsimp only
      rw [hcount]
      by_cases heq : process = process'
      · subst heq
        rw [if_pos rfl, Function.update_self]
        have hstate : Open (statusAfter handled) → ∃ socket', handled.socket = some socket' ∧
            socket'.directSignalState = .ready := by
          unfold statusAfter
          rintro (hopen' | ⟨socket', hopen', hready⟩)
          · split at hopen' <;> cases hopen'
          · split at hopen'
            · rename_i socket'' hsocket
              cases hopen'
              exact ⟨socket', hsocket, hready⟩
            · cases hopen'
        rcases hmoved.offers with ⟨hzero, hready⟩ | ⟨hone, hready, hnot⟩
        · rw [hzero]
          refine ⟨hle, fun hopen' => hopen ?_⟩
          obtain ⟨socket', hsocket', hready'⟩ := hstate hopen'
          exact Or.inr ⟨socket, hrunning, hready socket' hsocket' hready'⟩
        · rw [hone, hopen (Or.inr ⟨socket, hrunning, hready⟩)]
          refine ⟨Nat.le_refl 1, fun hopen' => ?_⟩
          obtain ⟨socket', hsocket', hready'⟩ := hstate hopen'
          exact absurd hready' (hnot socket' hsocket')
      · rw [if_neg (Ne.symm heq), Function.update_of_ne heq]
        exact ⟨hle, hopen⟩

/-- Every signal of a run is an output of one of its steps. -/
theorem exists_step (hmem : output ∈ outputs highSpace actions) :
    ∃ history a, history ++ [a] <+: actions ∧ output ∈ (step highSpace (run highSpace history) a).2 := by
  induction actions using List.reverseRecOn with
  | nil => cases hmem
  | append_singleton history a ih =>
    rw [outputs_concat] at hmem
    rcases List.mem_append.1 hmem with hmem | hmem
    · obtain ⟨earlier, a', hearlier, hmem⟩ := ih hmem
      exact ⟨earlier, a', hearlier.trans (List.prefix_append history [a]), hmem⟩
    · exact ⟨history, a, List.prefix_refl _, hmem⟩

/-- What a step sends or pushes belongs to a callback of the process. -/
theorem moved_of_output {s : State} {a : Action} {message : Message} (hmem : output ∈ (step highSpace s a).2)
    (hcarries : Carries output process message) :
    ∃ socket incoming handled, s.statuses process = .running socket ∧ Moved socket incoming handled ∧
      (∀ received, incoming = some received → received ∈ s.inboxes process) ∧ output ∈ outputsOf process handled := by
  have hstepped := step_cases highSpace s a
  generalize step highSpace s a = result at hstepped hmem
  cases hstepped with
  | kept => cases hmem
  | joined => cases hmem
  | handled process' socket incoming inboxes handled hrunning hmoved hincoming =>
    obtain ⟨rfl, -⟩ := carries_outputsOf hmem hcarries
    exact ⟨socket, incoming, handled, hrunning, hmoved, hincoming, hmem⟩

/-! ### Agreement -/

variable (highSpace) in
/-- What the channels of a call agree on after a run. -/
structure Agreement (actions : List Action) : Prop where
  ascending : ∀ output ∈ outputs highSpace actions, ∀ process message, Carries output process message →
    kind message.signal = "offer" → ∃ own, message.fromPeerId = some own ∧ own < message.targetPeerId
  one_offer : ∀ process, (outputs highSpace actions).countP (offerBy process) ≤ 1
  /-- The channel of the peer that is expected expected this one, and no other one since. -/
  attested : ∀ process socket peer, (run highSpace actions).statuses process = .running socket →
    socket.directSignalState = .offerReceived ∨ socket.directSignalState = .connected →
    socket.directExpectedPeerId = some peer → ∃ own other before, socket.directPeerId = some own ∧ before <+: actions ∧
      Expecting peer own ((run highSpace before).statuses other) ∧
      (∀ later, before <+: later → later <+: actions → ∀ socket', (run highSpace later).statuses other = .running socket' →
        socket'.directExpectedPeerId = some own ∨ socket'.directExpectedPeerId = none) ∧
      ∀ later, later <+: actions → ∀ process' socket', (run highSpace later).statuses process' = .running socket' →
        socket'.directPeerId = some peer → process' = other
  agreed : ∀ process process' socket socket' own other, (run highSpace actions).statuses process = .running socket →
    (run highSpace actions).statuses process' = .running socket' → socket.directSignalState = .connected →
    socket'.directSignalState = .connected → socket.directPeerId = some own → socket'.directPeerId = some other →
    socket.directExpectedPeerId = some other → socket'.directExpectedPeerId = some own
  /-- Answers, ICE candidates and media signals that a step pushes to a client. -/
  from_expected : ∀ history a, history ++ [a] <+: actions → ∀ process message,
    Output.pushed process (.signal message) ∈ (step highSpace (run highSpace history) a).2 →
    kind message.signal = "answer" ∨ kind message.signal = "ice" ∨ kind message.signal = "media" →
    ∃ socket peer, (run highSpace history).statuses process = .running socket ∧ message.fromPeerId = some peer ∧
      socket.directExpectedPeerId = some peer
  disabled_stays : ∀ before process socket, before <+: actions → (run highSpace before).statuses process = .running socket →
    socket.directSignalState = .disabled → (run highSpace actions).statuses process = .stopped ∨
      ∃ socket', (run highSpace actions).statuses process = .running socket' ∧ socket'.directAudio = false ∧
        socket'.directSignalState = .disabled

/-- The ids that were given stay given. -/
theorem peerIds_step (s : State) (a : Action) {entry : String × ProcessId} (h : entry ∈ s.peerIds) :
    entry ∈ (step highSpace s a).1.peerIds := by
  have hstepped := step_cases highSpace s a
  generalize step highSpace s a = result at hstepped
  cases hstepped with
  | kept => exact h
  | joined => exact List.mem_cons_of_mem _ h
  | handled => exact h

theorem peerIds_run (hbefore : before <+: actions) {entry : String × ProcessId}
    (h : entry ∈ (run highSpace before).peerIds) : entry ∈ (run highSpace actions).peerIds := by
  obtain ⟨after, rfl⟩ := hbefore
  induction after using List.reverseRecOn with
  | nil => rwa [List.append_nil]
  | append_singleton after a ih =>
    rw [← List.append_assoc, run_concat]
    exact peerIds_step _ a ih

/-- A peer id belongs to one process in all of a run. -/
theorem peer_unique {later : List Action} (hbefore : before <+: actions) (hlater : later <+: actions) {peer : String}
    (hrunning : (run highSpace before).statuses process = .running socket)
    (hrunning' : (run highSpace later).statuses process' = .running socket') (hpeer : socket.directPeerId = some peer)
    (hpeer' : socket'.directPeerId = some peer) : process' = process := by
  have hentry := peerIds_run hbefore ((traced_run before).named process socket peer hrunning hpeer)
  have hentry' := peerIds_run hlater ((traced_run later).named process' socket' peer hrunning' hpeer')
  have hnodup : ((run highSpace actions).peerIds.map Prod.fst).Nodup := (traced_run actions).keys
  exact congrArg Prod.snd (List.inj_on_of_nodup_map hnodup hentry' hentry rfl)

theorem signalling_agreement (actions : List Action) : Agreement highSpace actions where
  ascending := by
    intro output hmem process message hcarries hoffer
    obtain ⟨history, a, -, hmem⟩ := exists_step hmem
    obtain ⟨socket, incoming, handled, hrunning, hmoved, hincoming, hmem⟩ := moved_of_output hmem hcarries
    have hcarried : message ∈ handled.broadcasts ∨ message ∈ signals handled :=
      (carries_outputsOf hmem hcarries).2.imp And.right And.right
    have hlt := hmoved.ascending hcarried hoffer
    have hfrom : ∃ own, message.fromPeerId = some own := by
      rcases hcarried with hsent | hpushed
      · obtain ⟨hdirect, hfrom, -⟩ := hmoved.broadcast hsent
        obtain ⟨own, hown⟩ := Option.ne_none_iff_exists'.1 (((traced_run history).sound process socket hrunning).on hdirect).1
        exact ⟨own, hfrom.trans hown⟩
      · obtain ⟨own, hown, -⟩ := (traced_run history).inboxes process message (hincoming message
          (hmoved.incoming_of_signal hpushed))
        exact ⟨own, hown⟩
    obtain ⟨own, hown⟩ := hfrom
    rw [hown] at hlt
    exact ⟨own, hown, of_decide_eq_true hlt⟩
  one_offer := fun process => (oneOffer_run actions process).1
  attested := by
    intro process socket peer hrunning hstate hexpected
    obtain ⟨own, hown, other, before, hbefore, hexpecting⟩ :=
      (traced_run actions).attested process socket peer hrunning hstate hexpected
    refine ⟨own, other, before, hown, hbefore, hexpecting, ?_, ?_⟩
    · intro later hlater _ socket' hrunning'
      rcases bound_run hlater hexpecting with ⟨_, hsame, -, -, hpeer⟩ | hstopped | ⟨_, hsame, -, -, hnone⟩
      · cases hsame.symm.trans hrunning'
        exact Or.inl hpeer
      · cases hstopped.symm.trans hrunning'
      · cases hsame.symm.trans hrunning'
        exact Or.inr hnone
    · intro later hlater process' socket' hrunning' hpeer'
      obtain ⟨socket'', hrunning'', hpeer'', -⟩ := hexpecting
      exact peer_unique hbefore hlater hrunning'' hrunning' hpeer'' hpeer'
  agreed := by
    intro process process' socket socket' own other hrunning hrunning' hconnected hconnected' hown hother hexpected
    obtain ⟨own', hown', channel, before, hbefore, hexpecting⟩ :=
      (traced_run actions).attested process socket other hrunning (Or.inr hconnected) hexpected
    cases hown.symm.trans hown'
    obtain ⟨socket'', hrunning'', hpeer'', -⟩ := id hexpecting
    obtain rfl := peer_unique hbefore (List.prefix_refl actions) hrunning'' hrunning' hpeer'' hother
    rcases bound_run hbefore hexpecting with ⟨_, hsame, -, -, hpeer⟩ | hstopped | ⟨_, hsame, -, hdisabled, -⟩
    · cases hsame.symm.trans hrunning'
      exact hpeer
    · cases hstopped.symm.trans hrunning'
    · cases hsame.symm.trans hrunning'
      cases hdisabled.symm.trans hconnected'
  from_expected := by
    intro history a _ process message hmem hkind
    obtain ⟨socket, incoming, handled, hrunning, hmoved, hincoming, hmem⟩ := moved_of_output hmem (Or.inr rfl)
    have hpushed : message ∈ signals handled := by
      rcases (carries_outputsOf hmem (Or.inr rfl)).2 with hsent | hpushed
      · cases hsent.1
      · exact hpushed.2
    obtain ⟨peer, hpeer, -⟩ := (traced_run history).inboxes process message (hincoming message
      (hmoved.incoming_of_signal hpushed))
    exact ⟨socket, peer, hrunning, hpeer, (hmoved.from_expected hpushed hkind).trans hpeer⟩
  disabled_stays := by
    intro before process socket hbefore hrunning hdisabled
    have hsound := (traced_run before).sound process socket hrunning
    have hoff : socket.directAudio = false := by
      by_contra hon
      exact (hsound.on (Bool.not_eq_false _ ▸ hon)).2 hdisabled
    rcases over_run hbefore (Or.inr ⟨socket, hrunning, hoff, hdisabled, (hsound.off hoff).2⟩) with
      hstopped | ⟨socket', hrunning', hoff', hdisabled', -⟩
    · exact Or.inl hstopped
    · exact Or.inr ⟨socket', hrunning', hoff', hdisabled'⟩

end Runs

end KComms.Web.DirectAgreement
