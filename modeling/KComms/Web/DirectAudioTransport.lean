import KComms.Lib.CommandRuns
import Mathlib.Logic.Function.Basic

/-!
# The microphone of a direct call (`DirectAudioTransport` of the web client)

`getUserMedia` and `replaceTrack` are awaited, and every method may be called meanwhile.  A call that is not over is kept
with what it waits for, and `step` runs it as far as its next `await`.  Generations tell a replacement that it was
superseded, but not that the microphone was muted.  So a track that comes late is enabled whatever was asked for
(`not_muted_and_pinned`); but for the steps that do so, what is asked for holds whenever no call is in progress
(`mute_kept`), and no step leaves a track running that the transport does not hold (`running_track`).
-/

namespace KComms.Web.DirectAudioTransport

abbrev TrackId := Nat
abbrev ConnectionId := Nat
abbrev CallId := Nat

structure Track where
  running : Bool
  enabled : Bool
  deriving DecidableEq, Repr

/-- A sender, and the `replaceTrack` calls that wait for it, in their order. -/
structure Sender where
  track : Option TrackId
  pending : List CallId
  deriving DecidableEq, Repr

/-- What `replaceMicrophone` remembers of the transport. -/
structure Replacement where
  lifecycleGeneration : Nat
  replacementGeneration : Nat
  peerConnection : Option ConnectionId
  deriving DecidableEq, Repr

/-- How far a call has come. -/
inductive Phase
  /-- It awaits `getUserMedia`. -/
  | acquiring (r : Replacement) (deviceId : String)
  /-- That has settled, with the tracks of a stream or with an error. -/
  | acquired (r : Replacement) (media : Option (List TrackId))
  /-- It awaits `replaceTrack`. -/
  | replacing (r : Replacement) (nextTrack : TrackId) (stream : List TrackId)
  | replaced (r : Replacement) (nextTrack : TrackId) (stream : List TrackId) (succeeded : Bool)
  /-- `replaceMicrophone` is over. -/
  | returned (succeeded : Bool)
  /-- `setMicrophoneEnabled` is over, and `start` goes on. -/
  | microphoneEnabled
  /-- It awaits `createOffer`. -/
  | offering
  /-- It awaits `setLocalDescription`. -/
  | describing
  deriving DecidableEq, Repr

/-- The method that was called; `offers` is `localPeerId < remotePeerId`. -/
inductive Method
  | start (peerConnection : ConnectionId) (offers : Bool)
  | setMicrophoneEnabled
  | switchMicrophone
  deriving DecidableEq, Repr

structure Call where
  method : Method
  phase : Phase
  deriving DecidableEq, Repr

/-- The transport, with the tracks, the senders and the calls that are not over.  The last setting that
`setMicrophoneEnabled` was called with is kept for what is said of it. -/
structure State where
  peerConnection : Option ConnectionId
  localTrack : Option TrackId
  microphoneDeviceId : String
  stopped : Bool
  lifecycleGeneration : Nat
  microphoneReplacementGeneration : Nat
  tracks : TrackId → Track
  acquired : Nat
  senders : ConnectionId → Sender
  connections : Nat
  calls : CallId → Option Call
  called : Nat
  lastSetting : Option Bool

def initial : State :=
  { peerConnection := none, localTrack := none, microphoneDeviceId := "", stopped := false, lifecycleGeneration := 0,
    microphoneReplacementGeneration := 0, tracks := fun _ => ⟨false, false⟩, acquired := 0,
    senders := fun _ => ⟨none, []⟩, connections := 0, calls := fun _ => none, called := 0, lastSetting := none }

/-! ### Methods -/

section Methods

def stopTracks (s : State) (ids : List TrackId) : State :=
  { s with tracks := fun t => if t ∈ ids then { s.tracks t with running := false } else s.tracks t }

def setEnabled (s : State) (t : TrackId) (enabled : Bool) : State :=
  { s with tracks := Function.update s.tracks t { s.tracks t with enabled := enabled } }

def setCall (s : State) (id : CallId) (call : Option Call) : State :=
  { s with calls := Function.update s.calls id call }

/-- What `stop` and `fail` have in common. -/
def shutDown (s : State) : State :=
  { stopTracks s s.localTrack.toList with
    stopped := true
    lifecycleGeneration := s.lifecycleGeneration + 1
    microphoneReplacementGeneration := s.microphoneReplacementGeneration + 1
    peerConnection := none
    localTrack := none }

def stop (s : State) : State := shutDown s

def fail (s : State) : State := if s.stopped then s else shutDown s

/-- `replaceMicrophone`, up to `getUserMedia`. -/
def replaceMicrophone (method : Method) (deviceId : String) (s : State) : State :=
  let replacementGeneration := s.microphoneReplacementGeneration + 1
  { setCall s s.called
      (some ⟨method, .acquiring ⟨s.lifecycleGeneration, replacementGeneration, s.peerConnection⟩ deviceId⟩) with
    microphoneReplacementGeneration := replacementGeneration
    called := s.called + 1 }

/-- `setMicrophoneEnabled`, called from outside or by `start`. -/
def setMicrophoneEnabled (method : Method) (enabled : Bool) (s : State) : State :=
  let s := { s with lastSetting := some enabled }
  if enabled then
    match s.localTrack with
    | none => replaceMicrophone method s.microphoneDeviceId s
    | some t => setEnabled s t true
  else
    match s.localTrack with
    | none => s
    | some t => setEnabled s t false

def switchMicrophone (deviceId : String) (s : State) : State :=
  let s := { s with microphoneDeviceId := deviceId }
  if s.localTrack.isSome then replaceMicrophone .switchMicrophone deviceId s else s

/-- The transport on a new connection, with a sender that has no track. -/
def connect (deviceId : String) (s : State) : State :=
  let s := stop s
  { s with
    stopped := false
    lifecycleGeneration := s.lifecycleGeneration + 1
    microphoneDeviceId := deviceId
    peerConnection := some s.connections
    senders := Function.update s.senders s.connections ⟨none, []⟩
    connections := s.connections + 1 }

/-- `start`; there is no local track when it calls `setMicrophoneEnabled`. -/
def start (offers microphoneEnabled : Bool) (deviceId : String) (s : State) : State :=
  let peerConnection := s.connections
  let s := connect deviceId s
  if microphoneEnabled then setMicrophoneEnabled (.start peerConnection offers) true s
  else if offers then { setCall s s.called (some ⟨.start peerConnection offers, .offering⟩) with called := s.called + 1 }
  else s

/-- The check of `replaceMicrophone` after each `await`. -/
def Current (s : State) (r : Replacement) : Prop :=
  s.stopped = false ∧ s.lifecycleGeneration = r.lifecycleGeneration ∧
    s.microphoneReplacementGeneration = r.replacementGeneration ∧ s.peerConnection = r.peerConnection

instance (s : State) (r : Replacement) : Decidable (Current s r) := by
  unfold Current
  infer_instance

/-- `replaceMicrophone` returns or throws; the tracks of its stream are stopped. -/
def leave (s : State) (id : CallId) (method : Method) (stream : List TrackId) (succeeded : Bool) : State :=
  setCall (stopTracks s stream) id (some ⟨method, .returned succeeded⟩)

/-- `getUserMedia` settles, with as many new tracks as a stream has. -/
def mediaSettles (s : State) (id : CallId) (media : Option Nat) : State :=
  match s.calls id with
  | some ⟨method, .acquiring r _⟩ =>
    match media with
    | none => setCall s id (some ⟨method, .acquired r none⟩)
    | some n =>
      let stream := List.range' s.acquired n
      { setCall s id (some ⟨method, .acquired r (some stream)⟩) with
        tracks := fun t => if t ∈ stream then ⟨true, true⟩ else s.tracks t
        acquired := s.acquired + n }
  | _ => s

/-- The first `replaceTrack` that waits for a sender settles. -/
def trackSettles (s : State) (connection : ConnectionId) (succeeded : Bool) : State :=
  match (s.senders connection).pending with
  | [] => s
  | id :: pending =>
    match s.calls id with
    | some ⟨method, .replacing r nextTrack stream⟩ =>
      let sender := { track := if succeeded then some nextTrack else (s.senders connection).track, pending := pending }
      { setCall s id (some ⟨method, .replaced r nextTrack stream succeeded⟩) with
        senders := Function.update s.senders connection sender }
    | _ => s

/-- `if (this.localTrack) this.localTrack.enabled = true` -/
def enableLocalTrack (s : State) : State :=
  match s.localTrack with
  | none => s
  | some t => setEnabled s t true

/-- What comes after `replaceMicrophone` in its callers. -/
def afterReplacement (s : State) (id : CallId) (method : Method) (succeeded : Bool) : State :=
  if succeeded then
    match method with
    | .switchMicrophone => setCall s id none
    | .setMicrophoneEnabled => setCall (enableLocalTrack s) id none
    | .start .. => setCall (enableLocalTrack s) id (some ⟨method, .microphoneEnabled⟩)
  else setCall s id none

/-- A call whose promise has settled runs on. -/
def resume (s : State) (id : CallId) : State :=
  match s.calls id with
  | some ⟨method, .acquired r media⟩ =>
    match media with
    | none => leave s id method [] false
    | some [] => leave s id method [] false
    | some (nextTrack :: others) =>
      if Current s r then
        match r.peerConnection with
        | none => leave s id method (nextTrack :: others) false
        | some connection =>
          let sender := s.senders connection
          { setCall s id (some ⟨method, .replacing r nextTrack (nextTrack :: others)⟩) with
            senders := Function.update s.senders connection { sender with pending := sender.pending ++ [id] } }
      else leave s id method (nextTrack :: others) true
  | some ⟨method, .replaced r nextTrack stream succeeded⟩ =>
    if succeeded then
      if Current s r then
        leave { stopTracks s s.localTrack.toList with localTrack := some nextTrack } id method
          (stream.filter (· ≠ nextTrack)) true
      else leave s id method stream true
    else leave s id method stream false
  | some ⟨method, .returned succeeded⟩ => afterReplacement s id method succeeded
  | some ⟨.start connection offers, .microphoneEnabled⟩ =>
    if offers then setCall s id (some ⟨.start connection offers, .offering⟩) else setCall s id none
  | _ => s

/-- `createOffer` or `setLocalDescription` settles. -/
def offerSettles (s : State) (id : CallId) (succeeded : Bool) : State :=
  match s.calls id with
  | some ⟨.start connection offers, .offering⟩ =>
    if succeeded ∧ s.stopped = false ∧ s.peerConnection = some connection then
      setCall s id (some ⟨.start connection offers, .describing⟩)
    else setCall s id none
  | some ⟨_, .describing⟩ => setCall s id none
  | _ => s

end Methods

/-! ### Runs -/

inductive Action
  | start (offers microphoneEnabled : Bool) (deviceId : String)
  | setMicrophoneEnabled (enabled : Bool)
  | switchMicrophone (deviceId : String)
  | stop
  | fail
  | mediaSettles (id : CallId) (media : Option Nat)
  | trackSettles (connection : ConnectionId) (succeeded : Bool)
  | offerSettles (id : CallId) (succeeded : Bool)
  | resume (id : CallId)
  deriving DecidableEq, Repr

/-- A step that nothing waits for leaves everything as it is. -/
def step (s : State) : Action → State
  | .start offers microphoneEnabled deviceId => start offers microphoneEnabled deviceId s
  | .setMicrophoneEnabled enabled => setMicrophoneEnabled .setMicrophoneEnabled enabled s
  | .switchMicrophone deviceId => switchMicrophone deviceId s
  | .stop => stop s
  | .fail => fail s
  | .mediaSettles id media => mediaSettles s id media
  | .trackSettles connection succeeded => trackSettles s connection succeeded
  | .offerSettles id succeeded => offerSettles s id succeeded
  | .resume id => resume s id

def run (actions : List Action) : State := runCommands step initial actions

/-- No call is in progress. -/
def Quiet (s : State) : Prop := ∀ id, s.calls id = none

/-- The track of the sender of the connection that the transport has. -/
def senderTrack (s : State) : Option TrackId := s.peerConnection.bind fun connection => (s.senders connection).track

/-! ### Tracks that run -/

def Call.replacement (call : Call) : Option Replacement :=
  match call.phase with
  | .acquiring r _ => some r
  | .acquired r _ => some r
  | .replacing r _ _ => some r
  | .replaced r _ _ _ => some r
  | _ => none

/-- The tracks that a call holds. -/
def Call.stream (call : Call) : List TrackId :=
  match call.phase with
  | .acquired _ media => media.getD []
  | .replacing _ _ stream => stream
  | .replaced _ _ stream _ => stream
  | _ => []

/-- The track of a `replaceTrack` call is one of the stream, and there is a sender for it. -/
def Phase.Sound : Phase → Prop
  | .replacing r nextTrack stream => nextTrack ∈ stream ∧ r.peerConnection ≠ none
  | .replaced r nextTrack stream _ => nextTrack ∈ stream ∧ r.peerConnection ≠ none
  | _ => True

/-- A track that runs is the transport's or is held by a call. -/
structure Owned (s : State) : Prop where
  running : ∀ t, (s.tracks t).running = true →
    s.localTrack = some t ∨ ∃ id call, s.calls id = some call ∧ t ∈ call.stream
  local_acquired : ∀ t, s.localTrack = some t → t < s.acquired
  stream_acquired : ∀ id call, s.calls id = some call → ∀ t ∈ call.stream, t < s.acquired
  sound : ∀ id call, s.calls id = some call → call.phase.Sound
  disconnected : s.peerConnection = none → s.localTrack = none
  stopped : s.stopped = true → s.peerConnection = none
  fresh : ∀ id, s.called ≤ id → s.calls id = none

variable {s : State} {id id' : CallId} {call : Call} {next : Option Call} {r : Replacement} {method : Method}
  {tracks : TrackId → Track} {succeeded : Bool} {ids stream : List TrackId} {localTrack : Option TrackId}
  {connection : ConnectionId}

@[simp] theorem setCall_self (s : State) (id : CallId) (call : Option Call) : (setCall s id call).calls id = call := by
  simp [setCall]

theorem setCall_other (call : Option Call) (h : id' ≠ id) :
    (setCall s id call).calls id' = s.calls id' := by
  simp [setCall, h]

theorem setCall_calls {call : Option Call} {call' : Call} (h : (setCall s id call).calls id' = some call') :
    (id' = id ∧ call = some call') ∨ (id' ≠ id ∧ s.calls id' = some call') := by
  by_cases heq : id' = id
  · subst heq
    rw [setCall_self] at h
    exact Or.inl ⟨rfl, h⟩
  · rw [setCall_other call heq] at h
    exact Or.inr ⟨heq, h⟩

theorem running_stopTracks {t : TrackId}
    (h : ((stopTracks s ids).tracks t).running = true) : t ∉ ids ∧ (s.tracks t).running = true := by
  unfold stopTracks at h
  dsimp only at h
  split at h
  · cases h
  · rename_i hmem
    exact ⟨hmem, h⟩

theorem running_setEnabled {t t' : TrackId} {enabled : Bool} :
    ((setEnabled s t enabled).tracks t').running = (s.tracks t').running := by
  by_cases heq : t' = t
  · subst heq
    simp [setEnabled]
  · simp [setEnabled, heq]

theorem owned_initial : Owned initial where
  running := nofun
  local_acquired := nofun
  stream_acquired := nofun
  sound := nofun
  disconnected := fun _ => rfl
  stopped := nofun
  fresh := fun _ _ => rfl

theorem Owned.setEnabled (h : Owned s) (t : TrackId) (enabled : Bool) : Owned (setEnabled s t enabled) :=
  { h with running := fun t' hrunning => h.running t' (running_setEnabled ▸ hrunning) }

theorem Owned.enableLocalTrack (h : Owned s) : Owned (enableLocalTrack s) := by
  unfold DirectAudioTransport.enableLocalTrack
  split
  · exact h
  · exact h.setEnabled _ true

theorem Owned.shutDown (h : Owned s) : Owned (shutDown s) where
  running := by
    intro t hrunning
    obtain ⟨hstopped, hrunning⟩ := running_stopTracks hrunning
    rcases h.running t hrunning with hlocal | hcall
    · exact absurd (by rw [hlocal]; exact List.mem_singleton.2 rfl) hstopped
    · exact Or.inr hcall
  local_acquired := nofun
  stream_acquired := h.stream_acquired
  sound := h.sound
  disconnected := fun _ => rfl
  stopped := fun _ => rfl
  fresh := h.fresh

/-- A new call that holds no track. -/
theorem Owned.called (h : Owned s) (hstream : call.stream = [])
    (hsound : call.phase.Sound) : Owned { setCall s s.called (some call) with called := s.called + 1 } where
  running := by
    intro t hrunning
    rcases h.running t hrunning with hlocal | ⟨id, held, hid, ht⟩
    · exact Or.inl hlocal
    · have hne : id ≠ s.called := fun heq => by
        rw [h.fresh id (Nat.le_of_eq heq.symm)] at hid
        cases hid
      exact Or.inr ⟨id, held, (setCall_other _ hne).trans hid, ht⟩
  local_acquired := h.local_acquired
  stream_acquired := by
    intro id held hid t ht
    rcases setCall_calls hid with ⟨-, hcall⟩ | ⟨-, hid⟩
    · cases hcall
      rw [hstream] at ht
      cases ht
    · exact h.stream_acquired id held hid t ht
  sound := by
    intro id held hid
    rcases setCall_calls hid with ⟨-, hcall⟩ | ⟨-, hid⟩
    · cases hcall
      exact hsound
    · exact h.sound id held hid
  disconnected := h.disconnected
  stopped := h.stopped
  fresh := by
    intro id hid
    have hlt : s.called < id := hid
    exact (setCall_other _ (Nat.ne_of_gt hlt)).trans (h.fresh id (Nat.le_of_lt hlt))

theorem Owned.replaceMicrophone (h : Owned s) (method : Method) (deviceId : String) :
    Owned (replaceMicrophone method deviceId s) := by
  have hcalled := @Owned.called s ⟨method, .acquiring ⟨s.lifecycleGeneration, s.microphoneReplacementGeneration + 1,
    s.peerConnection⟩ deviceId⟩ h rfl trivial
  exact { hcalled with }

theorem Owned.setMicrophoneEnabled (h : Owned s) (method : Method) (enabled : Bool) :
    Owned (setMicrophoneEnabled method enabled s) := by
  have hset : Owned { s with lastSetting := some enabled } := { h with }
  unfold DirectAudioTransport.setMicrophoneEnabled
  dsimp only
  split
  · split
    · exact hset.replaceMicrophone method s.microphoneDeviceId
    · exact hset.setEnabled _ true
  · split
    · exact hset
    · exact hset.setEnabled _ false

theorem Owned.connect (h : Owned s) (deviceId : String) : Owned (connect deviceId s) :=
  { h.shutDown with
    disconnected := nofun
    stopped := nofun }

theorem Owned.start (h : Owned s) (offers microphoneEnabled : Bool) (deviceId : String) :
    Owned (start offers microphoneEnabled deviceId s) := by
  have hconnect := h.connect deviceId
  unfold DirectAudioTransport.start
  dsimp only
  split
  · exact hconnect.setMicrophoneEnabled _ true
  · split
    · exact hconnect.called rfl trivial
    · exact hconnect

/-- A call goes on, and every track that it lets go of is stopped or the transport's. -/
theorem Owned.advanced (h : Owned s) (hid : s.calls id = some call)
    (htracks : ∀ t, (tracks t).running = true → (s.tracks t).running = true)
    (hheld : ∀ t ∈ call.stream, (tracks t).running = true → s.localTrack = some t ∨ ∃ call', next = some call' ∧ t ∈ call'.stream)
    (hnext : ∀ call', next = some call' → (∀ t ∈ call'.stream, t < s.acquired) ∧ call'.phase.Sound) :
    Owned { setCall s id next with tracks := tracks } where
  running := by
    intro t hrunning
    rcases h.running t (htracks t hrunning) with hlocal | ⟨id', held, hid', ht⟩
    · exact Or.inl hlocal
    · by_cases heq : id' = id
      · subst heq
        rw [hid] at hid'
        cases hid'
        rcases hheld t ht hrunning with hlocal | ⟨call', hcall', ht'⟩
        · exact Or.inl hlocal
        · exact Or.inr ⟨id', call', (setCall_self s id' next).trans hcall', ht'⟩
      · exact Or.inr ⟨id', held, (setCall_other next heq).trans hid', ht⟩
  local_acquired := h.local_acquired
  stream_acquired := by
    intro id' held hid' t ht
    rcases setCall_calls hid' with ⟨-, hcall⟩ | ⟨-, hid'⟩
    · exact (hnext held hcall).1 t ht
    · exact h.stream_acquired id' held hid' t ht
  sound := by
    intro id' held hid'
    rcases setCall_calls hid' with ⟨-, hcall⟩ | ⟨-, hid'⟩
    · exact (hnext held hcall).2
    · exact h.sound id' held hid'
  disconnected := h.disconnected
  stopped := h.stopped
  fresh := by
    intro id' hid'
    have hne : id' ≠ id := fun heq => by
      rw [h.fresh id (heq ▸ hid')] at hid
      cases hid
    exact (setCall_other next hne).trans (h.fresh id' hid')

/-- A call lets go of its tracks, which are stopped. -/
theorem Owned.released (h : Owned s) (hid : s.calls id = some call)
    (hids : ∀ t ∈ call.stream, t ∈ ids ∨ s.localTrack = some t)
    (hnext : ∀ call', next = some call' → call'.stream = [] ∧ call'.replacement = none) :
    Owned (setCall (stopTracks s ids) id next) := by
  refine @Owned.advanced s id call next (stopTracks s ids).tracks h hid (fun t hrunning => (running_stopTracks hrunning).2) ?_ ?_
  · intro t ht hrunning
    exact (hids t ht).elim (fun hmem => absurd hmem (running_stopTracks hrunning).1) Or.inl
  · intro call' hcall'
    obtain ⟨hstream, hreplacement⟩ := hnext call' hcall'
    refine ⟨by rw [hstream]; exact nofun, ?_⟩
    obtain ⟨method, phase⟩ := call'
    cases phase with
    | replacing r nextTrack stream => cases hreplacement
    | replaced r nextTrack stream succeeded => cases hreplacement
    | _ => trivial

theorem stopTracks_nil (s : State) : stopTracks s [] = s := by
  simp [stopTracks]

/-- A call that holds no track goes on, and takes none. -/
theorem Owned.moved (h : Owned s) (hid : s.calls id = some call) (hstream : call.stream = [])
    (hnext : ∀ call', next = some call' → call'.stream = [] ∧ call'.replacement = none) : Owned (setCall s id next) := by
  have hreleased := @Owned.released s id call next [] h hid (by rw [hstream]; exact nofun) hnext
  rwa [stopTracks_nil] at hreleased

theorem Owned.leave (h : Owned s) (hid : s.calls id = some call) (method : Method)
    (hstream : ∀ t ∈ call.stream, t ∈ stream ∨ s.localTrack = some t) (succeeded : Bool) :
    Owned (DirectAudioTransport.leave s id method stream succeeded) := by
  refine h.released hid hstream ?_
  rintro _ ⟨⟩
  exact ⟨rfl, rfl⟩

theorem Owned.mediaSettles (h : Owned s) (id : CallId) (media : Option Nat) : Owned (mediaSettles s id media) := by
  unfold DirectAudioTransport.mediaSettles
  split
  · rename_i method r deviceId hid
    split
    · refine @Owned.advanced s _ _ _ s.tracks h hid (fun _ hrunning => hrunning) nofun ?_
      rintro _ ⟨⟩
      exact ⟨nofun, trivial⟩
    · rename_i n
      have hmem : ∀ t, t ∈ List.range' s.acquired n ↔ s.acquired ≤ t ∧ t < s.acquired + n := fun t => by
        rw [List.mem_range'_1]
      dsimp only
      refine
        { running := ?_
          local_acquired := fun t ht => Nat.lt_of_lt_of_le (h.local_acquired t ht) (Nat.le_add_right _ _)
          stream_acquired := ?_
          sound := ?_
          disconnected := h.disconnected
          stopped := h.stopped
          fresh := ?_ }
      · intro t hrunning
        dsimp only at hrunning
        by_cases ht : t ∈ List.range' s.acquired n
        · exact Or.inr ⟨id, _, setCall_self s id _, ht⟩
        · rw [if_neg ht] at hrunning
          rcases h.running t hrunning with hlocal | ⟨id', held, hid', hheld⟩
          · exact Or.inl hlocal
          · have hne : id' ≠ id := fun heq => by
              rw [heq, hid] at hid'
              cases hid'
              cases hheld
            exact Or.inr ⟨id', held, (setCall_other _ hne).trans hid', hheld⟩
      · intro id' held hid' t ht
        rcases setCall_calls hid' with ⟨-, hcall⟩ | ⟨-, hid'⟩
        · cases hcall
          exact ((hmem t).1 ht).2
        · exact Nat.lt_of_lt_of_le (h.stream_acquired id' held hid' t ht) (Nat.le_add_right _ _)
      · intro id' held hid'
        rcases setCall_calls hid' with ⟨-, hcall⟩ | ⟨-, hid'⟩
        · cases hcall
          trivial
        · exact h.sound id' held hid'
      · intro id' hid'
        have hne : id' ≠ id := fun heq => by
          rw [h.fresh id (heq ▸ hid')] at hid
          cases hid
        exact (setCall_other _ hne).trans (h.fresh id' hid')
  · exact h

theorem Owned.trackSettles (h : Owned s) (connection : ConnectionId) (succeeded : Bool) :
    Owned (trackSettles s connection succeeded) := by
  unfold DirectAudioTransport.trackSettles
  split
  · exact h
  · rename_i id pending hpending
    split
    · rename_i method r nextTrack stream hid
      have hadvanced : Owned { setCall s id (some ⟨method, .replaced r nextTrack stream succeeded⟩) with tracks := s.tracks } := by
        refine h.advanced hid (fun _ hrunning => hrunning) (fun t ht _ => Or.inr ⟨_, rfl, ht⟩) ?_
        rintro _ ⟨⟩
        have hacquired := h.stream_acquired id _ hid
        have hsound := h.sound id _ hid
        exact ⟨hacquired, hsound⟩
      exact { hadvanced with }
    · exact h

theorem Owned.afterReplacement (h : Owned s) (hid : s.calls id = some ⟨method, .returned succeeded⟩)
    (succeeded' : Bool) :
    Owned (afterReplacement s id method succeeded') := by
  have hid' : (DirectAudioTransport.enableLocalTrack s).calls id = some ⟨method, .returned succeeded⟩ := by
    unfold DirectAudioTransport.enableLocalTrack
    split
    · exact hid
    · exact hid
  unfold DirectAudioTransport.afterReplacement
  split
  · cases method with
    | switchMicrophone => exact h.moved hid rfl nofun
    | setMicrophoneEnabled => exact h.enableLocalTrack.moved hid' rfl nofun
    | start connection offers =>
      refine h.enableLocalTrack.moved hid' rfl ?_
      rintro _ ⟨⟩
      exact ⟨rfl, rfl⟩
  · exact h.moved hid rfl nofun

/-- The track that was put on the sender becomes the transport's. -/
theorem Owned.committed (h : Owned s) {nextTrack : TrackId}
    (hid : s.calls id = some ⟨method, .replaced r nextTrack stream true⟩) (hcurrent : Current s r) :
    Owned (DirectAudioTransport.leave { stopTracks s s.localTrack.toList with localTrack := some nextTrack } id method
      (stream.filter (· ≠ nextTrack)) true) := by
  obtain ⟨hnext, hconnected⟩ := h.sound id _ hid
  have hheld : Owned { stopTracks s s.localTrack.toList with localTrack := some nextTrack } :=
    { stream_acquired := h.stream_acquired
      sound := h.sound
      stopped := h.stopped
      fresh := h.fresh
      running := by
        intro t hrunning
        obtain ⟨hstopped, hrunning⟩ := running_stopTracks hrunning
        rcases h.running t hrunning with hlocal | hcall
        · exact absurd (by rw [hlocal]; exact List.mem_singleton.2 rfl) hstopped
        · exact Or.inr hcall
      local_acquired := by
        rintro t ⟨⟩
        exact h.stream_acquired id _ hid nextTrack hnext
      disconnected := fun hnone => absurd (hcurrent.2.2.2.symm.trans hnone) hconnected }
  refine @Owned.leave _ id ⟨method, .replaced r nextTrack stream true⟩ _ hheld hid method ?_ true
  intro t ht
  by_cases heq : t = nextTrack
  · exact Or.inr (congrArg some heq.symm)
  · exact Or.inl (List.mem_filter.2 ⟨ht, decide_eq_true heq⟩)

theorem Owned.resume (h : Owned s) (id : CallId) : Owned (resume s id) := by
  unfold DirectAudioTransport.resume
  split
  · rename_i method r media hid
    split
    · exact h.leave hid method nofun false
    · exact h.leave hid method nofun false
    · rename_i nextTrack others
      split
      · split
        · exact h.leave hid method (fun t ht => Or.inl ht) false
        · rename_i connection hconnection
          have hadvanced : Owned { setCall s id (some ⟨method, .replacing r nextTrack (nextTrack :: others)⟩) with
              tracks := s.tracks } := by
            refine h.advanced hid (fun _ hrunning => hrunning) (fun t ht _ => Or.inr ⟨_, rfl, ht⟩) ?_
            rintro _ ⟨⟩
            have hacquired := h.stream_acquired id _ hid
            refine ⟨hacquired, List.mem_cons_self, ?_⟩
            rw [hconnection]
            exact Option.some_ne_none connection
          exact { hadvanced with }
      · exact h.leave hid method (fun t ht => Or.inl ht) true
  · rename_i method r nextTrack stream succeeded hid
    split
    · rename_i hsucceeded
      subst hsucceeded
      split
      · rename_i hcurrent
        exact h.committed hid hcurrent
      · exact h.leave hid method (fun t ht => Or.inl ht) true
    · exact h.leave hid method (fun t ht => Or.inl ht) false
  · rename_i method succeeded hid
    exact h.afterReplacement hid succeeded
  · rename_i connection offers hid
    split
    · refine h.moved hid rfl ?_
      rintro _ ⟨⟩
      exact ⟨rfl, rfl⟩
    · exact h.moved hid rfl nofun
  · exact h

theorem Owned.offerSettles (h : Owned s) (id : CallId) (succeeded : Bool) : Owned (offerSettles s id succeeded) := by
  unfold DirectAudioTransport.offerSettles
  split
  · rename_i connection offers hid
    split
    · refine h.moved hid rfl ?_
      rintro _ ⟨⟩
      exact ⟨rfl, rfl⟩
    · exact h.moved hid rfl nofun
  · rename_i method hid
    exact h.moved hid rfl nofun
  · exact h

theorem Owned.step (h : Owned s) (a : Action) : Owned (step s a) := by
  cases a with
  | start offers microphoneEnabled deviceId => exact h.start offers microphoneEnabled deviceId
  | setMicrophoneEnabled enabled => exact h.setMicrophoneEnabled _ enabled
  | switchMicrophone deviceId =>
    have hset : Owned { s with microphoneDeviceId := deviceId } := { h with }
    show Owned (DirectAudioTransport.switchMicrophone deviceId s)
    unfold DirectAudioTransport.switchMicrophone
    dsimp only
    split
    · exact hset.replaceMicrophone _ deviceId
    · exact hset
  | stop => exact h.shutDown
  | fail =>
    show Owned (DirectAudioTransport.fail s)
    unfold DirectAudioTransport.fail
    split
    · exact h
    · exact h.shutDown
  | mediaSettles id media => exact h.mediaSettles id media
  | trackSettles connection succeeded => exact h.trackSettles connection succeeded
  | offerSettles id succeeded => exact h.offerSettles id succeeded
  | resume id => exact h.resume id

theorem owned_run (actions : List Action) : Owned (run actions) :=
  runCommands_kept (fun _ a h => h.step a) owned_initial

/-- In every run, when no call is in progress, only the track of the transport runs; after `stop` and `fail` none does. -/
theorem running_track (actions : List Action) (hquiet : Quiet (run actions)) (t : TrackId)
    (hrunning : ((run actions).tracks t).running = true) :
    (run actions).localTrack = some t ∧ (run actions).stopped = false := by
  have howned := owned_run actions
  rcases howned.running t hrunning with hlocal | ⟨id, call, hid, -⟩
  · refine ⟨hlocal, ?_⟩
    cases hstopped : (run actions).stopped with
    | false => rfl
    | true =>
      rw [howned.disconnected (howned.stopped hstopped)] at hlocal
      cases hlocal
  · rw [hquiet id] at hid
    cases hid

/-! ### The order of replacements -/

/-- Replacements have generations of their own, and the last one is the last that its sender waits for. -/
structure Ordered (s : State) : Prop where
  generation_le : ∀ id call r, s.calls id = some call → call.replacement = some r →
    r.replacementGeneration ≤ s.microphoneReplacementGeneration
  unique : ∀ id id' call call' r r', s.calls id = some call → s.calls id' = some call' → call.replacement = some r →
    call'.replacement = some r' → r.replacementGeneration = r'.replacementGeneration → id = id'
  pending : ∀ connection, ∀ id ∈ (s.senders connection).pending, ∃ method r nextTrack stream,
    s.calls id = some ⟨method, .replacing r nextTrack stream⟩ ∧ r.peerConnection = some connection
  nodup : ∀ connection, (s.senders connection).pending.Nodup
  waiting : ∀ id method r nextTrack stream connection, s.calls id = some ⟨method, .replacing r nextTrack stream⟩ →
    Current s r → r.peerConnection = some connection → (s.senders connection).pending.getLast? = some id
  settled : ∀ id method r nextTrack stream succeeded connection,
    s.calls id = some ⟨method, .replaced r nextTrack stream succeeded⟩ → Current s r → r.peerConnection = some connection →
      (s.senders connection).pending = [] ∧ (succeeded = true → (s.senders connection).track = some nextTrack)

theorem ordered_initial : Ordered initial where
  generation_le := fun _ _ _ hid => absurd hid (Option.some_ne_none _).symm
  unique := fun _ _ _ _ _ _ hid => absurd hid (Option.some_ne_none _).symm
  pending := fun _ _ hmem => absurd hmem List.not_mem_nil
  nodup := fun _ => List.nodup_nil
  waiting := fun _ _ _ _ _ _ hid => absurd hid (Option.some_ne_none _).symm
  settled := fun _ _ _ _ _ _ _ hid => absurd hid (Option.some_ne_none _).symm

/-- Replacements of earlier generations are superseded. -/
theorem Ordered.superseded {s' : State} (h : Ordered s)
    (hgeneration : s.microphoneReplacementGeneration < s'.microphoneReplacementGeneration)
    (hid : s.calls id = some call) (hr : call.replacement = some r) : ¬ Current s' r := by
  intro hcurrent
  have hle := h.generation_le id call r hid hr
  have heq := hcurrent.2.2.1
  omega

theorem Ordered.shutDown (h : Ordered s) : Ordered (shutDown s) := by
  have hgeneration : s.microphoneReplacementGeneration < (DirectAudioTransport.shutDown s).microphoneReplacementGeneration :=
    Nat.lt_succ_self _
  exact
    { generation_le := fun id call r hid hr => Nat.le_succ_of_le (h.generation_le id call r hid hr)
      unique := h.unique
      pending := h.pending
      nodup := h.nodup
      waiting := fun id _ r _ _ _ hid hcurrent => absurd hcurrent (h.superseded hgeneration hid rfl)
      settled := fun id _ r _ _ _ _ hid hcurrent => absurd hcurrent (h.superseded hgeneration hid rfl) }

theorem pending_connect (s : State) (deviceId : String) (connection : ConnectionId) :
    ((connect deviceId s).senders connection).pending =
      if connection = s.connections then [] else (s.senders connection).pending := by
  show (Function.update s.senders s.connections ⟨none, []⟩ connection).pending = _
  by_cases heq : connection = s.connections
  · subst heq
    simp
  · simp [heq]

theorem Ordered.connect (h : Ordered s) (deviceId : String) : Ordered (connect deviceId s) := by
  have hgeneration : s.microphoneReplacementGeneration <
      (DirectAudioTransport.connect deviceId s).microphoneReplacementGeneration := Nat.lt_succ_self _
  refine
    { generation_le := fun id call r hid hr => Nat.le_succ_of_le (h.generation_le id call r hid hr)
      unique := h.unique
      pending := ?_
      nodup := ?_
      waiting := fun id _ r _ _ _ hid hcurrent => absurd hcurrent (h.superseded hgeneration hid rfl)
      settled := fun id _ r _ _ _ _ hid hcurrent => absurd hcurrent (h.superseded hgeneration hid rfl) }
  · intro connection id hid
    rw [pending_connect] at hid
    split at hid
    · cases hid
    · exact h.pending connection id hid
  · intro connection
    rw [pending_connect]
    split
    · exact List.nodup_nil
    · exact h.nodup connection

theorem Ordered.setEnabled (h : Ordered s) (t : TrackId) (enabled : Bool) : Ordered (setEnabled s t enabled) :=
  { h with }

theorem Ordered.enableLocalTrack (h : Ordered s) : Ordered (enableLocalTrack s) := by
  unfold DirectAudioTransport.enableLocalTrack
  split
  · exact h
  · exact h.setEnabled _ true

/-- A call goes on with the replacement that it had, or with none, and waits for no sender; the local track and the tracks
may change. -/
theorem Ordered.moved (h : Ordered s) {acquired : Nat} (hpending : ∀ connection, id ∉ (s.senders connection).pending)
    (hnext : ∀ call' r, next = some call' → call'.replacement = some r →
      ∃ call, s.calls id = some call ∧ call.replacement = some r)
    (hphase : ∀ call', next = some call' → (∀ r nextTrack stream, call'.phase ≠ .replacing r nextTrack stream) ∧
      ∀ r nextTrack stream succeeded, call'.phase ≠ .replaced r nextTrack stream succeeded) :
    Ordered { setCall s id next with localTrack := localTrack, tracks := tracks, acquired := acquired } := by
  have hbefore : ∀ id' call' r, (setCall s id next).calls id' = some call' → call'.replacement = some r →
      ∃ call, s.calls id' = some call ∧ call.replacement = some r := by
    intro id' call' r hid' hr
    rcases setCall_calls hid' with ⟨rfl, hcall⟩ | ⟨-, hid'⟩
    · exact hnext call' r hcall hr
    · exact ⟨call', hid', hr⟩
  exact
    { generation_le := by
        intro id' call' r hid' hr
        obtain ⟨call, hcall, hr⟩ := hbefore id' call' r hid' hr
        exact h.generation_le id' call r hcall hr
      unique := by
        intro id₁ id₂ call₁ call₂ r₁ r₂ hid₁ hid₂ hr₁ hr₂ hgeneration
        obtain ⟨call₁, hid₁, hr₁⟩ := hbefore id₁ call₁ r₁ hid₁ hr₁
        obtain ⟨call₂, hid₂, hr₂⟩ := hbefore id₂ call₂ r₂ hid₂ hr₂
        exact h.unique id₁ id₂ call₁ call₂ r₁ r₂ hid₁ hid₂ hr₁ hr₂ hgeneration
      pending := by
        intro connection id' hmem
        obtain ⟨method, r, nextTrack, stream, hid', hconnection⟩ := h.pending connection id' hmem
        have hne : id' ≠ id := fun heq => hpending connection (heq ▸ hmem)
        exact ⟨method, r, nextTrack, stream, (setCall_other next hne).trans hid', hconnection⟩
      nodup := h.nodup
      waiting := by
        intro id' method r nextTrack stream connection hid' hcurrent hconnection
        rcases setCall_calls hid' with ⟨-, hcall⟩ | ⟨-, hid'⟩
        · exact absurd rfl ((hphase _ hcall).1 r nextTrack stream)
        · exact h.waiting id' method r nextTrack stream connection hid' hcurrent hconnection
      settled := by
        intro id' method r nextTrack stream succeeded connection hid' hcurrent hconnection
        rcases setCall_calls hid' with ⟨-, hcall⟩ | ⟨-, hid'⟩
        · exact absurd rfl ((hphase _ hcall).2 r nextTrack stream succeeded)
        · exact h.settled id' method r nextTrack stream succeeded connection hid' hcurrent hconnection }

/-- Only calls that await `replaceTrack` wait for a sender. -/
theorem Ordered.not_pending (h : Ordered s) (hid : s.calls id = some call)
    (hphase : ∀ r nextTrack stream, call.phase ≠ .replacing r nextTrack stream) (connection : ConnectionId) :
    id ∉ (s.senders connection).pending := by
  intro hmem
  obtain ⟨method, r, nextTrack, stream, hid', -⟩ := h.pending connection id hmem
  rw [hid] at hid'
  cases hid'
  exact hphase r nextTrack stream rfl

theorem Ordered.replaceMicrophone (h : Ordered s) (howned : Owned s) (method : Method) (deviceId : String) :
    Ordered (replaceMicrophone method deviceId s) := by
  have hgeneration : s.microphoneReplacementGeneration <
      (DirectAudioTransport.replaceMicrophone method deviceId s).microphoneReplacementGeneration := Nat.lt_succ_self _
  refine
    { generation_le := ?_
      unique := ?_
      pending := ?_
      nodup := h.nodup
      waiting := ?_
      settled := ?_ }
  · intro id call r hid hr
    rcases setCall_calls hid with ⟨-, hcall⟩ | ⟨-, hid⟩
    · cases hcall
      cases hr
      exact Nat.le_refl _
    · exact Nat.le_succ_of_le (h.generation_le id call r hid hr)
  · intro id id' call call' r r' hid hid' hr hr' hgeneration
    rcases setCall_calls hid with ⟨rfl, hcall⟩ | ⟨-, hid⟩
    · rcases setCall_calls hid' with ⟨rfl, -⟩ | ⟨-, hid'⟩
      · rfl
      · cases hcall
        cases hr
        have hle := h.generation_le id' call' r' hid' hr'
        exact absurd (hgeneration ▸ hle) (Nat.not_succ_le_self _)
    · rcases setCall_calls hid' with ⟨rfl, hcall'⟩ | ⟨-, hid'⟩
      · cases hcall'
        cases hr'
        have hle := h.generation_le id call r hid hr
        exact absurd (hgeneration ▸ hle) (Nat.not_succ_le_self _)
      · exact h.unique id id' call call' r r' hid hid' hr hr' hgeneration
  · intro connection id hmem
    obtain ⟨method', r, nextTrack, stream, hid, hconnection⟩ := h.pending connection id hmem
    have hne : id ≠ s.called := fun heq => by
      rw [howned.fresh id (Nat.le_of_eq heq.symm)] at hid
      cases hid
    exact ⟨method', r, nextTrack, stream, (setCall_other _ hne).trans hid, hconnection⟩
  · intro id method' r nextTrack stream connection hid hcurrent
    rcases setCall_calls hid with ⟨-, hcall⟩ | ⟨-, hid⟩
    · cases hcall
    · exact absurd hcurrent (h.superseded hgeneration hid rfl)
  · intro id method' r nextTrack stream succeeded connection hid hcurrent
    rcases setCall_calls hid with ⟨-, hcall⟩ | ⟨-, hid⟩
    · cases hcall
    · exact absurd hcurrent (h.superseded hgeneration hid rfl)

theorem Ordered.setMicrophoneEnabled (h : Ordered s) (howned : Owned s) (method : Method) (enabled : Bool) :
    Ordered (setMicrophoneEnabled method enabled s) := by
  have hset : Ordered { s with lastSetting := some enabled } := { h with }
  have hsetOwned : Owned { s with lastSetting := some enabled } := { howned with }
  unfold DirectAudioTransport.setMicrophoneEnabled
  dsimp only
  split
  · split
    · exact hset.replaceMicrophone hsetOwned method s.microphoneDeviceId
    · exact hset.setEnabled _ true
  · split
    · exact hset
    · exact hset.setEnabled _ false

theorem Ordered.start (h : Ordered s) (howned : Owned s) (offers microphoneEnabled : Bool) (deviceId : String) :
    Ordered (start offers microphoneEnabled deviceId s) := by
  have hconnect := h.connect deviceId
  have hconnectOwned := howned.connect deviceId
  unfold DirectAudioTransport.start
  dsimp only
  split
  · exact hconnect.setMicrophoneEnabled hconnectOwned _ true
  · split
    · have hfresh := hconnectOwned.fresh s.called (Nat.le_refl _)
      have hmoved : Ordered (setCall (DirectAudioTransport.connect deviceId s) s.called
          (some ⟨.start s.connections offers, .offering⟩)) := by
        refine hconnect.moved ?_ ?_ ?_
        · intro connection hmem
          obtain ⟨method, r, nextTrack, stream, hid, -⟩ := hconnect.pending connection _ hmem
          rw [hfresh] at hid
          cases hid
        · rintro _ r ⟨⟩ hr
          cases hr
        · rintro _ ⟨⟩
          exact ⟨nofun, nofun⟩
      exact { hmoved with }
    · exact hconnect

/-- A call that waits for no sender lets go of its replacement. -/
theorem Ordered.released (h : Ordered s) (hid : s.calls id = some call)
    (hphase : ∀ r nextTrack stream, call.phase ≠ .replacing r nextTrack stream)
    (hnext : ∀ call', next = some call' → call'.replacement = none) :
    Ordered { setCall s id next with localTrack := localTrack, tracks := tracks } := by
  have hmoved : Ordered { setCall s id next with localTrack := localTrack, tracks := tracks, acquired := s.acquired } := by
    refine h.moved (h.not_pending hid hphase) ?_ ?_
    · intro call' r hcall' hr
      rw [hnext call' hcall'] at hr
      cases hr
    · intro call' hcall'
      have hnone := hnext call' hcall'
      obtain ⟨method, phase⟩ := call'
      constructor
      · rintro r nextTrack stream rfl
        cases hnone
      · rintro r nextTrack stream succeeded rfl
        cases hnone
  exact hmoved

theorem Ordered.ended (h : Ordered s) (hid : s.calls id = some call)
    (hphase : ∀ r nextTrack stream, call.phase ≠ .replacing r nextTrack stream) : Ordered (setCall s id none) := by
  refine h.released hid hphase ?_
  exact nofun

theorem Ordered.leave (h : Ordered s) (hid : s.calls id = some call)
    (hphase : ∀ r nextTrack stream, call.phase ≠ .replacing r nextTrack stream) (method : Method)
    (stream : List TrackId) (succeeded : Bool) : Ordered (DirectAudioTransport.leave s id method stream succeeded) := by
  refine h.released hid hphase ?_
  rintro _ ⟨⟩
  rfl

theorem Ordered.mediaSettles (h : Ordered s) (id : CallId) (media : Option Nat) :
    Ordered (mediaSettles s id media) := by
  unfold DirectAudioTransport.mediaSettles
  split
  · rename_i method r deviceId hid
    have hmoved : ∀ media tracks acquired, Ordered { setCall s id (some ⟨method, .acquired r media⟩) with
        localTrack := s.localTrack, tracks := tracks, acquired := acquired } := by
      intro media tracks acquired
      refine h.moved (h.not_pending hid nofun) ?_ ?_
      · rintro _ r' ⟨⟩ hr
        exact ⟨_, hid, hr⟩
      · rintro _ ⟨⟩
        exact ⟨nofun, nofun⟩
    split
    · exact hmoved none s.tracks s.acquired
    · exact hmoved _ _ _
  · exact h

theorem Ordered.afterReplacement (h : Ordered s) (hid : s.calls id = some ⟨method, .returned succeeded⟩)
    (succeeded' : Bool) :
    Ordered (afterReplacement s id method succeeded') := by
  have hid' : (DirectAudioTransport.enableLocalTrack s).calls id = some ⟨method, .returned succeeded⟩ := by
    unfold DirectAudioTransport.enableLocalTrack
    split
    · exact hid
    · exact hid
  unfold DirectAudioTransport.afterReplacement
  split
  · cases method with
    | switchMicrophone => exact h.ended hid nofun
    | setMicrophoneEnabled => exact h.enableLocalTrack.ended hid' nofun
    | start connection offers =>
      refine h.enableLocalTrack.released hid' nofun ?_
      rintro _ ⟨⟩
      rfl
  · exact h.ended hid nofun

theorem Ordered.offerSettles (h : Ordered s) (id : CallId) (succeeded : Bool) :
    Ordered (offerSettles s id succeeded) := by
  unfold DirectAudioTransport.offerSettles
  split
  · rename_i connection offers hid
    split
    · refine h.released hid nofun ?_
      rintro _ ⟨⟩
      rfl
    · exact h.ended hid nofun
  · rename_i method hid
    exact h.ended hid nofun
  · exact h

/-- No two calls are the current replacement. -/
theorem Ordered.current_unique (h : Ordered s) {call' : Call} {r' : Replacement} (hid : s.calls id = some call)
    (hid' : s.calls id' = some call') (hr : call.replacement = some r) (hr' : call'.replacement = some r')
    (hcurrent : Current s r) (hcurrent' : Current s r') : id = id' :=
  h.unique id id' call call' r r' hid hid' hr hr' (hcurrent.2.2.1.symm.trans hcurrent'.2.2.1)

/-- A call goes on with the replacement that it had, and the sender of a connection changes. -/
theorem Ordered.kept_replacement (h : Ordered s) {next : Call} (hid : s.calls id = some call)
    (hr : call.replacement = some r) (hnext : next.replacement = some r) :
    (∀ id' call' r', (setCall s id (some next)).calls id' = some call' → call'.replacement = some r' →
      r'.replacementGeneration ≤ s.microphoneReplacementGeneration) ∧
    ∀ id₁ id₂ call₁ call₂ r₁ r₂, (setCall s id (some next)).calls id₁ = some call₁ →
      (setCall s id (some next)).calls id₂ = some call₂ → call₁.replacement = some r₁ → call₂.replacement = some r₂ →
        r₁.replacementGeneration = r₂.replacementGeneration → id₁ = id₂ := by
  have hbefore : ∀ id' call' r', (setCall s id (some next)).calls id' = some call' → call'.replacement = some r' →
      ∃ call, s.calls id' = some call ∧ call.replacement = some r' := by
    intro id' call' r' hid' hr'
    rcases setCall_calls hid' with ⟨rfl, hcall⟩ | ⟨-, hid'⟩
    · cases hcall
      rw [hnext] at hr'
      cases hr'
      exact ⟨call, hid, hr⟩
    · exact ⟨call', hid', hr'⟩
  constructor
  · intro id' call' r' hid' hr'
    obtain ⟨call, hcall, hr'⟩ := hbefore id' call' r' hid' hr'
    exact h.generation_le id' call r' hcall hr'
  · intro id₁ id₂ call₁ call₂ r₁ r₂ hid₁ hid₂ hr₁ hr₂ hgeneration
    obtain ⟨call₁, hid₁, hr₁⟩ := hbefore id₁ call₁ r₁ hid₁ hr₁
    obtain ⟨call₂, hid₂, hr₂⟩ := hbefore id₂ call₂ r₂ hid₂ hr₂
    exact h.unique id₁ id₂ call₁ call₂ r₁ r₂ hid₁ hid₂ hr₁ hr₂ hgeneration

theorem Ordered.trackSettles (h : Ordered s) (connection : ConnectionId) (succeeded : Bool) :
    Ordered (trackSettles s connection succeeded) := by
  unfold DirectAudioTransport.trackSettles
  split
  · exact h
  · rename_i id rest hpending
    split
    · rename_i method r nextTrack stream hid
      obtain ⟨_, _, _, _, hid', hconnection⟩ := h.pending connection id (by rw [hpending]; exact List.mem_cons_self)
      rw [hid] at hid'
      cases hid'
      have hnodup : id ∉ rest ∧ rest.Nodup := List.nodup_cons.1 (hpending ▸ h.nodup connection)
      obtain ⟨hgeneration, hunique⟩ :=
        @Ordered.kept_replacement s id _ _ h ⟨method, .replaced r nextTrack stream succeeded⟩ hid rfl rfl
      dsimp only
      refine
        { generation_le := hgeneration
          unique := hunique
          pending := ?_
          nodup := ?_
          waiting := ?_
          settled := ?_ }
      · intro connection' id' hmem
        have hother : id' ≠ id ∧ id' ∈ (s.senders connection').pending := by
          by_cases heq : connection' = connection
          · subst heq
            simp only [Function.update_self] at hmem
            exact ⟨fun heq => hnodup.1 (heq ▸ hmem), by rw [hpending]; exact List.mem_cons_of_mem id hmem⟩
          · simp only [Function.update_of_ne heq] at hmem
            refine ⟨?_, hmem⟩
            rintro rfl
            obtain ⟨_, _, _, _, hid', hconnection'⟩ := h.pending connection' id' hmem
            rw [hid] at hid'
            cases hid'
            rw [hconnection] at hconnection'
            cases hconnection'
            exact heq rfl
        obtain ⟨method', r', nextTrack', stream', hid', hconnection'⟩ := h.pending connection' id' hother.2
        exact ⟨method', r', nextTrack', stream', (setCall_other _ hother.1).trans hid', hconnection'⟩
      · intro connection'
        by_cases heq : connection' = connection
        · subst heq
          simp only [Function.update_self]
          exact hnodup.2
        · simp only [Function.update_of_ne heq]
          exact h.nodup connection'
      · intro id' method' r' nextTrack' stream' connection' hid' hcurrent hconnection'
        rcases setCall_calls hid' with ⟨-, hcall⟩ | ⟨hne, hid'⟩
        · cases hcall
        · have hlast := h.waiting id' method' r' nextTrack' stream' connection' hid' hcurrent hconnection'
          by_cases heq : connection' = connection
          · subst heq
            simp only [Function.update_self]
            rw [hpending] at hlast
            cases rest with
            | nil =>
              cases hlast
              exact absurd rfl hne
            | cons first rest => exact (List.getLast?_cons_cons ..).symm.trans hlast
          · simp only [Function.update_of_ne heq]
            exact hlast
      · intro id' method' r' nextTrack' stream' succeeded' connection' hid' hcurrent hconnection'
        rcases setCall_calls hid' with ⟨rfl, hcall⟩ | ⟨-, hid'⟩
        · cases hcall
          have hlast := h.waiting id' method r nextTrack stream connection' hid hcurrent hconnection'
          rw [hconnection] at hconnection'
          cases hconnection'
          simp only [Function.update_self]
          rw [hpending] at hlast
          cases rest with
          | nil => exact ⟨rfl, fun hsucceeded => by rw [if_pos hsucceeded]⟩
          | cons first rest =>
            rw [List.getLast?_cons_cons] at hlast
            exact absurd (List.mem_of_getLast? hlast) hnodup.1
        · have hsettled := h.settled id' method' r' nextTrack' stream' succeeded' connection' hid' hcurrent hconnection'
          have hne : connection' ≠ connection := by
            rintro rfl
            rw [hpending] at hsettled
            exact absurd hsettled.1 (List.cons_ne_nil _ _)
          simp only [Function.update_of_ne hne]
          exact hsettled
    · exact h

/-- The current replacement waits for its sender. -/
theorem Ordered.queued (h : Ordered s) {media : Option (List TrackId)}
    (hid : s.calls id = some ⟨method, .acquired r media⟩) (hcurrent : Current s r)
    (hconnection : r.peerConnection = some connection) (nextTrack : TrackId) (stream : List TrackId) :
    Ordered { setCall s id (some ⟨method, .replacing r nextTrack stream⟩) with
      senders := Function.update s.senders connection
        { s.senders connection with pending := (s.senders connection).pending ++ [id] } } := by
  have hnot := h.not_pending hid nofun
  obtain ⟨hgeneration, hunique⟩ := @Ordered.kept_replacement s id _ _ h ⟨method, .replacing r nextTrack stream⟩ hid rfl rfl
  have halone : ∀ id' call' r', s.calls id' = some call' → call'.replacement = some r' → Current s r' → id' = id :=
    fun id' call' r' hid' hr' hcurrent' => h.current_unique hid' hid hr' rfl hcurrent' hcurrent
  refine
    { generation_le := hgeneration
      unique := hunique
      pending := ?_
      nodup := ?_
      waiting := ?_
      settled := ?_ }
  · intro connection' id' hmem
    have hold : id' ∈ (s.senders connection').pending → ∃ method' r' nextTrack' stream',
        (setCall s id (some ⟨method, .replacing r nextTrack stream⟩)).calls id' =
          some ⟨method', .replacing r' nextTrack' stream'⟩ ∧ r'.peerConnection = some connection' := by
      intro hmem
      have hne : id' ≠ id := fun heq => hnot connection' (heq ▸ hmem)
      rw [setCall_other _ hne]
      exact h.pending connection' id' hmem
    by_cases heq : connection' = connection
    · subst heq
      simp only [Function.update_self] at hmem
      rcases List.mem_append.1 hmem with hmem | hmem
      · exact hold hmem
      · cases List.mem_singleton.1 hmem
        exact ⟨method, r, nextTrack, stream, setCall_self s id _, hconnection⟩
    · simp only [Function.update_of_ne heq] at hmem
      exact hold hmem
  · intro connection'
    by_cases heq : connection' = connection
    · subst heq
      simp only [Function.update_self]
      exact List.nodup_append.2 ⟨h.nodup connection', List.nodup_cons.2 ⟨List.not_mem_nil, List.nodup_nil⟩, fun a ha b hb hab =>
        hnot connection' ((hab.trans (List.mem_singleton.1 hb)) ▸ ha)⟩
    · simp only [Function.update_of_ne heq]
      exact h.nodup connection'
  · intro id' method' r' nextTrack' stream' connection' hid' hcurrent' hconnection'
    rcases setCall_calls hid' with ⟨rfl, hcall⟩ | ⟨hne, hid'⟩
    · cases hcall
      rw [hconnection] at hconnection'
      cases hconnection'
      simp only [Function.update_self]
      exact List.getLast?_concat
    · exact absurd (halone id' _ r' hid' rfl hcurrent') hne
  · intro id' method' r' nextTrack' stream' succeeded' connection' hid' hcurrent' hconnection'
    rcases setCall_calls hid' with ⟨-, hcall⟩ | ⟨hne, hid'⟩
    · cases hcall
    · exact absurd (halone id' _ r' hid' rfl hcurrent') hne

theorem Ordered.resume (h : Ordered s) (id : CallId) : Ordered (resume s id) := by
  unfold DirectAudioTransport.resume
  split
  · rename_i method r media hid
    split
    · exact h.leave hid nofun method [] false
    · exact h.leave hid nofun method [] false
    · rename_i nextTrack others
      split
      · rename_i hcurrent
        split
        · exact h.leave hid nofun method _ false
        · rename_i connection hconnection
          exact h.queued hid hcurrent hconnection nextTrack (nextTrack :: others)
      · exact h.leave hid nofun method _ true
  · rename_i method r nextTrack stream succeeded hid
    split
    · split
      · have hheld : Ordered { stopTracks s s.localTrack.toList with localTrack := some nextTrack } :=
          { generation_le := h.generation_le
            unique := h.unique
            pending := h.pending
            nodup := h.nodup
            waiting := h.waiting
            settled := h.settled }
        exact @Ordered.leave _ id ⟨method, .replaced r nextTrack stream succeeded⟩ hheld hid nofun method _ true
      · exact h.leave hid nofun method stream true
    · exact h.leave hid nofun method stream false
  · rename_i method succeeded hid
    exact h.afterReplacement hid succeeded
  · rename_i connection offers hid
    split
    · refine h.released hid nofun ?_
      rintro _ ⟨⟩
      rfl
    · exact h.ended hid nofun
  · exact h

theorem Ordered.step (h : Ordered s) (howned : Owned s) (a : Action) : Ordered (step s a) := by
  cases a with
  | start offers microphoneEnabled deviceId => exact h.start howned offers microphoneEnabled deviceId
  | setMicrophoneEnabled enabled => exact h.setMicrophoneEnabled howned _ enabled
  | switchMicrophone deviceId =>
    have hset : Ordered { s with microphoneDeviceId := deviceId } := { h with }
    have hsetOwned : Owned { s with microphoneDeviceId := deviceId } := { howned with }
    show Ordered (DirectAudioTransport.switchMicrophone deviceId s)
    unfold DirectAudioTransport.switchMicrophone
    dsimp only
    split
    · exact hset.replaceMicrophone hsetOwned _ deviceId
    · exact hset
  | stop => exact h.shutDown
  | fail =>
    show Ordered (DirectAudioTransport.fail s)
    unfold DirectAudioTransport.fail
    split
    · exact h
    · exact h.shutDown
  | mediaSettles id media => exact h.mediaSettles id media
  | trackSettles connection succeeded => exact h.trackSettles connection succeeded
  | offerSettles id succeeded => exact h.offerSettles id succeeded
  | resume id => exact h.resume id

/-! ### What goes wrong, and what holds otherwise -/

/-- A replacement is in progress that is not superseded. -/
def Replacing (s : State) : Prop := ∃ id call r, s.calls id = some call ∧ call.replacement = some r ∧ Current s r

/-- While the last setting is `false`, a new track becomes the transport's, or the one that it has is enabled. -/
def EnablesMuted (s : State) (id : CallId) : Prop :=
  s.lastSetting = some false ∧
    ((∃ method r nextTrack stream, s.calls id = some ⟨method, .replaced r nextTrack stream true⟩ ∧ Current s r) ∨
      ∃ method, s.calls id = some ⟨method, .returned true⟩ ∧ method ≠ .switchMicrophone ∧ s.localTrack ≠ none)

/-- A current replacement fails although an earlier one left its track on the sender. -/
def Abandons (s : State) (id : CallId) : Prop :=
  (∃ method r, Current s r ∧ (s.calls id = some ⟨method, .acquired r none⟩ ∨ s.calls id = some ⟨method, .acquired r (some [])⟩ ∨
    ∃ nextTrack stream, s.calls id = some ⟨method, .replaced r nextTrack stream false⟩)) ∧ senderTrack s ≠ s.localTrack

/-- A superseded `replaceTrack` succeeds when no replacement is left that would put its own track in place. -/
def Overtakes (s : State) (connection : ConnectionId) : Prop :=
  s.peerConnection = some connection ∧ (s.senders connection).pending ≠ [] ∧ ¬ Replacing s

/-- The steps that do none of this. -/
def Careful (s : State) : Action → Prop
  | .resume id => ¬ EnablesMuted s id ∧ ¬ Abandons s id
  | .trackSettles connection true => ¬ Overtakes s connection
  | _ => True

/-- While muted the local track is disabled, and the sender has it unless a replacement is to follow. -/
structure Kept (s : State) : Prop where
  disabled : s.lastSetting = some false → ∀ t, s.localTrack = some t → (s.tracks t).enabled = false
  synced : senderTrack s = s.localTrack ∨ Replacing s

theorem kept_initial : Kept initial := ⟨nofun, Or.inl rfl⟩

theorem Owned.synced (h : Owned s) (hnone : s.peerConnection = none) : senderTrack s = s.localTrack := by
  rw [h.disconnected hnone, senderTrack, hnone]
  rfl

theorem enabled_stopTracks (s : State) (ids : List TrackId) (t : TrackId) :
    ((stopTracks s ids).tracks t).enabled = (s.tracks t).enabled := by
  unfold stopTracks
  dsimp only
  split
  · rfl
  · rfl

/-- A call goes on; if it is the current replacement, it stays so unless the sender has the local track. -/
theorem Kept.moved (h : Kept s) (htracks : ∀ t, s.localTrack = some t → (tracks t).enabled = (s.tracks t).enabled)
    (hcurrent : ∀ call r, s.calls id = some call → call.replacement = some r → Current s r →
      senderTrack s = s.localTrack ∨ ∃ call', next = some call' ∧ call'.replacement = some r) :
    Kept { setCall s id next with tracks := tracks } where
  disabled := fun hmuted t ht => (htracks t ht).trans (h.disabled hmuted t ht)
  synced := by
    rcases h.synced with hsynced | ⟨id', call, r, hid', hr, hreplacing⟩
    · exact Or.inl hsynced
    · by_cases heq : id' = id
      · subst heq
        rcases hcurrent call r hid' hr hreplacing with hsynced | ⟨call', hcall', hr'⟩
        · exact Or.inl hsynced
        · exact Or.inr ⟨id', call', r, (setCall_self s id' next).trans hcall', hr', hreplacing⟩
      · exact Or.inr ⟨id', call, r, (setCall_other next heq).trans hid', hr, hreplacing⟩

theorem Kept.shutDown (s : State) : Kept (shutDown s) := ⟨nofun, Or.inl rfl⟩

theorem Kept.connect (s : State) (deviceId : String) : Kept (connect deviceId s) := by
  refine ⟨nofun, Or.inl ?_⟩
  show (Function.update s.senders s.connections ⟨none, []⟩ s.connections).track = none
  rw [Function.update_self]

theorem Kept.replaceMicrophone (h : Kept s) (howned : Owned s) (method : Method) (deviceId : String) :
    Kept (replaceMicrophone method deviceId s) where
  disabled := h.disabled
  synced := by
    cases hstopped : s.stopped with
    | true => exact Or.inl (howned.synced (howned.stopped hstopped))
    | false => exact Or.inr ⟨s.called, _, _, setCall_self s s.called _, rfl, hstopped, rfl, rfl, rfl⟩

theorem enabled_setEnabled (s : State) (t : TrackId) (enabled : Bool) :
    ((setEnabled s t enabled).tracks t).enabled = enabled := by
  simp [setEnabled]

theorem Kept.setMicrophoneEnabled (h : Kept s) (howned : Owned s) (method : Method) (enabled : Bool) :
    Kept (setMicrophoneEnabled method enabled s) := by
  unfold DirectAudioTransport.setMicrophoneEnabled
  dsimp only
  split
  · rename_i henabled
    have hset : Kept { s with lastSetting := some enabled } := ⟨by rw [henabled]; exact nofun, h.synced⟩
    have hsetOwned : Owned { s with lastSetting := some enabled } := { howned with }
    split
    · exact hset.replaceMicrophone hsetOwned method s.microphoneDeviceId
    · exact ⟨by rw [henabled]; exact nofun, h.synced⟩
  · split
    · rename_i hlocal
      exact ⟨fun _ t ht => absurd (hlocal.symm.trans ht).symm (Option.some_ne_none t), h.synced⟩
    · rename_i t hlocal
      refine ⟨fun _ t' ht' => ?_, h.synced⟩
      have heq : some t = some t' := hlocal.symm.trans ht'
      cases heq
      exact enabled_setEnabled _ t false

theorem Kept.start (howned : Owned s) (offers microphoneEnabled : Bool) (deviceId : String) :
    Kept (start offers microphoneEnabled deviceId s) := by
  have hconnect := Kept.connect s deviceId
  have hconnectOwned := howned.connect deviceId
  unfold DirectAudioTransport.start
  dsimp only
  split
  · exact hconnect.setMicrophoneEnabled hconnectOwned _ true
  · split
    · have hmoved : Kept { setCall (DirectAudioTransport.connect deviceId s) s.called
          (some ⟨.start s.connections offers, .offering⟩) with tracks := (DirectAudioTransport.connect deviceId s).tracks } := by
        refine hconnect.moved (fun _ _ => rfl) fun call r hid => ?_
        rw [hconnectOwned.fresh s.called (Nat.le_refl _)] at hid
        cases hid
      exact ⟨hmoved.disabled, hmoved.synced⟩
    · exact hconnect

theorem Kept.mediaSettles (h : Kept s) (howned : Owned s) (id : CallId) (media : Option Nat) :
    Kept (mediaSettles s id media) := by
  unfold DirectAudioTransport.mediaSettles
  split
  · rename_i method r deviceId hid
    have hreplacement : ∀ media call r', s.calls id = some call → call.replacement = some r' → Current s r' →
        senderTrack s = s.localTrack ∨ ∃ call', some (⟨method, .acquired r media⟩ : Call) = some call' ∧
          call'.replacement = some r' := by
      intro media call r' hcall hr _
      rw [hid] at hcall
      cases hcall
      exact Or.inr ⟨_, rfl, hr⟩
    split
    · exact @Kept.moved s _ _ s.tracks h (fun _ _ => rfl) (hreplacement none)
    · rename_i n
      have hmoved := @Kept.moved s _ _ (fun t => if t ∈ List.range' s.acquired n then ⟨true, true⟩ else s.tracks t) h
        (fun t ht => ?_) (hreplacement (some (List.range' s.acquired n)))
      · exact ⟨hmoved.disabled, hmoved.synced⟩
      · -- a new track is not the local one
        have hlt := howned.local_acquired t ht
        have hnot : t ∉ List.range' s.acquired n := fun hmem =>
          Nat.not_le_of_lt hlt (List.mem_range'_1.1 hmem).1
        rw [if_neg hnot]
  · exact h

theorem Kept.trackSettles (h : Kept s)
    (hcareful : succeeded = true → ¬ Overtakes s connection) : Kept (trackSettles s connection succeeded) := by
  unfold DirectAudioTransport.trackSettles
  split
  · exact h
  · rename_i id rest hpending
    split
    · rename_i method r nextTrack stream hid
      refine ⟨h.disabled, ?_⟩
      by_cases hreplacing : Replacing s
      · obtain ⟨id', call, r', hid', hr, hcurrent⟩ := hreplacing
        by_cases heq : id' = id
        · subst heq
          rw [hid] at hid'
          cases hid'
          exact Or.inr ⟨id', _, r', setCall_self s id' _, hr, hcurrent⟩
        · exact Or.inr ⟨id', call, r', (setCall_other _ heq).trans hid', hr, hcurrent⟩
      · -- the sender keeps its track, or it is not the one of the transport's connection
        have hsynced := h.synced.resolve_right hreplacing
        have hkept : s.peerConnection = some connection → succeeded = false := by
          intro hconnected
          cases succeeded with
          | false => rfl
          | true =>
            refine absurd ⟨hconnected, ?_, hreplacing⟩ (hcareful rfl)
            rw [hpending]
            exact List.cons_ne_nil id rest
        refine Or.inl (Eq.trans ?_ hsynced)
        unfold senderTrack
        show (s.peerConnection.bind fun connection' => (Function.update s.senders connection _ connection').track) = _
        cases hconnected : s.peerConnection with
        | none => rfl
        | some connection' =>
          show (Function.update s.senders connection _ connection').track = (s.senders connection').track
          by_cases heq : connection' = connection
          · subst heq
            rw [Function.update_self, hkept hconnected]
            rfl
          · rw [Function.update_of_ne heq]
    · exact h

theorem Kept.enableLocalTrack (h : Kept s) (hcareful : s.lastSetting = some false → s.localTrack = none) :
    Kept (enableLocalTrack s) := by
  unfold DirectAudioTransport.enableLocalTrack
  split
  · exact h
  · rename_i t hlocal
    refine ⟨fun hmuted => ?_, h.synced⟩
    rw [hcareful hmuted] at hlocal
    cases hlocal

/-- A call without a replacement goes on. -/
theorem Kept.ended (h : Kept s) (hid : s.calls id = some call) (hreplacement : call.replacement = none)
    (next : Option Call) : Kept (setCall s id next) := by
  have hmoved : Kept { setCall s id next with tracks := s.tracks } := by
    refine h.moved (fun _ _ => rfl) fun call' r hid' hr => ?_
    rw [hid] at hid'
    cases hid'
    rw [hreplacement] at hr
    cases hr
  exact hmoved

theorem Kept.afterReplacement (h : Kept s) (hid : s.calls id = some ⟨method, .returned succeeded⟩)
    (hcareful : ¬ EnablesMuted s id) :
    Kept (afterReplacement s id method succeeded) := by
  have hid' : (DirectAudioTransport.enableLocalTrack s).calls id = some ⟨method, .returned succeeded⟩ := by
    unfold DirectAudioTransport.enableLocalTrack
    split
    · exact hid
    · exact hid
  unfold DirectAudioTransport.afterReplacement
  split
  · rename_i hsucceeded
    subst hsucceeded
    have henabled : method ≠ .switchMicrophone → Kept (DirectAudioTransport.enableLocalTrack s) := by
      intro hmethod
      refine h.enableLocalTrack fun hmuted => ?_
      by_contra hlocal
      exact hcareful ⟨hmuted, Or.inr ⟨method, hid, hmethod, hlocal⟩⟩
    cases method with
    | switchMicrophone => exact h.ended hid rfl none
    | setMicrophoneEnabled => exact (henabled nofun).ended hid' rfl none
    | start connection offers => exact (henabled nofun).ended hid' rfl _
  · exact h.ended hid rfl none

/-- A call lets go of its replacement; if that is current, the sender has the local track. -/
theorem Kept.leave (h : Kept s) (hid : s.calls id = some call) (hr : call.replacement = some r)
    (hcurrent : Current s r → senderTrack s = s.localTrack) (method : Method) (stream : List TrackId)
    (succeeded : Bool) : Kept (DirectAudioTransport.leave s id method stream succeeded) := by
  have hmoved : Kept { setCall s id (some ⟨method, .returned succeeded⟩) with tracks := (stopTracks s stream).tracks } := by
    refine h.moved (fun t _ => enabled_stopTracks s stream t) fun call' r' hid' hr' hcurrent' => ?_
    rw [hid] at hid'
    cases hid'
    rw [hr] at hr'
    cases hr'
    exact Or.inl (hcurrent hcurrent')
  exact hmoved

theorem Kept.resume (h : Kept s) (howned : Owned s) (hordered : Ordered s)
    (hcareful : ¬ EnablesMuted s id ∧ ¬ Abandons s id) : Kept (resume s id) := by
  unfold DirectAudioTransport.resume
  split
  · rename_i method r media hid
    split
    · refine h.leave hid rfl (fun hcurrent => ?_) method [] false
      by_contra hsender
      exact hcareful.2 ⟨⟨method, r, hcurrent, Or.inl hid⟩, hsender⟩
    · refine h.leave hid rfl (fun hcurrent => ?_) method [] false
      by_contra hsender
      exact hcareful.2 ⟨⟨method, r, hcurrent, Or.inr (Or.inl hid)⟩, hsender⟩
    · rename_i nextTrack others
      split
      · rename_i hcurrent
        split
        · rename_i hnone
          exact h.leave hid rfl (fun _ => howned.synced (hcurrent.2.2.2.trans hnone)) method _ false
        · exact ⟨h.disabled, Or.inr ⟨id, _, r, setCall_self s id _, rfl, hcurrent⟩⟩
      · rename_i hsuperseded
        exact h.leave hid rfl (fun hcurrent => absurd hcurrent hsuperseded) method _ true
  · rename_i method r nextTrack stream succeeded hid
    split
    · rename_i hsucceeded
      subst hsucceeded
      split
      · rename_i hcurrent
        have hmuted : s.lastSetting ≠ some false := fun hmuted =>
          hcareful.1 ⟨hmuted, Or.inl ⟨method, r, nextTrack, stream, hid, hcurrent⟩⟩
        refine ⟨fun hlast => absurd hlast hmuted, Or.inl ?_⟩
        obtain ⟨connection, hconnection⟩ := Option.ne_none_iff_exists'.1 (howned.sound id _ hid).2
        have hsettled := hordered.settled id method r nextTrack stream true connection hid hcurrent hconnection
        show (s.peerConnection.bind fun connection => (s.senders connection).track) = some nextTrack
        rw [hcurrent.2.2.2, hconnection]
        exact hsettled.2 rfl
      · rename_i hsuperseded
        exact h.leave hid rfl (fun hcurrent => absurd hcurrent hsuperseded) method stream true
    · rename_i hfailed
      have hfalse : succeeded = false := Bool.eq_false_iff.2 hfailed
      subst hfalse
      refine h.leave hid rfl (fun hcurrent => ?_) method stream false
      by_contra hsender
      exact hcareful.2 ⟨⟨method, r, hcurrent, Or.inr (Or.inr ⟨nextTrack, stream, hid⟩)⟩, hsender⟩
  · rename_i method succeeded hid
    exact h.afterReplacement hid hcareful.1
  · rename_i connection offers hid
    split
    · exact h.ended hid rfl _
    · exact h.ended hid rfl none
  · exact h

theorem Kept.step (h : Kept s) (howned : Owned s) (hordered : Ordered s) {a : Action} (hcareful : Careful s a) :
    Kept (step s a) := by
  cases a with
  | start offers microphoneEnabled deviceId => exact Kept.start howned offers microphoneEnabled deviceId
  | setMicrophoneEnabled enabled => exact h.setMicrophoneEnabled howned _ enabled
  | switchMicrophone deviceId =>
    have hset : Kept { s with microphoneDeviceId := deviceId } := ⟨h.disabled, h.synced⟩
    have hsetOwned : Owned { s with microphoneDeviceId := deviceId } := { howned with }
    show Kept (DirectAudioTransport.switchMicrophone deviceId s)
    unfold DirectAudioTransport.switchMicrophone
    dsimp only
    split
    · exact hset.replaceMicrophone hsetOwned _ deviceId
    · exact hset
  | stop => exact Kept.shutDown s
  | fail =>
    show Kept (DirectAudioTransport.fail s)
    unfold DirectAudioTransport.fail
    split
    · exact h
    · exact Kept.shutDown s
  | mediaSettles id media => exact h.mediaSettles howned id media
  | trackSettles connection succeeded =>
    refine h.trackSettles fun hsucceeded => ?_
    subst hsucceeded
    exact hcareful
  | offerSettles id succeeded =>
    show Kept (DirectAudioTransport.offerSettles s id succeeded)
    unfold DirectAudioTransport.offerSettles
    split
    · rename_i connection offers hid
      split
      · exact h.ended hid rfl _
      · exact h.ended hid rfl none
    · rename_i method hid
      exact h.ended hid rfl none
    · exact h
  | resume id => exact h.resume howned hordered hcareful

/-! ### The microphone when no call is in progress -/

/-- What is asked for. -/
structure AsAsked (s : State) : Prop where
  muted : s.lastSetting = some false → ∀ t, (s.tracks t).running = true → (s.tracks t).enabled = false
  sender : s.stopped = false → senderTrack s = s.localTrack ∧ ∀ t, (s.tracks t).running = true → s.localTrack = some t
  stopped : s.stopped = true → ∀ t, (s.tracks t).running = false

/-- In every run of careful steps, whenever no call is in progress. -/
theorem mute_kept (actions : List Action) (hcareful : Guarded step Careful initial actions) (hquiet : Quiet (run actions)) :
    AsAsked (run actions) := by
  have hinvariant : Owned (run actions) ∧ Ordered (run actions) ∧ Kept (run actions) := by
    have hstep : ∀ s a, Owned s ∧ Ordered s ∧ Kept s → Careful s a → Owned (step s a) ∧ Ordered (step s a) ∧ Kept (step s a) := by
      rintro s a ⟨howned, hordered, hkept⟩ ha
      exact ⟨howned.step a, hordered.step howned a, hkept.step howned hordered ha⟩
    exact runCommands_invariant hstep ⟨owned_initial, ordered_initial, kept_initial⟩ hcareful
  obtain ⟨-, -, hkept⟩ := hinvariant
  refine ⟨?_, ?_, ?_⟩
  · intro hmuted t hrunning
    exact hkept.disabled hmuted t (running_track actions hquiet t hrunning).1
  · refine fun _ => ⟨hkept.synced.resolve_right ?_, fun t hrunning => (running_track actions hquiet t hrunning).1⟩
    rintro ⟨id, call, r, hid, -, -⟩
    rw [hquiet id] at hid
    cases hid
  · intro hstopped t
    by_contra hrunning
    have hnot := (running_track actions hquiet t ((Bool.not_eq_false _).mp hrunning)).2
    rw [hstopped] at hnot
    cases hnot

/-- A call that is muted after it began. -/
def mutedLate : List Action :=
  [.start true true "", .mediaSettles 0 (some 2), .resume 0, .trackSettles 0 true, .resume 0, .resume 0, .resume 0,
    .setMicrophoneEnabled false, .offerSettles 0 true, .offerSettles 0 true]

/-- The microphone is asked for and muted before it is there. -/
def mutedEarly : List Action :=
  [.start false false "", .setMicrophoneEnabled true, .setMicrophoneEnabled false, .mediaSettles 0 (some 1), .resume 0,
    .trackSettles 0 true, .resume 0, .resume 0]

/-- A switch is superseded by another one, which fails before the first one has taken effect. -/
def switchedTwice : List Action :=
  [.start false true "", .mediaSettles 0 (some 1), .resume 0, .trackSettles 0 true, .resume 0, .resume 0, .resume 0,
    .switchMicrophone "a", .mediaSettles 1 (some 1), .resume 1, .switchMicrophone "b", .mediaSettles 2 none, .resume 2,
    .resume 2, .trackSettles 0 true, .resume 1, .resume 1]

/-- The calls of a run are among the first few. -/
theorem quiet_of {actions : List Action} {n : Nat} (hcalled : (run actions).called = n)
    (h : ∀ id < n, (run actions).calls id = none) : Quiet (run actions) := by
  intro id
  by_cases hid : id < n
  · exact h id hid
  · refine (owned_run actions).fresh id ?_
    rw [hcalled]
    exact Nat.le_of_not_lt hid

private theorem careful_resume (hlast : s.lastSetting ≠ some false)
    (hsender : senderTrack s = s.localTrack ∨ ∀ call, s.calls id = some call → ∃ method r nextTrack stream,
      call = ⟨method, .replaced r nextTrack stream true⟩ ∨ call = ⟨method, .acquired r (some (nextTrack :: stream))⟩) :
    Careful s (.resume id) := by
  refine ⟨fun h => hlast h.1, ?_⟩
  rintro ⟨⟨method, r, -, hid⟩, hsynced⟩
  rcases hsender with hsender | hsender
  · exact hsynced hsender
  · rcases hid with hid | hid | ⟨nextTrack, stream, hid⟩
    · obtain ⟨_, _, _, _, hcall | hcall⟩ := hsender _ hid <;> cases hcall
    · obtain ⟨_, _, _, _, hcall | hcall⟩ := hsender _ hid <;> cases hcall
    · obtain ⟨_, _, _, _, hcall | hcall⟩ := hsender _ hid <;> cases hcall

theorem mute_kept_mutedLate : Quiet (run mutedLate) ∧ AsAsked (run mutedLate) := by
  have hquiet : Quiet (run mutedLate) := quiet_of (n := 1) rfl (by decide)
  refine ⟨hquiet, mute_kept mutedLate ⟨trivial, trivial, ?_, ?_, ?_, ?_, ?_, trivial, trivial, trivial, trivial⟩ hquiet⟩
  · exact careful_resume (by decide) (Or.inl rfl)
  · exact fun h => h.2.2 ⟨0, _, _, rfl, rfl, by decide⟩
  · exact careful_resume (by decide) (Or.inr fun call hcall => ⟨_, _, _, _, Or.inl (Option.some.inj hcall).symm⟩)
  · exact careful_resume (by decide) (Or.inl rfl)
  · exact careful_resume (by decide) (Or.inl rfl)

theorem not_muted_and_pinned :
    (Quiet (run mutedEarly) ∧ (run mutedEarly).lastSetting = some false ∧ ((run mutedEarly).tracks 0).running = true ∧
      ((run mutedEarly).tracks 0).enabled = true) ∧
    (Quiet (run switchedTwice) ∧ (run switchedTwice).stopped = false ∧ senderTrack (run switchedTwice) = some 1 ∧
      (run switchedTwice).localTrack = some 0) := by
  refine ⟨⟨quiet_of (n := 1) rfl (by decide), rfl, rfl, rfl⟩, quiet_of (n := 3) rfl (by decide), rfl, rfl, rfl⟩

/-! ### After the transport has stopped -/

@[simp] theorem stopped_enableLocalTrack (s : State) : (enableLocalTrack s).stopped = s.stopped := by
  unfold enableLocalTrack
  split <;> rfl

theorem stopped_afterReplacement (s : State) (id : CallId) (method : Method) (succeeded : Bool) :
    (afterReplacement s id method succeeded).stopped = s.stopped := by
  unfold afterReplacement
  split
  · cases method with
    | start peerConnection offers => exact stopped_enableLocalTrack s
    | setMicrophoneEnabled => exact stopped_enableLocalTrack s
    | switchMicrophone => rfl
  · rfl

theorem stopped_resume (s : State) (id : CallId) : (resume s id).stopped = s.stopped := by
  unfold resume
  split
  · split
    · rfl
    · rfl
    · split
      · split <;> rfl
      · rfl
  · split
    · split <;> rfl
    · rfl
  · exact stopped_afterReplacement s id _ _
  · split <;> rfl
  · rfl

theorem stopped_setMicrophoneEnabled (s : State) (method : Method) (enabled : Bool) :
    (DirectAudioTransport.setMicrophoneEnabled method enabled s).stopped = s.stopped := by
  unfold DirectAudioTransport.setMicrophoneEnabled
  dsimp only
  split
  · split <;> rfl
  · split <;> rfl

/-- Only `start` sets a stopped transport going again. -/
theorem stopped_step {a : Action} (hstopped : s.stopped = true)
    (ha : ∀ offers microphoneEnabled deviceId, a ≠ .start offers microphoneEnabled deviceId) : (step s a).stopped = true := by
  cases a with
  | start offers microphoneEnabled deviceId => exact absurd rfl (ha offers microphoneEnabled deviceId)
  | setMicrophoneEnabled enabled => exact (stopped_setMicrophoneEnabled s _ enabled).trans hstopped
  | switchMicrophone deviceId =>
    show (DirectAudioTransport.switchMicrophone deviceId s).stopped = true
    unfold DirectAudioTransport.switchMicrophone
    dsimp only
    split <;> exact hstopped
  | stop => rfl
  | fail =>
    show (DirectAudioTransport.fail s).stopped = true
    unfold DirectAudioTransport.fail
    rw [if_pos hstopped]
    exact hstopped
  | mediaSettles id media =>
    show (DirectAudioTransport.mediaSettles s id media).stopped = true
    unfold DirectAudioTransport.mediaSettles
    split
    · split <;> exact hstopped
    · exact hstopped
  | trackSettles connection succeeded =>
    show (DirectAudioTransport.trackSettles s connection succeeded).stopped = true
    unfold DirectAudioTransport.trackSettles
    split
    · exact hstopped
    · split <;> exact hstopped
  | offerSettles id succeeded =>
    show (DirectAudioTransport.offerSettles s id succeeded).stopped = true
    unfold DirectAudioTransport.offerSettles
    split
    · split <;> exact hstopped
    · exact hstopped
    · exact hstopped
  | resume id => exact (stopped_resume s id).trans hstopped

theorem stopped_after_stop (before after : List Action)
    (hafter : ∀ offers microphoneEnabled deviceId, Action.start offers microphoneEnabled deviceId ∉ after) :
    (run (before ++ .stop :: after)).stopped = true := by
  induction after using List.reverseRecOn with
  | nil =>
    rw [run, runCommands_append]
    rfl
  | append_singleton after a ih =>
    have hmem : ∀ offers microphoneEnabled deviceId, Action.start offers microphoneEnabled deviceId ∉ after :=
      fun offers microphoneEnabled deviceId h => hafter offers microphoneEnabled deviceId (List.mem_append_left _ h)
    have hlast : before ++ .stop :: (after ++ [a]) = (before ++ .stop :: after) ++ [a] := by simp
    rw [hlast, run, runCommands_append]
    refine stopped_step (ih hmem) fun offers microphoneEnabled deviceId heq => ?_
    exact hafter offers microphoneEnabled deviceId (heq ▸ List.mem_append_right _ List.mem_cons_self)

/-- After `stop`, whatever else is asked for and whatever settles late: once the calls have returned, no microphone is
on, unless the transport is started again. -/
theorem stop_releases_microphones (before after : List Action)
    (hafter : ∀ offers microphoneEnabled deviceId, Action.start offers microphoneEnabled deviceId ∉ after)
    (hquiet : Quiet (run (before ++ .stop :: after))) (t : TrackId) :
    ((run (before ++ .stop :: after)).tracks t).running = false := by
  have hstopped := stopped_after_stop before after hafter
  cases hrunning : ((run (before ++ .stop :: after)).tracks t).running with
  | false => rfl
  | true =>
    have hnot := (running_track _ hquiet t hrunning).2
    rw [hstopped] at hnot
    cases hnot

/-- The microphone is there only after the transport has stopped. -/
theorem stop_releases_microphones_late : ((run ([.start false true ""] ++ .stop ::
    [.mediaSettles 0 (some 1), .resume 0, .resume 0, .resume 0])).tracks 0).running = false :=
  stop_releases_microphones [.start false true ""] [.mediaSettles 0 (some 1), .resume 0, .resume 0, .resume 0]
    (by simp) (quiet_of (n := 1) rfl (by decide)) 0

end KComms.Web.DirectAudioTransport
