import KComms.Web.DirectAudioSignal

/-!
# The direct audio of a call channel (`CommsWeb.CallChannel`)

The callbacks of one channel process that have to do with direct audio, as functions of its assigns.  What the process asks
of presence, of the call and of the rate limits is given with each callback; broadcasts and pushes are part of its result.
`Moved` says all that a callback can do to the signalling state.
-/

namespace KComms.Web.CallChannel

open DirectAudioSignal (Signal)

/-! ### Assigns -/

inductive SignalState
  | disabled | ready | offerSent | offerReceived | connected
  deriving DecidableEq, Repr

/-- The assigns of direct audio; a peer id that is not assigned is `none`, as `nil`. -/
structure Socket where
  userId : String
  directAudio : Bool
  directPeerId : Option String
  directSignalState : SignalState
  directExpectedPeerId : Option String
  deriving DecidableEq, Repr

structure Message where
  fromPeerId : Option String
  fromUserId : String
  targetPeerId : String
  targetUserId : String
  signal : Signal
  deriving DecidableEq, Repr

/-- An entry of presence under a key. -/
structure Meta where
  directAudio : Bool
  userId : Option String
  deriving DecidableEq, Repr

abbrev PresenceList := List (String × List Meta)

structure Peer where
  peerId : String
  userId : String
  deriving DecidableEq, Repr

inductive Push
  | peers (peers : List Peer)
  | disabled (reason : String)
  | signal (message : Message)
  deriving DecidableEq, Repr

inductive Reply
  | ok
  | error (reason : String)
  deriving DecidableEq, Repr

/-- `DirectAudioRateLimit.allow_signal?` -/
inductive Allowance
  | ok | rateLimited | unauthorized
  deriving DecidableEq, Repr

/-- What a callback is told: `authorize`, `DirectAudio.authorize`, the rate limits, and presence each time it is listed. -/
structure Facts where
  authorized : Bool
  directAuthorized : Bool
  rateAllowed : Bool
  directRate : Allowance
  presence : PresenceList
  presenceAgain : PresenceList
  deriving DecidableEq, Repr

/-- The result of a callback; a process that stops has no socket. -/
structure Handled where
  socket : Option Socket
  reply : Option Reply := none
  broadcasts : List Message := []
  pushes : List Push := []
  deriving DecidableEq, Repr

/-- The order of terms: `nil` is an atom and stands before every binary. -/
def termLt : Option String → Option String → Bool
  | none, some _ => true
  | some a, some b => decide (a < b)
  | _, none => false

def kind : Signal → String
  | .description kind _ => kind
  | .ice .. => "ice"
  | .media _ => "media"
  | .fallback => "fallback"

/-! ### Presence -/

def directPeerLimit : Nat := 2

/-- `Enum.min_by(peers, & &1.peer_id)` -/
def minByPeerId : List Peer → Option Peer
  | [] => none
  | peer :: peers => some (peers.foldl (fun least other => if other.peerId < least.peerId then other else least) peer)

def directPeers (presence : PresenceList) : List Peer :=
  let peers := presence.flatMap fun entry =>
    entry.2.filterMap fun info => if info.directAudio then info.userId.map fun userId => ⟨entry.1, userId⟩ else none
  let retained := (peers.map Peer.userId).eraseDups.filterMap fun userId =>
    minByPeerId (peers.filter fun peer => peer.userId = userId)
  (retained.mergeSort fun a b => decide (a.peerId ≤ b.peerId)).take directPeerLimit

def directPeerPresentForUser? (presence : PresenceList) (userId : String) : Bool :=
  presence.any fun entry => entry.2.any fun info => info.directAudio && info.userId == some userId

def targetUser (socket : Socket) (facts : Facts) (targetPeerId : Json) : Option String :=
  match targetPeerId with
  | .string targetPeerId =>
    if targetPeerId.utf8ByteSize = 22 ∧ some targetPeerId ≠ socket.directPeerId ∧
        (directPeers facts.presence).any (fun peer => peer.peerId == targetPeerId) then
      match facts.presenceAgain.find? fun entry => entry.1 = targetPeerId with
      | some (_, metas) =>
        match metas.find? fun info => info.directAudio && info.userId.isSome with
        | some info =>
          match info.userId with
          | some userId => if userId ≠ socket.userId then some userId else none
          | none => none
        | none => none
      | none => none
    else none
  | _ => none

/-! ### States -/

def disableDirectAudio (socket : Socket) (notifyClient : Bool) : Socket × List Push :=
  if socket.directAudio then
    ({ socket with
        directAudio := false, directPeerId := none, directSignalState := .disabled, directExpectedPeerId := none },
      if notifyClient then [.disabled "disabled"] else [])
  else (socket, [])

def enforceDirectPeerLimit (socket : Socket) (presence : PresenceList) : Socket × List Push :=
  if socket.directAudio then
    let retainedPeer := (directPeers presence).find? fun peer => peer.userId = socket.userId
    if retainedPeer.any fun peer => some peer.peerId = socket.directPeerId then (socket, [])
    else
      let disabled := disableDirectAudio socket false
      (disabled.1, .disabled "peer_limit" :: disabled.2)
  else (socket, [])

def expectedOrReadyPeer? (socket : Socket) (peerId : Option String) : Bool :=
  decide (socket.directSignalState = .ready) ||
    (decide (socket.directSignalState ∈ [.offerSent, .offerReceived, .connected]) &&
      decide (socket.directExpectedPeerId = peerId))

def validOutboundSignalState (socket : Socket) (targetPeerId : String) (signal : Signal) : Bool :=
  match kind signal with
  | "offer" => decide (socket.directSignalState = .ready) && termLt socket.directPeerId (some targetPeerId)
  | "answer" =>
    decide (socket.directSignalState = .offerReceived) && decide (socket.directExpectedPeerId = some targetPeerId)
  | "ice" =>
    decide (socket.directSignalState ∈ [.offerSent, .offerReceived, .connected]) &&
      decide (socket.directExpectedPeerId = some targetPeerId)
  | "media" => decide (socket.directSignalState = .connected) && decide (socket.directExpectedPeerId = some targetPeerId)
  | "fallback" => expectedOrReadyPeer? socket (some targetPeerId)
  | _ => false

def transitionAfterOutboundSignal (socket : Socket) (targetPeerId : String) (signal : Signal) : Socket × List Push :=
  match kind signal with
  | "offer" => ({ socket with directSignalState := .offerSent, directExpectedPeerId := some targetPeerId }, [])
  | "answer" => ({ socket with directSignalState := .connected }, [])
  | "fallback" => disableDirectAudio socket false
  | _ => (socket, [])

/-- The socket after the signal, with what is pushed before it; `none` is `:invalid_signal_state`. -/
def transitionBeforeInboundSignal (socket : Socket) (fromPeerId : Option String) (signal : Signal) :
    Option (Socket × List Push) :=
  match kind signal with
  | "offer" =>
    if socket.directSignalState = .ready ∧ termLt fromPeerId socket.directPeerId then
      some ({ socket with directSignalState := .offerReceived, directExpectedPeerId := fromPeerId }, [])
    else none
  | "answer" =>
    if socket.directSignalState = .offerSent ∧ socket.directExpectedPeerId = fromPeerId then
      some ({ socket with directSignalState := .connected }, [])
    else none
  | "ice" =>
    if socket.directSignalState ∈ [.offerSent, .offerReceived, .connected] ∧ socket.directExpectedPeerId = fromPeerId then
      some (socket, [])
    else none
  | "media" =>
    if socket.directSignalState = .connected ∧ socket.directExpectedPeerId = fromPeerId then some (socket, []) else none
  | "fallback" =>
    if expectedOrReadyPeer? socket fromPeerId then
      let disabled := disableDirectAudio socket false
      some (disabled.1, .disabled "peer_fallback" :: disabled.2)
    else none
  | _ => none

/-! ### Callbacks -/

/-- The assigns after `join`; `requested` is the member `direct_audio` of the payload, `joinAllowed` the quota of joins and
`peerId` the random peer id. -/
def join (userId : String) (requested joinAllowed : Bool) (peerId : String) (facts : Facts) : Socket :=
  if requested ∧ facts.directAuthorized ∧ joinAllowed ∧ directPeerPresentForUser? facts.presence userId = false then
    { userId := userId, directAudio := true, directPeerId := some peerId, directSignalState := .ready,
      directExpectedPeerId := none }
  else
    { userId := userId, directAudio := false, directPeerId := none, directSignalState := .disabled,
      directExpectedPeerId := none }

/-- `handle_info(:track_direct_audio, socket)`; `tracked` is how `Presence.track` ends. -/
def handleTrack (socket : Socket) (tracked : Bool) (facts : Facts) : Handled :=
  let (socket, pushes) :=
    if tracked then enforceDirectPeerLimit socket facts.presence else disableDirectAudio socket true
  { socket := some socket, pushes := pushes }

/-- `handle_in("call.direct.disable.v1", payload, socket)` -/
def handleDisable (socket : Socket) (payload : List (String × Json)) (facts : Facts) : Handled :=
  if payload.length = 0 then
    if facts.authorized then
      let (socket, pushes) := disableDirectAudio socket false
      { socket := some socket, reply := some .ok, pushes := pushes }
    else { socket := none }
  else { socket := some socket, reply := some (.error "invalid_signal") }

inductive Refusal
  | rateLimited | unauthorized | invalid
  deriving DecidableEq, Repr

def authorizeDirect (socket : Socket) (facts : Facts) : Except Refusal Unit :=
  if socket.directAudio then
    if facts.directAuthorized then .ok () else .error .unauthorized
  else .error .invalid

def validate (highSpace : Nat → Bool) : Json → Except Refusal Signal
  | .object signal => (DirectAudioSignal.validate highSpace signal).mapError fun _ => .invalid
  | _ => .error .invalid

/-- The conditions on a signal that is to be broadcast, with its target, the user of it and the signal as it is relayed. -/
def admitSignal (highSpace : Nat → Bool) (socket : Socket) (targetPeerId signal : Json) (facts : Facts) :
    Except Refusal (String × String × Signal) := do
  authorizeDirect socket facts
  if facts.rateAllowed then
    match targetPeerId, targetUser socket facts targetPeerId with
    | .string target, some targetUserId => do
      let sanitizedSignal ← validate highSpace signal
      if validOutboundSignalState socket target sanitizedSignal then
        match facts.directRate with
        | .ok => .ok (target, targetUserId, sanitizedSignal)
        | .rateLimited => .error .rateLimited
        | .unauthorized => .error .unauthorized
      else .error .invalid
    | _, _ => .error .invalid
  else .error .rateLimited

/-- `handle_in("call.direct.signal.v1", payload, socket)` -/
def handleSignal (highSpace : Nat → Bool) (socket : Socket) (payload : List (String × Json)) (facts : Facts) : Handled :=
  match Json.get? (.object payload) "target_peer_id", Json.get? (.object payload) "signal" with
  | some targetPeerId, some signal =>
    match admitSignal highSpace socket targetPeerId signal facts with
    | .ok (target, targetUserId, sanitizedSignal) =>
      let message : Message :=
        { fromPeerId := socket.directPeerId, fromUserId := socket.userId, targetPeerId := target,
          targetUserId := targetUserId, signal := sanitizedSignal }
      let (socket, pushes) := transitionAfterOutboundSignal socket target sanitizedSignal
      { socket := some socket, reply := some .ok, broadcasts := [message], pushes := pushes }
    | .error .rateLimited => { socket := some socket, reply := some (.error "rate_limited") }
    | .error .unauthorized => { socket := none }
    | .error .invalid => { socket := some socket, reply := some (.error "invalid_signal") }
  | _, _ => { socket := some socket, reply := some (.error "invalid_signal") }

/-- `handle_out("presence_diff", payload, socket)` -/
def handlePresenceDiff (socket : Socket) (facts : Facts) : Handled :=
  if facts.authorized then
    let (socket, pushes) := enforceDirectPeerLimit socket facts.presence
    { socket := some socket
      pushes := pushes ++ if socket.directAudio then [.peers (directPeers facts.presenceAgain)] else [] }
  else { socket := none }

/-- `handle_out("call.direct.signal.v1", payload, socket)` -/
def handleOutSignal (socket : Socket) (message : Message) (facts : Facts) : Handled :=
  if socket.directAudio = false then { socket := some socket }
  else if socket.directPeerId ≠ some message.targetPeerId then { socket := some socket }
  else
    match authorizeDirect socket facts with
    | .error .unauthorized => { socket := none }
    | .error _ => { socket := some socket }
    | .ok () =>
      match transitionBeforeInboundSignal socket message.fromPeerId message.signal with
      | some (socket, pushes) => { socket := some socket, pushes := pushes ++ [.signal message] }
      | none => { socket := some socket }

/-! ### What a callback does -/

/-- The signals among the pushes. -/
def signals (handled : Handled) : List Message :=
  handled.pushes.filterMap fun
    | .signal message => some message
    | _ => none

/-- The socket with direct audio disabled. -/
def silent (socket : Socket) : Socket :=
  { socket with directAudio := false, directPeerId := none, directSignalState := .disabled, directExpectedPeerId := none }

/-- All that a callback can do to the signalling state, with what it broadcasts and which signals it pushes. -/
inductive Moved (socket : Socket) (incoming : Option Message) (handled : Handled) : Prop
  | stopped (hsocket : handled.socket = none) (hbroadcasts : handled.broadcasts = []) (hsignals : signals handled = [])
  | kept (hsocket : handled.socket = some socket) (hbroadcasts : handled.broadcasts = []) (hsignals : signals handled = [])
  | silenced (hsocket : handled.socket = some (silent socket))
      (hbroadcasts : ∀ message ∈ handled.broadcasts, kind message.signal = "fallback" ∧ socket.directAudio = true ∧
        message.fromPeerId = socket.directPeerId)
      (hsignals : ∀ message ∈ signals handled, incoming = some message ∧ kind message.signal = "fallback")
  | offered (message : Message) (hready : socket.directSignalState = .ready) (hdirect : socket.directAudio = true)
      (hlt : termLt socket.directPeerId (some message.targetPeerId) = true)
      (hsocket : handled.socket = some { socket with
        directSignalState := .offerSent, directExpectedPeerId := some message.targetPeerId })
      (hbroadcasts : handled.broadcasts = [message]) (hfrom : message.fromPeerId = socket.directPeerId)
      (hkind : kind message.signal = "offer") (hsignals : signals handled = [])
  | answered (message : Message) (hstate : socket.directSignalState = .offerReceived) (hdirect : socket.directAudio = true)
      (hexpected : socket.directExpectedPeerId = some message.targetPeerId)
      (hsocket : handled.socket = some { socket with directSignalState := .connected })
      (hbroadcasts : handled.broadcasts = [message]) (hfrom : message.fromPeerId = socket.directPeerId)
      (hkind : kind message.signal = "answer") (hsignals : signals handled = [])
  | relayed (message : Message) (hdirect : socket.directAudio = true) (hsocket : handled.socket = some socket)
      (hbroadcasts : handled.broadcasts = [message]) (hfrom : message.fromPeerId = socket.directPeerId)
      (hkind : kind message.signal = "ice" ∨ kind message.signal = "media") (hsignals : signals handled = [])
  | acceptedOffer (message : Message) (hincoming : incoming = some message) (hdirect : socket.directAudio = true)
      (htarget : socket.directPeerId = some message.targetPeerId) (hready : socket.directSignalState = .ready)
      (hlt : termLt message.fromPeerId socket.directPeerId = true) (hkind : kind message.signal = "offer")
      (hsocket : handled.socket = some { socket with
        directSignalState := .offerReceived, directExpectedPeerId := message.fromPeerId })
      (hbroadcasts : handled.broadcasts = []) (hsignals : signals handled = [message])
  | acceptedAnswer (message : Message) (hincoming : incoming = some message) (hdirect : socket.directAudio = true)
      (htarget : socket.directPeerId = some message.targetPeerId) (hstate : socket.directSignalState = .offerSent)
      (hexpected : socket.directExpectedPeerId = message.fromPeerId) (hkind : kind message.signal = "answer")
      (hsocket : handled.socket = some { socket with directSignalState := .connected })
      (hbroadcasts : handled.broadcasts = []) (hsignals : signals handled = [message])
  | accepted (message : Message) (hincoming : incoming = some message)
      (hstate : socket.directSignalState ∈ [.offerSent, .offerReceived, .connected])
      (hexpected : socket.directExpectedPeerId = message.fromPeerId)
      (hkind : kind message.signal = "ice" ∨ kind message.signal = "media") (hsocket : handled.socket = some socket)
      (hbroadcasts : handled.broadcasts = []) (hsignals : signals handled = [message])

variable {handled : Handled} {socket socket' : Socket} {incoming : Option Message} {message : Message}

theorem disableDirectAudio_eq (socket : Socket) (notifyClient : Bool) :
    disableDirectAudio socket notifyClient = (socket, []) ∨
      (socket.directAudio = true ∧ ∃ pushes, disableDirectAudio socket notifyClient = (silent socket, pushes) ∧
        ∀ message, Push.signal message ∉ pushes) := by
  unfold disableDirectAudio
  split
  · rename_i hdirect
    refine Or.inr ⟨hdirect, _, rfl, ?_⟩
    intro message hmem
    split at hmem
    · cases List.mem_singleton.1 hmem
    · cases hmem
  · exact Or.inl rfl

theorem enforceDirectPeerLimit_eq (socket : Socket) (presence : PresenceList) :
    ∃ pushes, (enforceDirectPeerLimit socket presence = (socket, pushes) ∨
      enforceDirectPeerLimit socket presence = (silent socket, pushes)) ∧ ∀ message, Push.signal message ∉ pushes := by
  unfold enforceDirectPeerLimit
  split
  · rename_i hdirect
    dsimp only
    split
    · exact ⟨[], Or.inl rfl, nofun⟩
    · refine ⟨[.disabled "peer_limit"], Or.inr ?_, fun message hmem => ?_⟩
      · rw [disableDirectAudio, if_pos hdirect]
        rfl
      · cases List.mem_singleton.1 hmem
  · exact ⟨[], Or.inl rfl, nofun⟩

theorem signals_eq_nil (h : ∀ message, Push.signal message ∉ handled.pushes) : signals handled = [] := by
  refine List.filterMap_eq_nil_iff.2 fun push hpush => ?_
  cases push with
  | peers peers => rfl
  | disabled reason => rfl
  | signal message => exact absurd hpush (h message)

/-- A callback that pushes no signal, broadcasts nothing and at most disables direct audio. -/
theorem Moved.of_quiet (hsocket : handled.socket = some socket') (h : socket' = socket ∨ socket' = silent socket)
    (hbroadcasts : handled.broadcasts = []) (hpushes : ∀ message, Push.signal message ∉ handled.pushes) :
    Moved socket incoming handled := by
  rcases h with rfl | rfl
  · exact .kept hsocket hbroadcasts (signals_eq_nil hpushes)
  · refine .silenced hsocket ?_ ?_
    · rw [hbroadcasts]
      exact nofun
    · rw [signals_eq_nil hpushes]
      exact nofun

theorem handleTrack_moved (socket : Socket) (tracked : Bool) (facts : Facts) :
    Moved socket none (handleTrack socket tracked facts) := by
  unfold handleTrack
  cases tracked with
  | true =>
    rw [if_pos rfl]
    obtain ⟨pushes, heq | heq, hpushes⟩ := enforceDirectPeerLimit_eq socket facts.presence
    · rw [heq]
      exact .of_quiet rfl (Or.inl rfl) rfl hpushes
    · rw [heq]
      exact .of_quiet rfl (Or.inr rfl) rfl hpushes
  | false =>
    rw [if_neg Bool.false_ne_true]
    rcases disableDirectAudio_eq socket true with heq | ⟨-, pushes, heq, hpushes⟩
    · rw [heq]
      exact .of_quiet rfl (Or.inl rfl) rfl nofun
    · rw [heq]
      exact .of_quiet rfl (Or.inr rfl) rfl hpushes

theorem handleDisable_moved (socket : Socket) (payload : List (String × Json)) (facts : Facts) :
    Moved socket none (handleDisable socket payload facts) := by
  unfold handleDisable
  split
  · split
    · rcases disableDirectAudio_eq socket false with heq | ⟨-, pushes, heq, hpushes⟩
      · rw [heq]
        exact .of_quiet rfl (Or.inl rfl) rfl nofun
      · rw [heq]
        exact .of_quiet rfl (Or.inr rfl) rfl hpushes
    · exact .stopped rfl rfl rfl
  · exact .kept rfl rfl rfl

theorem handlePresenceDiff_moved (socket : Socket) (facts : Facts) : Moved socket none (handlePresenceDiff socket facts) := by
  unfold handlePresenceDiff
  split
  · obtain ⟨pushes, heq, hpushes⟩ := enforceDirectPeerLimit_eq socket facts.presence
    have hall : ∀ (peers : Bool) message,
        Push.signal message ∉ pushes ++ if peers then [Push.peers (directPeers facts.presenceAgain)] else [] := by
      intro peers message hmem
      rcases List.mem_append.1 hmem with hmem | hmem
      · exact hpushes message hmem
      · split at hmem
        · cases List.mem_singleton.1 hmem
        · cases hmem
    rcases heq with heq | heq
    · rw [heq]
      exact .of_quiet rfl (Or.inl rfl) rfl (hall _)
    · rw [heq]
      exact .of_quiet rfl (Or.inr rfl) rfl (hall _)
  · exact .stopped rfl rfl rfl

/-- A signal is admitted from a process with direct audio and in a state for it. -/
theorem admitSignal_ok {highSpace : Nat → Bool} {targetPeerId signal : Json} {facts : Facts}
    {target targetUserId : String} {sanitizedSignal : Signal}
    (h : admitSignal highSpace socket targetPeerId signal facts = .ok (target, targetUserId, sanitizedSignal)) :
    socket.directAudio = true ∧ validOutboundSignalState socket target sanitizedSignal = true := by
  unfold admitSignal authorizeDirect at h
  split at h
  · rename_i hdirect
    refine ⟨hdirect, ?_⟩
    split at h
    · simp only [bind, Except.bind] at h
      split at h
      · split at h
        · split at h
          · cases h
          · split at h
            · rename_i hvalid
              split at h
              · cases h
                exact hvalid
              · cases h
              · cases h
            · cases h
        · cases h
      · cases h
    · cases h
  · cases h

theorem handleSignal_moved (highSpace : Nat → Bool) (socket : Socket) (payload : List (String × Json)) (facts : Facts) :
    Moved socket none (handleSignal highSpace socket payload facts) := by
  unfold handleSignal
  split
  · rename_i targetPeerId signal _ _
    split
    · rename_i target targetUserId sanitizedSignal hadmitted
      obtain ⟨hdirect, hvalid⟩ := admitSignal_ok hadmitted
      unfold validOutboundSignalState at hvalid
      unfold transitionAfterOutboundSignal
      dsimp only
      split at hvalid
      · rename_i hkind
        rw [Bool.and_eq_true, decide_eq_true_eq] at hvalid
        rw [hkind]
        exact .offered _ hvalid.1 hdirect hvalid.2 rfl rfl rfl hkind rfl
      · rename_i hkind
        rw [Bool.and_eq_true, decide_eq_true_eq, decide_eq_true_eq] at hvalid
        rw [hkind]
        exact .answered _ hvalid.1 hdirect hvalid.2 rfl rfl rfl hkind rfl
      · rename_i hkind
        rw [hkind]
        exact .relayed _ hdirect rfl rfl rfl (Or.inl hkind) rfl
      · rename_i hkind
        rw [hkind]
        exact .relayed _ hdirect rfl rfl rfl (Or.inr hkind) rfl
      · rename_i hkind
        rw [hkind, disableDirectAudio, if_pos hdirect]
        refine .silenced rfl ?_ nofun
        intro message hmem
        cases List.mem_singleton.1 hmem
        exact ⟨hkind, hdirect, rfl⟩
      · cases hvalid
    · exact .kept rfl rfl rfl
    · exact .stopped rfl rfl rfl
    · exact .kept rfl rfl rfl
  · exact .kept rfl rfl rfl

theorem handleOutSignal_moved (socket : Socket) (message : Message) (facts : Facts) :
    Moved socket (some message) (handleOutSignal socket message facts) := by
  unfold handleOutSignal
  split
  · exact .kept rfl rfl rfl
  · rename_i hdirect
    rw [Bool.not_eq_false] at hdirect
    split
    · exact .kept rfl rfl rfl
    · rename_i htarget
      rw [not_not] at htarget
      split
      · exact .stopped rfl rfl rfl
      · exact .kept rfl rfl rfl
      · unfold transitionBeforeInboundSignal
        split
        · rename_i socket' pushes htransition
          split at htransition
          · rename_i hkind
            split at htransition
            · rename_i hstate
              cases htransition
              exact .acceptedOffer message rfl hdirect htarget hstate.1 hstate.2 hkind rfl rfl rfl
            · cases htransition
          · rename_i hkind
            split at htransition
            · rename_i hstate
              cases htransition
              exact .acceptedAnswer message rfl hdirect htarget hstate.1 hstate.2 hkind rfl rfl rfl
            · cases htransition
          · rename_i hkind
            split at htransition
            · rename_i hstate
              cases htransition
              exact .accepted message rfl hstate.1 hstate.2 (Or.inl hkind) rfl rfl rfl
            · cases htransition
          · rename_i hkind
            split at htransition
            · rename_i hstate
              cases htransition
              refine .accepted message rfl ?_ hstate.2 (Or.inr hkind) rfl rfl rfl
              rw [hstate.1]
              decide
            · cases htransition
          · rename_i hkind
            split at htransition
            · cases htransition
              rw [disableDirectAudio, if_pos hdirect]
              refine .silenced rfl nofun ?_
              intro message' hmem
              cases List.mem_singleton.1 hmem
              exact ⟨rfl, hkind⟩
            · cases htransition
          · cases htransition
        · exact .kept rfl rfl rfl

/-! ### What follows from it -/

def Describes (message : Message) : Prop := kind message.signal = "offer" ∨ kind message.signal = "answer"

/-- A callback leaves the peer id, or takes it away. -/
theorem Moved.peerId (hmoved : Moved socket incoming handled) (hsocket' : handled.socket = some socket') :
    socket'.directPeerId = socket.directPeerId ∨ socket'.directPeerId = none := by
  have hstate : ∀ {state : SignalState} {expected : Option String}, handled.socket = some { socket with
      directSignalState := state, directExpectedPeerId := expected } → socket'.directPeerId = socket.directPeerId := by
    intro state expected hsocket
    obtain rfl := Option.some.inj (hsocket.symm.trans hsocket')
    rfl
  cases hmoved with
  | stopped hsocket => cases hsocket.symm.trans hsocket'
  | kept hsocket => exact Or.inl (hstate hsocket)
  | silenced hsocket =>
    obtain rfl := Option.some.inj (hsocket.symm.trans hsocket')
    exact Or.inr rfl
  | offered message hready hdirect hlt hsocket => exact Or.inl (hstate hsocket)
  | answered message hreceived hdirect hexpected hsocket => exact Or.inl (hstate hsocket)
  | relayed message hdirect hsocket => exact Or.inl (hstate hsocket)
  | acceptedOffer message hincoming hdirect htarget hready hlt hkind hsocket => exact Or.inl (hstate hsocket)
  | acceptedAnswer message hincoming hdirect htarget hsent hexpected hkind hsocket => exact Or.inl (hstate hsocket)
  | accepted message hincoming hnegotiating hexpected hkind hsocket => exact Or.inl (hstate hsocket)

/-- What is broadcast comes from the channel and its direct audio is on. -/
theorem Moved.broadcast (hmoved : Moved socket incoming handled) (hmem : message ∈ handled.broadcasts) :
    socket.directAudio = true ∧ message.fromPeerId = socket.directPeerId ∧
      (Describes message →
        (socket.directSignalState = .offerReceived ∧ socket.directExpectedPeerId = some message.targetPeerId) ∨
          handled.socket = some { socket with
            directSignalState := .offerSent, directExpectedPeerId := some message.targetPeerId }) := by
  cases hmoved with
  | stopped hsocket hbroadcasts =>
    rw [hbroadcasts] at hmem
    cases hmem
  | kept hsocket hbroadcasts =>
    rw [hbroadcasts] at hmem
    cases hmem
  | silenced hsocket hbroadcasts =>
    obtain ⟨hkind, hdirect, hfrom⟩ := hbroadcasts message hmem
    refine ⟨hdirect, hfrom, ?_⟩
    rintro (hoffer | hanswer)
    · exact absurd (hkind.symm.trans hoffer) (by decide)
    · exact absurd (hkind.symm.trans hanswer) (by decide)
  | offered sent hready hdirect hlt hsocket hbroadcasts hfrom =>
    rw [hbroadcasts, List.mem_singleton] at hmem
    subst hmem
    exact ⟨hdirect, hfrom, fun _ => Or.inr hsocket⟩
  | answered sent hreceived hdirect hexpected hsocket hbroadcasts hfrom =>
    rw [hbroadcasts, List.mem_singleton] at hmem
    subst hmem
    exact ⟨hdirect, hfrom, fun _ => Or.inl ⟨hreceived, hexpected⟩⟩
  | relayed sent hdirect hsocket hbroadcasts hfrom hkind =>
    rw [hbroadcasts, List.mem_singleton] at hmem
    subst hmem
    refine ⟨hdirect, hfrom, ?_⟩
    rintro (hoffer | hanswer)
    · rcases hkind with hkind | hkind
      · exact absurd (hkind.symm.trans hoffer) (by decide)
      · exact absurd (hkind.symm.trans hoffer) (by decide)
    · rcases hkind with hkind | hkind
      · exact absurd (hkind.symm.trans hanswer) (by decide)
      · exact absurd (hkind.symm.trans hanswer) (by decide)
  | acceptedOffer message' hincoming hdirect htarget hready hlt hkind hsocket hbroadcasts =>
    rw [hbroadcasts] at hmem
    cases hmem
  | acceptedAnswer message' hincoming hdirect htarget hsent hexpected hkind hsocket hbroadcasts =>
    rw [hbroadcasts] at hmem
    cases hmem
  | accepted message' hincoming hnegotiating hexpected hkind hsocket hbroadcasts =>
    rw [hbroadcasts] at hmem
    cases hmem

/-- A channel that has received an offer or is connected was so before, or it has now received an offer or an answer. -/
theorem Moved.expects (hmoved : Moved socket incoming handled) (hsocket' : handled.socket = some socket')
    (hstate' : socket'.directSignalState = .offerReceived ∨ socket'.directSignalState = .connected) :
    ((socket.directSignalState = .offerReceived ∨ socket.directSignalState = .connected) ∧
      socket'.directExpectedPeerId = socket.directExpectedPeerId ∧ socket'.directPeerId = socket.directPeerId) ∨
    ∃ message, incoming = some message ∧ Describes message ∧ socket'.directExpectedPeerId = message.fromPeerId ∧
      socket'.directPeerId = some message.targetPeerId := by
  cases hmoved with
  | stopped hsocket => cases hsocket.symm.trans hsocket'
  | kept hsocket =>
    obtain rfl := Option.some.inj (hsocket.symm.trans hsocket')
    exact Or.inl ⟨hstate', rfl, rfl⟩
  | silenced hsocket =>
    obtain rfl := Option.some.inj (hsocket.symm.trans hsocket')
    exact hstate'.elim nofun nofun
  | offered message hready hdirect hlt hsocket =>
    obtain rfl := Option.some.inj (hsocket.symm.trans hsocket')
    exact hstate'.elim nofun nofun
  | answered message hreceived hdirect hexpected hsocket =>
    obtain rfl := Option.some.inj (hsocket.symm.trans hsocket')
    exact Or.inl ⟨Or.inl hreceived, rfl, rfl⟩
  | relayed message hdirect hsocket =>
    obtain rfl := Option.some.inj (hsocket.symm.trans hsocket')
    exact Or.inl ⟨hstate', rfl, rfl⟩
  | acceptedOffer message hincoming hdirect htarget hready hlt hkind hsocket =>
    obtain rfl := Option.some.inj (hsocket.symm.trans hsocket')
    exact Or.inr ⟨message, hincoming, Or.inl hkind, rfl, htarget⟩
  | acceptedAnswer message hincoming hdirect htarget hsent hexpected hkind hsocket =>
    obtain rfl := Option.some.inj (hsocket.symm.trans hsocket')
    exact Or.inr ⟨message, hincoming, Or.inr hkind, hexpected, htarget⟩
  | accepted message hincoming hnegotiating hexpected hkind hsocket =>
    obtain rfl := Option.some.inj (hsocket.symm.trans hsocket')
    exact Or.inl ⟨hstate', rfl, rfl⟩

def isOffer (message : Message) : Bool := kind message.signal == "offer"

/-- Offers that a callback broadcasts or pushes. -/
def offers (handled : Handled) : Nat := handled.broadcasts.countP isOffer + (signals handled).countP isOffer

private theorem isOffer_false {name : String} (h : kind message.signal = name) (hname : name ≠ "offer") :
    isOffer message = false := by
  unfold isOffer
  rw [h]
  exact beq_eq_false_iff_ne.2 hname

private theorem isOffer_not_media (h : kind message.signal = "ice" ∨ kind message.signal = "media") :
    isOffer message = false :=
  h.elim (isOffer_false · (by decide)) (isOffer_false · (by decide))

/-- Only a channel that is ready sends or accepts an offer, and then it is no longer ready. -/
theorem Moved.offers (hmoved : Moved socket incoming handled) :
    (CallChannel.offers handled = 0 ∧
      ∀ socket', handled.socket = some socket' → socket'.directSignalState = .ready → socket.directSignalState = .ready) ∨
    (CallChannel.offers handled = 1 ∧ socket.directSignalState = .ready ∧
      ∀ socket', handled.socket = some socket' → socket'.directSignalState ≠ .ready) := by
  have hzero : ∀ {m n : List Message}, (∀ message ∈ m, isOffer message = false) → (∀ message ∈ n, isOffer message = false) →
      handled.broadcasts = m → signals handled = n → CallChannel.offers handled = 0 := by
    rintro m n hm hn rfl rfl
    unfold CallChannel.offers
    rw [List.countP_eq_zero.2 fun message hmem => by rw [hm message hmem]; exact Bool.false_ne_true,
      List.countP_eq_zero.2 fun message hmem => by rw [hn message hmem]; exact Bool.false_ne_true]
  have hnil : ∀ message ∈ ([] : List Message), isOffer message = false := nofun
  cases hmoved with
  | stopped hsocket hbroadcasts hsignals =>
    refine Or.inl ⟨hzero hnil hnil hbroadcasts hsignals, fun socket' hsocket' => ?_⟩
    cases hsocket.symm.trans hsocket'
  | kept hsocket hbroadcasts hsignals =>
    refine Or.inl ⟨hzero hnil hnil hbroadcasts hsignals, fun socket' hsocket' hready => ?_⟩
    obtain rfl := Option.some.inj (hsocket.symm.trans hsocket')
    exact hready
  | silenced hsocket hbroadcasts hsignals =>
    refine Or.inl ⟨hzero (fun message hmem => isOffer_false (hbroadcasts message hmem).1 (by decide))
      (fun message hmem => isOffer_false (hsignals message hmem).2 (by decide)) rfl rfl, fun socket' hsocket' hready => ?_⟩
    obtain rfl := Option.some.inj (hsocket.symm.trans hsocket')
    cases hready
  | offered message hready hdirect hlt hsocket hbroadcasts hfrom hkind hsignals =>
    refine Or.inr ⟨?_, hready, fun socket' hsocket' => ?_⟩
    · have hoffer : isOffer message = true := beq_iff_eq.2 hkind
      unfold CallChannel.offers
      rw [hbroadcasts, hsignals, List.countP_singleton, hoffer]
      rfl
    · obtain rfl := Option.some.inj (hsocket.symm.trans hsocket')
      exact nofun
  | answered message hreceived hdirect hexpected hsocket hbroadcasts hfrom hkind hsignals =>
    refine Or.inl ⟨hzero (List.forall_mem_singleton.2 (isOffer_false hkind (by decide))) hnil hbroadcasts hsignals,
      fun socket' hsocket' hready => ?_⟩
    obtain rfl := Option.some.inj (hsocket.symm.trans hsocket')
    cases hready
  | relayed message hdirect hsocket hbroadcasts hfrom hkind hsignals =>
    refine Or.inl ⟨hzero (List.forall_mem_singleton.2 (isOffer_not_media hkind)) hnil hbroadcasts hsignals,
      fun socket' hsocket' hready => ?_⟩
    obtain rfl := Option.some.inj (hsocket.symm.trans hsocket')
    exact hready
  | acceptedOffer message hincoming hdirect htarget hready hlt hkind hsocket hbroadcasts hsignals =>
    refine Or.inr ⟨?_, hready, fun socket' hsocket' => ?_⟩
    · have hoffer : isOffer message = true := beq_iff_eq.2 hkind
      unfold CallChannel.offers
      rw [hbroadcasts, hsignals, List.countP_singleton, hoffer]
      rfl
    · obtain rfl := Option.some.inj (hsocket.symm.trans hsocket')
      exact nofun
  | acceptedAnswer message hincoming hdirect htarget hsent hexpected hkind hsocket hbroadcasts hsignals =>
    refine Or.inl ⟨hzero hnil (List.forall_mem_singleton.2 (isOffer_false hkind (by decide))) hbroadcasts hsignals,
      fun socket' hsocket' hready => ?_⟩
    obtain rfl := Option.some.inj (hsocket.symm.trans hsocket')
    cases hready
  | accepted message hincoming hnegotiating hexpected hkind hsocket hbroadcasts hsignals =>
    refine Or.inl ⟨hzero hnil (List.forall_mem_singleton.2 (isOffer_not_media hkind)) hbroadcasts hsignals,
      fun socket' hsocket' hready => ?_⟩
    obtain rfl := Option.some.inj (hsocket.symm.trans hsocket')
    exact hready

/-- An offer that is sent or accepted goes to a peer id that is greater than the one it comes from. -/
theorem Moved.ascending (hmoved : Moved socket incoming handled)
    (hmem : message ∈ handled.broadcasts ∨ message ∈ signals handled) (hoffer : kind message.signal = "offer") :
    termLt message.fromPeerId (some message.targetPeerId) = true := by
  cases hmoved with
  | stopped hsocket hbroadcasts hsignals =>
    rw [hbroadcasts, hsignals] at hmem
    exact (hmem.elim List.not_mem_nil List.not_mem_nil).elim
  | kept hsocket hbroadcasts hsignals =>
    rw [hbroadcasts, hsignals] at hmem
    exact (hmem.elim List.not_mem_nil List.not_mem_nil).elim
  | silenced hsocket hbroadcasts hsignals =>
    rcases hmem with hmem | hmem
    · exact absurd ((hbroadcasts message hmem).1.symm.trans hoffer) (by decide)
    · exact absurd ((hsignals message hmem).2.symm.trans hoffer) (by decide)
  | offered sent hready hdirect hlt hsocket hbroadcasts hfrom hkind hsignals =>
    rw [hbroadcasts, hsignals] at hmem
    obtain rfl := List.mem_singleton.1 (hmem.resolve_right List.not_mem_nil)
    rw [hfrom]
    exact hlt
  | answered sent hreceived hdirect hexpected hsocket hbroadcasts hfrom hkind hsignals =>
    rw [hbroadcasts, hsignals] at hmem
    obtain rfl := List.mem_singleton.1 (hmem.resolve_right List.not_mem_nil)
    exact absurd (hkind.symm.trans hoffer) (by decide)
  | relayed sent hdirect hsocket hbroadcasts hfrom hkind hsignals =>
    rw [hbroadcasts, hsignals] at hmem
    obtain rfl := List.mem_singleton.1 (hmem.resolve_right List.not_mem_nil)
    exact hkind.elim (fun hkind => absurd (hkind.symm.trans hoffer) (by decide))
      fun hkind => absurd (hkind.symm.trans hoffer) (by decide)
  | acceptedOffer received hincoming hdirect htarget hready hlt hkind hsocket hbroadcasts hsignals =>
    rw [hbroadcasts, hsignals] at hmem
    obtain rfl := List.mem_singleton.1 (hmem.resolve_left List.not_mem_nil)
    rw [htarget] at hlt
    exact hlt
  | acceptedAnswer received hincoming hdirect htarget hsent hexpected hkind hsocket hbroadcasts hsignals =>
    rw [hbroadcasts, hsignals] at hmem
    obtain rfl := List.mem_singleton.1 (hmem.resolve_left List.not_mem_nil)
    exact absurd (hkind.symm.trans hoffer) (by decide)
  | accepted received hincoming hnegotiating hexpected hkind hsocket hbroadcasts hsignals =>
    rw [hbroadcasts, hsignals] at hmem
    obtain rfl := List.mem_singleton.1 (hmem.resolve_left List.not_mem_nil)
    exact hkind.elim (fun hkind => absurd (hkind.symm.trans hoffer) (by decide))
      fun hkind => absurd (hkind.symm.trans hoffer) (by decide)

/-- What is pushed is the message that came in. -/
theorem Moved.incoming_of_signal (hmoved : Moved socket incoming handled) (hmem : message ∈ signals handled) :
    incoming = some message := by
  cases hmoved with
  | silenced hsocket hbroadcasts hsignals => exact (hsignals message hmem).1
  | stopped hsocket hbroadcasts hsignals => exact absurd hmem (hsignals ▸ List.not_mem_nil)
  | kept hsocket hbroadcasts hsignals => exact absurd hmem (hsignals ▸ List.not_mem_nil)
  | offered sent hready hdirect hlt hsocket hbroadcasts hfrom hkind hsignals =>
    exact absurd hmem (hsignals ▸ List.not_mem_nil)
  | answered sent hreceived hdirect hexpected hsocket hbroadcasts hfrom hkind hsignals =>
    exact absurd hmem (hsignals ▸ List.not_mem_nil)
  | relayed sent hdirect hsocket hbroadcasts hfrom hkind hsignals => exact absurd hmem (hsignals ▸ List.not_mem_nil)
  | acceptedOffer received hincoming hdirect htarget hready hlt hkind hsocket hbroadcasts hsignals =>
    rw [hsignals] at hmem
    rw [hincoming, List.mem_singleton.1 hmem]
  | acceptedAnswer received hincoming hdirect htarget hsent hexpected hkind hsocket hbroadcasts hsignals =>
    rw [hsignals] at hmem
    rw [hincoming, List.mem_singleton.1 hmem]
  | accepted received hincoming hnegotiating hexpected hkind hsocket hbroadcasts hsignals =>
    rw [hsignals] at hmem
    rw [hincoming, List.mem_singleton.1 hmem]

/-- Other signals of a negotiation are pushed only from the peer that is expected. -/
theorem Moved.from_expected (hmoved : Moved socket incoming handled) (hmem : message ∈ signals handled)
    (hkind : kind message.signal = "answer" ∨ kind message.signal = "ice" ∨ kind message.signal = "media") :
    socket.directExpectedPeerId = message.fromPeerId := by
  have hnot : ∀ {name : String}, kind message.signal = name → name ≠ "answer" → name ≠ "ice" → name ≠ "media" → False := by
    rintro name rfl hanswer hice hmedia
    rcases hkind with h | h | h
    · exact hanswer h
    · exact hice h
    · exact hmedia h
  cases hmoved with
  | stopped hsocket hbroadcasts hsignals =>
    exact absurd hmem (hsignals ▸ List.not_mem_nil)
  | kept hsocket hbroadcasts hsignals =>
    exact absurd hmem (hsignals ▸ List.not_mem_nil)
  | silenced hsocket hbroadcasts hsignals =>
    exact (hnot (hsignals message hmem).2 (by decide) (by decide) (by decide)).elim
  | offered sent hready hdirect hlt hsocket hbroadcasts hfrom hkind hsignals =>
    exact absurd hmem (hsignals ▸ List.not_mem_nil)
  | answered sent hreceived hdirect hexpected hsocket hbroadcasts hfrom hkind hsignals =>
    exact absurd hmem (hsignals ▸ List.not_mem_nil)
  | relayed sent hdirect hsocket hbroadcasts hfrom hkind hsignals =>
    exact absurd hmem (hsignals ▸ List.not_mem_nil)
  | acceptedOffer received hincoming hdirect htarget hready hlt hkind hsocket hbroadcasts hsignals =>
    rw [hsignals] at hmem
    obtain rfl := List.mem_singleton.1 hmem
    exact (hnot hkind (by decide) (by decide) (by decide)).elim
  | acceptedAnswer received hincoming hdirect htarget hsent hexpected hkind hsocket hbroadcasts hsignals =>
    rw [hsignals] at hmem
    obtain rfl := List.mem_singleton.1 hmem
    exact hexpected
  | accepted received hincoming hnegotiating hexpected hkind hsocket hbroadcasts hsignals =>
    rw [hsignals] at hmem
    obtain rfl := List.mem_singleton.1 hmem
    exact hexpected

end KComms.Web.CallChannel
