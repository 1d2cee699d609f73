import Mathlib.Data.List.Nodup

/-!
# The presence of the app participant

The app participant of a call has sessions, which join and leave, and their events come in any order and more than
once.  A call keeps of them the last session, the time of the last event and a session that has joined at that very
time (`Presence`).  When every event has come, the participant should be connected if some session has not left.
-/

namespace KComms.Telephony

structure AppEvent where
  id : String
  sid : String
  leaves : Bool
  occurredAt : Int
  deriving DecidableEq, Repr

/-- A session with its events, and a sid that `require_app_epoch!` takes. -/
structure AppSession where
  sid : String
  bounded : 0 < sid.utf8ByteSize ∧ sid.utf8ByteSize ≤ 200
  joinId : String
  joinedAt : Int
  left : Option (String × Int)
  ordered : ∀ leave ∈ left, joinedAt ≤ leave.2

def AppSession.joinEvent (session : AppSession) : AppEvent := ⟨session.joinId, session.sid, false, session.joinedAt⟩

def AppSession.leaveEvent (session : AppSession) (leave : String × Int) : AppEvent :=
  ⟨leave.1, session.sid, true, leave.2⟩

def AppSession.events (session : AppSession) : List AppEvent :=
  session.joinEvent :: (session.left.map session.leaveEvent).toList

structure AppHistory where
  sessions : List AppSession
  sids : (sessions.map AppSession.sid).Nodup
  ids : ((sessions.flatMap AppSession.events).map AppEvent.id).Nodup

def AppHistory.events (history : AppHistory) : List AppEvent := history.sessions.flatMap AppSession.events

/-! ### What a call keeps -/

structure Presence where
  connected : Bool
  sid : Option String
  eventAt : Option Int
  pendingSid : Option String
  pendingAt : Option Int
  deriving DecidableEq, Repr

namespace Presence

def start : Presence := ⟨false, none, none, none, none⟩

def stale (presence : Presence) (occurredAt : Int) : Bool := presence.eventAt.any (occurredAt < ·)

def joined (closed : String → Bool) (presence : Presence) (sid : String) (occurredAt : Int) : Presence :=
  if presence.stale occurredAt || closed sid then presence
  else if presence.connected && presence.eventAt = some occurredAt && presence.sid ≠ some sid then
    { presence with pendingSid := some sid, pendingAt := some occurredAt }
  else ⟨true, some sid, some occurredAt, none, none⟩

def left (closed : String → Bool) (presence : Presence) (sid : String) (occurredAt : Int) : Presence :=
  if presence.pendingSid = some sid then { presence with pendingSid := none, pendingAt := none }
  else if presence.stale occurredAt || presence.sid ≠ some sid then presence
  else if presence.pendingSid.any (!closed ·) then
    ⟨true, presence.pendingSid, some (presence.pendingAt.elim occurredAt (max occurredAt)), none, none⟩
  else { presence with connected := false, eventAt := some occurredAt }

def apply (closed : String → Bool) (presence : Presence) (event : AppEvent) : Presence :=
  if event.leaves then presence.left closed event.sid event.occurredAt
  else presence.joined closed event.sid event.occurredAt

end Presence

/-- The sessions whose leaving is recorded. -/
def closedEpochs (recorded : List AppEvent) (sid : String) : Bool :=
  recorded.any fun event => event.leaves && event.sid = sid

structure PresenceState where
  presence : Presence
  recorded : List AppEvent
  deriving DecidableEq, Repr

namespace PresenceState

def start : PresenceState := ⟨Presence.start, []⟩

def handle (state : PresenceState) (event : AppEvent) : PresenceState where
  presence := state.presence.apply (closedEpochs (event :: state.recorded)) event
  recorded := event :: state.recorded

/-- An event that is recorded is not handled again. -/
def step (state : PresenceState) (event : AppEvent) : PresenceState :=
  if state.recorded.any (·.id = event.id) then state else state.handle event

def run (state : PresenceState) (events : List AppEvent) : PresenceState := events.foldl step state

end PresenceState

/-! ### What an event can do -/

variable {event : AppEvent} {recorded : List AppEvent}

namespace Presence

variable {closed : String → Bool} {presence : Presence} {sid : String} {occurredAt : Int}

theorem stale_eq_false (h : presence.stale occurredAt = false) {eventAt : Int}
    (hat : presence.eventAt = some eventAt) : eventAt ≤ occurredAt := by
  unfold stale at h
  rw [hat, Option.any_some, decide_eq_false_iff_not] at h
  omega

theorem joined_cases (closed : String → Bool) (presence : Presence) (sid : String) (occurredAt : Int) :
    ((presence.stale occurredAt = true ∨ closed sid = true) ∧ presence.joined closed sid occurredAt = presence) ∨
    (presence.stale occurredAt = false ∧ closed sid = false ∧ presence.connected = true ∧
      presence.eventAt = some occurredAt ∧ presence.sid ≠ some sid ∧ presence.joined closed sid occurredAt =
        { presence with pendingSid := some sid, pendingAt := some occurredAt }) ∨
    (presence.stale occurredAt = false ∧ closed sid = false ∧
      (presence.connected = true → presence.eventAt = some occurredAt → presence.sid = some sid) ∧
      presence.joined closed sid occurredAt = ⟨true, some sid, some occurredAt, none, none⟩) := by
  unfold joined
  by_cases hskip : (presence.stale occurredAt || closed sid) = true
  · rw [if_pos hskip]
    rw [Bool.or_eq_true] at hskip
    exact .inl ⟨hskip, rfl⟩
  · rw [if_neg hskip]
    rw [Bool.or_eq_true, not_or, Bool.not_eq_true, Bool.not_eq_true] at hskip
    split
    · rename_i hpending
      simp only [Bool.and_eq_true, decide_eq_true_eq] at hpending
      exact .inr (.inl ⟨hskip.1, hskip.2, hpending.1.1, hpending.1.2, hpending.2, rfl⟩)
    · rename_i hnew
      refine .inr (.inr ⟨hskip.1, hskip.2, fun hconnected hat => ?_, rfl⟩)
      by_contra hsid
      exact hnew (by simp [hconnected, hat, hsid])

theorem left_cases (closed : String → Bool) (presence : Presence) (sid : String) (occurredAt : Int) :
    (presence.pendingSid = some sid ∧
      presence.left closed sid occurredAt = { presence with pendingSid := none, pendingAt := none }) ∨
    (presence.pendingSid ≠ some sid ∧ (presence.stale occurredAt = true ∨ presence.sid ≠ some sid) ∧
      presence.left closed sid occurredAt = presence) ∨
    (presence.stale occurredAt = false ∧ presence.sid = some sid ∧
      ∃ other, presence.pendingSid = some other ∧ closed other = false ∧ presence.left closed sid occurredAt =
        ⟨true, some other, some (presence.pendingAt.elim occurredAt (max occurredAt)), none, none⟩) ∨
    (presence.pendingSid ≠ some sid ∧ presence.stale occurredAt = false ∧ presence.sid = some sid ∧
      (∀ other, presence.pendingSid = some other → closed other = true) ∧
      presence.left closed sid occurredAt = { presence with connected := false, eventAt := some occurredAt }) := by
  unfold left
  by_cases hpending : presence.pendingSid = some sid
  · rw [if_pos hpending]
    exact .inl ⟨hpending, rfl⟩
  rw [if_neg hpending]
  by_cases hskip : (presence.stale occurredAt || presence.sid ≠ some sid) = true
  · rw [if_pos hskip]
    simp only [Bool.or_eq_true, decide_eq_true_eq] at hskip
    exact .inr (.inl ⟨hpending, hskip, rfl⟩)
  rw [if_neg hskip]
  simp only [Bool.or_eq_true, decide_eq_true_eq, not_or, Bool.not_eq_true, not_not] at hskip
  obtain ⟨hstale, hsid⟩ := hskip
  cases hother : presence.pendingSid with
  | none =>
    refine .inr (.inr (.inr ⟨?_, hstale, hsid, ?_, rfl⟩))
    · intro hother
      cases hother
    · intro other hother
      cases hother
  | some other =>
    cases hclosed : closed other with
    | false =>
      refine .inr (.inr (.inl ⟨hstale, hsid, other, rfl, hclosed, ?_⟩))
      rw [Option.any_some, hclosed, Bool.not_false, if_pos rfl]
    | true =>
      refine .inr (.inr (.inr ⟨?_, hstale, hsid, ?_, ?_⟩))
      · rw [← hother]
        exact hpending
      · intro other' hother'
        cases hother'
        exact hclosed
      · rw [Option.any_some, hclosed, Bool.not_true, if_neg Bool.false_ne_true]

end Presence

/-! ### Recorded events -/

theorem closedEpochs_cons_join (hjoin : event.leaves = false) :
    closedEpochs (event :: recorded) = closedEpochs recorded := by
  funext sid
  unfold closedEpochs
  rw [List.any_cons, hjoin, Bool.false_and, Bool.false_or]

theorem closedEpochs_cons_other {sid : String}
    (hother : event.sid ≠ sid) : closedEpochs (event :: recorded) sid = closedEpochs recorded sid := by
  unfold closedEpochs
  rw [List.any_cons, decide_eq_false hother, Bool.and_false, Bool.false_or]

namespace AppHistory

variable {history : AppHistory} {session other : AppSession} {leave : String × Int}

theorem joinEvent_mem (h : session ∈ history.sessions) : session.joinEvent ∈ history.events := by
  unfold events
  rw [List.mem_flatMap]
  exact ⟨session, h, List.mem_cons_self⟩

theorem leaveEvent_mem (h : session ∈ history.sessions) (hleft : session.left = some leave) :
    session.leaveEvent leave ∈ history.events := by
  unfold events
  rw [List.mem_flatMap]
  refine ⟨session, h, List.mem_cons_of_mem _ ?_⟩
  rw [hleft]
  exact List.mem_singleton_self _

theorem mem_events (h : event ∈ history.events) : ∃ session ∈ history.sessions,
    event = session.joinEvent ∨ ∃ leave, session.left = some leave ∧ event = session.leaveEvent leave := by
  unfold events at h
  rw [List.mem_flatMap] at h
  obtain ⟨session, hsession, h⟩ := h
  refine ⟨session, hsession, ?_⟩
  unfold AppSession.events at h
  rw [List.mem_cons, Option.mem_toList, Option.map_eq_some_iff] at h
  rcases h with hjoin | ⟨leave, hleft, hevent⟩
  · exact .inl hjoin
  · exact .inr ⟨leave, hleft, hevent.symm⟩

theorem session_eq (h : session ∈ history.sessions) (hother : other ∈ history.sessions)
    (hsid : session.sid = other.sid) : session = other :=
  List.inj_on_of_nodup_map history.sids h hother hsid

theorem event_eq {event' : AppEvent} (h : event ∈ history.events) (h' : event' ∈ history.events)
    (hid : event.id = event'.id) : event = event' :=
  List.inj_on_of_nodup_map history.ids h h' hid

/-- Only the event of its leaving closes a session. -/
theorem closed_iff (hrecorded : ∀ event ∈ recorded, event ∈ history.events) (h : session ∈ history.sessions) :
    closedEpochs recorded session.sid = true ↔
      ∃ leave, session.left = some leave ∧ session.leaveEvent leave ∈ recorded := by
  unfold closedEpochs
  rw [List.any_eq_true]
  constructor
  · rintro ⟨event, hevent, hleaves⟩
    rw [Bool.and_eq_true, decide_eq_true_eq] at hleaves
    obtain ⟨other, hother, rfl | ⟨leave, hleft, rfl⟩⟩ := mem_events (hrecorded event hevent)
    · cases hleaves.1
    · obtain rfl := session_eq hother h hleaves.2
      exact ⟨leave, hleft, hevent⟩
  · rintro ⟨leave, hleft, hevent⟩
    refine ⟨_, hevent, ?_⟩
    simp [AppSession.leaveEvent]

theorem not_closed_of_open (hrecorded : ∀ event ∈ recorded, event ∈ history.events) (h : session ∈ history.sessions)
    (hopen : session.left = none) : closedEpochs recorded session.sid = false := by
  rw [Bool.eq_false_iff]
  intro hclosed
  rw [closed_iff hrecorded h, hopen] at hclosed
  obtain ⟨leave, hleft, -⟩ := hclosed
  cases hleft

end AppHistory

/-! ### What every order keeps -/

/-- A participant who is connected is so in some session; a session that waits to take over is another one, has joined
at the time of the last event, and has not left. -/
structure PresenceSound (history : AppHistory) (state : PresenceState) : Prop where
  recorded : ∀ event ∈ state.recorded, event ∈ history.events
  current : state.presence.connected = true → ∃ session ∈ history.sessions, state.presence.sid = some session.sid
  pending : ∀ sid, state.presence.pendingSid = some sid →
    state.presence.connected = true ∧ state.presence.sid ≠ some sid ∧ ∃ session ∈ history.sessions,
      session.sid = sid ∧ closedEpochs state.recorded sid = false ∧
        state.presence.eventAt = some session.joinedAt ∧ state.presence.pendingAt = some session.joinedAt

theorem presenceSound_start (history : AppHistory) : PresenceSound history PresenceState.start where
  recorded := List.forall_mem_nil _
  current := by
    intro h
    cases h
  pending := by
    intro sid h
    cases h

/-- What an event of a session can do. -/
inductive PresenceChange (history : AppHistory) (state : PresenceState) : AppEvent → Presence → Prop
  | joinIgnored {session} (known : session ∈ history.sessions)
    (ignored : state.presence.stale session.joinedAt = true ∨ closedEpochs state.recorded session.sid = true) :
    PresenceChange history state session.joinEvent state.presence
  | waits {session} (known : session ∈ history.sessions) (opened : closedEpochs state.recorded session.sid = false)
    (connected : state.presence.connected = true) (sameTime : state.presence.eventAt = some session.joinedAt)
    (other : state.presence.sid ≠ some session.sid) :
    PresenceChange history state session.joinEvent
      { state.presence with pendingSid := some session.sid, pendingAt := some session.joinedAt }
  | takes {session} (known : session ∈ history.sessions) (recent : state.presence.stale session.joinedAt = false)
    (opened : closedEpochs state.recorded session.sid = false)
    (alone : state.presence.connected = true → state.presence.eventAt = some session.joinedAt →
      state.presence.sid = some session.sid) :
    PresenceChange history state session.joinEvent ⟨true, some session.sid, some session.joinedAt, none, none⟩
  | stops {session leave} (known : session ∈ history.sessions) (left : session.left = some leave)
    (waiting : state.presence.pendingSid = some session.sid) :
    PresenceChange history state (session.leaveEvent leave)
      { state.presence with pendingSid := none, pendingAt := none }
  | leaveIgnored {session leave} (known : session ∈ history.sessions) (left : session.left = some leave)
    (notWaiting : state.presence.pendingSid ≠ some session.sid)
    (ignored : state.presence.stale leave.2 = true ∨ state.presence.sid ≠ some session.sid) :
    PresenceChange history state (session.leaveEvent leave) state.presence
  | promotes {session leave other} (known : session ∈ history.sessions) (left : session.left = some leave)
    (recent : state.presence.stale leave.2 = false) (current : state.presence.sid = some session.sid)
    (knownOther : other ∈ history.sessions) (waiting : state.presence.pendingSid = some other.sid)
    (opened : closedEpochs (session.leaveEvent leave :: state.recorded) other.sid = false)
    (sameTime : state.presence.eventAt = some other.joinedAt) :
    PresenceChange history state (session.leaveEvent leave)
      ⟨true, some other.sid, some (max leave.2 other.joinedAt), none, none⟩
  | disconnects {session leave} (known : session ∈ history.sessions) (left : session.left = some leave)
    (recent : state.presence.stale leave.2 = false) (current : state.presence.sid = some session.sid)
    (nobody : state.presence.pendingSid = none) :
    PresenceChange history state (session.leaveEvent leave)
      { state.presence with connected := false, eventAt := some leave.2 }

section

variable {history : AppHistory} {state : PresenceState}

private theorem handle_joined (state : PresenceState) {session : AppSession} (h : session ∈ history.sessions) :
    PresenceChange history state session.joinEvent (state.handle session.joinEvent).presence := by
  have hclosed : closedEpochs (session.joinEvent :: state.recorded) = closedEpochs state.recorded :=
    closedEpochs_cons_join rfl
  show PresenceChange history state session.joinEvent
    (state.presence.joined (closedEpochs (session.joinEvent :: state.recorded)) session.sid session.joinedAt)
  rw [hclosed]
  rcases Presence.joined_cases (closedEpochs state.recorded) state.presence session.sid session.joinedAt with
    ⟨hignored, hsame⟩ | ⟨-, hopen, hconnected, hat, hother, hwaits⟩ | ⟨hrecent, hopen, halone, htakes⟩
  · rw [hsame]
    exact .joinIgnored h hignored
  · rw [hwaits]
    exact .waits h hopen hconnected hat hother
  · rw [htakes]
    exact .takes h hrecent hopen halone

private theorem pending_kept (sound : PresenceSound history state) {session : AppSession} {leave : String × Int}
    (hother : state.presence.pendingSid ≠ some session.sid) {sid : String}
    (hsid : state.presence.pendingSid = some sid) :
    closedEpochs (session.leaveEvent leave :: state.recorded) sid = false := by
  obtain ⟨-, -, -, -, -, hopen, -⟩ := sound.pending sid hsid
  rw [closedEpochs_cons_other, hopen]
  rintro rfl
  exact hother hsid

private theorem handle_left (sound : PresenceSound history state) {session : AppSession}
    (h : session ∈ history.sessions) {leave : String × Int} (hleft : session.left = some leave) :
    PresenceChange history state (session.leaveEvent leave) (state.handle (session.leaveEvent leave)).presence := by
  show PresenceChange history state (session.leaveEvent leave)
    (state.presence.left (closedEpochs (session.leaveEvent leave :: state.recorded)) session.sid leave.2)
  rcases Presence.left_cases (closedEpochs (session.leaveEvent leave :: state.recorded)) state.presence session.sid
    leave.2 with ⟨hwaiting, hstops⟩ | ⟨hother, hignored, hsame⟩ | ⟨hrecent, hsid, other, hother, hopen, hpromotes⟩ |
      ⟨hother, hrecent, hsid, hall, hgone⟩
  · rw [hstops]
    exact .stops h hleft hwaiting
  · rw [hsame]
    exact .leaveIgnored h hleft hother hignored
  · obtain ⟨-, -, session', hsession', rfl, -, hat, hpendingAt⟩ := sound.pending other hother
    rw [hpromotes, hpendingAt]
    exact .promotes h hleft hrecent hsid hsession' hother hopen hat
  · have hnobody : state.presence.pendingSid = none := by
      cases hpending : state.presence.pendingSid with
      | none => rfl
      | some sid =>
        have hopen : closedEpochs (session.leaveEvent leave :: state.recorded) sid = false :=
          pending_kept sound hother hpending
        rw [hall sid hpending] at hopen
        cases hopen
    rw [hgone]
    exact .disconnects h hleft hrecent hsid hnobody

theorem handle_change (sound : PresenceSound history state) (hevent : event ∈ history.events) :
    PresenceChange history state event (state.handle event).presence := by
  obtain ⟨session, hsession, rfl | ⟨leave, hleft, rfl⟩⟩ := AppHistory.mem_events hevent
  · exact handle_joined state hsession
  · exact handle_left sound hsession hleft

theorem PresenceSound.handle (sound : PresenceSound history state)
    (hevent : event ∈ history.events) : PresenceSound history (state.handle event) := by
  have hchange := handle_change sound hevent
  have hrecorded : ∀ other ∈ (state.handle event).recorded, other ∈ history.events := by
    show ∀ other ∈ event :: state.recorded, other ∈ history.events
    rw [List.forall_mem_cons]
    exact ⟨hevent, sound.recorded⟩
  have hkept : event.leaves = false → closedEpochs (state.handle event).recorded = closedEpochs state.recorded :=
    closedEpochs_cons_join
  refine ⟨hrecorded, ?_, ?_⟩
  · generalize (state.handle event).presence = presence' at hchange
    cases hchange with
    | takes known recent opened alone => exact fun _ => ⟨_, known, rfl⟩
    | promotes known left recent current knownOther waiting opened sameTime => exact fun _ => ⟨_, knownOther, rfl⟩
    | disconnects known left recent current nobody =>
      intro hconnected
      cases hconnected
    | _ => exact sound.current
  · generalize (state.handle event).presence = presence' at hchange
    cases hchange with
    | joinIgnored known ignored =>
      rw [hkept rfl]
      exact sound.pending
    | waits known opened connected sameTime other =>
      rw [hkept rfl]
      intro sid hsid
      cases hsid
      exact ⟨connected, other, _, known, rfl, opened, sameTime, rfl⟩
    | leaveIgnored known left notWaiting ignored =>
      intro sid hsid
      obtain ⟨hconnected, hother, session', hsession', hsid', -, htimes⟩ := sound.pending sid hsid
      exact ⟨hconnected, hother, session', hsession', hsid', pending_kept sound notWaiting hsid, htimes⟩
    | disconnects known left recent current nobody =>
      intro sid hsid
      rw [nobody] at hsid
      cases hsid
    | _ =>
      intro sid hsid
      cases hsid

end

/-- An invariant that every new event keeps holds after any events. -/
theorem run_presence {history : AppHistory} {Inv : PresenceState → Prop} {state : PresenceState} (hstart : Inv state)
    (hnew : ∀ state event, Inv state → event ∈ history.events → event ∉ state.recorded → Inv (state.handle event))
    {events : List AppEvent} (hevents : ∀ event ∈ events, event ∈ history.events) : Inv (state.run events) := by
  induction events generalizing state with
  | nil => exact hstart
  | cons event events ih =>
    rw [List.forall_mem_cons] at hevents
    refine ih ?_ hevents.2
    unfold PresenceState.step
    split
    · exact hstart
    · rename_i hfresh
      refine hnew state event hstart hevents.1 fun hrecorded => hfresh ?_
      rw [List.any_eq_true]
      exact ⟨event, hrecorded, by simp⟩

/-- The events of a run are recorded. -/
theorem run_recorded {history : AppHistory} {state : PresenceState}
    (hrecorded : ∀ event ∈ state.recorded, event ∈ history.events) {events : List AppEvent}
    (hevents : ∀ event ∈ events, event ∈ history.events) :
    state.recorded ⊆ (state.run events).recorded ∧ ∀ event ∈ events, event ∈ (state.run events).recorded := by
  induction events generalizing state with
  | nil => exact ⟨List.Subset.refl _, List.forall_mem_nil _⟩
  | cons event events ih =>
    rw [List.forall_mem_cons] at hevents
    have hstep : (state.step event).recorded = state.recorded ∧ event ∈ state.recorded ∨
        (state.step event).recorded = event :: state.recorded := by
      unfold PresenceState.step
      split
      · rename_i hseen
        rw [List.any_eq_true] at hseen
        obtain ⟨other, hother, hid⟩ := hseen
        rw [decide_eq_true_eq] at hid
        obtain rfl := AppHistory.event_eq (hrecorded other hother) hevents.1 hid
        exact .inl ⟨rfl, hother⟩
      · exact .inr rfl
    have hknown : ∀ other ∈ (state.step event).recorded, other ∈ history.events := by
      rcases hstep with ⟨hsame, -⟩ | hnew
      · rw [hsame]
        exact hrecorded
      · rw [hnew, List.forall_mem_cons]
        exact ⟨hevents.1, hrecorded⟩
    obtain ⟨hsubset, hall⟩ := ih hknown hevents.2
    have hstepped : state.recorded ⊆ (state.step event).recorded ∧ event ∈ (state.step event).recorded := by
      rcases hstep with ⟨hsame, hmem⟩ | hnew
      · rw [hsame]
        exact ⟨List.Subset.refl _, hmem⟩
      · rw [hnew]
        exact ⟨List.subset_cons_self _ _, List.mem_cons_self⟩
    refine ⟨List.Subset.trans hstepped.1 hsubset, ?_⟩
    rw [List.forall_mem_cons]
    exact ⟨hsubset hstepped.2, hall⟩

end KComms.Telephony
