import KComms.Telephony.AppPresence
import Mathlib.Data.Set.Finite.Lemmas
import Mathlib.Data.Set.Finite.List

/-!
# Histories that end the same in every order

An event is taken to be old if it is older than the last one that was handled, though it may be of another session.
`AppHistory.Settles` says for which histories this does no harm.
-/

namespace KComms.Telephony

/-! ### When every order ends the same -/

namespace AppHistory

/-- Sessions take over from one another: the next one has joined at the time of the last event, and the current one
leaves no earlier.  Given are the current session, the time of the last event, and the sessions that had their turn. -/
inductive Relay (history : AppHistory) : AppSession → Int → List AppSession → Prop
  | first {session} (known : session ∈ history.sessions) : Relay history session session.joinedAt [session]
  | next {session eventAt used leave other} (relay : Relay history session eventAt used)
    (left : session.left = some leave) (recent : eventAt ≤ leave.2) (known : other ∈ history.sessions)
    (joined : other.joinedAt = eventAt) (new : other ∉ used) : Relay history other leave.2 (other :: used)

/-- `last` is open, has joined last, and no session leaves later. -/
structure LastOpen (history : AppHistory) (last : AppSession) : Prop where
  known : last ∈ history.sessions
  opened : last.left = none
  joins : ∀ session ∈ history.sessions, session.left = none → session.joinedAt ≤ last.joinedAt
  leaves : ∀ session ∈ history.sessions, ∀ leave, session.left = some leave → leave.2 ≤ last.joinedAt

/-- A relay that ends with a session that leaves when the last open one joins has used all the other sessions that have
joined and left at that time. -/
def RelaysUseAll (history : AppHistory) (last : AppSession) : Prop :=
  ∀ session used leave, history.Relay session last.joinedAt used → session.left = some leave →
    leave.2 = last.joinedAt → ∀ other ∈ history.sessions, other.left ≠ none → other.joinedAt = last.joinedAt →
      other ∈ used

/-- All sessions that have joined together have left together. -/
def LeaveTogether (history : AppHistory) : Prop :=
  ∀ session ∈ history.sessions, ∀ other ∈ history.sessions, session.joinedAt = other.joinedAt →
    ∀ leave leave', session.left = some leave → other.left = some leave' → leave.2 = leave'.2

/-- Either some session is open, and none leaves after the last of them has joined, nor in a relay at that time, or all
have left, and those that have joined together have left together. -/
def Settles (history : AppHistory) : Prop :=
  (∃ last, history.LastOpen last ∧ history.RelaysUseAll last) ∨
    (∀ session ∈ history.sessions, session.left ≠ none) ∧ history.LeaveTogether

/-- The events come in an order, each at least once. -/
def Delivered (history : AppHistory) (events : List AppEvent) : Prop := ∀ event, event ∈ events ↔ event ∈ history.events

/-- Some session has joined and not left. -/
def Present (history : AppHistory) : Prop := ∃ session ∈ history.sessions, session.left = none

/-- In the end the participant is connected just when the history says so. -/
def Converges (history : AppHistory) : Prop :=
  ∀ events, history.Delivered events →
    ((PresenceState.start.run events).presence.connected = true ↔ history.Present)

theorem Delivered.sound {history : AppHistory} {events : List AppEvent} (h : history.Delivered events) :
    PresenceSound history (PresenceState.start.run events) :=
  run_presence (presenceSound_start history) (fun _ _ sound hevent _ => sound.handle hevent) fun event => (h event).1

theorem Delivered.recorded {history : AppHistory} {events : List AppEvent} (h : history.Delivered events)
    {event : AppEvent} (hevent : event ∈ history.events) :
    event ∈ (PresenceState.start.run events).recorded :=
  (run_recorded (List.forall_mem_nil _) fun event => (h event).1).2 event ((h event).2 hevent)

end AppHistory

/-! ### All sessions have left -/

/-- A participant is connected in a session that has yet to leave. -/
private structure PresenceLeaving (history : AppHistory) (state : PresenceState) : Prop where
  sound : PresenceSound history state
  leaving : state.presence.connected = true → ∃ session ∈ history.sessions, ∃ leave, session.left = some leave ∧
    state.presence.sid = some session.sid ∧ closedEpochs state.recorded session.sid = false ∧
      (state.presence.eventAt = some session.joinedAt ∨ state.presence.eventAt = some leave.2)

variable {history : AppHistory} {last session : AppSession} {state : PresenceState} {event : AppEvent}
  {events : List AppEvent}

private theorem PresenceLeaving.handle (hleft : ∀ session ∈ history.sessions, session.left ≠ none)
    (hsame : history.LeaveTogether)
    (inv : PresenceLeaving history state) (hevent : event ∈ history.events) :
    PresenceLeaving history (state.handle event) := by
  have hchange := handle_change inv.sound hevent
  refine ⟨inv.sound.handle hevent, ?_⟩
  have hkept : event.leaves = false → closedEpochs (state.handle event).recorded = closedEpochs state.recorded :=
    closedEpochs_cons_join
  generalize (state.handle event).presence = presence' at hchange
  cases hchange with
  | joinIgnored known ignored =>
    rw [hkept rfl]
    exact inv.leaving
  | waits known opened connected sameTime other =>
    rw [hkept rfl]
    exact inv.leaving
  | @takes session known recent opened alone =>
    rw [hkept rfl]
    obtain ⟨leave, hleave⟩ := Option.ne_none_iff_exists'.mp (hleft session known)
    exact fun _ => ⟨session, known, leave, hleave, rfl, opened, .inl rfl⟩
  | @stops session leave known left waiting =>
    intro hconnected
    obtain ⟨current, hcurrent, leave', hleave', hsid, hopen, hat⟩ := inv.leaving hconnected
    obtain ⟨-, hother, -⟩ := inv.sound.pending _ waiting
    refine ⟨current, hcurrent, leave', hleave', hsid, ?_, hat⟩
    refine (closedEpochs_cons_other ?_).trans hopen
    intro heq
    rw [show session.sid = current.sid from heq] at hother
    exact hother hsid
  | @leaveIgnored session leave known left notWaiting ignored =>
    intro hconnected
    obtain ⟨current, hcurrent, leave', hleave', hsid, hopen, hat⟩ := inv.leaving hconnected
    refine ⟨current, hcurrent, leave', hleave', hsid, ?_, hat⟩
    refine (closedEpochs_cons_other ?_).trans hopen
    intro heq
    -- The current session would leave before the last event, which was one of its own.
    obtain rfl := AppHistory.session_eq known hcurrent heq
    rw [left] at hleave'
    cases hleave'
    have hordered := session.ordered leave left
    have hstale := ignored.resolve_right (not_not_intro hsid)
    unfold Presence.stale at hstale
    rcases hat with hat | hat <;> rw [hat, Option.any_some, decide_eq_true_eq] at hstale <;> omega
  | @promotes session leave other known left recent current knownOther waiting opened sameTime =>
    intro _
    obtain ⟨hconnected, -⟩ := inv.sound.pending _ waiting
    obtain ⟨session', hsession', leave', hleave', hsid, -, hat⟩ := inv.leaving hconnected
    rw [current, Option.some_inj] at hsid
    obtain rfl := AppHistory.session_eq known hsession' hsid
    rw [left] at hleave'
    cases hleave'
    obtain ⟨leaveOther, hleaveOther⟩ := Option.ne_none_iff_exists'.mp (hleft other knownOther)
    refine ⟨other, knownOther, leaveOther, hleaveOther, rfl, opened, ?_⟩
    have hordered := session.ordered leave left
    rw [sameTime, Option.some_inj, Option.some_inj] at hat
    rcases hat with hjoined | hleaves
    · have hleave := hsame session known other knownOther hjoined.symm leave leaveOther left hleaveOther
      right
      show some (max leave.2 other.joinedAt) = some leaveOther.2
      rw [← hleave, hjoined, max_eq_left hordered]
    · left
      show some (max leave.2 other.joinedAt) = some other.joinedAt
      rw [hleaves, max_self]
  | disconnects known left recent current nobody =>
    intro hconnected
    cases hconnected

private theorem disconnected_of_left (hdelivered : history.Delivered events)
    (hleft : ∀ session ∈ history.sessions, session.left ≠ none) (hsame : history.LeaveTogether) :
    (PresenceState.start.run events).presence.connected = false := by
  have hstart : PresenceLeaving history PresenceState.start := by
    refine ⟨presenceSound_start history, fun hconnected => ?_⟩
    cases hconnected
  have inv := run_presence hstart (fun _ _ inv hevent _ => inv.handle hleft hsame hevent) fun event =>
    (hdelivered event).1
  rw [Bool.eq_false_iff]
  intro hconnected
  obtain ⟨session, hsession, leave, hleave, -, hopen, -⟩ := inv.leaving hconnected
  have hrecorded := hdelivered.recorded (AppHistory.leaveEvent_mem hsession hleave)
  have hclosed := (AppHistory.closed_iff hdelivered.sound.recorded hsession).mpr ⟨leave, hleave, hrecorded⟩
  rw [hopen] at hclosed
  cases hclosed

/-! ### A last session is open -/

/-- No event is later than the joining of the last session.  The current session is the last of a relay, whose sessions
have had their turn, unlike one that waits.  Once the last session has joined, the participant is connected, and while
the current session could still leave, an open one waits. -/
private structure PresenceStaying (history : AppHistory) (last : AppSession) (state : PresenceState) : Prop where
  sound : PresenceSound history state
  bound : ∀ eventAt, state.presence.eventAt = some eventAt → eventAt ≤ last.joinedAt
  relay : state.presence.connected = true → ∃ session used eventAt, history.Relay session eventAt used ∧
    state.presence.sid = some session.sid ∧ state.presence.eventAt = some eventAt ∧
      (∀ other ∈ used, other.joinEvent ∈ state.recorded) ∧
        ∀ other ∈ history.sessions, state.presence.pendingSid = some other.sid →
          other.joinEvent ∈ state.recorded ∧ other ∉ used
  stays : last.joinEvent ∈ state.recorded → state.presence.connected = true ∧
    state.presence.eventAt = some last.joinedAt ∧ ∀ session ∈ history.sessions, state.presence.sid = some session.sid →
      ∀ leave, session.left = some leave → leave.2 < last.joinedAt ∨
        ∃ other ∈ history.sessions, other.left = none ∧ state.presence.pendingSid = some other.sid

theorem relay_known {eventAt : Int} {used : List AppSession}
    (h : history.Relay session eventAt used) : session ∈ history.sessions ∧ session ∈ used := by
  cases h with
  | first known => exact ⟨known, List.mem_singleton_self _⟩
  | next relay left recent known joined new => exact ⟨known, List.mem_cons_self⟩

theorem relay_used {eventAt : Int} {used : List AppSession}
    (h : history.Relay session eventAt used) : ∀ other ∈ used, other ∈ history.sessions := by
  induction h with
  | first known =>
    rw [List.forall_mem_singleton]
    exact known
  | next relay left recent known joined new ih =>
    rw [List.forall_mem_cons]
    exact ⟨known, ih⟩

theorem lastOpen_joinedAt_le (hlast : history.LastOpen last)
    (h : session ∈ history.sessions) : session.joinedAt ≤ last.joinedAt := by
  cases hleft : session.left with
  | none => exact hlast.joins session h hleft
  | some leave =>
    have hleave := hlast.leaves session h leave hleft
    have hordered := session.ordered leave hleft
    omega

theorem joinEvent_inj {other : AppSession} (h : session ∈ history.sessions) (hother : other ∈ history.sessions)
    (heq : session.joinEvent = other.joinEvent) : session = other :=
  AppHistory.session_eq h hother (congrArg AppEvent.sid heq)

private theorem PresenceStaying.bound_handle (hlast : history.LastOpen last) (inv : PresenceStaying history last state)
    (hevent : event ∈ history.events) (eventAt : Int) (hat : (state.handle event).presence.eventAt = some eventAt) :
    eventAt ≤ last.joinedAt := by
  have hchange := handle_change inv.sound hevent
  generalize (state.handle event).presence = presence' at hchange hat
  cases hchange with
  | takes known recent opened alone =>
    cases hat
    exact lastOpen_joinedAt_le hlast known
  | @promotes session leave other known left recent current knownOther waiting opened sameTime =>
    cases hat
    have hleave := hlast.leaves session known leave left
    have hother := lastOpen_joinedAt_le hlast knownOther
    omega
  | @disconnects session leave known left recent current nobody =>
    cases hat
    exact hlast.leaves session known leave left
  | _ => exact inv.bound eventAt hat

private theorem PresenceStaying.relay_handle (inv : PresenceStaying history last state)
    (hevent : event ∈ history.events) (hfresh : event ∉ state.recorded)
    (hconnected : (state.handle event).presence.connected = true) :
    ∃ session used eventAt, history.Relay session eventAt used ∧
      (state.handle event).presence.sid = some session.sid ∧
        (state.handle event).presence.eventAt = some eventAt ∧
          (∀ other ∈ used, other.joinEvent ∈ (state.handle event).recorded) ∧
            ∀ other ∈ history.sessions, (state.handle event).presence.pendingSid = some other.sid →
              other.joinEvent ∈ (state.handle event).recorded ∧ other ∉ used := by
  have hchange := handle_change inv.sound hevent
  have hrecorded : ∀ other, other ∈ state.recorded → other ∈ (state.handle event).recorded :=
    fun other hother => List.mem_cons_of_mem event hother
  have hnew : event ∈ (state.handle event).recorded := List.mem_cons_self
  generalize (state.handle event).presence = presence' at hchange hconnected
  generalize (state.handle event).recorded = recorded' at hrecorded hnew
  -- Events that leave the current session alone, with nothing new that waits.
  have hkept : state.presence.connected = true → ∃ session used eventAt, history.Relay session eventAt used ∧
      state.presence.sid = some session.sid ∧ state.presence.eventAt = some eventAt ∧
        (∀ other ∈ used, other.joinEvent ∈ recorded') ∧ ∀ other ∈ history.sessions,
          state.presence.pendingSid = some other.sid → other.joinEvent ∈ recorded' ∧ other ∉ used := by
    intro hbefore
    obtain ⟨session, used, eventAt, hrelay, hsid, hat, hused, hpending⟩ := inv.relay hbefore
    refine ⟨session, used, eventAt, hrelay, hsid, hat, fun other hother => hrecorded _ (hused other hother), ?_⟩
    intro other hother hwaits
    obtain ⟨hjoined, hunused⟩ := hpending other hother hwaits
    exact ⟨hrecorded _ hjoined, hunused⟩
  cases hchange with
  | joinIgnored known ignored => exact hkept hconnected
  | @waits session known opened connected sameTime other =>
    obtain ⟨session', used, eventAt, hrelay, hsid, hat, hused, -⟩ := inv.relay connected
    refine ⟨session', used, eventAt, hrelay, hsid, hat, fun other hother => hrecorded _ (hused other hother), ?_⟩
    intro other hother hwaits
    obtain rfl := AppHistory.session_eq known hother (Option.some_inj.mp hwaits)
    exact ⟨hnew, fun hmem => hfresh (hused _ hmem)⟩
  | @takes session known recent opened alone =>
    refine ⟨session, [session], session.joinedAt, .first known, rfl, rfl, ?_, ?_⟩
    · intro other hother
      rw [List.mem_singleton] at hother
      rw [hother]
      exact hnew
    · intro other hother hwaits
      cases hwaits
  | stops known left waiting =>
    obtain ⟨session', used, eventAt, hrelay, hsid, hat, hused, -⟩ := hkept hconnected
    refine ⟨session', used, eventAt, hrelay, hsid, hat, hused, ?_⟩
    intro other hother hwaits
    cases hwaits
  | leaveIgnored known left notWaiting ignored => exact hkept hconnected
  | @promotes session leave other known left recent current knownOther waiting opened sameTime =>
    obtain ⟨session', used, eventAt, hrelay, hsid, hat, hused, hpending⟩ :=
      hkept (inv.sound.pending _ waiting).1
    obtain rfl := AppHistory.session_eq known (relay_known hrelay).1 (Option.some_inj.mp (current.symm.trans hsid))
    obtain ⟨hjoined, hunused⟩ := hpending other knownOther waiting
    have hearlier := Presence.stale_eq_false recent hat
    have htime : other.joinedAt = eventAt := Option.some_inj.mp (sameTime.symm.trans hat)
    refine ⟨other, other :: used, leave.2, .next hrelay left hearlier knownOther htime hunused, rfl, ?_, ?_, ?_⟩
    · show some (max leave.2 other.joinedAt) = some leave.2
      rw [htime, max_eq_left hearlier]
    · rw [List.forall_mem_cons]
      exact ⟨hjoined, hused⟩
    · intro other' hother' hwaits
      cases hwaits
  | disconnects known left recent current nobody => cases hconnected

/-- Once the last session has joined, no other event can be older. -/
private theorem PresenceStaying.joined_now (hlast : history.LastOpen last) (inv : PresenceStaying history last state)
    (h : session ∈ history.sessions) (hrecent : state.presence.stale session.joinedAt = false)
    (hrecorded : last.joinEvent ∈ session.joinEvent :: state.recorded) : session.joinedAt = last.joinedAt := by
  rw [List.mem_cons] at hrecorded
  rcases hrecorded with heq | hrecorded
  · rw [joinEvent_inj h hlast.known heq.symm]
  · have hle := Presence.stale_eq_false hrecent (inv.stays hrecorded).2.1
    have hjoined := lastOpen_joinedAt_le hlast h
    omega

private theorem PresenceStaying.stays_handle (hlast : history.LastOpen last) (hrelays : history.RelaysUseAll last)
    (inv : PresenceStaying history last state) (hevent : event ∈ history.events) (hfresh : event ∉ state.recorded)
    (hrecorded : last.joinEvent ∈ (state.handle event).recorded) :
    (state.handle event).presence.connected = true ∧ (state.handle event).presence.eventAt = some last.joinedAt ∧
      ∀ session ∈ history.sessions, (state.handle event).presence.sid = some session.sid →
        ∀ leave, session.left = some leave → leave.2 < last.joinedAt ∨
          ∃ other ∈ history.sessions, other.left = none ∧
            (state.handle event).presence.pendingSid = some other.sid := by
  have hchange := handle_change inv.sound hevent
  have hbefore : event.leaves = true → last.joinEvent ∈ state.recorded := by
    intro hleaves
    refine List.mem_of_ne_of_mem ?_ hrecorded
    rintro rfl
    cases hleaves
  generalize (state.handle event).presence = presence' at hchange
  cases hchange with
  | @joinIgnored session known ignored =>
    refine inv.stays (List.mem_of_ne_of_mem ?_ hrecorded)
    intro heq
    obtain rfl := joinEvent_inj hlast.known known heq
    rcases ignored with hstale | hclosed
    · unfold Presence.stale at hstale
      rw [Option.any_eq_true] at hstale
      obtain ⟨eventAt, hat, hlate⟩ := hstale
      have hbound := inv.bound eventAt hat
      rw [decide_eq_true_eq] at hlate
      omega
    · rw [AppHistory.not_closed_of_open inv.sound.recorded known hlast.opened] at hclosed
      cases hclosed
  | @waits session known opened connected sameTime other =>
    have hrecent : state.presence.stale session.joinedAt = false := by
      unfold Presence.stale
      rw [sameTime, Option.any_some, decide_eq_false_iff_not]
      omega
    have hnow := inv.joined_now hlast known hrecent hrecorded
    refine ⟨connected, sameTime.trans (congrArg some hnow), fun current hcurrent hsid leave hleave => ?_⟩
    by_cases hearly : leave.2 < last.joinedAt
    · exact .inl hearly
    have hleaveNow : leave.2 = last.joinedAt := by
      have := hlast.leaves current hcurrent leave hleave
      omega
    refine .inr ⟨session, known, ?_, rfl⟩
    -- A session that has left would have had its turn.
    by_contra hleft
    obtain ⟨current', used, eventAt, hrelay, hsid', hat, hused, -⟩ := inv.relay connected
    obtain rfl := AppHistory.session_eq (relay_known hrelay).1 hcurrent (Option.some_inj.mp (hsid'.symm.trans hsid))
    obtain rfl : last.joinedAt = eventAt := by
      rw [← hnow]
      exact Option.some_inj.mp (sameTime.symm.trans hat)
    exact hfresh (hused session (hrelays _ used leave hrelay hleave hleaveNow session known hleft hnow))
  | @takes session known recent opened alone =>
    have hnow := inv.joined_now hlast known recent hrecorded
    have hsession : session = last := by
      by_contra hne
      have hstays := inv.stays (List.mem_of_ne_of_mem (fun heq => hne (joinEvent_inj known hlast.known heq.symm)) hrecorded)
      have hsid := alone hstays.1 (hstays.2.1.trans (congrArg some hnow.symm))
      obtain ⟨current, used, eventAt, hrelay, hsid', -, hused, -⟩ := inv.relay hstays.1
      obtain rfl := AppHistory.session_eq (relay_known hrelay).1 known (Option.some_inj.mp (hsid'.symm.trans hsid))
      exact hfresh (hused current (relay_known hrelay).2)
    subst hsession
    refine ⟨rfl, rfl, fun other hother hsid leave hleave => ?_⟩
    rw [← AppHistory.session_eq known hother (Option.some_inj.mp hsid), hlast.opened] at hleave
    cases hleave
  | @stops session leave known left waiting =>
    obtain ⟨hconnected, hat, hstays⟩ := inv.stays (hbefore rfl)
    refine ⟨hconnected, hat, fun current hcurrent hsid leave' hleave' => ?_⟩
    refine (hstays current hcurrent hsid leave' hleave').imp_right ?_
    rintro ⟨other, hother, hopen, hpending⟩
    rw [waiting, Option.some_inj] at hpending
    rw [AppHistory.session_eq known hother hpending, hopen] at left
    cases left
  | leaveIgnored known left notWaiting ignored => exact inv.stays (hbefore rfl)
  | @promotes session leave other known left recent current knownOther waiting opened sameTime =>
    obtain ⟨-, hat, hstays⟩ := inv.stays (hbefore rfl)
    rw [hat, Option.some_inj] at sameTime
    have hleave := hlast.leaves session known leave left
    have hlate := Presence.stale_eq_false recent hat
    refine ⟨rfl, ?_, fun session' hsession' hsid' leave' hleave' => ?_⟩
    · show some (max leave.2 other.joinedAt) = some last.joinedAt
      rw [← sameTime, max_eq_right hleave]
    · rcases hstays session known current leave left with hearly | ⟨open', hopen', hopened, hpending⟩
      · omega
      · rw [waiting, Option.some_inj] at hpending
        have hsid : other.sid = session'.sid := Option.some_inj.mp hsid'
        rw [← AppHistory.session_eq knownOther hsession' hsid, AppHistory.session_eq knownOther hopen' hpending,
          hopened] at hleave'
        cases hleave'
  | @disconnects session leave known left recent current nobody =>
    obtain ⟨-, hat, hstays⟩ := inv.stays (hbefore rfl)
    have hrecent := Presence.stale_eq_false recent hat
    rcases hstays session known current leave left with hearly | ⟨other, -, -, hpending⟩
    · omega
    · rw [nobody] at hpending
      cases hpending

private theorem connected_of_lastOpen (hlast : history.LastOpen last) (hrelays : history.RelaysUseAll last)
    (hdelivered : history.Delivered events) :
    (PresenceState.start.run events).presence.connected = true := by
  have hstart : PresenceStaying history last PresenceState.start := by
    refine ⟨presenceSound_start history, fun eventAt hat => ?_, fun hconnected => ?_, fun hrecorded => ?_⟩
    · cases hat
    · cases hconnected
    · cases hrecorded
  have inv : PresenceStaying history last (PresenceState.start.run events) := by
    refine run_presence hstart (fun _ _ inv hevent hfresh => ?_) fun event => (hdelivered event).1
    exact ⟨inv.sound.handle hevent, inv.bound_handle hlast hevent, inv.relay_handle hevent hfresh,
      inv.stays_handle hlast hrelays hevent hfresh⟩
  exact (inv.stays (hdelivered.recorded (AppHistory.joinEvent_mem hlast.known))).1

/-- Of the sessions with a property, one has the latest time. -/
theorem exists_latest {sessions : List AppSession} {P : AppSession → Prop} (time : AppSession → Int)
    (h : ∃ session ∈ sessions, P session) :
    ∃ session ∈ sessions, P session ∧ ∀ other ∈ sessions, P other → time other ≤ time session := by
  have hfinite : {session | session ∈ sessions ∧ P session}.Finite :=
    (List.finite_toSet sessions).subset fun session hsession => hsession.1
  obtain ⟨session, hsession, hproperty⟩ := h
  obtain ⟨latest, hlatest, hall⟩ := Set.exists_max_image _ time hfinite ⟨session, hsession, hproperty⟩
  exact ⟨latest, hlatest.1, hlatest.2, fun other hother hP => hall other ⟨hother, hP⟩⟩

theorem AppHistory.Settles.converges (h : history.Settles) : history.Converges := by
  intro events hdelivered
  rcases h with ⟨last, hlast, hrelays⟩ | ⟨hleft, hsame⟩
  · rw [connected_of_lastOpen hlast hrelays hdelivered]
    exact iff_of_true rfl ⟨last, hlast.known, hlast.opened⟩
  · rw [disconnected_of_left hdelivered hleft hsame]
    refine iff_of_false Bool.false_ne_true ?_
    rintro ⟨session, hsession, hopen⟩
    exact hleft session hsession hopen

end KComms.Telephony
