import KComms.Telephony.PresenceOrder

/-!
# Orders that end wrong

A history that does not settle has an order of its events that ends wrong: at most one relay of sessions comes first,
then all that leave, and last all that join, which are closed or too old by then.
-/

namespace KComms.Telephony

variable {session other : AppSession} {leave leave' : String × Int}

section

variable {history : AppHistory} {last : AppSession} {state : PresenceState}

private theorem run_still {events : List AppEvent} (h : ∀ event ∈ events, event ∈ state.recorded ∨
    ∀ recorded, state.recorded ⊆ recorded → state.presence.apply (closedEpochs recorded) event = state.presence) :
    (state.run events).presence = state.presence := by
  induction events generalizing state with
  | nil => rfl
  | cons event events ih =>
    rw [List.forall_mem_cons] at h
    obtain ⟨hevent, hrest⟩ := h
    have hstep : (state.step event).presence = state.presence ∧ state.recorded ⊆ (state.step event).recorded := by
      unfold PresenceState.step
      split
      · exact ⟨rfl, List.Subset.refl _⟩
      · rename_i hfresh
        refine ⟨?_, List.subset_cons_self _ _⟩
        rcases hevent with hrecorded | hstill
        · refine absurd ?_ hfresh
          rw [List.any_eq_true]
          exact ⟨event, hrecorded, by simp⟩
        · exact hstill _ (List.subset_cons_self _ _)
    refine (ih fun other hother => ?_).trans hstep.1
    rw [hstep.1]
    exact (hrest other hother).imp (fun hmem => hstep.2 hmem) fun hstill recorded hsubset =>
      hstill recorded (List.Subset.trans hstep.2 hsubset)

/-- First some events, then all that leave, and last all that join. -/
private def lateJoins (history : AppHistory) (first : List AppEvent) : List AppEvent :=
  first ++ history.events.filter (·.leaves) ++ history.events.filter (!·.leaves)

private theorem lateJoins_delivered {first : List AppEvent} (hfirst : ∀ event ∈ first, event ∈ history.events) :
    history.Delivered (lateJoins history first) := by
  intro event
  unfold lateJoins
  simp only [List.mem_append, List.mem_filter, Bool.not_eq_true']
  constructor
  · rintro ((h | ⟨h, -⟩) | ⟨h, -⟩)
    · exact hfirst event h
    · exact h
    · exact h
  · intro h
    cases hleaves : event.leaves with
    | true => exact .inl (.inr ⟨h, rfl⟩)
    | false => exact .inr ⟨h, rfl⟩

/-- What is left after the first events, if all that leave are ignored, and all that join are closed or too old. -/
private theorem run_lateJoins {first : List AppEvent} (hfirst : ∀ event ∈ first, event ∈ history.events)
    (hleaves : ∀ session ∈ history.sessions, ∀ leave, session.left = some leave →
      session.leaveEvent leave ∈ (PresenceState.start.run first).recorded ∨
        (PresenceState.start.run first).presence.pendingSid = none ∧
          ((PresenceState.start.run first).presence.stale leave.2 = true ∨
            (PresenceState.start.run first).presence.sid ≠ some session.sid))
    (hjoins : ∀ session ∈ history.sessions, session.left = none →
      session.joinEvent ∈ (PresenceState.start.run first).recorded ∨
        (PresenceState.start.run first).presence.stale session.joinedAt = true) :
    (PresenceState.start.run (lateJoins history first)).presence = (PresenceState.start.run first).presence := by
  have hrecorded : ∀ event ∈ (PresenceState.start.run first).recorded, event ∈ history.events :=
    (run_presence (presenceSound_start history) (fun _ _ sound hevent _ => sound.handle hevent) hfirst).recorded
  have hrun : PresenceState.start.run (lateJoins history first) =
      ((PresenceState.start.run first).run (history.events.filter (·.leaves))).run
        (history.events.filter (!·.leaves)) := by
    unfold PresenceState.run lateJoins
    rw [List.foldl_append, List.foldl_append]
  rw [hrun]
  generalize PresenceState.start.run first = state at hrecorded hleaves hjoins ⊢
  have hafter : (state.run (history.events.filter (·.leaves))).presence = state.presence := by
    refine run_still fun event hevent => ?_
    rw [List.mem_filter] at hevent
    obtain ⟨session, hsession, rfl | ⟨leave, hleft, rfl⟩⟩ := AppHistory.mem_events hevent.1
    · cases hevent.2
    refine (hleaves session hsession leave hleft).imp_right fun hignored recorded hsubset => ?_
    show state.presence.left (closedEpochs recorded) session.sid leave.2 = state.presence
    unfold Presence.left
    rw [hignored.1, if_neg (Option.some_ne_none _).symm, if_pos]
    simpa using hignored.2
  have hall : ∀ event ∈ history.events.filter (·.leaves),
      event ∈ (state.run (history.events.filter (·.leaves))).recorded :=
    (run_recorded hrecorded fun event hevent => (List.mem_filter.mp hevent).1).2
  have hbefore : state.recorded ⊆ (state.run (history.events.filter (·.leaves))).recorded :=
    (run_recorded hrecorded fun event hevent => (List.mem_filter.mp hevent).1).1
  refine (run_still fun event hevent => ?_).trans hafter
  rw [hafter]
  rw [List.mem_filter] at hevent
  obtain ⟨session, hsession, rfl | ⟨leave, hleft, rfl⟩⟩ := AppHistory.mem_events hevent.1
  swap
  · cases hevent.2
  cases hleft : session.left with
  | none =>
    refine (hjoins session hsession hleft).imp (fun hmem => hbefore hmem) fun hstale recorded _ => ?_
    show state.presence.joined (closedEpochs recorded) session.sid session.joinedAt = state.presence
    unfold Presence.joined
    rw [hstale, Bool.true_or, if_pos rfl]
  | some leave =>
    refine .inr fun recorded hsubset => ?_
    have hmem : session.leaveEvent leave ∈ history.events.filter (·.leaves) := by
      rw [List.mem_filter]
      exact ⟨AppHistory.leaveEvent_mem hsession hleft, rfl⟩
    have hclosed : closedEpochs recorded session.sid = true := by
      unfold closedEpochs
      rw [List.any_eq_true]
      exact ⟨_, hsubset (hall _ hmem), by simp [AppSession.leaveEvent]⟩
    show state.presence.joined (closedEpochs recorded) session.sid session.joinedAt = state.presence
    unfold Presence.joined
    rw [hclosed, Bool.or_true, if_pos rfl]

/-- An event that is not recorded is handled. -/
private theorem step_new (hrecorded : ∀ event ∈ state.recorded, event ∈ history.events) {event : AppEvent}
    (hevent : event ∈ history.events) (hfresh : event ∉ state.recorded) : state.step event = state.handle event := by
  unfold PresenceState.step
  rw [if_neg]
  rw [List.any_eq_true]
  rintro ⟨other, hother, hid⟩
  rw [decide_eq_true_eq] at hid
  rw [AppHistory.event_eq (hrecorded other hother) hevent hid] at hother
  exact hfresh hother

private theorem step_start (session : AppSession) : PresenceState.start.step session.joinEvent =
    ⟨⟨true, some session.sid, some session.joinedAt, none, none⟩, [session.joinEvent]⟩ := by
  simp [PresenceState.step, PresenceState.handle, PresenceState.start, Presence.apply, Presence.joined,
    Presence.start, Presence.stale, closedEpochs, AppSession.joinEvent]

private theorem joinEvent_ne_leaveEvent :
    session.joinEvent ≠ other.leaveEvent leave := by
  intro heq
  cases congrArg AppEvent.leaves heq

/-- A session joins and leaves before anything else comes. -/
private theorem run_joined_left (h : session ∈ history.sessions) (hleft : session.left = some leave) :
    PresenceState.start.run [session.joinEvent, session.leaveEvent leave] =
      ⟨⟨false, some session.sid, some leave.2, none, none⟩, [session.leaveEvent leave, session.joinEvent]⟩ := by
  have hordered : ¬ leave.2 < session.joinedAt := by
    have := session.ordered leave hleft
    omega
  show (PresenceState.start.step session.joinEvent).step (session.leaveEvent leave) = _
  have hknown : ∀ event ∈ [session.joinEvent], event ∈ history.events := by
    simp [AppHistory.joinEvent_mem h]
  have hfresh : session.leaveEvent leave ∉ [session.joinEvent] := by
    simp [joinEvent_ne_leaveEvent.symm]
  rw [step_start, step_new hknown (AppHistory.leaveEvent_mem h hleft) hfresh]
  simp [PresenceState.handle, Presence.apply, Presence.left, Presence.stale, AppSession.leaveEvent, hordered]

/-- A session that joins at the time of the last event waits. -/
private theorem step_waits (hrecorded : ∀ event ∈ state.recorded, event ∈ history.events)
    (h : session ∈ history.sessions) (hfresh : ∀ event ∈ state.recorded, event.sid ≠ session.sid) {current : String}
    (hcurrent : current ≠ session.sid)
    (hpresence : state.presence.connected = true ∧ state.presence.sid = some current ∧
      state.presence.eventAt = some session.joinedAt) :
    state.step session.joinEvent =
      ⟨⟨true, some current, some session.joinedAt, some session.sid, some session.joinedAt⟩,
        session.joinEvent :: state.recorded⟩ := by
  have hopen : closedEpochs state.recorded session.sid = false := by
    unfold closedEpochs
    rw [List.any_eq_false]
    intro event hevent
    simp [hfresh event hevent]
  rw [step_new hrecorded (AppHistory.joinEvent_mem h) fun hmem => hfresh _ hmem rfl]
  unfold PresenceState.handle
  rw [closedEpochs_cons_join rfl]
  simp [Presence.apply, Presence.joined, Presence.stale, AppSession.joinEvent, hopen, hcurrent, hpresence]

/-- The current session leaves, and the one that waits takes over. -/
private theorem step_promotes (hrecorded : ∀ event ∈ state.recorded, event ∈ history.events)
    (h : session ∈ history.sessions) (hleft : session.left = some leave)
    (hfresh : session.leaveEvent leave ∉ state.recorded) (hsid : session.sid ≠ other.sid)
    (hopen : closedEpochs state.recorded other.sid = false) (hlate : other.joinedAt ≤ leave.2)
    (hpresence : state.presence =
      ⟨true, some session.sid, some other.joinedAt, some other.sid, some other.joinedAt⟩) :
    state.step (session.leaveEvent leave) =
      ⟨⟨true, some other.sid, some leave.2, none, none⟩, session.leaveEvent leave :: state.recorded⟩ := by
  have hopen' : closedEpochs (session.leaveEvent leave :: state.recorded) other.sid = false :=
    (closedEpochs_cons_other hsid).trans hopen
  have hrecent : ¬ leave.2 < other.joinedAt := by omega
  rw [step_new hrecorded (AppHistory.leaveEvent_mem h hleft) hfresh]
  unfold PresenceState.handle
  rw [hpresence]
  show PresenceState.mk (Presence.left _ _ session.sid leave.2) _ = _
  simp [Presence.left, Presence.stale, hopen', Ne.symm hsid, hrecent, max_eq_left hlate]

/-- The sessions of a relay can come in just that order. -/
private theorem run_relay {eventAt : Int} {used : List AppSession} (h : history.Relay session eventAt used) :
    ∃ events, (∀ event ∈ events, event ∈ history.events) ∧
      (PresenceState.start.run events).presence = ⟨true, some session.sid, some eventAt, none, none⟩ ∧
        (∀ event ∈ (PresenceState.start.run events).recorded, ∃ other ∈ used, event.sid = other.sid) ∧
          ∀ leave, session.leaveEvent leave ∉ (PresenceState.start.run events).recorded := by
  induction h with
  | @first session known =>
    refine ⟨[session.joinEvent], ?_, ?_, ?_, ?_⟩
    · simp [AppHistory.joinEvent_mem known]
    · exact congrArg PresenceState.presence (step_start session)
    · show ∀ event ∈ (PresenceState.start.step session.joinEvent).recorded, _
      rw [step_start]
      simp [AppSession.joinEvent]
    · show ∀ leave, session.leaveEvent leave ∉ (PresenceState.start.step session.joinEvent).recorded
      rw [step_start]
      simp [joinEvent_ne_leaveEvent.symm]
  | @next session eventAt used leave other relay left recent known joined new ih =>
    obtain ⟨events, hevents, hpresence, hsids, hstays⟩ := ih
    obtain ⟨hsession, hused⟩ := relay_known relay
    have hsound : PresenceSound history (PresenceState.start.run events) :=
      run_presence (presenceSound_start history) (fun _ _ sound hevent _ => sound.handle hevent) hevents
    have hfresh : ∀ event ∈ (PresenceState.start.run events).recorded, event.sid ≠ other.sid := by
      intro event hevent hsid
      obtain ⟨turn, hturn, hsid'⟩ := hsids event hevent
      obtain rfl := AppHistory.session_eq known (relay_used relay turn hturn) (hsid.symm.trans hsid')
      exact new hturn
    have hne : session.sid ≠ other.sid := by
      intro hsid
      obtain rfl := AppHistory.session_eq hsession known hsid
      exact new hused
    subst joined
    have hwaits := step_waits hsound.recorded known hfresh hne (by rw [hpresence]; exact ⟨rfl, rfl, rfl⟩)
    have hsound' : PresenceSound history ((PresenceState.start.run events).step other.joinEvent) := by
      rw [step_new hsound.recorded (AppHistory.joinEvent_mem known) fun hmem => hfresh _ hmem rfl]
      exact hsound.handle (AppHistory.joinEvent_mem known)
    have hrun : PresenceState.start.run (events ++ [other.joinEvent, session.leaveEvent leave]) =
        ⟨⟨true, some other.sid, some leave.2, none, none⟩, session.leaveEvent leave :: other.joinEvent ::
          (PresenceState.start.run events).recorded⟩ := by
      unfold PresenceState.run
      rw [List.foldl_append]
      show ((PresenceState.start.run events).step other.joinEvent).step (session.leaveEvent leave) = _
      rw [hwaits] at hsound' ⊢
      refine step_promotes hsound'.recorded hsession left ?_ hne ?_ recent rfl
      · dsimp only
        rw [List.mem_cons, not_or]
        exact ⟨joinEvent_ne_leaveEvent.symm, hstays leave⟩
      · dsimp only
        rw [closedEpochs_cons_join rfl]
        unfold closedEpochs
        rw [List.any_eq_false]
        intro event hevent
        simp [hfresh event hevent]
    refine ⟨events ++ [other.joinEvent, session.leaveEvent leave], ?_, ?_⟩
    · simp only [List.mem_append, List.mem_cons, List.not_mem_nil, or_false]
      rintro event (hevent | rfl | rfl)
      · exact hevents event hevent
      · exact AppHistory.joinEvent_mem known
      · exact AppHistory.leaveEvent_mem hsession left
    rw [hrun]
    refine ⟨rfl, ?_, fun leave' => ?_⟩
    · rw [List.forall_mem_cons, List.forall_mem_cons]
      refine ⟨⟨session, List.mem_cons_of_mem _ hused, rfl⟩, ⟨other, List.mem_cons_self, rfl⟩, fun event hevent => ?_⟩
      obtain ⟨turn, hturn, hsid⟩ := hsids event hevent
      exact ⟨turn, List.mem_cons_of_mem _ hturn, hsid⟩
    · rw [List.mem_cons, List.mem_cons, not_or, not_or]
      refine ⟨fun heq => hne (congrArg AppEvent.sid heq).symm, joinEvent_ne_leaveEvent.symm, fun hmem => ?_⟩
      exact hfresh _ hmem rfl

/-- While a session is connected at the time at which the last open one has joined, open sessions can only wait. -/
private theorem run_open (hlast : history.LastOpen last) {current : AppSession} (h : current ∈ history.sessions)
    {opened : List AppSession} (hopened : ∀ session ∈ opened, session ∈ history.sessions ∧ session.left = none)
    (hleft : current.left ≠ none) (hsound : PresenceSound history state)
    (hstate : state.presence.connected = true ∧ state.presence.sid = some current.sid ∧
      state.presence.eventAt = some last.joinedAt) :
    let after := state.run (opened.map AppSession.joinEvent)
    PresenceSound history after ∧ (after.presence.connected = true ∧ after.presence.sid = some current.sid ∧
      after.presence.eventAt = some last.joinedAt) ∧
        ∀ event ∈ after.recorded, event ∈ state.recorded ∨ ∃ session ∈ opened, event = session.joinEvent := by
  induction opened generalizing state with
  | nil => exact ⟨hsound, hstate, fun event hevent => .inl hevent⟩
  | cons session opened ih =>
    rw [List.forall_mem_cons] at hopened
    obtain ⟨⟨hsession, hopen⟩, hrest⟩ := hopened
    have hstep : PresenceSound history (state.step session.joinEvent) ∧
        ((state.step session.joinEvent).presence.connected = true ∧
          (state.step session.joinEvent).presence.sid = some current.sid ∧
            (state.step session.joinEvent).presence.eventAt = some last.joinedAt) ∧
        ∀ event ∈ (state.step session.joinEvent).recorded, event ∈ state.recorded ∨ event = session.joinEvent := by
      by_cases hseen : session.joinEvent ∈ state.recorded
      · have hsame : state.step session.joinEvent = state := by
          unfold PresenceState.step
          rw [if_pos]
          rw [List.any_eq_true]
          exact ⟨_, hseen, by simp⟩
        rw [hsame]
        exact ⟨hsound, hstate, fun event hevent => .inl hevent⟩
      rw [step_new hsound.recorded (AppHistory.joinEvent_mem hsession) hseen]
      refine ⟨hsound.handle (AppHistory.joinEvent_mem hsession), ?_, ?_⟩
      · have hchange := handle_change hsound (AppHistory.joinEvent_mem hsession)
        generalize (state.handle session.joinEvent).presence = presence' at hchange
        generalize hevent : session.joinEvent = event at hchange
        cases hchange with
        | joinIgnored known ignored => exact hstate
        | waits known opened' connected sameTime other => exact hstate
        | @takes session' known recent opened' alone =>
          obtain rfl := AppHistory.session_eq hsession known (congrArg AppEvent.sid hevent)
          have hlate := Presence.stale_eq_false recent hstate.2.2
          have hjoined := lastOpen_joinedAt_le hlast hsession
          have hnow : last.joinedAt = session.joinedAt := by omega
          have hsid := alone hstate.1 (hstate.2.2.trans (congrArg some hnow))
          rw [hstate.2.1, Option.some_inj] at hsid
          rw [AppHistory.session_eq h hsession hsid] at hleft
          exact absurd hopen hleft
        | _ => exact absurd hevent joinEvent_ne_leaveEvent
      · show ∀ event ∈ session.joinEvent :: state.recorded, _
        rw [List.forall_mem_cons]
        exact ⟨.inr rfl, fun event hevent => .inl hevent⟩
    obtain ⟨hsound', hstate', hrecorded⟩ := hstep
    obtain ⟨hsound'', hstate'', hall⟩ := ih hrest hsound' hstate'
    refine ⟨hsound'', hstate'', fun event hevent => ?_⟩
    rcases hall event hevent with hbefore | ⟨session', hsession', rfl⟩
    · rcases hrecorded event hbefore with hknown | rfl
      · exact .inl hknown
      · exact .inr ⟨session, List.mem_cons_self, rfl⟩
    · exact .inr ⟨session', List.mem_cons_of_mem _ hsession', rfl⟩

/-- Two sessions join at the same time, and the one that leaves later is heard to leave first. -/
private theorem run_promoted {first second : AppSession} (h : first ∈ history.sessions) (h' : second ∈ history.sessions)
    (hleft : first.left = some leave) (hleft' : second.left = some leave') (hjoined : first.joinedAt = second.joinedAt)
    (hlate : leave'.2 < leave.2) :
    (PresenceState.start.run [first.joinEvent, second.joinEvent, first.leaveEvent leave]).presence =
      ⟨true, some second.sid, some leave.2, none, none⟩ := by
  have hne : first.sid ≠ second.sid := by
    intro hsid
    obtain rfl := AppHistory.session_eq h h' hsid
    rw [hleft] at hleft'
    cases hleft'
    omega
  have hordered := first.ordered leave hleft
  have hknown : ∀ event ∈ [first.joinEvent], event ∈ history.events := by
    simp [AppHistory.joinEvent_mem h]
  have hwaits : (PresenceState.start.step first.joinEvent).step second.joinEvent =
      ⟨⟨true, some first.sid, some second.joinedAt, some second.sid, some second.joinedAt⟩,
        [second.joinEvent, first.joinEvent]⟩ := by
    rw [step_start, hjoined]
    exact step_waits hknown h' (by simpa [AppSession.joinEvent] using hne) hne ⟨rfl, rfl, rfl⟩
  show (((PresenceState.start.step first.joinEvent).step second.joinEvent).step
    (first.leaveEvent leave)).presence = _
  rw [hwaits]
  have hknown' : ∀ event ∈ [second.joinEvent, first.joinEvent], event ∈ history.events := by
    simp [AppHistory.joinEvent_mem h, AppHistory.joinEvent_mem h']
  have hopen : closedEpochs [second.joinEvent, first.joinEvent] second.sid = false := by
    simp [closedEpochs, AppSession.joinEvent]
  have hfresh : first.leaveEvent leave ∉ [second.joinEvent, first.joinEvent] := by
    simp [joinEvent_ne_leaveEvent.symm]
  rw [step_promotes hknown' h hleft hfresh hne hopen (by omega) rfl]

/-- If a session left later than an open one joined, a late joining is taken to be old. -/
private theorem not_converges_of_open (hopen : history.Present)
    (hlate : ∀ last ∈ history.sessions, last.left = none → ∃ session ∈ history.sessions, ∃ leave,
      session.left = some leave ∧ last.joinedAt < leave.2) : ¬ history.Converges := by
  obtain ⟨first, hfirst, hfirstOpen⟩ := hopen
  obtain ⟨session, hsession, leave, hleft, -⟩ := hlate first hfirst hfirstOpen
  obtain ⟨latest, hlatest, hlatestLeft, hall⟩ := exists_latest (P := fun session => session.left ≠ none)
    (fun session => session.left.elim 0 Prod.snd) ⟨session, hsession, by rw [hleft]; exact Option.some_ne_none _⟩
  obtain ⟨leave, hleave⟩ := Option.ne_none_iff_exists'.mp hlatestLeft
  have hrun := run_joined_left hlatest hleave
  have hevents : ∀ event ∈ [latest.joinEvent, latest.leaveEvent leave], event ∈ history.events := by
    simp [AppHistory.joinEvent_mem hlatest, AppHistory.leaveEvent_mem hlatest hleave]
  intro hconverges
  have hend := hconverges _ (lateJoins_delivered hevents)
  rw [run_lateJoins hevents, hrun] at hend
  · cases hend.mpr ⟨first, hfirst, hfirstOpen⟩
  · intro session hsession leave' hleft'
    rw [hrun]
    by_cases hsid : latest.sid = session.sid
    · obtain rfl := AppHistory.session_eq hlatest hsession hsid
      rw [hleave] at hleft'
      cases hleft'
      exact .inl List.mem_cons_self
    · exact .inr ⟨rfl, .inr fun heq => hsid (Option.some_inj.mp heq)⟩
  · intro session hsession hsessionOpen
    obtain ⟨other, hother, leave', hleft', hlater⟩ := hlate session hsession hsessionOpen
    have hlast := hall other hother (by rw [hleft']; exact Option.some_ne_none _)
    simp only [hleft', hleave, Option.elim_some] at hlast
    right
    rw [hrun]
    simp only [Presence.stale, Option.any_some, decide_eq_true_eq]
    omega

/-- If two sessions joined together and left apart, the late leaving of one is taken to be old. -/
private theorem not_converges_of_left (hleft : ∀ session ∈ history.sessions, session.left ≠ none)
    {first second : AppSession} (h : first ∈ history.sessions) (h' : second ∈ history.sessions)
    (hjoined : first.joinedAt = second.joinedAt) (hleave : first.left = some leave)
    (hleave' : second.left = some leave') (hlate : leave'.2 < leave.2) : ¬ history.Converges := by
  have hrun := run_promoted h h' hleave hleave' hjoined hlate
  have hevents : ∀ event ∈ [first.joinEvent, second.joinEvent, first.leaveEvent leave], event ∈ history.events := by
    simp [AppHistory.joinEvent_mem h, AppHistory.joinEvent_mem h', AppHistory.leaveEvent_mem h hleave]
  intro hconverges
  have hend := hconverges _ (lateJoins_delivered hevents)
  rw [run_lateJoins hevents, hrun] at hend
  · obtain ⟨session, hsession, hopen⟩ := hend.mp rfl
    exact hleft session hsession hopen
  · intro session hsession leaving hleaving
    rw [hrun]
    refine .inr ⟨rfl, ?_⟩
    by_cases hsid : second.sid = session.sid
    · obtain rfl := AppHistory.session_eq h' hsession hsid
      rw [hleave'] at hleaving
      cases hleaving
      left
      simpa [Presence.stale] using hlate
    · exact .inr fun heq => hsid (Option.some_inj.mp heq)
  · intro session hsession hopen
    exact absurd hopen (hleft session hsession)

/-- After a relay, the open sessions wait; one that joins and leaves at that time is the last to wait, and when it and
the current session have left, nobody waits. -/
private theorem run_relay_ends (hlast : history.LastOpen last) {used : List AppSession}
    (hrelay : history.Relay session last.joinedAt used) (hleft : session.left = some leave)
    (hnow : leave.2 = last.joinedAt) (hother : other ∈ history.sessions) (hleft' : other.left = some leave')
    (hjoined : other.joinedAt = last.joinedAt) (hunused : other ∉ used) :
    ∃ events, (∀ event ∈ events, event ∈ history.events) ∧
      (PresenceState.start.run events).presence = ⟨false, some session.sid, some last.joinedAt, none, none⟩ ∧
        session.leaveEvent leave ∈ (PresenceState.start.run events).recorded ∧
          ∀ open' ∈ history.sessions, open'.left = none →
            open'.joinEvent ∈ (PresenceState.start.run events).recorded := by
  obtain ⟨events, hevents, hpresence, hsids, hstays⟩ := run_relay hrelay
  obtain ⟨hsession, hused⟩ := relay_known hrelay
  have hsound : PresenceSound history (PresenceState.start.run events) :=
    run_presence (presenceSound_start history) (fun _ _ sound hevent _ => sound.handle hevent) hevents
  have hopened : ∀ open' ∈ history.sessions.filter (·.left = none), open' ∈ history.sessions ∧ open'.left = none := by
    simp
  obtain ⟨hsound', hstate, hrecorded⟩ := run_open hlast hsession hopened (by rw [hleft]; exact Option.some_ne_none _)
    hsound (by rw [hpresence]; exact ⟨rfl, rfl, rfl⟩)
  have hall : ∀ open' ∈ history.sessions, open'.left = none → open'.joinEvent ∈ ((PresenceState.start.run events).run
      ((history.sessions.filter (·.left = none)).map AppSession.joinEvent)).recorded := by
    intro open' hknown hopen
    refine (run_recorded hsound.recorded fun event hevent => ?_).2 _ ?_
    · rw [List.mem_map] at hevent
      obtain ⟨session', hsession', rfl⟩ := hevent
      exact AppHistory.joinEvent_mem (hopened session' hsession').1
    · rw [List.mem_map]
      exact ⟨open', by simp [hknown, hopen], rfl⟩
  have hne : session.sid ≠ other.sid := by
    intro hsid
    obtain rfl := AppHistory.session_eq hsession hother hsid
    exact hunused hused
  have hrun : PresenceState.start.run (events ++ (history.sessions.filter (·.left = none)).map AppSession.joinEvent ++
      [other.joinEvent, other.leaveEvent leave', session.leaveEvent leave]) =
      ((((PresenceState.start.run events).run ((history.sessions.filter (·.left = none)).map
        AppSession.joinEvent)).step other.joinEvent).step (other.leaveEvent leave')).step
          (session.leaveEvent leave) := by
    unfold PresenceState.run
    rw [List.foldl_append, List.foldl_append]
    rfl
  refine ⟨events ++ (history.sessions.filter (·.left = none)).map AppSession.joinEvent ++
    [other.joinEvent, other.leaveEvent leave', session.leaveEvent leave], ?_, ?_⟩
  · simp only [List.mem_append, List.mem_map, List.mem_cons, List.not_mem_nil, or_false]
    rintro event ((hevent | ⟨open', hopen', rfl⟩) | rfl | rfl | rfl)
    · exact hevents event hevent
    · exact AppHistory.joinEvent_mem (hopened open' hopen').1
    · exact AppHistory.joinEvent_mem hother
    · exact AppHistory.leaveEvent_mem hother hleft'
    · exact AppHistory.leaveEvent_mem hsession hleft
  rw [hrun]
  generalize (PresenceState.start.run events).run ((history.sessions.filter (·.left = none)).map
    AppSession.joinEvent) = state at hsound' hstate hrecorded hall
  have hfresh : ∀ event ∈ state.recorded, event.sid ≠ other.sid := by
    intro event hevent hsid
    rcases hrecorded event hevent with hbefore | ⟨open', hopen', rfl⟩
    · obtain ⟨turn, hturn, hsid'⟩ := hsids event hbefore
      obtain rfl := AppHistory.session_eq hother (relay_used hrelay turn hturn) (hsid.symm.trans hsid')
      exact hunused hturn
    · obtain ⟨hknown, hopen⟩ := hopened open' hopen'
      rw [AppHistory.session_eq hknown hother hsid, hleft'] at hopen
      cases hopen
  have hleaves : session.leaveEvent leave ∉ state.recorded := by
    intro hmem
    rcases hrecorded _ hmem with hbefore | ⟨open', -, heq⟩
    · exact hstays leave hbefore
    · exact joinEvent_ne_leaveEvent heq.symm
  have hwaits : state.step other.joinEvent =
      ⟨⟨true, some session.sid, some other.joinedAt, some other.sid, some other.joinedAt⟩,
        other.joinEvent :: state.recorded⟩ := by
    rw [← hjoined] at hstate
    exact step_waits hsound'.recorded hother hfresh hne hstate
  have hknown : ∀ event ∈ other.joinEvent :: state.recorded, event ∈ history.events := by
    rw [List.forall_mem_cons]
    exact ⟨AppHistory.joinEvent_mem hother, hsound'.recorded⟩
  have hstops : (state.step other.joinEvent).step (other.leaveEvent leave') =
      ⟨⟨true, some session.sid, some last.joinedAt, none, none⟩,
        other.leaveEvent leave' :: other.joinEvent :: state.recorded⟩ := by
    have hfresh' : other.leaveEvent leave' ∉ other.joinEvent :: state.recorded := by
      rw [List.mem_cons, not_or]
      exact ⟨joinEvent_ne_leaveEvent.symm, fun hmem => hfresh _ hmem rfl⟩
    rw [hwaits, step_new hknown (AppHistory.leaveEvent_mem hother hleft') hfresh', hjoined]
    simp [PresenceState.handle, Presence.apply, Presence.left, AppSession.leaveEvent]
  have hknown' : ∀ event ∈ other.leaveEvent leave' :: other.joinEvent :: state.recorded, event ∈ history.events := by
    rw [List.forall_mem_cons]
    exact ⟨AppHistory.leaveEvent_mem hother hleft', hknown⟩
  have hfresh' : session.leaveEvent leave ∉ other.leaveEvent leave' :: other.joinEvent :: state.recorded := by
    rw [List.mem_cons, List.mem_cons, not_or, not_or]
    exact ⟨fun heq => hne (congrArg AppEvent.sid heq), joinEvent_ne_leaveEvent.symm, hleaves⟩
  rw [hstops, step_new hknown' (AppHistory.leaveEvent_mem hsession hleft) hfresh']
  refine ⟨?_, List.mem_cons_self, fun open' hopen' hopened' => ?_⟩
  · simp [PresenceState.handle, Presence.apply, Presence.left, Presence.stale, AppSession.leaveEvent, hnow]
  · refine List.mem_cons_of_mem _ (List.mem_cons_of_mem _ (List.mem_cons_of_mem _ ?_))
    exact hall open' hopen' hopened'

/-- A relay that leaves out a session of that time can end the presence, though a session is open. -/
private theorem not_converges_of_relay (hlast : history.LastOpen last) (hrelays : ¬ history.RelaysUseAll last) :
    ¬ history.Converges := by
  unfold AppHistory.RelaysUseAll at hrelays
  push Not at hrelays
  obtain ⟨session, used, leave, hrelay, hleft, hnow, other, hother, hotherLeft, hjoined, hunused⟩ := hrelays
  obtain ⟨leave', hleft'⟩ := Option.ne_none_iff_exists'.mp hotherLeft
  obtain ⟨events, hevents, hpresence, hleaves, hopened⟩ :=
    run_relay_ends hlast hrelay hleft hnow hother hleft' hjoined hunused
  intro hconverges
  have hend := hconverges _ (lateJoins_delivered hevents)
  rw [run_lateJoins hevents, hpresence] at hend
  · cases hend.mpr ⟨last, hlast.known, hlast.opened⟩
  · intro session' hsession' leaving hleaving
    rw [hpresence]
    by_cases hsid : session.sid = session'.sid
    · obtain rfl := AppHistory.session_eq (relay_known hrelay).1 hsession' hsid
      rw [hleft] at hleaving
      cases hleaving
      exact .inl hleaves
    · exact .inr ⟨rfl, .inr fun heq => hsid (Option.some_inj.mp heq)⟩
  · intro open' hopen' hopened'
    exact .inl (hopened open' hopen' hopened')

theorem AppHistory.Converges.settles (h : history.Converges) : history.Settles := by
  by_cases hopen : history.Present
  · obtain ⟨first, hfirst, hfirstOpen⟩ := hopen
    obtain ⟨last, hknown, hlastOpen, hjoins⟩ := exists_latest (P := fun session => session.left = none)
      AppSession.joinedAt ⟨first, hfirst, hfirstOpen⟩
    have hlast : history.LastOpen last := by
      refine ⟨hknown, hlastOpen, hjoins, fun session hsession leave hleft => ?_⟩
      by_contra hlater
      refine not_converges_of_open ⟨first, hfirst, hfirstOpen⟩ (fun open' hopen' hopened' => ?_) h
      have hearlier := hjoins open' hopen' hopened'
      exact ⟨session, hsession, leave, hleft, by omega⟩
    left
    refine ⟨last, hlast, ?_⟩
    by_contra hrelays
    exact not_converges_of_relay hlast hrelays h
  · have hleft : ∀ session ∈ history.sessions, session.left ≠ none := fun session hsession hnone =>
      hopen ⟨session, hsession, hnone⟩
    right
    refine ⟨hleft, fun session hsession other hother hjoined leave leave' hleave hleave' => ?_⟩
    rcases lt_trichotomy leave.2 leave'.2 with hlt | heq | hgt
    · exact absurd h (not_converges_of_left hleft hother hsession hjoined.symm hleave' hleave hlt)
    · exact heq
    · exact absurd h (not_converges_of_left hleft hsession hother hjoined hleave hleave' hgt)

/-- The histories whose events end the same in every order. -/
theorem AppHistory.converges_iff (history : AppHistory) : history.Converges ↔ history.Settles :=
  ⟨AppHistory.Converges.settles, AppHistory.Settles.converges⟩

end

end KComms.Telephony
