import KComms.Accounts.ChallengeRuns

/-!
# Sessions and challenges over a run

What a change does to the sessions, to the challenges and to the password (`SignInOp`): it keeps them but for what it
ends, or it adds a challenge or a session, or it writes a password.
-/

namespace KComms.Accounts

/-- The same challenges, of which no consumed one has become open. -/
structure ChallengesFrom (before after : List AuthChallenge) : Prop where
  ids : after.map (·.id) = before.map (·.id)
  still_open : ∀ challenge ∈ after, challenge.consumedAt = none →
    ∃ earlier ∈ before, earlier.id = challenge.id ∧ earlier.consumedAt = none

/-- The same sessions, of which no revoked one has become open. -/
structure SessionsFrom (before after : List Session) : Prop where
  ids : after.map (·.id) = before.map (·.id)
  still_open : ∀ session ∈ after, session.revokedAt = none →
    ∃ earlier ∈ before, earlier.id = session.id ∧ earlier.revokedAt = none

/-- The event is none of a sign-in or of a password. -/
def IdentityEvent.unrelated : IdentityEvent → Bool
  | .challenged _ _ | .minted _ _ | .upgraded _ | .changed _ _ => false
  | _ => true

section

variable {crypto : IdentityCrypto} {added : List IdentityEvent} {challenge : AuthChallenge} {event : IdentityEvent}

theorem ChallengesFrom.refl (challenges : List AuthChallenge) : ChallengesFrom challenges challenges :=
  ⟨rfl, fun challenge hchallenge hopen => ⟨challenge, hchallenge, rfl, hopen⟩⟩

theorem SessionsFrom.refl (sessions : List Session) : SessionsFrom sessions sessions :=
  ⟨rfl, fun session hsession hopen => ⟨session, hsession, rfl, hopen⟩⟩

theorem challengesFrom_attempted {challenges : List AuthChallenge} (hfound : challenge ∈ challenges)
    (hcurrent : challenge.consumedAt = none) :
    ChallengesFrom challenges (updateChallenge challenge.id (fun _ => attemptOnce challenge) challenges) := by
  refine ⟨updateChallenge_ids fun _ _ _ => rfl, fun other hother hopen => ?_⟩
  rw [updateChallenge, List.mem_map] at hother
  obtain ⟨earlier, hearlier, rfl⟩ := hother
  by_cases hid : earlier.id = challenge.id
  · rw [if_pos hid]
    exact ⟨challenge, hfound, rfl, hcurrent⟩
  · rw [if_neg hid] at hopen ⊢
    exact ⟨earlier, hearlier, rfl, hopen⟩

theorem challengesFrom_consumed (id : String) (now : Int) (challenges : List AuthChallenge) :
    ChallengesFrom challenges
      (updateChallenge id (fun challenge => { challenge with consumedAt := some now }) challenges) := by
  refine ⟨updateChallenge_ids fun _ _ hid => hid, fun other hother hopen => ?_⟩
  rw [updateChallenge, List.mem_map] at hother
  obtain ⟨earlier, hearlier, rfl⟩ := hother
  split at hopen
  · cases hopen
  · rename_i hid
    rw [if_neg hid]
    exact ⟨earlier, hearlier, rfl, hopen⟩

theorem challengesFrom_invalidated (now : Int) (challenges : List AuthChallenge) :
    ChallengesFrom challenges (invalidateIdentityChallenges now challenges) := by
  refine ⟨invalidateIdentityChallenges_ids now challenges, fun other hother hopen => ?_⟩
  rw [invalidateIdentityChallenges, List.mem_map] at hother
  obtain ⟨earlier, hearlier, rfl⟩ := hother
  split at hopen
  · cases hopen
  · rename_i hconsumed
    exact absurd hopen hconsumed

theorem sessionsFrom_map {change : Session → Session} (keeps : KeepsSessions change) (sessions : List Session) :
    SessionsFrom sessions (sessions.map change) := by
  constructor
  · rw [List.map_map]
    exact List.map_congr_left fun session _ => (keeps session).1
  · intro session hsession hopen
    rw [List.mem_map] at hsession
    obtain ⟨earlier, hearlier, rfl⟩ := hsession
    refine ⟨earlier, hearlier, (keeps earlier).1.symm, ?_⟩
    by_contra hrevoked
    exact (keeps earlier).2 hrevoked hopen

theorem insertSession_eq_some {session : Session} {sessions sessions' : List Session}
    (h : insertSession session sessions = some sessions') :
    sessions' = session :: sessions ∧ session.id ∉ sessions.map (·.id) := by
  unfold insertSession at h
  split at h
  · cases h
  rename_i hfresh
  cases h
  refine ⟨rfl, fun hid => hfresh ?_⟩
  rw [List.mem_map] at hid
  obtain ⟨other, hother, hid⟩ := hid
  rw [List.any_eq_true]
  exact ⟨other, hother, decide_eq_true hid⟩

/-! ### Changes -/

inductive SignInOp (draft draft' : Draft) : Prop
  | kept (added : List IdentityEvent) (password : draft'.rows.user.passwordHash = draft.rows.user.passwordHash)
    (challenges : ChallengesFrom draft.rows.challenges draft'.rows.challenges)
    (sessions : SessionsFrom draft.rows.sessions draft'.rows.sessions) (logged : draft'.added = draft.added ++ added)
    (unrelated : ∀ event ∈ added, event.unrelated = true)
  | challenged (challenge : AuthChallenge) (password : draft'.rows.user.passwordHash = draft.rows.user.passwordHash)
    (sessions : draft'.rows.sessions = draft.rows.sessions)
    (written : draft'.rows.challenges = challenge :: draft.rows.challenges)
    (fresh : challenge.id ∉ draft.rows.challenges.map (·.id))
    (logged : draft'.added = draft.added ++ [.challenged challenge.id draft.rows.user.passwordHash])
  | minted (session : Session) (origin : SignInOrigin)
    (password : draft'.rows.user.passwordHash = draft.rows.user.passwordHash)
    (challenges : ChallengesFrom draft.rows.challenges draft'.rows.challenges)
    (written : draft'.rows.sessions = session :: draft.rows.sessions)
    (fresh : session.id ∉ draft.rows.sessions.map (·.id))
    (checked : (origin = .password draft.rows.user.passwordHash ∧ draft.rows.mfaEnabled = false) ∨
      ∃ challenge ∈ draft.rows.challenges,
        origin = .challenge challenge.id ∧ challenge.consumedAt = none ∧ draft.Proved)
    (logged : draft'.added = draft.added ++ [.minted session.id origin])
  | upgraded (passwordHash : String) (password : draft'.rows.user.passwordHash = passwordHash)
    (challenges : draft'.rows.challenges = draft.rows.challenges)
    (sessions : draft'.rows.sessions = draft.rows.sessions)
    (logged : draft'.added = draft.added ++ [.upgraded passwordHash])
  | changed (passwordHash : String) (sessionId : Option String) (password : draft'.rows.user.passwordHash = passwordHash)
    (challenges : draft'.rows.challenges = draft.rows.challenges)
    (sessions : draft'.rows.sessions = draft.rows.sessions)
    (challengesOver : ∀ challenge ∈ draft.rows.challenges, challenge.consumedAt ≠ none)
    (sessionsOver : ∀ session ∈ draft.rows.sessions, sessionId ≠ some session.id → session.revokedAt ≠ none)
    (logged : draft'.added = draft.added ++ [.changed passwordHash sessionId])

private theorem signInOp_of_write {draft : Draft} {rows : IdentityRows}
    (password : rows.user.passwordHash = draft.rows.user.passwordHash)
    (challenges : ChallengesFrom draft.rows.challenges rows.challenges)
    (sessions : SessionsFrom draft.rows.sessions rows.sessions) (unrelated : ∀ event ∈ added, event.unrelated = true) :
    SignInOp draft (draft.write rows added) :=
  .kept added password challenges sessions rfl unrelated

theorem signInOp_of_op {draft draft' : Draft} (hop : IdentityOp crypto draft draft') : SignInOp draft draft' := by
  have hchallenges := ChallengesFrom.refl draft.rows.challenges
  have hsessions := SessionsFrom.refl draft.rows.sessions
  have hevent {event : IdentityEvent} (h : event.unrelated = true) : ∀ other ∈ [event], other.unrelated = true :=
    List.forall_mem_singleton.mpr h
  cases hop with
  | waited clock later => exact .kept [] rfl hchallenges hsessions (List.append_nil _).symm (List.forall_mem_nil _)
  | proved reads allowRecovery code found later ordered =>
    exact .kept _ rfl hchallenges hsessions rfl (hevent rfl)
  | attempted found current within =>
    exact signInOp_of_write rfl (challengesFrom_attempted found current) hsessions (List.forall_mem_nil _)
  | challengeProved reads code found current within enabled later ordered =>
    exact .kept _ rfl (challengesFrom_attempted found current) hsessions rfl (hevent rfl)
  | challenged challenge inserted current untried =>
    obtain ⟨hwritten, hfresh⟩ := insertChallenge_eq_some inserted
    exact .challenged challenge rfl rfl hwritten hfresh rfl
  | minted session inserted disabled =>
    obtain ⟨hwritten, hfresh⟩ := insertSession_eq_some inserted
    exact .minted session _ rfl hchallenges hwritten hfresh (.inl ⟨rfl, disabled⟩) rfl
  | @challengeMinted challenge _ session now found current proof inserted =>
    obtain ⟨hwritten, hfresh⟩ := insertSession_eq_some inserted
    refine .minted session _ rfl (challengesFrom_consumed _ now _) hwritten hfresh ?_ rfl
    exact .inr ⟨challenge, found, rfl, current, proof⟩
  | invalidated now =>
    exact signInOp_of_write rfl (challengesFrom_invalidated now _) hsessions (List.forall_mem_nil _)
  | sessions change keeps =>
    exact signInOp_of_write rfl hchallenges (sessionsFrom_map keeps _) (List.forall_mem_nil _)
  | upgraded passwordHash => exact .upgraded passwordHash rfl rfl rfl rfl
  | changed passwordHash sessionId challengesOver sessionsOver =>
    exact .changed passwordHash sessionId rfl rfl rfl challengesOver sessionsOver rfl
  | enrolled secret insertedAt disabled => exact signInOp_of_write rfl hchallenges hsessions (hevent rfl)
  | issued enabledAt hashes found proof => exact signInOp_of_write rfl hchallenges hsessions (hevent rfl)
  | removed proof => exact signInOp_of_write rfl hchallenges hsessions (hevent rfl)
  | requested request now inserted => exact signInOp_of_write rfl hchallenges hsessions (hevent rfl)
  | recovered now found outstanding => exact signInOp_of_write rfl hchallenges hsessions (hevent rfl)
  | pruned keeps => exact signInOp_of_write rfl hchallenges hsessions (List.forall_mem_nil _)
  | status status => exact signInOp_of_write rfl hchallenges hsessions (List.forall_mem_nil _)

end

end KComms.Accounts
