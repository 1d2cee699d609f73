import KComms.Accounts.MfaProofs

/-!
# A new password cuts off the old one

From a change of the password on, a session that is open was minted from a verification against the hash of that change
or a later one, but for the session that made the change (`CutsOff`).  Each change splits the log, and what is open has
been verified since the split (`EraKept`).
-/

namespace KComms.Accounts

/-- The password hash that the event writes. -/
def IdentityEvent.written : IdentityEvent → Option String
  | .upgraded passwordHash | .changed passwordHash _ => some passwordHash
  | _ => none

/-- The hash of a change, and those that were written afterwards. -/
def hashesSince (passwordHash : String) (after : List IdentityEvent) : List String :=
  passwordHash :: after.filterMap IdentityEvent.written

/-- The session was minted from a verification against the hash, in one request or for a challenge. -/
def VerifiedAgainst (log : List IdentityEvent) (sessionId passwordHash : String) : Prop :=
  .minted sessionId (.password passwordHash) ∈ log ∨
    ∃ challengeId, .minted sessionId (.challenge challengeId) ∈ log ∧ .challenged challengeId passwordHash ∈ log

/-- What is open since a change of the password by `maker`, after which these hashes were written. -/
structure EraKept (log : List IdentityEvent) (rows : IdentityRows) (maker : Option String) (hashes : List String) :
    Prop where
  password : rows.user.passwordHash ∈ hashes
  sessions : ∀ session ∈ rows.sessions, session.revokedAt = none → maker ≠ some session.id →
    ∀ verified, VerifiedAgainst log session.id verified → verified ∈ hashes
  challenges : ∀ challenge ∈ rows.challenges, challenge.consumedAt = none →
    ∀ verified, .challenged challenge.id verified ∈ log → verified ∈ hashes

/-- What the log says about sessions and challenges is about rows, and each row is in the log. -/
structure OriginsKept (log : List IdentityEvent) (rows : IdentityRows) : Prop where
  sessions : ∀ id origin, .minted id origin ∈ log → id ∈ rows.sessions.map (·.id)
  challenges : ∀ id passwordHash, .challenged id passwordHash ∈ log → id ∈ rows.challenges.map (·.id)
  origins : ∀ id challengeId, .minted id (.challenge challengeId) ∈ log → challengeId ∈ rows.challenges.map (·.id)
  minted : ∀ id ∈ rows.sessions.map (·.id), ∃ passwordHash, VerifiedAgainst log id passwordHash
  challenged : ∀ id ∈ rows.challenges.map (·.id), ∃ passwordHash, .challenged id passwordHash ∈ log

structure PasswordKept (log : List IdentityEvent) (rows : IdentityRows) : Prop extends OriginsKept log rows where
  eras : ∀ before passwordHash maker after, log = before ++ .changed passwordHash maker :: after →
    EraKept log rows maker (hashesSince passwordHash after)

variable {passwordHash : String}

section

variable {crypto : IdentityCrypto} {hash : List UInt8 → String} {log added before after : List IdentityEvent}
  {rows rows' : IdentityRows} {event other : IdentityEvent} {maker : Option String} {hashes : List String}

/-! ### The log -/

/-- Where a longer log is split at an event, that is not one of the new ones. -/
private theorem split_append (hsplit : log ++ added = before ++ event :: after) (hnew : event ∉ added) :
    ∃ rest, log = before ++ event :: rest ∧ after = rest ++ added := by
  rw [List.append_eq_append_iff] at hsplit
  rcases hsplit with ⟨middle, -, hadded⟩ | ⟨middle, hlog, hafter⟩
  · refine absurd ?_ hnew
    rw [hadded]
    exact List.mem_append_right _ List.mem_cons_self
  · cases middle with
    | nil =>
      rw [List.nil_append] at hafter
      rw [← hafter] at hnew
      exact absurd List.mem_cons_self hnew
    | cons first middle =>
      rw [List.cons_append, List.cons.injEq] at hafter
      obtain ⟨rfl, rfl⟩ := hafter
      exact ⟨middle, hlog, rfl⟩

private theorem split_concat (hsplit : log ++ [other] = before ++ event :: after) :
    (before = log ∧ event = other ∧ after = []) ∨ ∃ rest, log = before ++ event :: rest ∧ after = rest ++ [other] := by
  rcases List.eq_nil_or_concat after with rfl | ⟨rest, last, rfl⟩
  · obtain ⟨rfl, hlast⟩ := List.append_inj' hsplit rfl
    cases hlast
    exact .inl ⟨rfl, rfl, rfl⟩
  · rw [List.concat_eq_append, ← List.cons_append, ← List.append_assoc] at hsplit
    obtain ⟨rfl, hlast⟩ := List.append_inj' hsplit rfl
    cases hlast
    exact .inr ⟨rest, rfl, List.concat_eq_append⟩

private theorem mem_hashesSince_append {verified : String} (h : verified ∈ hashesSince passwordHash after) :
    verified ∈ hashesSince passwordHash (after ++ added) := by
  unfold hashesSince at h ⊢
  rw [List.filterMap_append]
  rw [List.mem_cons] at h ⊢
  rcases h with h | h
  · exact .inl h
  · exact .inr (List.mem_append_left _ h)

private theorem mem_hashesSince_written {written : String} (h : event.written = some written) :
    written ∈ hashesSince passwordHash (after ++ [event]) := by
  unfold hashesSince
  rw [List.filterMap_append, List.filterMap_cons_some h]
  exact List.mem_cons_of_mem _ (List.mem_append_right _ List.mem_cons_self)

/-- The same verifications, when the new events are none of a sign-in. -/
private theorem verifiedAgainst_append {sessionId : String} (hminted : ∀ origin, .minted sessionId origin ∉ added)
    (hchallenged : ∀ id, .challenged id passwordHash ∉ added)
    (h : VerifiedAgainst (log ++ added) sessionId passwordHash) : VerifiedAgainst log sessionId passwordHash := by
  rcases h with h | ⟨challengeId, h, hchallenge⟩
  · rw [List.mem_append] at h
    exact .inl (h.resolve_right (hminted _))
  · rw [List.mem_append] at h hchallenge
    exact .inr ⟨challengeId, h.resolve_right (hminted _), hchallenge.resolve_right (hchallenged _)⟩

private theorem VerifiedAgainst.append {sessionId : String}
    (h : VerifiedAgainst log sessionId passwordHash) : VerifiedAgainst (log ++ added) sessionId passwordHash := by
  rcases h with h | ⟨challengeId, h, hchallenge⟩
  · exact .inl (List.mem_append_left _ h)
  · exact .inr ⟨challengeId, List.mem_append_left _ h, List.mem_append_left _ hchallenge⟩

/-! ### Changes that are none of a sign-in -/

/-- Neither a session nor a challenge is new in these events. -/
private def Quiet (added : List IdentityEvent) : Prop :=
  (∀ id origin, .minted id origin ∉ added) ∧ ∀ id passwordHash, .challenged id passwordHash ∉ added

private theorem OriginsKept.quiet (h : OriginsKept log rows) (hquiet : Quiet added)
    (hsessions : rows'.sessions.map (·.id) = rows.sessions.map (·.id))
    (hchallenges : rows'.challenges.map (·.id) = rows.challenges.map (·.id)) : OriginsKept (log ++ added) rows' := by
  refine ⟨fun id origin hmem => ?_, fun id passwordHash hmem => ?_, fun id challengeId hmem => ?_, fun id hid => ?_,
    fun id hid => ?_⟩
  · rw [hsessions]
    rw [List.mem_append] at hmem
    exact h.sessions id origin (hmem.resolve_right (hquiet.1 _ _))
  · rw [hchallenges]
    rw [List.mem_append] at hmem
    exact h.challenges id passwordHash (hmem.resolve_right (hquiet.2 _ _))
  · rw [hchallenges]
    rw [List.mem_append] at hmem
    exact h.origins id challengeId (hmem.resolve_right (hquiet.1 _ _))
  · rw [hsessions] at hid
    obtain ⟨passwordHash, hverified⟩ := h.minted id hid
    exact ⟨passwordHash, hverified.append⟩
  · rw [hchallenges] at hid
    obtain ⟨passwordHash, hchallenged⟩ := h.challenged id hid
    exact ⟨passwordHash, List.mem_append_left _ hchallenged⟩

private theorem EraKept.quiet (h : EraKept log rows maker hashes) (hquiet : Quiet added)
    (hsessions : SessionsFrom rows.sessions rows'.sessions)
    (hchallenges : ChallengesFrom rows.challenges rows'.challenges) {hashes' : List String}
    (hhashes : ∀ passwordHash ∈ hashes, passwordHash ∈ hashes') (hpassword : rows'.user.passwordHash ∈ hashes') :
    EraKept (log ++ added) rows' maker hashes' := by
  refine ⟨hpassword, fun session hsession hopen hmaker verified hverified => ?_,
    fun challenge hchallenge hopen verified hmem => ?_⟩
  · obtain ⟨earlier, hearlier, hid, hopen⟩ := hsessions.still_open session hsession hopen
    rw [← hid] at hmaker hverified
    refine hhashes verified (h.sessions earlier hearlier hopen hmaker verified ?_)
    exact verifiedAgainst_append (hquiet.1 _) (fun id => hquiet.2 id verified) hverified
  · obtain ⟨earlier, hearlier, hid, hopen⟩ := hchallenges.still_open challenge hchallenge hopen
    rw [List.mem_append] at hmem
    rw [← hid] at hmem
    exact hhashes verified (h.challenges earlier hearlier hopen verified (hmem.resolve_right (hquiet.2 _ _)))

private theorem PasswordKept.kept (h : PasswordKept log rows) (hunrelated : ∀ event ∈ added, event.unrelated = true)
    (hpassword : rows'.user.passwordHash = rows.user.passwordHash)
    (hsessions : SessionsFrom rows.sessions rows'.sessions)
    (hchallenges : ChallengesFrom rows.challenges rows'.challenges) : PasswordKept (log ++ added) rows' := by
  have hquiet : Quiet added :=
    ⟨fun id origin hmem => Bool.false_ne_true (hunrelated _ hmem),
      fun id passwordHash hmem => Bool.false_ne_true (hunrelated _ hmem)⟩
  refine ⟨h.toOriginsKept.quiet hquiet hsessions.ids hchallenges.ids, fun before passwordHash maker after hsplit => ?_⟩
  obtain ⟨rest, hlog, rfl⟩ := split_append hsplit fun hmem => Bool.false_ne_true (hunrelated _ hmem)
  have hera := h.eras before passwordHash maker rest hlog
  refine hera.quiet hquiet hsessions hchallenges (fun _ hmem => mem_hashesSince_append hmem) ?_
  rw [hpassword]
  exact mem_hashesSince_append hera.password

/-! ### Passwords -/

/-- A password is written; in the eras before it, it is one more hash. -/
private theorem PasswordKept.written (h : PasswordKept log rows) {written : String}
    (hwritten : event.written = some written) (hpassword : rows'.user.passwordHash = written)
    (hsessions : rows'.sessions = rows.sessions) (hchallenges : rows'.challenges = rows.challenges)
    (hera : ∀ passwordHash maker, event = .changed passwordHash maker →
      EraKept (log ++ [event]) rows' maker (hashesSince passwordHash [])) :
    PasswordKept (log ++ [event]) rows' := by
  have hquiet : Quiet [event] := by
    constructor
    · intro id origin hmem
      rw [List.mem_singleton] at hmem
      subst hmem
      cases hwritten
    · intro id passwordHash hmem
      rw [List.mem_singleton] at hmem
      subst hmem
      cases hwritten
  have hsessionsFrom : SessionsFrom rows.sessions rows'.sessions := by
    rw [hsessions]
    exact .refl _
  have hchallengesFrom : ChallengesFrom rows.challenges rows'.challenges := by
    rw [hchallenges]
    exact .refl _
  refine ⟨h.toOriginsKept.quiet hquiet hsessionsFrom.ids hchallengesFrom.ids,
    fun before passwordHash maker after hsplit => ?_⟩
  rcases split_concat hsplit with ⟨-, hevent, rfl⟩ | ⟨rest, hlog, rfl⟩
  · exact hera passwordHash maker hevent.symm
  · refine (h.eras before passwordHash maker rest hlog).quiet hquiet hsessionsFrom hchallengesFrom
      (fun _ hmem => mem_hashesSince_append hmem) ?_
    rw [hpassword]
    exact mem_hashesSince_written hwritten

end

end KComms.Accounts
