import KComms.Accounts.IdentityRuns

/-!
# Challenges over a run

A challenge counts its attempts and is consumed once, so the log has at most five consults for it and at most one
session that was minted from it (`ChallengesKept`).
-/

namespace KComms.Accounts

/-- A consult for the challenge. -/
def IdentityEvent.consultsFor (id : String) : IdentityEvent → Bool
  | .proved consult => consult.challenge = some id
  | _ => false

/-- A session that was minted from the challenge. -/
def IdentityEvent.mintsFrom (id : String) : IdentityEvent → Bool
  | .minted _ origin => origin = .challenge id
  | _ => false

def consultCount (id : String) (log : List IdentityEvent) : Nat := log.countP (·.consultsFor id)

def mintCount (id : String) (log : List IdentityEvent) : Nat := log.countP (·.mintsFrom id)

/-- The counters of a challenge bound what the log has about it. -/
structure AuthChallenge.Counted (challenge : AuthChallenge) (log : List IdentityEvent) : Prop where
  consults : consultCount challenge.id log ≤ challenge.attempts
  attempts : challenge.attempts ≤ maximumAttempts
  open_mints : challenge.consumedAt = none → mintCount challenge.id log = 0
  mints : mintCount challenge.id log ≤ 1

structure ChallengesKept (log : List IdentityEvent) (rows : IdentityRows) : Prop where
  unique : (rows.challenges.map (·.id)).Nodup
  counted : ∀ challenge ∈ rows.challenges, challenge.Counted log
  unknown : ∀ id, id ∉ rows.challenges.map (·.id) → consultCount id log = 0 ∧ mintCount id log = 0

section

variable {crypto : IdentityCrypto} {hash : List UInt8 → String} {log added : List IdentityEvent}
  {rows rows' : IdentityRows} {challenge : AuthChallenge} {event : IdentityEvent} {id : String}

/-- What a change does to the challenges, with the part of the log that is about them. -/
inductive ChallengeOp (draft draft' : Draft) : Prop
  | kept (added : List IdentityEvent) (same : draft'.rows.challenges = draft.rows.challenges)
    (logged : draft'.added = draft.added ++ added)
    (silent : ∀ event ∈ added, ∀ id, event.consultsFor id = false ∧ event.mintsFrom id = false)
  | attempted {challenge : AuthChallenge} (added : List IdentityEvent) (found : challenge ∈ draft.rows.challenges)
    (current : challenge.consumedAt = none) (within : challenge.attempts < maximumAttempts)
    (written : draft'.rows.challenges =
      updateChallenge challenge.id (fun _ => attemptOnce challenge) draft.rows.challenges)
    (logged : draft'.added = draft.added ++ added)
    (consults : ∀ id, consultCount id added ≤ if id = challenge.id then 1 else 0)
    (mints : ∀ id, mintCount id added = 0)
  | invalidated (now : Int)
    (written : draft'.rows.challenges = invalidateIdentityChallenges now draft.rows.challenges)
    (logged : draft'.added = draft.added)
  | challenged (challenge : AuthChallenge)
    (inserted : insertChallenge challenge draft.rows.challenges = some draft'.rows.challenges)
    (current : challenge.consumedAt = none) (untried : challenge.attempts = 0) (passwordHash : String)
    (same : passwordHash = draft.rows.user.passwordHash)
    (logged : draft'.added = draft.added ++ [.challenged challenge.id passwordHash])
  | minted {challenge : AuthChallenge} (now : Int) (sessionId : String) (found : challenge ∈ draft.rows.challenges)
    (current : challenge.consumedAt = none)
    (written : draft'.rows.challenges =
      updateChallenge challenge.id (fun challenge => { challenge with consumedAt := some now }) draft.rows.challenges)
    (logged : draft'.added = draft.added ++ [.minted sessionId (.challenge challenge.id)])

private theorem challengeOp_of_write {draft : Draft} {rows : IdentityRows}
    (same : rows.challenges = draft.rows.challenges) (silent : ∀ event ∈ added, ∀ id,
      event.consultsFor id = false ∧ event.mintsFrom id = false) : ChallengeOp draft (draft.write rows added) :=
  .kept added same rfl silent

private theorem unrelated_of_event (h : ∀ id, event.consultsFor id = false ∧ event.mintsFrom id = false) :
    ∀ other ∈ [event], ∀ id, other.consultsFor id = false ∧ other.mintsFrom id = false :=
  List.forall_mem_singleton.mpr h

theorem challengeOp_of_op {draft draft' : Draft} (hop : IdentityOp crypto draft draft') :
    ChallengeOp draft draft' := by
  cases hop with
  | waited clock later => exact .kept [] rfl (List.append_nil _).symm (List.forall_mem_nil _)
  | proved reads allowRecovery code found later ordered =>
    exact .kept _ rfl rfl (unrelated_of_event fun _ => ⟨rfl, rfl⟩)
  | attempted found current within =>
    exact .attempted [] found current within rfl rfl (fun id => Nat.zero_le _) (fun id => rfl)
  | @challengeProved challenge factor reads code found current within enabled later ordered =>
    refine .attempted _ found current within rfl rfl (fun id => ?_) (fun id => rfl)
    unfold consultCount
    rw [List.countP_singleton]
    simp only [IdentityEvent.consultsFor, Option.some.injEq, decide_eq_true_eq]
    by_cases hid : id = challenge.id
    · rw [if_pos hid, if_pos hid.symm]
    · rw [if_neg hid, if_neg (Ne.symm hid)]
  | challenged challenge inserted current untried =>
    exact .challenged challenge inserted current untried _ rfl rfl
  | challengeMinted session now found current proof inserted => exact .minted now session.id found current rfl rfl
  | invalidated now => exact .invalidated now rfl (List.append_nil _)
  | enrolled secret insertedAt disabled => exact challengeOp_of_write rfl (unrelated_of_event fun _ => ⟨rfl, rfl⟩)
  | issued enabledAt hashes found proof => exact challengeOp_of_write rfl (unrelated_of_event fun _ => ⟨rfl, rfl⟩)
  | removed proof => exact challengeOp_of_write rfl (unrelated_of_event fun _ => ⟨rfl, rfl⟩)
  | sessions change keeps => exact challengeOp_of_write rfl (List.forall_mem_nil _)
  | minted session inserted disabled =>
    refine challengeOp_of_write rfl (unrelated_of_event fun id => ⟨rfl, ?_⟩)
    simp only [IdentityEvent.mintsFrom, reduceCtorEq, decide_false]
  | upgraded passwordHash => exact challengeOp_of_write rfl (unrelated_of_event fun _ => ⟨rfl, rfl⟩)
  | changed passwordHash sessionId challengesOver sessionsOver =>
    exact challengeOp_of_write rfl (unrelated_of_event fun _ => ⟨rfl, rfl⟩)
  | requested request now inserted => exact challengeOp_of_write rfl (unrelated_of_event fun _ => ⟨rfl, rfl⟩)
  | recovered now found outstanding => exact challengeOp_of_write rfl (unrelated_of_event fun _ => ⟨rfl, rfl⟩)
  | pruned keeps => exact challengeOp_of_write rfl (List.forall_mem_nil _)
  | status status => exact challengeOp_of_write rfl (List.forall_mem_nil _)

/-! ### Rows -/

theorem updateChallenge_ids {change : AuthChallenge → AuthChallenge} {challenges : List AuthChallenge}
    (h : ∀ challenge ∈ challenges, challenge.id = id → (change challenge).id = id) :
    (updateChallenge id change challenges).map (·.id) = challenges.map (·.id) := by
  unfold updateChallenge
  rw [List.map_map]
  refine List.map_congr_left fun challenge hchallenge => ?_
  rw [Function.comp_apply]
  by_cases hid : challenge.id = id
  · rw [if_pos hid, h challenge hchallenge hid, hid]
  · rw [if_neg hid]

theorem invalidateIdentityChallenges_ids (now : Int) (challenges : List AuthChallenge) :
    (invalidateIdentityChallenges now challenges).map (·.id) = challenges.map (·.id) := by
  unfold invalidateIdentityChallenges
  rw [List.map_map]
  refine List.map_congr_left fun challenge _ => ?_
  rw [Function.comp_apply]
  split <;> rfl

theorem insertChallenge_eq_some {challenges challenges' : List AuthChallenge}
    (h : insertChallenge challenge challenges = some challenges') :
    challenges' = challenge :: challenges ∧ challenge.id ∉ challenges.map (·.id) := by
  unfold insertChallenge at h
  split at h
  · cases h
  rename_i hfresh
  cases h
  refine ⟨rfl, fun hid => hfresh ?_⟩
  rw [List.mem_map] at hid
  obtain ⟨other, hother, hid⟩ := hid
  rw [List.any_eq_true]
  refine ⟨other, hother, ?_⟩
  rw [Bool.or_eq_true, decide_eq_true_eq]
  exact .inl hid

/-- With unique ids, a challenge of the id is the one that was found. -/
theorem eq_of_id {challenges : List AuthChallenge} (hunique : (challenges.map (·.id)).Nodup) {other : AuthChallenge}
    (hchallenge : challenge ∈ challenges) (hother : other ∈ challenges) (hid : other.id = challenge.id) :
    other = challenge :=
  List.inj_on_of_nodup_map hunique hother hchallenge hid

/-! ### Counts -/

private theorem counts_append_silent (log : List IdentityEvent)
    (h : ∀ event ∈ added, ∀ id, event.consultsFor id = false ∧ event.mintsFrom id = false) (id : String) :
    consultCount id (log ++ added) = consultCount id log ∧ mintCount id (log ++ added) = mintCount id log := by
  have hconsults : consultCount id added = 0 := by
    unfold consultCount
    rw [List.countP_eq_zero]
    intro event hevent
    rw [(h event hevent id).1]
    exact Bool.false_ne_true
  have hmints : mintCount id added = 0 := by
    unfold mintCount
    rw [List.countP_eq_zero]
    intro event hevent
    rw [(h event hevent id).2]
    exact Bool.false_ne_true
  unfold consultCount mintCount at *
  rw [List.countP_append, List.countP_append]
  omega

private theorem consultCount_append : consultCount id (log ++ added) = consultCount id log + consultCount id added :=
  List.countP_append

private theorem mintCount_append : mintCount id (log ++ added) = mintCount id log + mintCount id added :=
  List.countP_append

private theorem ChallengesKept.silent (h : ChallengesKept log rows)
    (hsilent : ∀ event ∈ added, ∀ id, event.consultsFor id = false ∧ event.mintsFrom id = false)
    (hsame : rows'.challenges = rows.challenges) : ChallengesKept (log ++ added) rows' := by
  have hcounts := counts_append_silent log hsilent
  constructor
  · rw [hsame]
    exact h.unique
  · intro challenge hchallenge
    rw [hsame] at hchallenge
    have hcounted := h.counted challenge hchallenge
    constructor
    · rw [(hcounts challenge.id).1]
      exact hcounted.consults
    · exact hcounted.attempts
    · rw [(hcounts challenge.id).2]
      exact hcounted.open_mints
    · rw [(hcounts challenge.id).2]
      exact hcounted.mints
  · intro id hid
    rw [(hcounts id).1, (hcounts id).2]
    rw [hsame] at hid
    exact h.unknown id hid

private theorem ChallengesKept.attempted (h : ChallengesKept log rows) (hfound : challenge ∈ rows.challenges)
    (hcurrent : challenge.consumedAt = none) (hwithin : challenge.attempts < maximumAttempts)
    (hwritten : rows'.challenges = updateChallenge challenge.id (fun _ => attemptOnce challenge) rows.challenges)
    (hconsults : ∀ id, consultCount id added ≤ if id = challenge.id then 1 else 0)
    (hmints : ∀ id, mintCount id added = 0) : ChallengesKept (log ++ added) rows' := by
  have hids : rows'.challenges.map (·.id) = rows.challenges.map (·.id) := by
    rw [hwritten]
    exact updateChallenge_ids fun _ _ _ => rfl
  constructor
  · rw [hids]
    exact h.unique
  · intro other hother
    rw [hwritten, updateChallenge, List.mem_map] at hother
    obtain ⟨before, hbefore, rfl⟩ := hother
    have hcounted := h.counted before hbefore
    have hadded := hconsults before.id
    have hnone := hmints before.id
    by_cases hid : before.id = challenge.id
    · obtain rfl := eq_of_id h.unique hfound hbefore hid
      rw [if_pos rfl] at hadded ⊢
      have hconsulted := hcounted.consults
      have hunminted := hcounted.open_mints hcurrent
      unfold attemptOnce
      constructor
      · rw [consultCount_append]
        dsimp only
        omega
      · exact hwithin
      · intro _
        rw [mintCount_append]
        dsimp only
        omega
      · rw [mintCount_append]
        dsimp only
        omega
    · rw [if_neg hid] at hadded ⊢
      constructor
      · rw [consultCount_append, Nat.le_zero.mp hadded]
        exact hcounted.consults
      · exact hcounted.attempts
      · rw [mintCount_append, hnone]
        exact hcounted.open_mints
      · rw [mintCount_append, hnone]
        exact hcounted.mints
  · intro id hid
    rw [hids] at hid
    have hother : id ≠ challenge.id := by
      rintro rfl
      exact hid (List.mem_map_of_mem hfound)
    have hadded := hconsults id
    have hnone := hmints id
    rw [if_neg hother] at hadded
    rw [consultCount_append, mintCount_append]
    obtain ⟨hconsulted, hminted⟩ := h.unknown id hid
    omega

private theorem ChallengesKept.invalidated (h : ChallengesKept log rows) (now : Int)
    (hwritten : rows'.challenges = invalidateIdentityChallenges now rows.challenges) : ChallengesKept log rows' := by
  have hids : rows'.challenges.map (·.id) = rows.challenges.map (·.id) := by
    rw [hwritten]
    exact invalidateIdentityChallenges_ids now _
  constructor
  · rw [hids]
    exact h.unique
  · intro challenge hchallenge
    rw [hwritten, invalidateIdentityChallenges, List.mem_map] at hchallenge
    obtain ⟨before, hbefore, rfl⟩ := hchallenge
    have hcounted := h.counted before hbefore
    split
    · exact ⟨hcounted.consults, hcounted.attempts, fun hopen => absurd hopen (Option.some_ne_none _), hcounted.mints⟩
    · exact hcounted
  · rw [hids]
    exact h.unknown

private theorem ChallengesKept.challenged (h : ChallengesKept log rows)
    (hinserted : insertChallenge challenge rows.challenges = some rows'.challenges) (huntried : challenge.attempts = 0)
    (passwordHash : String) :
    ChallengesKept (log ++ [.challenged challenge.id passwordHash]) rows' := by
  obtain ⟨hrows, hfresh⟩ := insertChallenge_eq_some hinserted
  have hsilent : ∀ event ∈ [IdentityEvent.challenged challenge.id passwordHash], ∀ id,
      event.consultsFor id = false ∧ event.mintsFrom id = false := unrelated_of_event fun _ => ⟨rfl, rfl⟩
  have hcounts := counts_append_silent log hsilent
  constructor
  · rw [hrows, List.map_cons, List.nodup_cons]
    exact ⟨hfresh, h.unique⟩
  · intro other hother
    rw [hrows, List.mem_cons] at hother
    rcases hother with rfl | hother
    · obtain ⟨hconsults, hmints⟩ := h.unknown _ hfresh
      constructor
      · rw [(hcounts _).1, hconsults]
        exact Nat.zero_le _
      · rw [huntried]
        exact Nat.zero_le _
      · intro _
        rw [(hcounts _).2, hmints]
      · rw [(hcounts _).2, hmints]
        exact Nat.zero_le _
    · have hcounted := h.counted other hother
      constructor
      · rw [(hcounts _).1]
        exact hcounted.consults
      · exact hcounted.attempts
      · rw [(hcounts _).2]
        exact hcounted.open_mints
      · rw [(hcounts _).2]
        exact hcounted.mints
  · intro id hid
    rw [hrows, List.map_cons, List.mem_cons, not_or] at hid
    rw [(hcounts id).1, (hcounts id).2]
    exact h.unknown id hid.2

private theorem ChallengesKept.minted (h : ChallengesKept log rows) (now : Int) (sessionId : String)
    (hfound : challenge ∈ rows.challenges) (hcurrent : challenge.consumedAt = none)
    (hwritten : rows'.challenges =
      updateChallenge challenge.id (fun challenge => { challenge with consumedAt := some now }) rows.challenges) :
    ChallengesKept (log ++ [.minted sessionId (.challenge challenge.id)]) rows' := by
  have hids : rows'.challenges.map (·.id) = rows.challenges.map (·.id) := by
    rw [hwritten]
    exact updateChallenge_ids fun _ _ hid => hid
  have hconsults (id : String) : consultCount id [.minted sessionId (.challenge challenge.id)] = 0 := rfl
  have hmints (id : String) : mintCount id [.minted sessionId (.challenge challenge.id)] =
      if id = challenge.id then 1 else 0 := by
    unfold mintCount
    rw [List.countP_singleton]
    simp only [IdentityEvent.mintsFrom, SignInOrigin.challenge.injEq, decide_eq_true_eq]
    by_cases hid : id = challenge.id
    · rw [if_pos hid, if_pos hid.symm]
    · rw [if_neg hid, if_neg (Ne.symm hid)]
  constructor
  · rw [hids]
    exact h.unique
  · intro other hother
    rw [hwritten, updateChallenge, List.mem_map] at hother
    obtain ⟨before, hbefore, rfl⟩ := hother
    have hcounted := h.counted before hbefore
    have hadded := hmints before.id
    by_cases hid : before.id = challenge.id
    · obtain rfl := eq_of_id h.unique hfound hbefore hid
      rw [if_pos rfl] at hadded ⊢
      constructor
      · rw [consultCount_append, hconsults]
        exact hcounted.consults
      · exact hcounted.attempts
      · exact fun hopen => absurd hopen (Option.some_ne_none _)
      · rw [mintCount_append, hadded, hcounted.open_mints hcurrent]
    · rw [if_neg hid] at hadded ⊢
      constructor
      · rw [consultCount_append, hconsults]
        exact hcounted.consults
      · exact hcounted.attempts
      · rw [mintCount_append, hadded]
        exact hcounted.open_mints
      · rw [mintCount_append, hadded]
        exact hcounted.mints
  · intro id hid
    rw [hids] at hid
    have hother : id ≠ challenge.id := by
      rintro rfl
      exact hid (List.mem_map_of_mem hfound)
    rw [consultCount_append, mintCount_append, hconsults, hmints, if_neg hother]
    exact h.unknown id hid

/-! ### Every run -/

private theorem kept_of_challengeOp {draft draft' : Draft} (hop : ChallengeOp draft draft')
    (h : ChallengesKept (log ++ draft.added) draft.rows) : ChallengesKept (log ++ draft'.added) draft'.rows := by
  cases hop with
  | kept added same logged silent =>
    rw [logged, ← List.append_assoc]
    exact h.silent silent same
  | attempted added found current within written logged consults mints =>
    rw [logged, ← List.append_assoc]
    exact h.attempted found current within written consults mints
  | invalidated now written logged =>
    rw [logged]
    exact h.invalidated now written
  | challenged challenge inserted current untried passwordHash same logged =>
    rw [logged, ← List.append_assoc]
    exact h.challenged inserted untried passwordHash
  | minted now sessionId found current written logged =>
    rw [logged, ← List.append_assoc]
    exact h.minted now sessionId found current written

theorem kept_challenges : KeptByChanges crypto fun log rows _ => ChallengesKept log rows where
  discard _ _ h := h.silent (unrelated_of_event fun _ => ⟨rfl, rfl⟩) rfl
  op hop h := kept_of_challengeOp (challengeOp_of_op hop) h

/-- A challenge that is consumed stays so, since then. -/
theorem kept_consumed (challenge : AuthChallenge) (consumedAt : Int) :
    KeptByChanges crypto fun log rows _ =>
      ChallengesKept log rows ∧
        ∃ later ∈ rows.challenges, later.id = challenge.id ∧ later.consumedAt = some consumedAt where
  discard _ _ h := ⟨h.1.silent (unrelated_of_event fun _ => ⟨rfl, rfl⟩) rfl, h.2⟩
  op := by
    intro log draft draft' hop h
    obtain ⟨hkept, later, hlater, hid, hconsumed⟩ := h
    have hchallenge := challengeOp_of_op hop
    refine ⟨kept_of_challengeOp hchallenge hkept, ?_⟩
    -- a change of an open challenge is not one of this challenge
    have hother {other : AuthChallenge} (hfound : other ∈ draft.rows.challenges) (hopen : other.consumedAt = none) :
        later.id ≠ other.id := by
      intro hsame
      obtain rfl := eq_of_id hkept.unique hfound hlater hsame
      rw [hopen] at hconsumed
      cases hconsumed
    cases hchallenge with
    | kept added same logged silent =>
      rw [same]
      exact ⟨later, hlater, hid, hconsumed⟩
    | attempted added found current within written logged consults mints =>
      rw [written]
      refine ⟨later, List.mem_map.mpr ⟨later, hlater, ?_⟩, hid, hconsumed⟩
      exact if_neg (hother found current)
    | invalidated now written logged =>
      rw [written]
      refine ⟨later, List.mem_map.mpr ⟨later, hlater, ?_⟩, hid, hconsumed⟩
      refine if_neg ?_
      rw [hconsumed]
      exact Option.some_ne_none _
    | challenged other inserted current untried passwordHash same logged =>
      obtain ⟨hrows, -⟩ := insertChallenge_eq_some inserted
      rw [hrows]
      exact ⟨later, List.mem_cons_of_mem _ hlater, hid, hconsumed⟩
    | minted now sessionId found current written logged =>
      rw [written]
      refine ⟨later, List.mem_map.mpr ⟨later, hlater, ?_⟩, hid, hconsumed⟩
      exact if_neg (hother found current)

end

end KComms.Accounts
