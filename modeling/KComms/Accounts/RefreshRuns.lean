import KComms.Accounts.RefreshTokens
import Mathlib.Data.List.Chain

/-!
# What refreshing does to a session

A refresh takes the one token whose secret the session has the hash of, and replaces it; the deadline of the session
stays before its absolute one.  Each refresh that succeeds has presented the secret of the refresh before
(`RefreshSuccess.Follows`).
-/

namespace KComms.Accounts

variable {rows rows' : SessionRows} {secret : List UInt8} {kind : RefreshKind}

section

variable {hash : List UInt8 → String} {castUuid : String → Option String}

/-- The secret of a token, as it is parsed. -/
def tokenSecret (castUuid : String → Option String) (token : String) : Option (List UInt8) :=
  (parseRefreshToken castUuid token).map Prod.snd

/-- The refresh presented the secret that the one before has generated. -/
def RefreshSuccess.Follows (castUuid : String → Option String) (previous next : RefreshSuccess) : Prop :=
  tokenSecret castUuid next.token = some previous.newSecret

/-- Some refresh with the token would succeed now. -/
def RefreshSystem.Accepts (hash : List UInt8 → String) (castUuid : String → Option String) (system : RefreshSystem)
    (token : String) : Prop :=
  ∃ kind ask, (system.refresh hash castUuid kind token ask).isSome

/-- What a refresh needs, and what it changes. -/
structure Rotation (hash : List UInt8 → String) (secret : List UInt8) (reads : RefreshReads) (rows rows' : SessionRows) :
    Prop where
  active : rows.session.active reads.checked = true
  presented : rows.session.refreshTokenHash = hash secret
  replaced : rows'.session.refreshTokenHash = hash reads.newSecret
  within : rows'.session.expiresAt ≤ rows.session.absoluteExpiresAt
  authority : rows.user.accountType = .guest → ∀ expiry, rows.user.guestExpiresAt = some expiry →
    reads.started < expiry ∧ rows'.session.expiresAt ≤ expiry
  absolute : rows'.session.absoluteExpiresAt = rows.session.absoluteExpiresAt
  revoked : rows'.session.revokedAt = rows.session.revokedAt
  id : rows'.session.id = rows.session.id
  user : rows'.user = rows.user

theorem rotateRefreshSession_eq_some {reads : RefreshReads}
    (h : rotateRefreshSession hash secret reads rows = some rows') : Rotation hash secret reads rows rows' := by
  unfold rotateRefreshSession at h
  dsimp only at h
  split at h
  · cases h
  rename_i hactive
  split at h
  · cases h
  rename_i hpresented
  split at h
  · cases h
  rename_i hhuman
  split at h
  · cases h
  split at h
  · cases h
  split at h
  · cases h
  cases h
  simp only [Bool.not_eq_true', Bool.not_eq_false] at hactive
  simp only [ne_eq, decide_not, Bool.or_eq_true, Bool.not_eq_true', decide_eq_false_iff_not, not_or, not_not] at hhuman
  refine ⟨hactive, not_not.mp hpresented, rfl, ?_, fun hguest => ?_, rfl, rfl, rfl, rfl⟩
  · simp only [rotatedSessionExpiresAt, earlierDeadline_eq_min]
    exact Int.min_le_right _ _
  · rw [hhuman.2] at hguest
    cases hguest

theorem rotateGuestRefreshSession_eq_some {reads : RefreshReads}
    (h : rotateGuestRefreshSession hash secret reads rows = some rows') : Rotation hash secret reads rows rows' := by
  unfold rotateGuestRefreshSession at h
  dsimp only at h
  split at h
  · cases h
  rename_i hactive
  split at h
  · cases h
  rename_i hpresented
  split at h
  · cases h
  rename_i expiry hexpiry
  split at h
  · cases h
  split at h
  · cases h
  rename_i hwithin
  split at h
  · cases h
  split at h
  · cases h
  cases h
  simp only [Bool.not_eq_true', Bool.not_eq_false] at hactive
  refine ⟨hactive, not_not.mp hpresented, rfl, ?_, fun _ other hother => ?_, rfl, rfl, rfl, rfl⟩
  · simp only [rotatedSessionExpiresAt, earlierDeadline_eq_min]
    omega
  · rw [hexpiry, Option.some.injEq] at hother
    subst hother
    constructor
    · omega
    · simp only [rotatedSessionExpiresAt, earlierDeadline_eq_min]
      omega

/-- A refresh that succeeds is a rotation for the secret of its token. -/
theorem refresh_eq_some {system : RefreshSystem} {token : String} {ask : RefreshAsk}
    (h : system.refresh hash castUuid kind token ask = some rows) :
    ∃ secret, parseRefreshToken castUuid token = some (system.rows.session.id, secret) ∧
      Rotation hash secret (ask.reads system.clock) system.rows rows := by
  unfold RefreshSystem.refresh refreshWith at h
  split at h
  · cases h
  rename_i sessionId secret hparse
  split at h
  · cases h
  rename_i hid
  rw [not_not] at hid
  refine ⟨secret, by rw [hparse, hid], ?_⟩
  cases kind with
  | human => exact rotateRefreshSession_eq_some h
  | guest => exact rotateGuestRefreshSession_eq_some h

end

/-! ### Every move -/

/-- What holds of the session in every run. -/
structure RefreshInvariant (hash : List UInt8 → String) (castUuid : String → Option String) (absoluteExpiresAt : Int)
    (system : RefreshSystem) : Prop where
  within : system.rows.session.expiresAt ≤ system.rows.session.absoluteExpiresAt
  absolute : system.rows.session.absoluteExpiresAt = absoluteExpiresAt
  authority : system.rows.user.accountType = .guest → system.rows.session.revokedAt = none →
    ∀ expiry, system.rows.user.guestExpiresAt = some expiry → system.rows.session.expiresAt ≤ expiry
  chained : system.succeeded.IsChain (RefreshSuccess.Follows castUuid)
  current : ∀ success ∈ system.succeeded.getLast?, system.rows.session.refreshTokenHash = hash success.newSecret

section

variable {hash : List UInt8 → String} {castUuid : String → Option String} {absoluteExpiresAt : Int}
  {system : RefreshSystem}

private theorem refresh_reads_ordered (ask : RefreshAsk) (clock : Int) :
    clock ≤ (ask.reads clock).checked ∧ (ask.reads clock).checked ≤ (ask.reads clock).expires := by
  simp only [RefreshAsk.reads]
  omega

private theorem RefreshInvariant.refreshed (hinjective : Function.Injective hash)
    (inv : RefreshInvariant hash castUuid absoluteExpiresAt system) {token : String} {ask : RefreshAsk}
    (h : system.refresh hash castUuid kind token ask = some rows) (clock : Int) :
    RefreshInvariant hash castUuid absoluteExpiresAt
      { clock := clock
        rows := rows
        succeeded := system.succeeded ++ [{ token := token, newSecret := ask.newSecret }] } := by
  obtain ⟨secret, hparse, hrotation⟩ := refresh_eq_some h
  refine ⟨?_, ?_, ?_, ?_, ?_⟩
  · dsimp only
    rw [hrotation.absolute]
    exact hrotation.within
  · exact hrotation.absolute.trans inv.absolute
  · intro hguest _ expiry hexpiry
    dsimp only at hguest hexpiry
    rw [hrotation.user] at hguest hexpiry
    exact (hrotation.authority hguest expiry hexpiry).2
  · rw [List.isChain_append]
    refine ⟨inv.chained, List.isChain_singleton _, ?_⟩
    intro previous hprevious next hnext
    cases hnext
    have hsame : hash secret = hash previous.newSecret := hrotation.presented.symm.trans (inv.current previous hprevious)
    change tokenSecret castUuid token = some previous.newSecret
    unfold tokenSecret
    rw [hparse, ← hinjective hsame]
    rfl
  · intro success hsuccess
    dsimp only at hsuccess
    rw [List.getLast?_concat] at hsuccess
    cases hsuccess
    exact hrotation.replaced

private theorem RefreshInvariant.step (hinjective : Function.Injective hash)
    (inv : RefreshInvariant hash castUuid absoluteExpiresAt system) (move : RefreshMove) :
    RefreshInvariant hash castUuid absoluteExpiresAt (system.step hash castUuid move) := by
  cases move with
  | refresh kind token ask =>
    unfold RefreshSystem.step
    dsimp only
    split
    · rename_i rows hrefresh
      exact inv.refreshed hinjective hrefresh _
    · exact ⟨inv.within, inv.absolute, inv.authority, inv.chained, inv.current⟩
  | revoke =>
    refine ⟨inv.within, inv.absolute, fun _ hopen => ?_, inv.chained, inv.current⟩
    cases hopen
  | revokeGuest =>
    unfold RefreshSystem.step revokeGuestSession
    dsimp only
    split
    · exact ⟨inv.within, inv.absolute, inv.authority, inv.chained, inv.current⟩
    split
    · rename_i hrevoked
      exact ⟨inv.within, inv.absolute, fun _ hopen => absurd hopen hrevoked, inv.chained, inv.current⟩
    · refine ⟨inv.within, inv.absolute, fun _ hopen => ?_, inv.chained, inv.current⟩
      cases hopen
  | surround surroundings => exact ⟨inv.within, inv.absolute, inv.authority, inv.chained, inv.current⟩
  | wait elapsed => exact ⟨inv.within, inv.absolute, inv.authority, inv.chained, inv.current⟩

/-- The session is over: it is revoked, or one of its deadlines has passed. -/
def RefreshSystem.Over (system : RefreshSystem) : Prop :=
  system.rows.session.revokedAt ≠ none ∨ system.rows.session.expiresAt ≤ system.clock ∨
    system.rows.session.absoluteExpiresAt ≤ system.clock

private theorem RefreshSystem.Over.refuses (h : system.Over) (kind : RefreshKind) (token : String) (ask : RefreshAsk) :
    system.refresh hash castUuid kind token ask = none := by
  by_contra hsome
  obtain ⟨rows, hrefresh⟩ := Option.ne_none_iff_exists'.mp hsome
  obtain ⟨secret, -, hrotation⟩ := refresh_eq_some hrefresh
  obtain ⟨hopen, hexpires, habsolute⟩ := Session.active_iff.mp hrotation.active
  have hchecked := (refresh_reads_ordered ask system.clock).1
  rcases h with hrevoked | hover | hover
  · exact hrevoked hopen
  · omega
  · omega

/-- Time does not run back, and nobody takes a revocation back. -/
private theorem RefreshSystem.Over.step (h : system.Over) (move : RefreshMove) :
    (system.step hash castUuid move).Over ∧
      (system.step hash castUuid move).succeeded = system.succeeded := by
  have hlater : ∀ clock, system.clock ≤ clock → system.rows.session.revokedAt ≠ none ∨
      system.rows.session.expiresAt ≤ clock ∨ system.rows.session.absoluteExpiresAt ≤ clock := by
    intro clock hclock
    rcases h with hrevoked | hover | hover
    · exact .inl hrevoked
    · exact .inr (.inl (by omega))
    · exact .inr (.inr (by omega))
  cases move with
  | refresh kind token ask =>
    have hordered := refresh_reads_ordered ask system.clock
    unfold RefreshSystem.step
    dsimp only
    rw [h.refuses]
    exact ⟨hlater (ask.reads system.clock).expires (by omega), rfl⟩
  | revoke => exact ⟨.inl (Option.some_ne_none _), rfl⟩
  | revokeGuest =>
    refine ⟨?_, rfl⟩
    unfold RefreshSystem.step revokeGuestSession
    dsimp only
    split
    · exact h
    split
    · rename_i hrevoked
      exact .inl hrevoked
    · exact .inl (Option.some_ne_none _)
  | surround surroundings => exact ⟨h, rfl⟩
  | wait elapsed => exact ⟨hlater (system.clock + elapsed) (by omega), rfl⟩

end

/-! ### Runs -/

section

variable {hash : List UInt8 → String} {castUuid : String → Option String} {absoluteExpiresAt : Int}
  {system : RefreshSystem}

private theorem start_refreshes (settings : SessionSettings) (new : NewSession) (user : User) (clock : Int) :
    RefreshInvariant hash castUuid (RefreshSystem.start settings new user clock).rows.session.absoluteExpiresAt
      (RefreshSystem.start settings new user clock) where
  within := by
    unfold RefreshSystem.start
    dsimp only
    split
    · simp only [createGuestSession, earlierDeadline_eq_min]
      exact Int.min_le_right _ _
    · exact newDeadlines_ordered settings clock
  absolute := rfl
  authority := by
    intro hguest _ expiry hexpiry
    unfold RefreshSystem.start at hguest hexpiry ⊢
    dsimp only at hguest hexpiry ⊢
    rw [hguest, hexpiry]
    simp only [createGuestSession, earlierDeadline_eq_min]
    exact Int.min_le_right _ _
  chained := List.isChain_nil
  current := fun _ hsuccess => by cases hsuccess

private theorem run_refreshes (hinjective : Function.Injective hash)
    (inv : RefreshInvariant hash castUuid absoluteExpiresAt system) (moves : List RefreshMove) :
    RefreshInvariant hash castUuid absoluteExpiresAt (system.run hash castUuid moves) := by
  induction moves generalizing system with
  | nil => exact inv
  | cons move moves ih => exact ih (inv.step hinjective move)

private theorem RefreshSystem.Over.run (h : system.Over) (moves : List RefreshMove) :
    (system.run hash castUuid moves).succeeded = system.succeeded := by
  induction moves generalizing system with
  | nil => rfl
  | cons move moves ih =>
    obtain ⟨hover, hsame⟩ := h.step move
    exact (ih hover).trans hsame

/-- What follows the last refresh before it presents a secret that was made since an earlier one. -/
private theorem chained_last {before later : List RefreshSuccess} {first second : RefreshSuccess}
    {mid : List RefreshSuccess}
    (h : (before ++ first :: mid ++ second :: later).IsChain (RefreshSuccess.Follows castUuid)) :
    ∃ between ∈ first :: mid, between.Follows castUuid second := by
  have hne : first :: mid ≠ [] := List.cons_ne_nil _ _
  refine ⟨(first :: mid).getLast hne, List.getLast_mem hne, ?_⟩
  rw [List.isChain_append] at h
  have hlast : (before ++ first :: mid).getLast? = some ((first :: mid).getLast hne) := by
    rw [List.getLast?_append_of_ne_nil _ hne, List.getLast?_eq_getLast_of_ne_nil hne]
  exact h.2.2 _ hlast _ rfl

/-- In every run a session has one valid token, and one that was replaced is not taken again, unless its very secret is
generated again; its deadlines bound all refreshes. -/
theorem refresh_token_rotation (hash : List UInt8 → String) (hinjective : Function.Injective hash)
    (castUuid : String → Option String) (settings : SessionSettings) (new : NewSession) (user : User) (clock : Int)
    (moves : List RefreshMove) :
    let start := RefreshSystem.start settings new user clock
    let system := start.run hash castUuid moves
    (∀ token token', system.Accepts hash castUuid token → system.Accepts hash castUuid token' →
        parseRefreshToken castUuid token = parseRefreshToken castUuid token') ∧
      (∀ before first mid second later, system.succeeded = before ++ first :: mid ++ second :: later →
        tokenSecret castUuid first.token = tokenSecret castUuid second.token →
          ∃ between ∈ first :: mid, tokenSecret castUuid first.token = some between.newSecret) ∧
      system.rows.session.expiresAt ≤ system.rows.session.absoluteExpiresAt ∧
      (system.rows.user.accountType = .guest → system.rows.session.revokedAt = none →
        ∀ expiry, system.rows.user.guestExpiresAt = some expiry → system.rows.session.expiresAt ≤ expiry) ∧
      system.rows.session.absoluteExpiresAt = start.rows.session.absoluteExpiresAt ∧
      (∀ kind token ask rows, system.refresh hash castUuid kind token ask = some rows →
        system.rows.session.revokedAt = none ∧
          (ask.reads system.clock).checked < system.rows.session.expiresAt ∧
            (ask.reads system.clock).checked < system.rows.session.absoluteExpiresAt) ∧
      (system.Over → ∀ later, (system.run hash castUuid later).succeeded = system.succeeded) ∧
      ∀ kind token ask, system.refresh hash castUuid kind token ask = none →
        (system.step hash castUuid (.refresh kind token ask)).rows = system.rows := by
  intro start system
  have inv : RefreshInvariant hash castUuid start.rows.session.absoluteExpiresAt system :=
    run_refreshes hinjective (start_refreshes settings new user clock) moves
  refine ⟨?_, ?_, inv.within, inv.authority, inv.absolute, ?_, fun hover later => hover.run later, ?_⟩
  · rintro token token' ⟨kind, ask, hsome⟩ ⟨kind', ask', hsome'⟩
    obtain ⟨rows, hrefresh⟩ := Option.isSome_iff_exists.mp hsome
    obtain ⟨rows', hrefresh'⟩ := Option.isSome_iff_exists.mp hsome'
    obtain ⟨secret, hparse, hrotation⟩ := refresh_eq_some hrefresh
    obtain ⟨secret', hparse', hrotation'⟩ := refresh_eq_some hrefresh'
    have hsame : hash secret = hash secret' := hrotation.presented.symm.trans hrotation'.presented
    rw [hparse, hparse', hinjective hsame]
  · intro before first mid second later hsucceeded hsame
    have hchain := inv.chained
    rw [hsucceeded] at hchain
    obtain ⟨between, hbetween, hfollows⟩ := chained_last hchain
    exact ⟨between, hbetween, hsame.trans hfollows⟩
  · intro kind token ask rows hrefresh
    obtain ⟨secret, -, hrotation⟩ := refresh_eq_some hrefresh
    exact Session.active_iff.mp hrotation.active
  · intro kind token ask hnone
    unfold RefreshSystem.step
    dsimp only
    rw [hnone]

end

def sampleHash (secret : List UInt8) : String := String.ofList (secret.map Char.ofUInt8)

private theorem sampleHash_injective : Function.Injective sampleHash := by
  have hbyte : Function.Injective Char.ofUInt8 := by
    intro a b h
    have hcode : (Char.ofUInt8 a).toNat = (Char.ofUInt8 b).toNat := congrArg Char.toNat h
    exact UInt8.toNat_inj.mp hcode
  intro secret secret' h
  exact List.map_injective_iff.mpr hbyte (String.ofList_injective h)

def sampleSettings : SessionSettings where
  ttlSeconds := 60
  absoluteTtlSeconds := 90

def sampleNewSession : NewSession where
  id := "s-1"
  deviceId := "d-1"
  refreshTokenHash := sampleHash [1, 2, 3]

def sampleUser : User where
  id := "u-1"
  passwordHash := "h-1"
  accountType := .human
  accessScope := .workspace
  guestExpiresAt := none
  status := .active

def sampleGuest : User :=
  { sampleUser with
    accountType := .guest
    accessScope := .conversationOnly
    guestExpiresAt := some (seconds 90) }

def sampleRefreshAsk : RefreshAsk where
  settings := sampleSettings
  newSecret := [4, 5, 6]
  untilStarted := 1
  untilChecked := 1
  untilUsed := 1
  untilExpires := 1

/-- The token of the session is presented twice. -/
def sampleReplay : List RefreshMove :=
  [.refresh .human "s-1.AQID" sampleRefreshAsk, .refresh .human "s-1.AQID" sampleRefreshAsk]

theorem refresh_token_rotation_sample :
    let system := (RefreshSystem.start sampleSettings sampleNewSession sampleUser 0).run sampleHash some sampleReplay
    system.succeeded = [⟨"s-1.AQID", [4, 5, 6]⟩] ∧ system.Accepts sampleHash some "s-1.BAUG" ∧
      ∀ token, system.Accepts sampleHash some token →
        parseRefreshToken some token = parseRefreshToken some "s-1.BAUG" := by
  intro system
  have haccepts : system.Accepts sampleHash some "s-1.BAUG" := ⟨.human, sampleRefreshAsk, by decide⟩
  refine ⟨by decide, haccepts, fun token htoken => ?_⟩
  exact (refresh_token_rotation sampleHash sampleHash_injective some sampleSettings sampleNewSession sampleUser 0
    sampleReplay).1 token "s-1.BAUG" htoken haccepts

/-- The revocation of a guest ends the authority of the guest at once; the revoked session keeps its deadline. -/
theorem revoked_guest_session_keeps_deadline :
    let system := (RefreshSystem.start sampleSettings sampleNewSession sampleGuest 0).run sampleHash some
      [.wait 1, .revokeGuest]
    system.rows.user.accountType = .guest ∧ system.rows.user.guestExpiresAt = some 1 ∧
      system.rows.session.expiresAt = seconds 60 := by
  decide

end KComms.Accounts
