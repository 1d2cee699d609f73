import KComms.Accounts.Session

/-!
# Refresh tokens (`Accounts.Sessions.RefreshTokens`)

A refresh token is the id of its session and a secret, whose hash the session has.  A refresh replaces the secret, under
the lock of the session.  `RefreshSystem` is one session with all that is done to it, in any order.
-/

namespace KComms.Accounts

/-! ### Tokens -/

/-- The value of a digit of Base64 with the alphabet for URLs. -/
def sextet (c : Char) : Option Nat :=
  if 'A' ≤ c ∧ c ≤ 'Z' then some (c.toNat - 'A'.toNat)
  else if 'a' ≤ c ∧ c ≤ 'z' then some (c.toNat - 'a'.toNat + 26)
  else if '0' ≤ c ∧ c ≤ '9' then some (c.toNat - '0'.toNat + 52)
  else if c = '-' then some 62
  else if c = '_' then some 63
  else none

/-- `Base.url_decode64` with `padding: false`, which takes padding as well; the bits left over are dropped. -/
def urlDecode64 : List Char → Option (List UInt8)
  | [] => some []
  | [a, b] | [a, b, '=', '='] => do
    let high ← sextet a
    let low ← sextet b
    return [.ofNat ((high * 64 + low) / 16)]
  | [a, b, c] | [a, b, c, '='] => do
    let high ← sextet a
    let middle ← sextet b
    let low ← sextet c
    let bits := (high * 64 + middle) * 64 + low
    return [.ofNat (bits / 1024), .ofNat (bits / 4)]
  | a :: b :: c :: d :: rest => do
    let first ← sextet a
    let second ← sextet b
    let third ← sextet c
    let fourth ← sextet d
    let bits := ((first * 64 + second) * 64 + third) * 64 + fourth
    let bytes ← urlDecode64 rest
    return .ofNat (bits / 65536) :: .ofNat (bits / 256) :: .ofNat bits :: bytes
  | _ => none

/-- `parse_refresh_token`; `castUuid` is `Ecto.UUID.cast`, which also gives the form that ids are compared in. -/
def parseRefreshToken (castUuid : String → Option String) (token : String) : Option (String × List UInt8) :=
  match token.toList.dropWhile (· ≠ '.') with
  | [] => none
  | _ :: secretText =>
    match urlDecode64 secretText, castUuid (String.ofList (token.toList.takeWhile (· ≠ '.'))) with
    | some secret, some sessionId => some (sessionId, secret)
    | _, _ => none

/-- `rotated_session_expires_at` -/
def rotatedSessionExpiresAt (settings : SessionSettings) (now absoluteExpiresAt : Int) : Int :=
  earlierDeadline (now + settings.ttl) absoluteExpiresAt

/-! ### The rows -/

/-- A session with what a refresh reads of its user, of the factor of the user, of its device and of the tenant. -/
structure SessionRows where
  session : Session
  user : User
  mfaEnabled : Bool
  deviceRevokedAt : Option Int
  tenantActive : Bool
  deriving DecidableEq, Repr

/-- The clock when the session is checked, and later, when its new row is made; and what is generated. -/
structure RefreshReads where
  settings : SessionSettings
  started : Int
  checked : Int
  used : Int
  expires : Int
  newSecret : List UInt8
  deriving DecidableEq, Repr

section

variable (hash : List UInt8 → String)

/-- `rotate_refresh_session` -/
def rotateRefreshSession (secret : List UInt8) (reads : RefreshReads) (rows : SessionRows) : Option SessionRows :=
  let session := rows.session
  if !session.active reads.checked then none
  else if session.refreshTokenHash ≠ hash secret then none
  else if rows.user.status ≠ .active || rows.user.accountType ≠ .human then none
  else if rows.mfaEnabled && session.mfaVerifiedAt = none then none
  else if rows.deviceRevokedAt ≠ none then none
  else if !rows.tenantActive then none
  else
    some
      { rows with
        session :=
          { session with
            refreshTokenHash := hash reads.newSecret
            lastUsedAt := reads.used
            expiresAt := rotatedSessionExpiresAt reads.settings reads.expires session.absoluteExpiresAt } }

/-- `rotate_guest_refresh_session` -/
def rotateGuestRefreshSession (secret : List UInt8) (reads : RefreshReads) (rows : SessionRows) : Option SessionRows :=
  let session := rows.session
  if !session.active reads.checked then none
  else if session.refreshTokenHash ≠ hash secret then none
  else
    match rows.user.guestExpiresAt with
    | none => none
    | some expiry =>
      if rows.user.status ≠ .active || rows.user.accountType ≠ .guest then none
      else if expiry ≤ reads.started then none
      else if rows.deviceRevokedAt ≠ none then none
      else if !rows.tenantActive then none
      else
        some
          { rows with
            session :=
              { session with
                refreshTokenHash := hash reads.newSecret
                lastUsedAt := reads.started
                expiresAt :=
                  rotatedSessionExpiresAt reads.settings reads.expires
                    (earlierDeadline session.absoluteExpiresAt expiry) } }

/-- `refresh` and `refresh_guest`, which differ in the rotation. -/
def refreshWith (castUuid : String → Option String)
    (rotate : List UInt8 → RefreshReads → SessionRows → Option SessionRows) (token : String) (reads : RefreshReads)
    (rows : SessionRows) : Option SessionRows :=
  match parseRefreshToken castUuid token with
  | none => none
  | some (sessionId, secret) => if sessionId ≠ rows.session.id then none else rotate secret reads rows

end

/-! ### A session and its refreshes -/

/-- What a refresh is given: the settings, the secret that is generated, and how long it waits before it reads the
clock, each time. -/
structure RefreshAsk where
  settings : SessionSettings
  newSecret : List UInt8
  untilStarted : Nat
  untilChecked : Nat
  untilUsed : Nat
  untilExpires : Nat
  deriving DecidableEq, Repr

def RefreshAsk.reads (ask : RefreshAsk) (clock : Int) : RefreshReads where
  settings := ask.settings
  started := clock + ask.untilStarted
  checked := clock + ask.untilStarted + ask.untilChecked
  used := clock + ask.untilStarted + ask.untilChecked + ask.untilUsed
  expires := clock + ask.untilStarted + ask.untilChecked + ask.untilUsed + ask.untilExpires
  newSecret := ask.newSecret

inductive RefreshKind
  | human | guest
  deriving DecidableEq, Repr

/-- A refresh that succeeded: the token that was presented, and the secret of the one that replaced it. -/
structure RefreshSuccess where
  token : String
  newSecret : List UInt8
  deriving DecidableEq, Repr

structure RefreshSystem where
  clock : Int
  rows : SessionRows
  succeeded : List RefreshSuccess

/-- What others change that a refresh reads. -/
structure Surroundings where
  status : UserStatus
  mfaEnabled : Bool
  mfaVerifiedAt : Option Int
  deviceRevokedAt : Option Int
  tenantActive : Bool
  deriving DecidableEq, Repr

inductive RefreshMove
  | refresh (kind : RefreshKind) (token : String) (ask : RefreshAsk)
  | revoke
  | revokeGuest
  | surround (surroundings : Surroundings)
  | wait (elapsed : Nat)

/-- The session of a user that has just been created. -/
def RefreshSystem.start (settings : SessionSettings) (new : NewSession) (user : User) (clock : Int) :
    RefreshSystem where
  clock := clock
  rows :=
    { session :=
        match user.accountType, user.guestExpiresAt with
        | .guest, some guestExpiresAt => createGuestSession settings new guestExpiresAt clock
        | _, _ => createSession settings new clock
      user := user
      mfaEnabled := false
      deviceRevokedAt := none
      tenantActive := true }
  succeeded := []

/-- `GuestIdentities.Revocation.revoke_session`, which ends the authority of the guest as well -/
def revokeGuestSession (now : Int) (rows : SessionRows) : SessionRows :=
  if rows.user.accountType ≠ .guest then rows
  else if rows.session.revokedAt ≠ none then { rows with user := expireUser now rows.user }
  else { rows with user := expireUser now rows.user, session := { rows.session with revokedAt := some now } }

def Surroundings.apply (surroundings : Surroundings) (rows : SessionRows) : SessionRows :=
  { session := { rows.session with mfaVerifiedAt := surroundings.mfaVerifiedAt }
    user := { rows.user with status := surroundings.status }
    mfaEnabled := surroundings.mfaEnabled
    deviceRevokedAt := surroundings.deviceRevokedAt
    tenantActive := surroundings.tenantActive }

section

variable (hash : List UInt8 → String) (castUuid : String → Option String)

def RefreshKind.rotate : RefreshKind → List UInt8 → RefreshReads → SessionRows → Option SessionRows
  | .human => rotateRefreshSession hash
  | .guest => rotateGuestRefreshSession hash

def RefreshSystem.refresh (system : RefreshSystem) (kind : RefreshKind) (token : String) (ask : RefreshAsk) :
    Option SessionRows :=
  refreshWith castUuid (kind.rotate hash) token (ask.reads system.clock) system.rows

def RefreshSystem.step (system : RefreshSystem) : RefreshMove → RefreshSystem
  | .refresh kind token ask =>
    match system.refresh hash castUuid kind token ask with
    | some rows =>
      { clock := (ask.reads system.clock).expires
        rows := rows
        succeeded := system.succeeded ++ [{ token := token, newSecret := ask.newSecret }] }
    | none => { system with clock := (ask.reads system.clock).expires }
  | .revoke =>
    { system with
      rows := { system.rows with session := { system.rows.session with revokedAt := some system.clock } } }
  | .revokeGuest => { system with rows := revokeGuestSession system.clock system.rows }
  | .surround surroundings => { system with rows := surroundings.apply system.rows }
  | .wait elapsed => { system with clock := system.clock + elapsed }

def RefreshSystem.run (system : RefreshSystem) (moves : List RefreshMove) : RefreshSystem :=
  moves.foldl (RefreshSystem.step hash castUuid) system

end

end KComms.Accounts
