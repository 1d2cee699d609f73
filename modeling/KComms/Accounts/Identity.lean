import KComms.Accounts.Session
import KComms.Lib.EffectTransaction
import KComms.Lib.ElixirString

/-!
# The identity of a user

The rows that belong to a user who signs in: the second factor, the challenges of sign-ins that wait for it, the
sessions and the requests to recover the password.  A transaction reads and writes them, and consults the factor; what
it consulted stays consulted when it rolls back (`IdentityTransaction`).
-/

namespace KComms.Accounts

open Attempt

/-! ### Rows -/

structure MfaFactor where
  secret : String
  enabledAt : Option Int
  lastUsedStep : Int
  recoveryHashes : List String
  failedAttempts : Nat
  lockedUntil : Option Int
  insertedAt : Int
  deriving DecidableEq, Repr

/-- A challenge of the kind `mfa_login`. -/
structure AuthChallenge where
  id : String
  tokenHash : String
  expiresAt : Int
  consumedAt : Option Int
  attempts : Nat
  deriving DecidableEq, Repr

structure PasswordRecoveryRequest where
  id : String
  tokenHash : String
  expiresAt : Int
  consumedAt : Option Int
  invalidatedAt : Option Int
  deriving DecidableEq, Repr

structure IdentityRows where
  user : User
  factor : Option MfaFactor
  challenges : List AuthChallenge
  sessions : List Session
  recoveries : List PasswordRecoveryRequest
  deriving DecidableEq, Repr

/-- The functions of the cryptography that the code calls, and the rule for new passwords; `recoveryToken` is
`materialize_token` with the configured key. -/
structure IdentityCrypto where
  digest : String → String
  /-- The code of a secret for a step of thirty seconds. -/
  totp : String → Int → String
  verify : String → String → Bool
  needsRehash : String → Bool
  validPassword : String → Bool
  recoveryToken : String → String

inductive IdentityError
  | invalidCredentials | forbidden | stepUpRequired | mfaRequired | invalidMfaChallenge | mfaRateLimited
  | mfaEnrollmentRequired | mfaAlreadyEnabled | mfaEnrollmentExpired | invalidMfaCode | secretUnavailable
  | invalidDevice | invalidCurrentPassword | weakPassword | invalidPasswordRecoveryToken | notFound | sessionExpired
  | conflict | notificationUnavailable
  deriving DecidableEq, Repr

def User.signsIn (user : User) : Bool := user.status = .active && user.accountType = .human

/-- `MfaFactorState.enabled?` -/
def IdentityRows.mfaEnabled (rows : IdentityRows) : Bool := rows.factor.any (·.enabledAt.isSome)

def IdentityRows.enabledFactor (rows : IdentityRows) : Option MfaFactor := rows.factor.filter (·.enabledAt.isSome)

/-! ### What a transaction reads -/

/-- Facts from outside of the rows, and the settings. -/
structure IdentityFacts where
  settings : SessionSettings
  stepUpTtlSeconds : Int
  recoveryTtlSeconds : Int
  recoveryRetentionSeconds : Int
  tenantActive : Bool
  deviceActive : Bool
  deviceUpserted : Bool
  decrypts : Bool
  notified : Bool
  inBudget : Bool
  inBudgetLater : Bool
  deriving DecidableEq, Repr

/-- The clock, each time that a transaction reads it: at its first checks, when it has the factor, when the factor is
consulted and when the result is written, and at its end. -/
structure IdentityReads extends IdentityFacts where
  started : Int
  locked : Int
  checked : Int
  decided : Int
  finished : Int
  deriving DecidableEq, Repr

/-! ### Proofs of the second factor -/

inductive MfaProof
  | totp (step : Int)
  | recovery (hash : String)
  deriving DecidableEq, Repr

inductive ProofResult
  | accepted (proof : MfaProof)
  | rejected | rateLimited | undecryptable
  deriving DecidableEq, Repr

def ProofResult.error : ProofResult → Option IdentityError
  | .accepted _ => none
  | .rejected => some .invalidMfaCode
  | .rateLimited => some .mfaRateLimited
  | .undecryptable => some .secretUnavailable

/-- The factor was consulted, for a challenge or for the user of a session. -/
structure ProofConsult where
  challenge : Option String
  checked : Int
  decided : Int
  result : ProofResult
  deriving DecidableEq, Repr

def ProofConsult.accepted (consult : ProofConsult) : Bool := consult.result.error.isNone

/-! ### Answers -/

/-- What a session was minted from: a password hash that was verified, or a challenge. -/
inductive SignInOrigin
  | password (passwordHash : String)
  | challenge (id : String)
  deriving DecidableEq, Repr

inductive IdentityAnswer
  | refused (error : IdentityError)
  | verified
  | enrolled
  | recoveryCodes (hashes : List String)
  | disabled
  | mfaRequired (challengeId passwordHash : String)
  | authenticated (sessionId : String) (origin : SignInOrigin)
  | steppedUp
  | passwordChanged (passwordHash sessionId : String)
  | recoveryRequested (requestId : String)
  | passwordReset (passwordHash requestId : String)
  deriving DecidableEq, Repr

abbrev IdentityTransaction := Attempt ProofConsult IdentityError (IdentityRows × IdentityAnswer)

/-! ### Sessions and challenges -/

def updateSession (id : String) (change : Session → Session) (sessions : List Session) : List Session :=
  sessions.map fun session => if session.id = id then change session else session

/-- The sessions that are open and that `revokes` is for are revoked. -/
def revokeSessions (revokes : Session → Bool) (now : Int) (sessions : List Session) : List Session :=
  sessions.map fun session =>
    if revokes session && session.revokedAt = none then { session with revokedAt := some now } else session

/-- The id is the primary key. -/
def insertSession (session : Session) (sessions : List Session) : Option (List Session) :=
  if sessions.any (·.id = session.id) then none else some (session :: sessions)

/-- The hash of the token is unique as well. -/
def insertChallenge (challenge : AuthChallenge) (challenges : List AuthChallenge) : Option (List AuthChallenge) :=
  if challenges.any fun other => other.id = challenge.id || other.tokenHash = challenge.tokenHash then none
  else some (challenge :: challenges)

def updateChallenge (id : String) (change : AuthChallenge → AuthChallenge) (challenges : List AuthChallenge) :
    List AuthChallenge :=
  challenges.map fun challenge => if challenge.id = id then change challenge else challenge

/-- `invalidate_identity_challenges!` -/
def invalidateIdentityChallenges (now : Int) (challenges : List AuthChallenge) : List AuthChallenge :=
  challenges.map fun challenge =>
    if challenge.consumedAt = none then { challenge with consumedAt := some now } else challenge

/-- `revoke_other_sessions` -/
def revokeOtherSessions (sessionId : String) (now : Int) (rows : IdentityRows) : IdentityRows :=
  { rows with
    challenges := invalidateIdentityChallenges now rows.challenges
    sessions := revokeSessions (·.id ≠ sessionId) now rows.sessions }

/-! ### Authority of a session -/

/-- `AccessControl.access_grant`, for a human user -/
def accessGrant (reads : IdentityReads) (sessionId : String) (now : Int) (rows : IdentityRows) : Bool :=
  reads.tenantActive && reads.deviceActive && rows.user.signsIn && rows.sessions.any fun session =>
    session.id = sessionId && session.active now && (!rows.mfaEnabled || session.mfaVerifiedAt.isSome)

/-- `recent_step_up_at?` -/
def recentStepUp (reads : IdentityReads) (sessionId : String) (now : Int) (rows : IdentityRows) : Bool :=
  rows.sessions.any fun session =>
    session.id = sessionId && session.stepUpAt.any (now - seconds reads.stepUpTtlSeconds ≤ ·)

/-- `current_privileged!` -/
def currentPrivileged (reads : IdentityReads) (sessionId : String) (now : Int) (rows : IdentityRows) :
    Attempt ProofConsult IdentityError Unit := do
  check (accessGrant reads sessionId now rows) .forbidden
  check (recentStepUp reads sessionId now rows) .stepUpRequired

end KComms.Accounts
