import KComms.Accounts.Authentication
import Mathlib.Data.List.Sort

/-!
# Changing the password (`Accounts.Sessions.Management`, `Accounts.PasswordRecovery`)

A change by a session of the user keeps that session and revokes all others; a reset with a recovery token revokes all.
Both end the challenges that have not been completed.
-/

namespace KComms.Accounts

open Attempt

/-! ### By a session of the user -/

/-- The transaction of `step_up` and `change_password_with_effects`: a proof, if the factor is enabled, and the
password; the answer about a wrong one commits. -/
def passwordTransaction (crypto : IdentityCrypto) (reads : IdentityReads) (sessionId : String)
    (code : Option String) (password : String) (rows : IdentityRows)
    (operation : IdentityRows → IdentityTransaction) : IdentityTransaction := do
  check (accessGrant reads sessionId reads.started rows) .forbidden
  check reads.inBudget .forbidden
  let (rows, error) ← requireFactor crypto reads sessionId code rows
  match error with
  | some error => pure (rows, .refused error)
  | none => do
    check rows.user.signsIn .notFound
    if !crypto.verify password rows.user.passwordHash then pure (rows, .refused .invalidCurrentPassword)
    else do
      check reads.inBudgetLater .forbidden
      check (accessGrant reads sessionId reads.finished rows) .forbidden
      operation rows

def stepUp (crypto : IdentityCrypto) (reads : IdentityReads) (sessionId : String) (code : Option String)
    (password : String) (rows : IdentityRows) : IdentityTransaction :=
  passwordTransaction crypto reads sessionId code password rows fun rows =>
    let stepped (session : Session) : Session := { session with stepUpAt := some reads.finished }
    pure ({ rows with sessions := updateSession sessionId stepped rows.sessions }, .steppedUp)

def setPassword (passwordHash : String) (rows : IdentityRows) : IdentityRows :=
  { rows with user := { rows.user with passwordHash := passwordHash } }

/-- `change_password_with_effects`; `newHash` is `Password.hash` of the new password. -/
def changePassword (crypto : IdentityCrypto) (reads : IdentityReads) (sessionId : String) (code : Option String)
    (currentPassword newPassword newHash : String) (rows : IdentityRows) : IdentityTransaction :=
  if !crypto.validPassword newPassword then pure (rows, .refused .weakPassword)
  else
    passwordTransaction crypto reads sessionId code currentPassword rows fun rows =>
      pure (setPassword newHash (revokeOtherSessions sessionId reads.finished rows), .passwordChanged newHash sessionId)

/-! ### Recovery -/

/-- The lifetime of a request, between fifteen and thirty minutes. -/
def recoveryTtlSeconds (reads : IdentityReads) : Int := max (min reads.recoveryTtlSeconds 1800) 900

def User.recovers (user : User) : Bool := user.signsIn && user.accessScope = .workspace

def PasswordRecoveryRequest.outstanding (request : PasswordRecoveryRequest) : Bool :=
  request.consumedAt = none && request.invalidatedAt = none

/-- The outstanding requests that `closes` is for are invalidated. -/
def invalidateRecoveries (closes : PasswordRecoveryRequest → Bool) (now : Int)
    (recoveries : List PasswordRecoveryRequest) : List PasswordRecoveryRequest :=
  recoveries.map fun request =>
    if closes request && request.outstanding then { request with invalidatedAt := some now } else request

def insertRecovery (request : PasswordRecoveryRequest) (recoveries : List PasswordRecoveryRequest) :
    Option (List PasswordRecoveryRequest) :=
  if recoveries.any fun other => other.id = request.id || other.tokenHash = request.tokenHash then none
  else some (request :: recoveries)

/-- `create_request`; `id` is the generated id. -/
def createRequest (crypto : IdentityCrypto) (reads : IdentityReads) (id : String) (rows : IdentityRows) :
    IdentityTransaction := do
  check rows.user.recovers .notFound
  check reads.tenantActive .notFound
  let request : PasswordRecoveryRequest :=
    { id := id
      tokenHash := crypto.digest (crypto.recoveryToken id)
      expiresAt := reads.started + seconds (recoveryTtlSeconds reads)
      consumedAt := none
      invalidatedAt := none }
  match insertRecovery request (invalidateRecoveries (fun _ => true) reads.started rows.recoveries) with
  | none => rollback .conflict
  | some recoveries => do
    check reads.notified .notificationUnavailable
    pure ({ rows with recoveries := recoveries }, .recoveryRequested id)

/-- `token_request_id`: three parts, of which the last may have further dots. -/
def tokenRequestId (token : String) : Option String :=
  match token.splitOn "." with
  | requestId :: nonce :: signature :: rest =>
    if nonce ≠ "" && String.intercalate "." (signature :: rest) ≠ "" then some requestId else none
  | _ => none

/-- `valid_recovery_token?` -/
def validRecoveryToken (crypto : IdentityCrypto) (now : Int) (token : String) (request : PasswordRecoveryRequest) :
    Bool :=
  request.outstanding && now < request.expiresAt && crypto.recoveryToken request.id = token &&
    request.tokenHash = crypto.digest token

/-- `reset`, without the calls to the notifications and the calls of the user -/
def resetPassword (crypto : IdentityCrypto) (reads : IdentityReads) (token newPassword newHash : String)
    (rows : IdentityRows) : IdentityTransaction :=
  if !crypto.validPassword newPassword then pure (rows, .refused .weakPassword)
  else
    match (tokenRequestId token).bind fun requestId => rows.recoveries.find? (·.id = requestId) with
    | none => pure (rows, .refused .invalidPasswordRecoveryToken)
    | some request => do
      check rows.user.recovers .invalidPasswordRecoveryToken
      check (validRecoveryToken crypto reads.checked token request) .invalidPasswordRecoveryToken
      check reads.tenantActive .invalidPasswordRecoveryToken
      check reads.notified .notificationUnavailable
      let consumed (other : PasswordRecoveryRequest) : PasswordRecoveryRequest :=
        if other.id = request.id then { other with consumedAt := some reads.finished } else other
      let rows :=
        { rows with
          recoveries := (invalidateRecoveries (·.id ≠ request.id) reads.finished rows.recoveries).map consumed
          challenges := invalidateIdentityChallenges reads.finished rows.challenges
          sessions := revokeSessions (fun _ => true) reads.finished rows.sessions }
      pure (setPassword newHash rows, .passwordReset newHash request.id)

/-- `prune_stale_requests`: the first 500 that have been over for the retention time; the requests of all other users
count too. -/
def pruneStaleRequests (reads : IdentityReads) (others : List PasswordRecoveryRequest) (rows : IdentityRows) :
    IdentityRows :=
  let cutoff := reads.started - seconds (max (min reads.recoveryRetentionSeconds 7776000) 604800)
  let stale := (others ++ rows.recoveries).filter fun request =>
    request.expiresAt < cutoff || request.consumedAt.any (· < cutoff) || request.invalidatedAt.any (· < cutoff)
  let pruned := (stale.mergeSort fun first second => first.expiresAt ≤ second.expiresAt).take 500
  { rows with recoveries := rows.recoveries.filter fun request => !pruned.contains request }

end KComms.Accounts
