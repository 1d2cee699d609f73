import KComms.Accounts.Mfa

/-!
# Signing in (`Accounts.Sessions.Authentication`, `Accounts.Mfa`)

The password is verified outside of any transaction, against the hash as it was read; the transaction that follows
checks that the locked row still has that hash.  With an enabled factor a sign-in only makes a challenge, and a second
request completes it.
-/

namespace KComms.Accounts

open Attempt

/-! ### Minting -/

/-- `create_authentication`, from the device on; the new session is verified if it has a proof. -/
def createAuthentication (reads : IdentityReads) (new : NewSession) (verified : Bool) (origin : SignInOrigin)
    (rows : IdentityRows) : IdentityTransaction :=
  let session := createSession reads.settings new reads.finished
  let session := if verified then { session with mfaVerifiedAt := some reads.finished } else session
  match insertSession session rows.sessions with
  | none => rollback .conflict
  | some sessions => pure ({ rows with sessions := sessions }, .authenticated session.id origin)

/-- The first checks of both transactions that follow a verified password. -/
def verifiedUser (reads : IdentityReads) (passwordHash : String) (rows : IdentityRows) :
    Attempt ProofConsult IdentityError Unit := do
  check reads.tenantActive .invalidCredentials
  check reads.inBudget .forbidden
  check rows.user.signsIn .invalidCredentials
  check (rows.user.passwordHash = passwordHash) .invalidCredentials
  check reads.inBudgetLater .forbidden

/-- `authenticate_identity`, after `verify_identity` -/
def authenticate (reads : IdentityReads) (passwordHash : String) (new : NewSession) (rows : IdentityRows) :
    IdentityTransaction := do
  verifiedUser reads passwordHash rows
  check (!rows.mfaEnabled) .mfaRequired
  check reads.deviceUpserted .invalidDevice
  createAuthentication reads new false (.password passwordHash) rows

/-- What is generated for a new challenge. -/
structure NewChallenge where
  id : String
  token : String
  deriving DecidableEq, Repr

def createChallenge (crypto : IdentityCrypto) (reads : IdentityReads) (new : NewChallenge) : AuthChallenge where
  id := new.id
  tokenHash := crypto.digest new.token
  expiresAt := reads.finished + seconds challengeSeconds
  consumedAt := none
  attempts := 0

/-- `password_sign_in`, after `verify_identity` -/
def passwordSignIn (crypto : IdentityCrypto) (reads : IdentityReads) (passwordHash : String) (new : NewSession)
    (newChallenge : NewChallenge) (rows : IdentityRows) : IdentityTransaction := do
  verifiedUser reads passwordHash rows
  if rows.mfaEnabled then
    match insertChallenge (createChallenge crypto reads newChallenge) rows.challenges with
    | none => rollback .conflict
    | some challenges => pure ({ rows with challenges := challenges }, .mfaRequired newChallenge.id passwordHash)
  else if !reads.deviceUpserted then pure (rows, .refused .invalidDevice)
  else createAuthentication reads new false (.password passwordHash) rows

/-! ### Completing a sign-in -/

/-- `current_challenge`, for a user who signs in -/
def currentChallenge (now : Int) (challenge : AuthChallenge) : Option IdentityError :=
  if challenge.consumedAt.isSome || challenge.expiresAt ≤ now then some .invalidMfaChallenge
  else if maximumAttempts ≤ challenge.attempts then some .mfaRateLimited
  else none

/-- The challenge is checked again just before the session is minted, and consumed. -/
def completeChallenge (reads : IdentityReads) (challenge : AuthChallenge) (new : NewSession) (rows : IdentityRows) :
    IdentityTransaction := do
  check reads.inBudgetLater .forbidden
  check (challenge.attempts ≤ maximumAttempts && challenge.consumedAt = none && reads.finished < challenge.expiresAt)
    .invalidMfaChallenge
  let rows :=
    { rows with
      challenges :=
        updateChallenge challenge.id (fun challenge => { challenge with consumedAt := some reads.finished })
          rows.challenges }
  createAuthentication reads new true (.challenge challenge.id) rows

/-- `complete_sign_in`, for a challenge that is current: it counts the attempt, and consults the factor. -/
def attemptChallenge (crypto : IdentityCrypto) (reads : IdentityReads) (challenge : AuthChallenge)
    (code : Option String) (new : NewSession) (rows : IdentityRows) : IdentityTransaction := do
  let attempted := { challenge with attempts := challenge.attempts + 1 }
  let rows := { rows with challenges := updateChallenge challenge.id (fun _ => attempted) rows.challenges }
  let (rows, error) ← verifyLocked crypto reads (some challenge.id) code rows
  match error with
  | some error => pure (rows, .refused error)
  | none =>
    if !reads.deviceUpserted then pure (rows, .refused .invalidDevice)
    else completeChallenge reads attempted new rows

def completeSignIn (crypto : IdentityCrypto) (reads : IdentityReads) (token : String) (code : Option String)
    (new : NewSession) (rows : IdentityRows) : IdentityTransaction := do
  if 256 < token.utf8ByteSize then pure (rows, .refused .invalidMfaChallenge)
  else
    check reads.inBudget .forbidden
    match rows.challenges.find? (·.tokenHash = crypto.digest token) with
    | none => pure (rows, .refused .invalidMfaChallenge)
    | some challenge =>
      if !reads.tenantActive || !rows.user.signsIn then pure (rows, .refused .invalidMfaChallenge)
      else
        match (currentChallenge reads.started challenge).or (currentChallenge reads.locked challenge) with
        | some error => pure (rows, .refused error)
        | none => attemptChallenge crypto reads challenge code new rows

end KComms.Accounts
