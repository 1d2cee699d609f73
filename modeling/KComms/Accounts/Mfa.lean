import KComms.Accounts.Identity

/-!
# The second factor (`Accounts.Mfa`)

A proof is a code of the current or the last step of thirty seconds, or a recovery code.  A step is taken once, and a
recovery code is dropped when it is taken; five wrong proofs lock the factor for five minutes (`verifyFactor`).  An
error about the proof is an answer, and commits; an error about the authority rolls back.
-/

namespace KComms.Accounts

open Attempt

def maximumAttempts : Nat := 5

def challengeSeconds : Int := 300

/-! ### A proof -/

/-- `failure` -/
def proofFailure (decided : Int) (factor : MfaFactor) : MfaFactor :=
  let attempts := factor.failedAttempts + 1
  if maximumAttempts ≤ attempts then
    { factor with failedAttempts := 0, lockedUntil := some (decided + seconds 300) }
  else { factor with failedAttempts := attempts, lockedUntil := none }

/-- The step of thirty seconds of a time. -/
def totpStep (time : Int) : Int := time / 1000000 / 30

/-- The step that the code is accepted for. -/
def validStep (crypto : IdentityCrypto) (checked : Int) (code : String) (factor : MfaFactor) : Option Int :=
  [totpStep checked, totpStep checked - 1].find? fun candidate =>
    factor.lastUsedStep < candidate && code = crypto.totp factor.secret candidate

/-- `verify_factor`; a code that is no string is `none`. -/
def verifyFactor (crypto : IdentityCrypto) (reads : IdentityReads) (allowRecovery : Bool) (code : Option String)
    (factor : MfaFactor) : MfaFactor × ProofResult :=
  if factor.lockedUntil.any (reads.checked < ·) then (factor, .rateLimited)
  else
    match code.filter (·.utf8ByteSize ≤ 128) with
    | none => (proofFailure reads.decided factor, .rejected)
    | some code =>
      let recoveryHash := crypto.digest (ElixirString.trim code)
      if !reads.decrypts then (factor, .undecryptable)
      else if allowRecovery && factor.recoveryHashes.contains recoveryHash then
        ({ factor with
            recoveryHashes := factor.recoveryHashes.filter (· ≠ recoveryHash), failedAttempts := 0,
            lockedUntil := none },
          .accepted (.recovery recoveryHash))
      else
        match validStep crypto reads.checked code factor with
        | some step =>
          ({ factor with lastUsedStep := step, failedAttempts := 0, lockedUntil := none }, .accepted (.totp step))
        | none => (proofFailure reads.decided factor, .rejected)

/-- The factor is consulted, and its counters are written. -/
def consultFactor (crypto : IdentityCrypto) (reads : IdentityReads) (allowRecovery : Bool) (challenge : Option String)
    (code : Option String) (factor : MfaFactor) (rows : IdentityRows) :
    Attempt ProofConsult IdentityError (IdentityRows × ProofResult) :=
  let verified := verifyFactor crypto reads allowRecovery code factor
  issue
    { challenge := challenge, checked := reads.checked, decided := reads.decided, result := verified.2 }
    ({ rows with factor := some verified.1 }, verified.2)

/-- `verify_locked`, and `verify_enabled_factor`; there is no error if the proof is accepted. -/
def verifyLocked (crypto : IdentityCrypto) (reads : IdentityReads) (challenge code : Option String)
    (rows : IdentityRows) : Attempt ProofConsult IdentityError (IdentityRows × Option IdentityError) :=
  match rows.enabledFactor with
  | none => pure (rows, some .mfaEnrollmentRequired)
  | some factor => do
    let (rows, result) ← consultFactor crypto reads true challenge code factor rows
    pure (rows, result.error)

/-- `verify` -/
def verifyMfa (crypto : IdentityCrypto) (reads : IdentityReads) (code : Option String) (rows : IdentityRows) :
    IdentityTransaction := do
  let (rows, error) ← verifyLocked crypto reads none code rows
  pure (rows, error.elim .verified .refused)

/-- `require_factor` -/
def requireFactor (crypto : IdentityCrypto) (reads : IdentityReads) (sessionId : String) (code : Option String)
    (rows : IdentityRows) : Attempt ProofConsult IdentityError (IdentityRows × Option IdentityError) :=
  if !accessGrant reads sessionId reads.started rows then pure (rows, some .forbidden)
  else if rows.mfaEnabled then verifyLocked crypto reads none code rows
  else pure (rows, none)

/-! ### The factor of a user -/

/-- `privileged_transaction` and `current_factor` -/
def privilegedTransaction (reads : IdentityReads) (sessionId : String) (rows : IdentityRows)
    (operation : IdentityTransaction) : IdentityTransaction := do
  check reads.inBudget .forbidden
  currentPrivileged reads sessionId reads.started rows
  currentPrivileged reads sessionId reads.locked rows
  operation

def enroll (reads : IdentityReads) (sessionId secret : String) (rows : IdentityRows) : IdentityTransaction :=
  privilegedTransaction reads sessionId rows do
    check (!rows.mfaEnabled) .mfaAlreadyEnabled
    check reads.inBudgetLater .forbidden
    check reads.decrypts .secretUnavailable
    let factor : MfaFactor :=
      { secret := secret, enabledAt := none, lastUsedStep := -1, recoveryHashes := [], failedAttempts := 0,
        lockedUntil := none, insertedAt := reads.finished }
    pure ({ rows with factor := some factor }, .enrolled)

/-- The authority is checked again when the proof has been accepted. -/
def recheckPrivileged (reads : IdentityReads) (sessionId : String) (rows : IdentityRows) :
    Attempt ProofConsult IdentityError Unit := do
  check reads.inBudgetLater .forbidden
  currentPrivileged reads sessionId reads.finished rows

/-- `mark_current_verified` -/
def markCurrentVerified (sessionId : String) (now : Int) (rows : IdentityRows) : IdentityRows :=
  { rows with
    sessions := updateSession sessionId (fun session => { session with mfaVerifiedAt := some now }) rows.sessions }

/-- The new recovery codes, of which the factor has the hashes. -/
def issueCodes (codes : List String) (crypto : IdentityCrypto) (rows : IdentityRows) : IdentityRows :=
  { rows with
    factor := rows.factor.map fun factor => { factor with recoveryHashes := codes.map crypto.digest } }

def enableFactor (now : Int) (rows : IdentityRows) : IdentityRows :=
  { rows with factor := rows.factor.map fun factor => { factor with enabledAt := some now } }

def confirm (crypto : IdentityCrypto) (reads : IdentityReads) (sessionId : String) (code : Option String)
    (codes : List String) (rows : IdentityRows) : IdentityTransaction :=
  privilegedTransaction reads sessionId rows <|
    match rows.factor with
    | none => pure (rows, .refused .mfaEnrollmentRequired)
    | some factor =>
      if factor.enabledAt.isSome then pure (rows, .refused .mfaAlreadyEnabled)
      else if 600 < reads.locked / 1000000 - factor.insertedAt / 1000000 then
        pure (rows, .refused .mfaEnrollmentExpired)
      else do
        let (rows, result) ← consultFactor crypto reads false none code factor rows
        match result.error with
        | some error => pure (rows, .refused error)
        | none => do
          recheckPrivileged reads sessionId rows
          let rows := issueCodes codes crypto (enableFactor reads.finished rows)
          pure (markCurrentVerified sessionId reads.finished (revokeOtherSessions sessionId reads.finished rows),
            .recoveryCodes (codes.map crypto.digest))

/-- `disable` and `rotate_recovery` differ in what follows the proof. -/
def provedTransaction (crypto : IdentityCrypto) (reads : IdentityReads) (sessionId : String) (code : Option String)
    (rows : IdentityRows) (change : IdentityRows → IdentityRows) (answer : IdentityAnswer) : IdentityTransaction :=
  privilegedTransaction reads sessionId rows do
    let (rows, error) ← verifyLocked crypto reads none code rows
    match error with
    | some error => pure (rows, .refused error)
    | none => do
      recheckPrivileged reads sessionId rows
      pure (revokeOtherSessions sessionId reads.finished (change rows), answer)

def disable (crypto : IdentityCrypto) (reads : IdentityReads) (sessionId : String) (code : Option String)
    (rows : IdentityRows) : IdentityTransaction :=
  provedTransaction crypto reads sessionId code rows (fun rows => { rows with factor := none }) .disabled

def rotateRecovery (crypto : IdentityCrypto) (reads : IdentityReads) (sessionId : String) (code : Option String)
    (codes : List String) (rows : IdentityRows) : IdentityTransaction :=
  provedTransaction crypto reads sessionId code rows (issueCodes codes crypto)
    (.recoveryCodes (codes.map crypto.digest))

end KComms.Accounts
