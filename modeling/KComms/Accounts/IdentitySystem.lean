import KComms.Accounts.Passwords
import KComms.Accounts.RefreshTokens
import Mathlib.Logic.Function.Basic

/-!
# An identity and all that is done to it

The rows of a user, the sign-ins that have verified a password and not yet had their transaction, and everything that
signs in, proves, changes or revokes, in any order.  Each transaction is one step; the clock does not run back.  What
happened is recorded in `log`: a consult of the factor by a transaction that rolls back is there as `discarded`.
-/

namespace KComms.Accounts

open Attempt

inductive IdentityEvent
  | proved (consult : ProofConsult)
  | discarded (consult : ProofConsult)
  | enrolled
  | issued (hashes : List String)
  | removed
  | challenged (id passwordHash : String)
  | minted (sessionId : String) (origin : SignInOrigin)
  | upgraded (passwordHash : String)
  /-- A new password, by a session of the user or by a recovery. -/
  | changed (passwordHash : String) (sessionId : Option String)
  | requested (requestId : String)
  | recovered (requestId : String)
  deriving DecidableEq, Repr

/-- What is recorded of an answer. -/
def IdentityAnswer.events : IdentityAnswer → List IdentityEvent
  | .enrolled => [.enrolled]
  | .recoveryCodes hashes => [.issued hashes]
  | .disabled => [.removed]
  | .mfaRequired challengeId passwordHash => [.challenged challengeId passwordHash]
  | .authenticated sessionId origin => [.minted sessionId origin]
  | .passwordChanged passwordHash sessionId => [.changed passwordHash (some sessionId)]
  | .recoveryRequested requestId => [.requested requestId]
  | .passwordReset passwordHash requestId => [.recovered requestId, .changed passwordHash none]
  | .refused _ | .verified | .steppedUp => []

/-- A sign-in between its read of the user and its transaction. -/
inductive SignIn
  | idle
  /-- The hash is verified and of an old kind; a new one is about to be written. -/
  | upgrading (passwordHash : String)
  | verified (passwordHash : String)
  deriving DecidableEq, Repr

structure IdentitySystem where
  clock : Int
  rows : IdentityRows
  signIns : Nat → SignIn
  log : List IdentityEvent

/-- The facts that a transaction finds, and how long it waits before it reads the clock, each time. -/
structure IdentityAsk where
  facts : IdentityFacts
  untilStarted : Nat
  untilLocked : Nat
  untilChecked : Nat
  untilDecided : Nat
  untilFinished : Nat
  deriving DecidableEq, Repr

def IdentityAsk.reads (ask : IdentityAsk) (clock : Int) : IdentityReads where
  toIdentityFacts := ask.facts
  started := clock + ask.untilStarted
  locked := clock + ask.untilStarted + ask.untilLocked
  checked := clock + ask.untilStarted + ask.untilLocked + ask.untilChecked
  decided := clock + ask.untilStarted + ask.untilLocked + ask.untilChecked + ask.untilDecided
  finished := clock + ask.untilStarted + ask.untilLocked + ask.untilChecked + ask.untilDecided + ask.untilFinished

inductive IdentityMove
  | verifyIdentity (signIn : Nat) (password : String)
  | upgradePasswordHash (signIn : Nat) (upgradedHash : String)
  | abandon (signIn : Nat)
  | authenticate (signIn : Nat) (new : NewSession) (ask : IdentityAsk)
  | passwordSignIn (signIn : Nat) (new : NewSession) (newChallenge : NewChallenge) (ask : IdentityAsk)
  | completeSignIn (token : String) (code : Option String) (new : NewSession) (ask : IdentityAsk)
  | enroll (sessionId secret : String) (ask : IdentityAsk)
  | confirm (sessionId : String) (code : Option String) (codes : List String) (ask : IdentityAsk)
  | disable (sessionId : String) (code : Option String) (ask : IdentityAsk)
  | rotateRecovery (sessionId : String) (code : Option String) (codes : List String) (ask : IdentityAsk)
  | verify (code : Option String) (ask : IdentityAsk)
  | stepUp (sessionId : String) (code : Option String) (password : String) (ask : IdentityAsk)
  | changePassword (sessionId : String) (code : Option String) (currentPassword newPassword newHash : String)
      (ask : IdentityAsk)
  | requestRecovery (id : String) (ask : IdentityAsk)
  | resetPassword (token newPassword newHash : String) (ask : IdentityAsk)
  | pruneRecoveries (ask : IdentityAsk) (others : List PasswordRecoveryRequest)
  | refresh (sessionId : String) (secret : List UInt8) (ask : RefreshAsk) (deviceRevokedAt : Option Int)
      (tenantActive : Bool)
  | revoke (sessionId : String)
  | revokeDevice (deviceId : String)
  | setStatus (status : UserStatus)
  | wait (elapsed : Nat)

/-! ### Sign-ins -/

/-- `verify_identity`, up to the upgrade of the hash -/
def IdentityRows.verifyIdentity (crypto : IdentityCrypto) (password : String) (rows : IdentityRows) : SignIn :=
  if !rows.user.signsIn || !crypto.verify password rows.user.passwordHash then .idle
  else if crypto.needsRehash rows.user.passwordHash then .upgrading rows.user.passwordHash
  else .verified rows.user.passwordHash

/-! ### Steps -/

def IdentitySystem.setSignIn (system : IdentitySystem) (signIn : Nat) (next : SignIn) : IdentitySystem :=
  { system with signIns := Function.update system.signIns signIn next }

/-- A transaction commits its rows and its answer, or rolls back. -/
def IdentitySystem.transact (system : IdentitySystem) (ask : IdentityAsk)
    (transaction : IdentityReads → IdentityRows → IdentityTransaction) : IdentitySystem :=
  let reads := ask.reads system.clock
  let attempt := transaction reads system.rows
  match attempt.outcome with
  | .ok (rows, answer) =>
    { system with
      clock := reads.finished
      rows := rows
      log := system.log ++ (attempt.effects.map .proved ++ answer.events) }
  | .error _ =>
    { system with clock := reads.finished, log := system.log ++ attempt.effects.map .discarded }

/-- The rows that a refresh of the session reads. -/
def IdentityRows.sessionRows (rows : IdentityRows) (session : Session) (deviceRevokedAt : Option Int)
    (tenantActive : Bool) : SessionRows where
  session := session
  user := rows.user
  mfaEnabled := rows.mfaEnabled
  deviceRevokedAt := deviceRevokedAt
  tenantActive := tenantActive

def refreshSession (hash : List UInt8 → String) (sessionId : String) (secret : List UInt8) (reads : RefreshReads)
    (deviceRevokedAt : Option Int) (tenantActive : Bool) (rows : IdentityRows) : IdentityRows :=
  let refreshed (session : Session) : Session :=
    match rotateRefreshSession hash secret reads (rows.sessionRows session deviceRevokedAt tenantActive) with
    | some rotated => rotated.session
    | none => session
  { rows with sessions := updateSession sessionId refreshed rows.sessions }

def IdentitySystem.step (crypto : IdentityCrypto) (hash : List UInt8 → String) (system : IdentitySystem) :
    IdentityMove → IdentitySystem
  | .verifyIdentity signIn password => system.setSignIn signIn (system.rows.verifyIdentity crypto password)
  | .upgradePasswordHash signIn upgradedHash =>
    match system.signIns signIn with
    | .upgrading passwordHash =>
      if system.rows.user.passwordHash = passwordHash then
        { system.setSignIn signIn (.verified upgradedHash) with
          rows := setPassword upgradedHash system.rows, log := system.log ++ [.upgraded upgradedHash] }
      else system.setSignIn signIn .idle
    | _ => system
  | .abandon signIn => system.setSignIn signIn .idle
  | .authenticate signIn new ask =>
    match system.signIns signIn with
    | .verified passwordHash =>
      (system.setSignIn signIn .idle).transact ask fun reads rows => authenticate reads passwordHash new rows
    | _ => system
  | .passwordSignIn signIn new newChallenge ask =>
    match system.signIns signIn with
    | .verified passwordHash =>
      (system.setSignIn signIn .idle).transact ask fun reads rows =>
        passwordSignIn crypto reads passwordHash new newChallenge rows
    | _ => system
  | .completeSignIn token code new ask =>
    system.transact ask fun reads rows => completeSignIn crypto reads token code new rows
  | .enroll sessionId secret ask => system.transact ask fun reads rows => enroll reads sessionId secret rows
  | .confirm sessionId code codes ask =>
    system.transact ask fun reads rows => confirm crypto reads sessionId code codes rows
  | .disable sessionId code ask => system.transact ask fun reads rows => disable crypto reads sessionId code rows
  | .rotateRecovery sessionId code codes ask =>
    system.transact ask fun reads rows => rotateRecovery crypto reads sessionId code codes rows
  | .verify code ask => system.transact ask fun reads rows => verifyMfa crypto reads code rows
  | .stepUp sessionId code password ask =>
    system.transact ask fun reads rows => stepUp crypto reads sessionId code password rows
  | .changePassword sessionId code currentPassword newPassword newHash ask =>
    system.transact ask fun reads rows =>
      changePassword crypto reads sessionId code currentPassword newPassword newHash rows
  | .requestRecovery id ask => system.transact ask fun reads rows => createRequest crypto reads id rows
  | .resetPassword token newPassword newHash ask =>
    system.transact ask fun reads rows => resetPassword crypto reads token newPassword newHash rows
  | .pruneRecoveries ask others =>
    { system with rows := pruneStaleRequests (ask.reads system.clock) others system.rows }
  | .refresh sessionId secret ask deviceRevokedAt tenantActive =>
    let reads := ask.reads system.clock
    { system with
      clock := reads.expires
      rows := refreshSession hash sessionId secret reads deviceRevokedAt tenantActive system.rows }
  | .revoke sessionId =>
    { system with
      rows :=
        { system.rows with
          sessions := updateSession sessionId (fun session => { session with revokedAt := some system.clock })
            system.rows.sessions } }
  | .revokeDevice deviceId =>
    { system with
      rows :=
        { system.rows with
          sessions := revokeSessions (·.deviceId = deviceId) system.clock system.rows.sessions } }
  | .setStatus status => { system with rows := { system.rows with user := { system.rows.user with status := status } } }
  | .wait elapsed => { system with clock := system.clock + elapsed }

def IdentitySystem.run (crypto : IdentityCrypto) (hash : List UInt8 → String) (system : IdentitySystem)
    (moves : List IdentityMove) : IdentitySystem :=
  moves.foldl (IdentitySystem.step crypto hash) system

/-- A user who has never signed in. -/
def IdentitySystem.start (user : User) (clock : Int) : IdentitySystem where
  clock := clock
  rows := { user := user, factor := none, challenges := [], sessions := [], recoveries := [] }
  signIns := fun _ => .idle
  log := []

end KComms.Accounts
