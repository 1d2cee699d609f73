import Mathlib.Data.List.Basic

/-!
# Users and their sessions (`Accounts.Session`, `Accounts.User`)

The fields of a user and of a session that signing in, refreshing and revoking read and write, and the deadlines of a
new session (`newDeadlines`).  Times are microseconds.
-/

namespace KComms.Accounts

def seconds (count : Int) : Int := count * 1000000

inductive UserStatus
  | active | suspended | deleted
  deriving DecidableEq, Repr

inductive AccountType
  | human | service | guest
  deriving DecidableEq, Repr

inductive AccessScope
  | workspace | conversationOnly
  deriving DecidableEq, Repr

structure User where
  id : String
  passwordHash : String
  accountType : AccountType
  accessScope : AccessScope
  guestExpiresAt : Option Int
  status : UserStatus
  deriving DecidableEq, Repr

structure Session where
  id : String
  deviceId : String
  refreshTokenHash : String
  expiresAt : Int
  absoluteExpiresAt : Int
  lastUsedAt : Int
  revokedAt : Option Int
  stepUpAt : Option Int
  mfaVerifiedAt : Option Int
  deriving DecidableEq, Repr

/-! ### Deadlines -/

def earlierDeadline (first second : Int) : Int := if second < first then second else first

@[simp] theorem earlierDeadline_eq_min (first second : Int) : earlierDeadline first second = min first second := by
  unfold earlierDeadline
  split <;> omega

/-- The settings `session_ttl_seconds` and `session_absolute_ttl_seconds`; negative ones count as zero. -/
structure SessionSettings where
  ttlSeconds : Int
  absoluteTtlSeconds : Int
  deriving DecidableEq, Repr

def SessionSettings.ttl (settings : SessionSettings) : Int := seconds (max settings.ttlSeconds 0)

def SessionSettings.absoluteTtl (settings : SessionSettings) : Int := seconds (max settings.absoluteTtlSeconds 0)

structure Deadlines where
  expiresAt : Int
  absoluteExpiresAt : Int
  deriving DecidableEq, Repr

def newDeadlines (settings : SessionSettings) (createdAt : Int) : Deadlines where
  absoluteExpiresAt := createdAt + settings.absoluteTtl
  expiresAt := earlierDeadline (createdAt + settings.ttl) (createdAt + settings.absoluteTtl)

theorem newDeadlines_ordered (settings : SessionSettings) (createdAt : Int) :
    (newDeadlines settings createdAt).expiresAt ≤ (newDeadlines settings createdAt).absoluteExpiresAt := by
  simp only [newDeadlines, earlierDeadline_eq_min]
  exact Int.min_le_right _ _

/-! ### Sessions -/

/-- What is generated for a new session: its id, its device, and the hash of the secret of its refresh token. -/
structure NewSession where
  id : String
  deviceId : String
  refreshTokenHash : String
  deriving DecidableEq, Repr

/-- `RefreshTokens.create` -/
def createSession (settings : SessionSettings) (new : NewSession) (createdAt : Int) : Session where
  id := new.id
  deviceId := new.deviceId
  refreshTokenHash := new.refreshTokenHash
  expiresAt := (newDeadlines settings createdAt).expiresAt
  absoluteExpiresAt := (newDeadlines settings createdAt).absoluteExpiresAt
  lastUsedAt := createdAt
  revokedAt := none
  stepUpAt := none
  mfaVerifiedAt := none

/-- `RefreshTokens.create_guest_or_rollback` -/
def createGuestSession (settings : SessionSettings) (new : NewSession) (guestExpiresAt createdAt : Int) : Session where
  id := new.id
  deviceId := new.deviceId
  refreshTokenHash := new.refreshTokenHash
  expiresAt := earlierDeadline (createdAt + settings.ttl) guestExpiresAt
  absoluteExpiresAt := guestExpiresAt
  lastUsedAt := createdAt
  revokedAt := none
  stepUpAt := none
  mfaVerifiedAt := none

/-- `active_session?` -/
def Session.active (session : Session) (now : Int) : Bool :=
  session.revokedAt = none && now < session.expiresAt && now < session.absoluteExpiresAt

theorem Session.active_iff {session : Session} {now : Int} :
    session.active now = true ↔
      session.revokedAt = none ∧ now < session.expiresAt ∧ now < session.absoluteExpiresAt := by
  simp [Session.active, and_assoc]

/-- `User.guest_expiration_changeset`, when a guest is revoked -/
def expireUser (now : Int) (user : User) : User :=
  if user.guestExpiresAt.any (now < ·) then { user with guestExpiresAt := some now } else user

end KComms.Accounts
