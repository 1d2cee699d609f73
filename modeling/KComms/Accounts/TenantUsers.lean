import KComms.Accounts.Session
import KComms.Lib.EffectTransaction
import KComms.Lib.KeyedTable

/-!
# The users of a tenant (`Accounts.User`, `Accounts.RolePermissions`)

The table of the users of a tenant, with the fields that the lifecycle of a user, provisioning
and erasure read and write.
-/

namespace KComms.Accounts

open Attempt

inductive Role
  | member | moderator | admin | complianceAdmin | securityAdmin | owner
  deriving DecidableEq, Repr

def Role.elevated : Role → Bool
  | .owner | .admin | .complianceAdmin | .securityAdmin => true
  | .member | .moderator => false

structure TenantUser where
  id : String
  role : Role
  status : UserStatus
  accountType : AccountType
  accessScope : AccessScope
  displayName : String
  email : String
  lockVersion : Nat
  deriving DecidableEq, Repr

/-- An active owner that all queries for the last owner count: human, and with the scope of the workspace. -/
def TenantUser.workspaceOwner (user : TenantUser) : Bool :=
  user.role = .owner && user.status = .active && user.accountType = .human && user.accessScope = .workspace

abbrev UserTable := KeyedTable TenantUser.id

/-! ### Errors and permissions -/

inductive UserError
  | notFound | forbidden | staleVersion | governancePolicyRequired | lastOwnerRequired | activeUserQuotaExceeded
  | invalidUser | scimIdentityConflict | emailChangeRequiresVerification | scimGroupAuthorityDenied
  | invalidScimResource | invalidScimMember | invalidScimPatch | scimFederationMappingNotApproved
  | userErasureFailed | userErasureNotDrained | crashed
  deriving DecidableEq, Repr

/-- A transaction on the rows of a tenant; it calls nothing outside. -/
abbrev UserTransaction (α : Type) := Attempt Empty UserError α

/-- `RolePermissions.authorize_change` -/
def authorizeChange (actorRole targetRole : Role) (requested : Option Role) (targetScope : AccessScope) : Bool :=
  if targetScope = .conversationOnly && requested.any Role.elevated then false
  else
    match actorRole with
    | .owner => true
    | .admin => !(targetRole.elevated || requested.any Role.elevated)
    | _ => false

end KComms.Accounts
