import KComms.Accounts.TenantUsers

/-!
# Provisioning of users and groups (`Accounts.Scim`)

A directory service outside of the workspace keeps a resource for every user and group that it manages.  A change of
the resource of a user rewrites the status of the user; a deleted resource of a user stays as a tombstone.  The last
workspace owner is kept by `preserveOwner`, which counts all workspace owners.
-/

namespace KComms.Accounts

open Attempt

inductive ScimKind
  | user | group
  deriving DecidableEq, Repr

structure ScimResource where
  id : String
  userId : Option String
  kind : ScimKind
  externalId : String
  displayName : String
  members : List String
  lockVersion : Nat
  deriving DecidableEq, Repr

/-- The rows of a tenant that provisioning reads and writes. -/
structure ScimDirectory where
  users : UserTable
  resources : List ScimResource

def etag (version : Nat) : String := "W/\"" ++ toString version ++ "\""

/-! ### Requests -/

/-- An entry of a list of members: a map with a text as its `value`, another map or null, or something else.  The rest
of the entry tells entries apart. -/
inductive ScimMember
  | value (id rest : String)
  | unidentified (rest : String)
  | other (rest : String)
  deriving DecidableEq, Repr

/-- A value of a request, as far as the requests tell values apart; `formatted` is a map with this key. -/
inductive ScimValue
  | null
  | bool (value : Bool)
  | text (value : String)
  | list (members : List ScimMember)
  | formatted (name : Option String)
  | emptyMap
  | other
  deriving DecidableEq, Repr

abbrev ScimAttrs := List (String × ScimValue)

namespace ScimAttrs

def has (attrs : ScimAttrs) (key : String) : Bool := attrs.any fun entry => entry.1 = key

/-- `Map.get` -/
def get (attrs : ScimAttrs) (key : String) (default : ScimValue) : ScimValue :=
  ((attrs.find? fun entry => entry.1 = key).map (·.2)).getD default

/-- `Map.put` -/
def put (attrs : ScimAttrs) (key : String) (value : ScimValue) : ScimAttrs :=
  (key, value) :: attrs.filter fun entry => entry.1 ≠ key

/-- `Map.merge` -/
def merge (attrs changes : ScimAttrs) : ScimAttrs :=
  changes ++ attrs.filter fun entry => !has changes entry.1

end ScimAttrs

/-- The name of a request: there may be none, and it may be of another kind than a text. -/
inductive ScimName
  | absent
  | text (name : String)
  | invalid
  deriving DecidableEq, Repr

/-- `display_name` -/
def scimDisplayName (attrs : ScimAttrs) : ScimName :=
  match attrs.get "displayName" .null with
  | .null =>
    match attrs.get "name" .null with
    | .formatted (some name) => .text name
    | .formatted none => .absent
    | .null => .absent
    | _ => .invalid
  | .text name => .text name
  | _ => .invalid

def validSize (text : String) (maximum : Nat) : Bool := 1 ≤ text.utf8ByteSize && text.utf8ByteSize ≤ maximum

/-- `reject_authority` -/
def rejectAuthority (attrs : ScimAttrs) : UserTransaction Unit :=
  check (!(["roles", "role", "entitlements", "platform_role", "password", "groups", "account_type"].any attrs.has))
    .scimGroupAuthorityDenied

/-- Facts from outside of the rows: the authority and the budget of the service, the quota of active users, what a
UUID is, that the changed user is valid, that the sessions were revoked, and that the mapping of a federation was
approved. -/
structure ScimFacts where
  authorized : Bool
  capacity : Bool
  valid : Bool
  revoked : Bool
  federation : Bool

/-! ### Members of a group -/

/-- The ids of members of a list, `none` when an entry has no UUID. -/
def castMembers (castUuid : String → Option String) (members : List ScimMember) : Option (List String) :=
  members.mapM fun
    | .value id _ => castUuid id
    | _ => none

/-- `members!` -/
def scimMembers (castUuid : String → Option String) (resources : List ScimResource) :
    ScimKind → ScimValue → UserTransaction (List String)
  | .user, .null => pure []
  | .user, _ => rollback .scimGroupAuthorityDenied
  | .group, .null => pure []
  | .group, .list members => do
    check (members.length ≤ 1000) .invalidScimMember
    match castMembers castUuid members with
    | none => rollback .invalidScimMember
    | some cast => do
      let ids := cast.eraseDups
      check ((resources.filter fun resource => resource.kind = .user && ids.contains resource.id).length = ids.length)
        .invalidScimMember
      pure ids
  | .group, _ => rollback .invalidScimMember

/-! ### Operations of a patch -/

inductive PatchPath
  | absent
  | text (path : String)
  | other
  deriving DecidableEq, Repr

inductive PatchValue
  | map (attrs : ScimAttrs)
  | value (value : ScimValue)
  deriving DecidableEq, Repr

def PatchValue.asValue : PatchValue → ScimValue
  | .map [] => .emptyMap
  | .map _ => .other
  | .value plain => plain

/-- An entry of `Operations`, `none` for the operation when it is not a text. -/
structure PatchOperation where
  operation : Option String
  path : PatchPath
  value : PatchValue
  deriving DecidableEq, Repr

structure PatchRequest where
  schemas : List String
  operations : List PatchOperation
  deriving DecidableEq, Repr

def uuidCharacter (c : Char) : Bool := c.isDigit || ('a' ≤ c && c ≤ 'f') || c = '-'

def memberPath (id : String) : String := "members[value eq \"" ++ id ++ "\"]"

/-- The member in a path of the form `members[value eq "id"]`; the end of the text may be a line feed. -/
def removedMember (path : String) : Option String :=
  let id := String.ofList ((path.toList.drop 18).take 36)
  if id.length = 36 && id.toList.all uuidCharacter && (path = memberPath id || path = memberPath id ++ "\n") then
    some id
  else none

def ScimMember.isOther : ScimMember → Bool
  | .other _ => true
  | _ => false

/-- The entry has this text as its `value`. -/
def ScimMember.hasId (id : String) : ScimMember → Bool
  | .value own _ => own = id
  | _ => false

def ownMembers (resource : ScimResource) : ScimValue := .list (resource.members.map fun id => .value id "")

/-- The list that an addition appends to. -/
def patchMembers (attrs : ScimAttrs) (resource : ScimResource) : UserTransaction (List ScimMember) :=
  match attrs.get "members" (ownMembers resource) with
  | .list members => pure members
  | _ => rollback .crashed

/-- What a removal goes through; `value` is read of every entry. -/
def removableMembers (attrs : ScimAttrs) (resource : ScimResource) : UserTransaction (List ScimMember) :=
  match attrs.get "members" (ownMembers resource) with
  | .list members => do
    check (!members.any ScimMember.isOther) .crashed
    pure members
  | .emptyMap => pure []
  | _ => rollback .crashed

/-- One step of the reduction in `patch_attrs!`. -/
def patchStep (resource : ScimResource) (attrs : ScimAttrs) (op : PatchOperation) : UserTransaction ScimAttrs :=
  match op.operation with
  | none => rollback .invalidScimPatch
  | some name => do
    let operation := name.toLower
    let puts := operation = "add" || operation = "replace"
    match op.path, op.value with
    | .absent, .map changes =>
      if puts then pure (attrs.merge changes) else rollback .invalidScimPatch
    | .text path, value =>
      if puts && ["active", "displayName", "userName", "externalId"].contains path then
        pure (attrs.put path value.asValue)
      else if puts && path = "name.formatted" then pure (attrs.put "displayName" value.asValue)
      else if operation = "replace" && path = "members" then pure (attrs.put "members" value.asValue)
      else
        match operation = "add" && path = "members", value with
        | true, .value (.list added) => do
          let existing ← patchMembers attrs resource
          pure (attrs.put "members" (.list (existing ++ added).eraseDups))
        | _, _ =>
          if operation = "remove" && path = "members" then pure (attrs.put "members" (.list []))
          else if operation = "remove" then
            match removedMember path with
            | none => rollback .invalidScimPatch
            | some id => do
              let existing ← removableMembers attrs resource
              pure (attrs.put "members" (.list (existing.filter (!·.hasId id))))
          else rollback .invalidScimPatch
    | _, _ => rollback .invalidScimPatch

/-- `patch_attrs!` -/
def patchAttrs (request : PatchRequest) (resource : ScimResource) : UserTransaction ScimAttrs := do
  check (1 ≤ request.operations.length && request.operations.length ≤ 25) .invalidScimPatch
  check (request.schemas.contains "urn:ietf:params:scim:api:messages:2.0:PatchOp") .invalidScimPatch
  request.operations.foldlM (patchStep resource) []

/-! ### The last owner -/

/-- `preserve_owner!` -/
def preserveOwner (users : UserTable) (user : TenantUser) : UserTransaction Unit :=
  check (!(user.workspaceOwner && (users.rows.filter (·.workspaceOwner)).length ≤ 1)) .lastOwnerRequired

/-! ### Changes of the rows -/

def findResource (resources : List ScimResource) (kind : ScimKind) (id : String) : Option ScimResource :=
  resources.find? fun resource => resource.id = id && resource.kind = kind

/-- `locked_resource!` -/
def lockedResource (resources : List ScimResource) (kind : ScimKind) (id version : String) :
    UserTransaction ScimResource :=
  match findResource resources kind id with
  | none => rollback .notFound
  | some resource => do
    check (version = etag resource.lockVersion) .staleVersion
    pure resource

def updateResource (resources : List ScimResource) (id : String) (change : ScimResource → ScimResource) :
    List ScimResource :=
  resources.map fun resource => if resource.id = id then change resource else resource

/-- The ids that the database gives to new rows. -/
structure ScimIds where
  userId : String
  resourceId : String
  deriving DecidableEq, Repr

def provisionedUser (ids : ScimIds) (name email : String) (attrs : ScimAttrs) : TenantUser where
  id := ids.userId
  role := .member
  status := if attrs.get "active" .null = .bool false then .suspended else .active
  accountType := .human
  accessScope := .workspace
  displayName := name
  email := email
  lockVersion := 1

/-- The user of a new resource; a group has none. -/
def provisionUser (facts : ScimFacts) (ids : ScimIds) (kind : ScimKind) (attrs : ScimAttrs) (name : String)
    (users : UserTable) : UserTransaction UserTable :=
  match kind with
  | .group => pure users
  | .user => do
    check facts.capacity .activeUserQuotaExceeded
    check facts.valid .invalidScimResource
    match attrs.get "userName" .null with
    | .text email =>
      match users.insert (provisionedUser ids name email attrs) with
      | some users' => pure users'
      | none => rollback .crashed
    | _ => rollback .invalidScimResource

/-- A creation that is repeated writes nothing; the name of the user must be the same. -/
def repeatCreation (kind : ScimKind) (attrs : ScimAttrs) (users : UserTable) (existing : ScimResource) :
    UserTransaction Unit :=
  match existing.userId.bind users.find with
  | some user => check (!(kind = .user && attrs.get "userName" .null ≠ .text user.email)) .scimIdentityConflict
  | none => check (kind ≠ .user) .crashed

/-- `create` -/
def scimCreate (facts : ScimFacts) (castUuid : String → Option String) (ids : ScimIds) (kind : ScimKind)
    (attrs : ScimAttrs) (directory : ScimDirectory) : UserTransaction ScimDirectory := do
  rejectAuthority attrs
  check ([.null, .bool true, .bool false].contains (attrs.get "active" .null)) .invalidScimResource
  match attrs.get "externalId" .null, scimDisplayName attrs with
  | .text externalId, .text name => do
    check (validSize externalId 512 && validSize name 120) .invalidScimResource
    check facts.authorized .forbidden
    match directory.resources.find? fun resource => resource.kind = kind && resource.externalId = externalId with
    | some existing => do
      repeatCreation kind attrs directory.users existing
      pure directory
    | none => do
      let users ← provisionUser facts ids kind attrs name directory.users
      let members ← scimMembers castUuid directory.resources kind (attrs.get "members" .null)
      check (!(directory.resources.map (·.id)).contains ids.resourceId) .crashed
      check facts.federation .scimFederationMappingNotApproved
      let resource : ScimResource :=
        { id := ids.resourceId, userId := if kind = .user then some ids.userId else none, kind := kind,
          externalId := externalId, displayName := name, members := members, lockVersion := 1 }
      pure { users := users, resources := resource :: directory.resources }
  | _, _ => rollback .invalidScimResource

/-- What a replacement or a patch asks for, before it is applied. -/
inductive ScimChange
  | replace (attrs : ScimAttrs)
  | patch (request : PatchRequest)
  | malformedPatch
  deriving DecidableEq, Repr

def ScimChange.attrs (change : ScimChange) (resource : ScimResource) : UserTransaction ScimAttrs :=
  match change with
  | .replace attrs => pure attrs
  | .patch request => patchAttrs request resource
  | .malformedPatch => rollback .invalidScimPatch

/-- The values that count as true in a condition. -/
def ScimValue.truthy : ScimValue → Bool
  | .null | .bool false => false
  | _ => true

/-- An active user needs room in the quota; another one loses the sessions, and must not be the last owner. -/
def changeActive (facts : ScimFacts) (users : UserTable) (user : TenantUser) : Bool → UserTransaction Unit
  | true => check (user.status = .active || facts.capacity) .activeUserQuotaExceeded
  | false => do
    preserveOwner users user
    check facts.revoked .forbidden

/-- A user after a change of its resource. -/
def TenantUser.provisioned (name : Option String) (active : Bool) (user : TenantUser) : TenantUser :=
  { user with
    displayName := name.getD user.displayName
    status := if active then .active else .suspended
    lockVersion := user.lockVersion + 1 }

/-- The part of `mutate` about the user of the resource. -/
def mutateUser (facts : ScimFacts) (attrs : ScimAttrs) (name : Option String) (users : UserTable) (userId : String) :
    UserTransaction UserTable :=
  match users.find userId with
  | none => rollback .crashed
  | some user => do
    let userName := attrs.get "userName" .null
    check (!(userName.truthy && userName ≠ .text user.email)) .emailChangeRequiresVerification
    match attrs.get "active" (.bool (user.status = .active)) with
    | .bool active => do
      changeActive facts users user active
      check facts.valid .invalidScimResource
      pure (users.update userId (·.provisioned name active) fun _ => rfl)
    | _ => rollback .invalidScimResource

def mutateUsers (facts : ScimFacts) (attrs : ScimAttrs) (name : Option String) (users : UserTable) :
    Option String → UserTransaction UserTable
  | none => pure users
  | some userId => mutateUser facts attrs name users userId

/-- The new name; there may be none. -/
def changedName (attrs : ScimAttrs) : UserTransaction (Option String) :=
  match scimDisplayName attrs with
  | .absent => pure none
  | .invalid => rollback .invalidScimResource
  | .text name => do
    check (validSize name 120) .invalidScimResource
    pure (some name)

def changedMembers (castUuid : String → Option String) (resources : List ScimResource) (kind : ScimKind)
    (attrs : ScimAttrs) (resource : ScimResource) : UserTransaction (List String) :=
  if attrs.has "members" then scimMembers castUuid resources kind (attrs.get "members" .null)
  else pure resource.members

/-- `mutate` -/
def scimMutate (facts : ScimFacts) (castUuid : String → Option String) (kind : ScimKind) (rawId : String)
    (change : ScimChange) (version : String) (directory : ScimDirectory) : UserTransaction ScimDirectory :=
  match castUuid rawId with
  | none => rollback .notFound
  | some id => do
    check facts.authorized .forbidden
    let resource ← lockedResource directory.resources kind id version
    let attrs ← change.attrs resource
    rejectAuthority attrs
    let externalId := attrs.get "externalId" .null
    check (!(externalId.truthy && externalId ≠ .text resource.externalId)) .scimIdentityConflict
    let name ← changedName attrs
    let members ← changedMembers castUuid directory.resources kind attrs resource
    let users ← mutateUsers facts attrs name directory.users resource.userId
    pure { users := users, resources := updateResource directory.resources id fun resource =>
      { resource with
        displayName := name.getD resource.displayName
        members := members
        lockVersion := resource.lockVersion + 1 } }

/-- A user whose resource was deleted. -/
def TenantUser.deprovisioned (user : TenantUser) : TenantUser :=
  { user with status := .suspended, lockVersion := user.lockVersion + 1 }

/-- `delete`: the resource of a user stays, so that its external key is not used again. -/
def scimDelete (facts : ScimFacts) (castUuid : String → Option String) (kind : ScimKind) (rawId version : String)
    (directory : ScimDirectory) : UserTransaction ScimDirectory :=
  match castUuid rawId with
  | none => rollback .notFound
  | some id => do
    check facts.authorized .forbidden
    let resource ← lockedResource directory.resources kind id version
    match resource.userId with
    | some userId =>
      match directory.users.find userId with
      | none => rollback .crashed
      | some user => do
        preserveOwner directory.users user
        check facts.revoked .forbidden
        pure
          { users := directory.users.update userId (·.deprovisioned) fun _ => rfl
            resources := updateResource directory.resources id fun resource =>
              { resource with lockVersion := resource.lockVersion + 1 } }
    | none => pure { directory with resources := directory.resources.filter (·.id ≠ id) }

end KComms.Accounts
