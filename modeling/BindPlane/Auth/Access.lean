import BindPlane.Auth.Recovery

/-!
# Roles

The authority of an actor, read behind the locks of its roles and of its account, and the
transactions that change roles, the roles of an account and the account itself.

**Scopes.**  Every transaction is that of an actor: the variants `…WithinScope`, which the service
uses.  An actor that is not a super admin may neither attach nor detach a system role, nor a role
with a permission that it does not have itself.

**Locks.**  The locks of the roles in question and of the system role are taken in the order of
their ids, and then those of the accounts.  What would leave no enabled super admin is refused
behind the lock of the system role.

**Source.**  What is modelled here is in `internal/auth/adapter/postgres/access.go` and
`internal/auth/adapter/postgres/online.go`.
-/

namespace BindPlane.Auth

open ReadCommitted
open Mail (MailTask)

/-! ## Statements -/

namespace Db

/-- `INSERT INTO auth_roles`. -/
def addRole (d : Db) (id : ℕ) (r : Role) : Db := { d with roles := d.roles.insert id r }

/-- `UPDATE auth_roles SET … WHERE id = $1`. -/
def modifyRole (d : Db) (id : ℕ) (f : Role → Role) : Db := { d with roles := d.roles.modify id f }

/-- `DELETE FROM auth_roles WHERE id = $1`. -/
def deleteRole (d : Db) (id : ℕ) : Db :=
  { d with roles := d.roles.deleteWhere fun i _ => i = id }

/-- `SELECT role_id FROM auth_user_roles WHERE user_id = $1`. -/
def roleIdsForUser (d : Db) (userId : ℕ) : List ℕ :=
  ((d.users.get? userId).map User.roles).getD []

/-- `SELECT id FROM auth_roles WHERE system_key = 'super_admin'`. -/
def superRoleId (d : Db) : Option ℕ :=
  (d.roles.find? fun _ r => r.systemKey = some "super_admin").map Prod.fst

/-- The permission keys of some roles. -/
def permissionsOf (d : Db) (roles : List ℕ) : List String :=
  roles.flatMap fun id => ((d.roles.get? id).map Role.permissions).getD []

/-- The rows of `auth_user_roles` and `auth_invitation_roles` that refer to a role. -/
def roleReferences (d : Db) (id : ℕ) : ℕ :=
  (d.users.rows.filter fun u => u.2.roles.contains id).length +
    (d.invitations.rows.filter fun i => i.2.roles.contains id).length

/-- `UPDATE auth_users SET auth_version = auth_version + 1 WHERE id IN …`. -/
def bumpVersions (d : Db) (ids : List ℕ) : Db :=
  { d with
    users := d.users.updateWhere (fun id _ => ids.contains id) fun u =>
      { u with authVersion := u.authVersion + 1 } }

end Db

/-- `lockRoles`. -/
def lockRoles (roleIds : List ℕ) : Txn Unit :=
  Tx.lockAll Db.roles .role .roleNotFound (roleIds.insertionSort (· ≤ ·))

/-- `lockUsersTx`. -/
def lockUsers (userIds : List ℕ) : Txn Unit :=
  Tx.lockAll Db.users .user .userNotFound (userIds.dedup.insertionSort (· ≤ ·))

/-- The authority of an actor: whether it is a super admin, and the permissions of its roles.

The permissions of an actor are those of all of its roles together, and a super admin has every
permission without having a role that lists it. -/
structure Authority where
  superAdmin : Bool
  permissions : List String
  deriving DecidableEq

/-- All of some permissions. -/
def Authority.contains (a : Authority) (required : List String) : Bool :=
  required.all fun p => a.permissions.contains p

/-- All of some permissions, or everything. -/
def Authority.has (a : Authority) (required : List String) : Bool :=
  a.superAdmin || a.contains required

/-- `effectivePermissionsTx`. -/
def effectivePermissions (userId superRoleId : ℕ) : Txn Authority := do
  let s ← Tx.snapshot
  let user ← Tx.expect (s.users.get? userId) .database
  Tx.require user.enabled .forbidden
  let s ← Tx.snapshot
  let superAdmin := (s.roleIdsForUser userId).contains superRoleId
  let s ← Tx.snapshot
  pure ⟨superAdmin, s.permissionsOf (s.roleIdsForUser userId)⟩

/-- `rolePermissionsTx`. -/
def rolePermissions (roleId : ℕ) : Txn (Option String × List String) := do
  let s ← Tx.snapshot
  let role ← Tx.expect (s.roles.get? roleId) .roleNotFound
  let s ← Tx.snapshot
  pure (role.systemKey, s.permissionsOf [roleId])

/-- `lockActorForRoleMutation`. -/
def lockActorForRoleMutation (actorId : ℕ) (additionalRoleIds : List ℕ) : Txn Authority := do
  let s ← Tx.snapshot
  let superRoleId ← Tx.expect s.superRoleId .database
  let s ← Tx.snapshot
  lockRoles (s.roleIdsForUser actorId ++ additionalRoleIds ++ [superRoleId])
  lockUsers [actorId]
  effectivePermissions actorId superRoleId

/-- The checks of some roles against the authority of an actor. -/
def authorizeRoles (a : Authority) (e : Failure) : List ℕ → Txn Unit
  | [] => pure ()
  | id :: ids => do
      let (systemKey, permissions) ← rolePermissions id
      Tx.require (systemKey.isNone && a.contains permissions) e
      authorizeRoles a e ids

/-- Those checks, where the actor is no super admin. -/
def authorizeRolesUnlessSuper (a : Authority) (e : Failure) (ids : List ℕ) : Txn Unit :=
  if a.superAdmin then pure () else authorizeRoles a e ids

/-! ## Roles -/

/-- `createRole`. -/
def createRole (actorId : ℕ) (name nameCanonical description : String)
    (permissions : List String) : Txn ℕ := do
  let actor ← lockActorForRoleMutation actorId []
  Tx.require (actor.has ["roles.read", "roles.write"]) .forbidden
  Tx.require (actor.has permissions) .permissionScope
  Tx.acquire (.roleName nameCanonical)
  let s ← Tx.snapshot
  Tx.require (!(s.roles.any fun _ r => r.nameCanonical = nameCanonical)) .roleAlreadyExists
  Tx.require permissions.Nodup .database
  let id ← Tx.nextSerial
  Tx.update (·.addRole id ⟨none, name, nameCanonical, description, 1, permissions⟩)
  pure id

/-- `bp_protect_roles`. -/
def Role.protected (r : Role) : Bool := r.nameCanonical = "operator" || r.nameCanonical = "admin"

/-- `samePermissionSet`. -/
def samePermissionSet (left right : List String) : Bool :=
  left.all (right.contains ·) && right.all (left.contains ·)

/-- The columns of a replaced role. -/
def Role.replace (name nameCanonical description : String) (permissions : List String)
    (r : Role) : Role :=
  { r with
    name := name
    nameCanonical := nameCanonical
    description := description
    revision := r.revision + 1
    permissions := permissions }

/-- `UPDATE auth_users SET auth_version = auth_version + 1`, of those that have a role. -/
def bumpHolders (roleId : ℕ) : Txn Unit := do
  let s ← Tx.snapshot
  let holders := s.users.keysWhere fun _ u => u.roles.contains roleId
  Tx.acquireAll Key.user holders
  let s ← Tx.snapshot
  Tx.require (holders.all fun id => (s.users.get? id).all (·.authVersion < maxVersion)) .database
  Tx.update (·.bumpVersions holders)

/-- `replaceRole`.

The actor must hold what the role grants now as well as what it is to grant.  The sessions of those
who hold the role end only where the set of its permissions changes. -/
def replaceRole (actorId id revision : ℕ) (name nameCanonical description : String)
    (permissions : List String) : Txn Unit := do
  let actor ← lockActorForRoleMutation actorId [id]
  let s ← Tx.snapshot
  let role ← Tx.expect (s.roles.get? id) .roleNotFound
  Tx.require role.systemKey.isNone .immutableRole
  Tx.require (revision = role.revision) .staleRevision
  let s ← Tx.snapshot
  let oldPermissions := s.permissionsOf [id]
  Tx.require (actor.has ["roles.read", "roles.write"]) .forbidden
  Tx.require (actor.has (oldPermissions ++ permissions)) .permissionScope
  Tx.require (!role.protected) .database
  Tx.acquire (.roleName nameCanonical)
  let s ← Tx.snapshot
  Tx.require (!(s.roles.any fun i r => i ≠ id && r.nameCanonical = nameCanonical))
    .roleAlreadyExists
  Tx.require permissions.Nodup .database
  Tx.update (·.modifyRole id (Role.replace name nameCanonical description permissions))
  if samePermissionSet oldPermissions permissions then pure () else bumpHolders id

/-- `deleteRole`. -/
def deleteRole (actorId id : ℕ) : Txn Unit := do
  let actor ← lockActorForRoleMutation actorId [id]
  let s ← Tx.snapshot
  let role ← Tx.expect (s.roles.get? id) .roleNotFound
  Tx.require role.systemKey.isNone .immutableRole
  Tx.require (actor.has ["roles.read", "roles.write"]) .forbidden
  let (_, permissions) ← rolePermissions id
  Tx.require (actor.has permissions) .permissionScope
  let s ← Tx.snapshot
  Tx.require (s.roleReferences id = 0) .roleInUse
  Tx.require (!role.protected) .database
  -- `ON DELETE RESTRICT`
  let s ← Tx.snapshot
  Tx.require (s.roleReferences id = 0) .database
  Tx.update (·.deleteRole id)

/-! ## The roles of an account -/

/-- `changedRoleIDs`. -/
def changedRoleIds (oldRoles newRoles : List ℕ) : List ℕ :=
  oldRoles.filter (!newRoles.contains ·) ++ newRoles.filter (!oldRoles.contains ·)

/-- The columns of new roles. -/
def User.setRoles (roles : List ℕ) (changed : Bool) (u : User) : User :=
  { u with roles := roles, authVersion := if changed then u.authVersion + 1 else u.authVersion }

/-- The accounts that are enabled and hold a role. -/
def Db.enabledHolders (d : Db) (roleId : ℕ) : ℕ :=
  (d.users.rows.filter fun u => u.2.enabled && u.2.roles.contains roleId).length

/-- `replaceUserRoles`.

The roles are locked before the accounts, by ascending keys, and the role of the super admins is
always among them.  The count of those who hold it is therefore still true when the row is written.
-/
def replaceUserRoles (actorId userId authVersion : ℕ) (roleIds : List ℕ) : Txn Unit := do
  Tx.require (!roleIds.isEmpty && roleIds.Nodup) .invalidRoleSet
  let s ← Tx.snapshot
  let superRoleId ← Tx.expect s.superRoleId .database
  let s ← Tx.snapshot
  let actorRoles := s.roleIdsForUser actorId
  let s ← Tx.snapshot
  lockRoles (roleIds ++ [superRoleId] ++ actorRoles ++ s.roleIdsForUser userId)
  lockUsers [actorId, userId]
  let target ← Tx.selectForUpdate Db.users .user .userNotFound userId
  Tx.require (target.authVersion = authVersion) .staleRevision
  let s ← Tx.snapshot
  let oldRoles := s.roleIdsForUser userId
  let changed := decide (oldRoles.insertionSort (· ≤ ·) ≠ roleIds.insertionSort (· ≤ ·))
  let actor ← effectivePermissions actorId superRoleId
  Tx.require (actor.has ["users.write", "roles.read"]) .forbidden
  authorizeRolesUnlessSuper actor .permissionScope (changedRoleIds oldRoles roleIds)
  let s ← Tx.snapshot
  Tx.require (!(oldRoles.contains superRoleId && !roleIds.contains superRoleId && target.enabled) ||
    1 < s.enabledHolders superRoleId) .lastSuperAdmin
  Tx.require (!changed || target.authVersion < maxVersion) .database
  Tx.update (·.modifyUser userId (User.setRoles roleIds changed))

/-! ## The session of an account -/

/-- `RevokeUserSessions`. -/
def revokeUserSessions (actorId userId : ℕ) : Txn Unit := do
  let s ← Tx.snapshot
  let superRoleId ← Tx.expect s.superRoleId .database
  let s ← Tx.snapshot
  lockRoles (s.roleIdsForUser actorId ++ [superRoleId])
  lockUsers [actorId, userId]
  let actor ← effectivePermissions actorId superRoleId
  Tx.require (actor.has ["online-users.write"]) .forbidden
  let s ← Tx.snapshot
  let user ← Tx.expect (s.users.get? userId) .userNotFound
  Tx.require (user.authVersion < maxVersion) .database
  Tx.update (·.bumpVersions [userId])

end BindPlane.Auth
