import BindPlane.Auth.Invitations
import BindPlane.Auth.EmailChange
import BindPlane.Auth.Sessions

/-!
# The life of an account

`mutateUserLifecycle` (deactivation, reactivation and deletion), the updates of an account by its
owner, the system identity, and the part of `SweepMail` that removes expired authorities.

**Everything that hangs on an account.**  A deletion takes the sessions, the reset and the request
for another address with it, and supersedes the mails that are still to be sent to the account.  A
deactivation leaves the row and ends the sessions by a new version.

**Source.**  What is modelled here is in `internal/auth/adapter/postgres/access.go`,
`internal/auth/adapter/postgres/accounts.go`, `internal/auth/adapter/postgres/identity.go`,
`internal/auth/adapter/postgres/personal_settings.go`,
`internal/auth/adapter/postgres/user_lifecycle.go` and
`internal/auth/application/user_lifecycle.go`.
-/

namespace BindPlane.Auth

open ReadCommitted
open Mail (MailTask)

namespace Db

/-- `UPDATE auth_user_invitations SET created_by = NULL WHERE created_by = $1`, of locked rows. -/
def clearCreator (d : Db) (userId : ℕ) (ids : List ℕ) : Db :=
  { d with
    invitations := d.invitations.updateWhere
      (fun id i => ids.contains id && i.createdBy = some userId) fun i =>
        { i with createdBy := none } }

/-- `DELETE FROM auth_users WHERE id = $1`. -/
def deleteUser (d : Db) (userId : ℕ) : Db :=
  { d with users := d.users.deleteWhere fun id _ => id = userId }

/-- Some role is that of the super admin. -/
def superAdmin (d : Db) (roles : List ℕ) : Bool :=
  roles.any fun id => (d.roles.get? id).any fun r => r.systemKey = some "super_admin"

/-- The enabled accounts that are super admins. -/
def availableAdmins (d : Db) : ℕ :=
  (d.users.rows.filter fun u => u.2.enabled && d.superAdmin u.2.roles).length

end Db

/-! ## mutateUserLifecycle -/

inductive LifecycleAction
  | deactivate | reactivate | delete
  deriving DecidableEq

/-- The columns of a deactivation, and of a reactivation. -/
def User.setDisabled (disabledAt : Option Instant) (u : User) : User :=
  { u with disabledAt := disabledAt, authVersion := u.authVersion + 1 }

/-- The tasks of a user. -/
def mailOfUser (userId : ℕ) (t : MailTask) : Bool := t.userId = some userId

/-- `UPDATE auth_users SET disabled_at = NULL, …`. -/
def reactivateUser (userId : ℕ) : Txn Unit := do
  Tx.update (·.modifyUser userId (User.setDisabled none))
  Tx.update (·.record (.reactivated userId))

/-- The statements of a deactivation. -/
def deactivateUser (userId revision : ℕ) : Txn Unit := do
  revokeSessions userId revision
  let s ← Tx.snapshot
  Tx.update (·.modifyUser userId (User.setDisabled (some s.clock)))
  deleteReset userId
  supersedeMail (mailOfUser userId) "superseded"
  Tx.update (·.record (.deactivated userId))

/-- The statements of a deletion. -/
def deleteUser (userId : ℕ) : Txn Unit := do
  let s ← Tx.snapshot
  let created := s.invitations.keysWhere fun _ i => i.createdBy = some userId
  Tx.acquireAll Key.invitation created
  Tx.update (·.clearCreator userId created)
  supersedeMail (mailOfUser userId) "superseded"
  -- `ON DELETE CASCADE`
  let s ← Tx.snapshot
  let requests := s.emailChanges.keysWhere fun _ r => r.userId = userId
  Tx.acquireAll Key.emailChange requests
  Tx.update (·.deleteEmailChanges requests)
  let s ← Tx.snapshot
  let sessions ← Tx.collectForUpdate Db.sessions .session (fun _ x => x.userId = userId)
    (s.sessions.rows.filter fun x => x.2.userId = userId)
  Tx.update (·.deleteSessions sessions)
  deleteReset userId
  Tx.update (·.deleteUser userId)
  Tx.update (·.record (.deleted userId))

/-- The authority that `mutateUserLifecycle` asks for. -/
def requireUsersWrite (actorId : ℕ) : Txn Unit := do
  let s ← Tx.snapshot
  let actor ← Tx.expect (s.users.get? actorId) .database
  Tx.require (actor.enabled &&
    (s.superAdmin actor.roles || (s.permissionsOf actor.roles).contains "users.write")) .forbidden

/-- What the action is refused for. -/
def requireTarget (userId revision : ℕ) (action : LifecycleAction) : Txn User := do
  let s ← Tx.snapshot
  let user ← Tx.expect (s.users.get? userId) .database
  Tx.require (user.authVersion = revision) .staleRevision
  Tx.require (!(action = .deactivate && !user.enabled || action = .reactivate && user.enabled))
    .staleRevision
  let s' ← Tx.snapshot
  Tx.require (!(action ≠ .reactivate && s.superAdmin user.roles && user.enabled) ||
    1 < s'.availableAdmins) .lastSuperAdmin
  pure user

/-- `mutateUserLifecycle`.

The address is locked first, and all of the roles next: whether the account is the last
administrator must not change between the check and the write. -/
def mutateUserLifecycle (actorId userId revision : ℕ) (action : LifecycleAction) : Txn Unit := do
  Tx.require (actorId ≠ userId) .selfUserOperation
  let s ← Tx.snapshot
  let found ← Tx.expect (s.users.get? userId) .userNotFound
  Tx.acquire (.address found.email.canonical)
  let s ← Tx.snapshot
  Tx.acquireAll Key.role ((s.roles.rows.map Prod.fst).insertionSort (· ≤ ·))
  lockUsers [actorId, userId]
  requireUsersWrite actorId
  let user ← requireTarget userId revision action
  Tx.require (action = .delete || user.authVersion < maxVersion) .database
  match action with
  | .deactivate => deactivateUser userId revision
  | .reactivate => reactivateUser userId
  | .delete => deleteUser userId

/-! ## The account and the system -/

/-- `UpdateUserName`, and `UpdateUserLocale`: one `UPDATE` of an enabled account. -/
def updateUser (userId : ℕ) (f : User → User) : Txn Unit := do
  let found ← Tx.findForUpdate Db.users .user fun _ id (u : User) => id = userId && u.enabled
  let _ ← Tx.expect found .accountNotFound
  Tx.update (·.modifyUser userId f)

/-- `UpdateUserName`. -/
def updateUserName (userId : ℕ) (name : Name) : Txn Unit :=
  updateUser userId fun u => { u with name := name }

/-- `UpdateUserLocale`. -/
def updateUserLocale (userId : ℕ) (locale : String) : Txn Unit :=
  updateUser userId fun u => { u with locale := some locale }

/-- `FindPublicAccountByID`. -/
def publicAccount (userId : ℕ) : Txn User := do
  let s ← Tx.snapshot
  Tx.expect (s.findPublicAccount userId) .accountNotFound

/-- `FindByCanonicalEmail`. -/
def accountByEmail (canonical : String) : Txn (ℕ × User) := do
  let s ← Tx.snapshot
  Tx.expect (s.findByCanonicalEmail canonical) .accountNotFound

/-- `InitializeLocale`: the locale of an account that has none. -/
def initializeLocale (userId : ℕ) (locale : String) : Txn User :=
  if validLocale locale then do
    let found ← Tx.findForUpdate Db.users .user fun _ id (u : User) =>
      id = userId && u.enabled && u.locale.isNone
    match found with
    | none => publicAccount userId
    | some (_, user) => do
        Tx.update (·.modifyUser userId fun u => { u with locale := some locale })
        pure { user with locale := some locale }
  else publicAccount userId

/-- `SaveSystemIdentity`. -/
def saveSystemIdentity (expectedRevision : ℕ) (systemName : Name) : Txn Unit := do
  Tx.acquire .identity
  let s ← Tx.snapshot
  Tx.require (((s.identity.map SystemIdentity.revision).getD 0) = expectedRevision) .staleRevision
  Tx.update fun d => { d with identity := some ⟨systemName, expectedRevision + 1⟩ }

/-! ## SweepMail -/

/-- `outboxMaintenanceBatchSize`. -/
def batchSize : ℕ := 100

/-- `ORDER BY r.expires_at, r.user_id`. -/
def resetEarlier (a b : ℕ × PasswordReset) : Prop :=
  a.2.expiresAt < b.2.expiresAt ∨ a.2.expiresAt = b.2.expiresAt ∧ a.1 ≤ b.1

instance : DecidableRel resetEarlier := fun _ _ => inferInstanceAs (Decidable (_ ∨ _ ∧ _))

/-- `ORDER BY r.expires_at, r.id`. -/
def requestEarlier (a b : ℕ × EmailChangeRequest) : Prop :=
  a.2.expiresAt < b.2.expiresAt ∨ a.2.expiresAt = b.2.expiresAt ∧ a.1 ≤ b.1

instance : DecidableRel requestEarlier := fun _ _ => inferInstanceAs (Decidable (_ ∨ _ ∧ _))

/-- The two statements of `SweepMail` that remove expired authorities. -/
def sweepAuthorities : Txn Unit := do
  let s ← Tx.snapshot
  let resets ← Tx.pickForUpdate Db.resets .reset (fun s r => r.expiresAt ≤ s.clock)
    ((s.resets.rows.filter fun r => r.2.expiresAt ≤ s.clock).insertionSort resetEarlier) batchSize
  Tx.update (·.deleteResets (resets.map Prod.fst))
  let s ← Tx.snapshot
  let requests ← Tx.pickForUpdate Db.emailChanges .emailChange (fun s r => r.expiresAt ≤ s.clock)
    ((s.emailChanges.rows.filter fun r => r.2.expiresAt ≤ s.clock).insertionSort requestEarlier)
    batchSize
  Tx.update (·.deleteEmailChanges (requests.map Prod.fst))

end BindPlane.Auth
