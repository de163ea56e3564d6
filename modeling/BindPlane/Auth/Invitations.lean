import BindPlane.Auth.Access

/-!
# Invitations

`createInvitation`, `resendInvitation`, `revokeInvitation` and `CompleteInvitation`.  All of them
hold the advisory lock of the address first, then the roles and the actor, then the row.

**No account yet.**  Until it is accepted an invitation has an address, a name and roles, and nobody
can sign in with it.  Its roles may be changed meanwhile: the account gets them as they are when it
is created.

**Source.**  What is modelled here is in `internal/auth/adapter/postgres/access.go`.
-/

namespace BindPlane.Auth

open ReadCommitted
open Mail (Bytes MailTask)

namespace Db

/-- `INSERT INTO auth_user_invitations`, with its roles. -/
def addInvitation (d : Db) (id : ℕ) (i : Invitation) : Db :=
  { d with invitations := d.invitations.insert id i }

/-- `UPDATE auth_user_invitations SET … WHERE id = $1`. -/
def modifyInvitation (d : Db) (id : ℕ) (f : Invitation → Invitation) : Db :=
  { d with invitations := d.invitations.modify id f }

/-- `DELETE FROM auth_user_invitations WHERE id = $1`. -/
def deleteInvitation (d : Db) (id : ℕ) : Db :=
  { d with invitations := d.invitations.deleteWhere fun i _ => i = id }

/-- `SELECT role_id FROM auth_invitation_roles WHERE invitation_id = $1`. -/
def invitationRoleIds (d : Db) (id : ℕ) : List ℕ :=
  ((d.invitations.get? id).map Invitation.roles).getD []

/-- `INSERT INTO auth_users`. -/
def addUser (d : Db) (id : ℕ) (u : User) : Db := { d with users := d.users.insert id u }

end Db

/-- The tasks of an invitation. -/
def mailOfInvitation (id : ℕ) (t : MailTask) : Bool := t.invitationId = some id

/-- The material of an invitation. -/
def invitationMaterial (i : Invitation) (systemName : String) : MailTaskMaterial where
  kind := .userInvitation
  name := i.name.value
  email := i.email.display
  locale := i.locale
  systemName := systemName
  createdAt := i.updatedAt
  expiresAt := i.expiresAt
  resetSelector := i.selector
  emailSelector := []
  verifierDigest := i.verifierDigest

/-- The mail of an invitation. -/
def queueInvitation (box : Sealer) (nonce : Bytes) (id : ℕ) (i : Invitation) : Txn Unit :=
  queueMail box nonce (.ofInvitation id) (invitationMaterial i)

/-- The new row. -/
def newInvitation (createdBy : ℕ) (name : Name) (email : Email) (locale : String)
    (roleIds : List ℕ) (selector verifierDigest : Bytes) (ttl : ℕ) (now : Instant) :
    Invitation where
  name := name
  email := email
  selector := selector
  verifierDigest := verifierDigest
  locale := locale
  expiresAt := now + ttl
  createdBy := some createdBy
  revision := 1
  createdAt := now
  updatedAt := now
  roles := roleIds

/-- The event of an invitation. -/
def Invitation.issued (i : Invitation) (id : ℕ) : Event :=
  .invited id i.name i.email i.roles i.selector i.verifierDigest i.expiresAt

/-- `INSERT INTO auth_user_invitations … SELECT … FROM auth_users u WHERE u.id = $7`. -/
def insertInvitation (createdBy : ℕ) (name : Name) (email : Email) (locale : String)
    (roleIds : List ℕ) (selector verifierDigest : Bytes) (ttl : ℕ) : Txn (ℕ × Invitation) := do
  Tx.acquire (.invitationEmail email.canonical)
  Tx.acquire (.invitationSelector selector)
  let s ← Tx.snapshot
  Tx.require (s.users.get? createdBy).isSome .database
  Tx.require (!(s.invitations.any fun _ i =>
    i.email.canonical = email.canonical || i.selector = selector)) .invitationPending
  Tx.require (0 < ttl && roleIds.Nodup) .database
  let i := newInvitation createdBy name email locale roleIds selector verifierDigest ttl s.clock
  let id ← Tx.nextSerial
  Tx.update fun d => (d.addInvitation id i).record (i.issued id)
  pure (id, i)

/-- `createInvitation`. -/
def createInvitation (box : Sealer) (nonce : Bytes) (actorId : ℕ) (name : Name) (email : Email)
    (locale : String) (roleIds : List ℕ) (selector verifierDigest : Bytes) (ttl : ℕ) : Txn ℕ := do
  Tx.acquire (.address email.canonical)
  let s ← Tx.snapshot
  Tx.require (!(s.users.any fun _ u => u.email.canonical = email.canonical)) .emailAlreadyRegistered
  let s ← Tx.snapshot
  Tx.require (!(s.invitations.any fun _ i => i.email.canonical = email.canonical)) .invitationPending
  let actor ← lockActorForRoleMutation actorId roleIds
  Tx.require (actor.has ["invitations.write", "roles.read"]) .forbidden
  authorizeRolesUnlessSuper actor .invitationRoleForbidden roleIds
  let (id, i) ← insertInvitation actorId name email locale roleIds selector verifierDigest ttl
  queueInvitation box nonce id i
  pure id

/-- `lockInvitationMutationScope`, and the checks behind it. -/
def lockInvitation (actorId id : ℕ) : Txn Invitation := do
  let s ← Tx.snapshot
  let found ← Tx.expect (s.invitations.get? id) .invitationNotFound
  Tx.acquire (.address found.email.canonical)
  let s ← Tx.snapshot
  let actor ← lockActorForRoleMutation actorId (s.invitationRoleIds id)
  let i ← Tx.selectForUpdate Db.invitations .invitation .invitationNotFound id
  let s ← Tx.snapshot
  let roleIds := s.invitationRoleIds id
  Tx.require (actor.has ["invitations.write", "roles.read"]) .forbidden
  authorizeRolesUnlessSuper actor .invitationNotManageable roleIds
  pure i

/-- The columns of another link. -/
def Invitation.reissue (selector verifierDigest : Bytes) (locale : String) (now : Instant) (ttl : ℕ)
    (i : Invitation) : Invitation :=
  { i with
    selector := selector
    verifierDigest := verifierDigest
    locale := locale
    expiresAt := now + ttl
    revision := i.revision + 1
    updatedAt := now }

/-- `resendInvitation`. -/
def resendInvitation (box : Sealer) (nonce : Bytes) (actorId id : ℕ) (locale : String)
    (selector verifierDigest : Bytes) (ttl : ℕ) : Txn Unit := do
  let i ← lockInvitation actorId id
  supersedeMail (mailOfInvitation id) "superseded"
  Tx.acquire (.invitationSelector selector)
  let s ← Tx.snapshot
  Tx.require (0 < ttl && !(s.invitations.any fun j x => j ≠ id && x.selector = selector)) .database
  let i' := i.reissue selector verifierDigest locale s.clock ttl
  Tx.update (·.modifyInvitation id fun _ => i')
  queueInvitation box nonce id i'
  Tx.update (·.record (.reinvited id selector verifierDigest i'.expiresAt))

/-- `revokeInvitation`. -/
def revokeInvitation (actorId id : ℕ) : Txn Unit := do
  let _ ← lockInvitation actorId id
  supersedeMail (mailOfInvitation id) "superseded"
  Tx.update (·.deleteInvitation id)
  Tx.update (·.record (.revoked id))

/-! ## CompleteInvitation -/

/-- `SELECT verifier_digest, expires_at > clock_timestamp() … WHERE id = $1 FOR UPDATE`: the row, and
the moment at which its expiry was checked, which is the beginning of the statement unless the row
has changed since. -/
def lockInvitationRow (id : ℕ) : Txn (Invitation × Instant) := do
  let s ← Tx.snapshot
  let before ← Tx.expect (s.invitations.get? id) .invitationInvalid
  Tx.acquire (.invitation id)
  let latest ← Tx.snapshot
  let i ← Tx.expect (latest.invitations.get? id) .invitationInvalid
  pure (i, if i = before then s.clock else latest.clock)

/-- `INSERT INTO auth_users`, and its roles from `auth_invitation_roles`. -/
def activateAccount (id : ℕ) (name : Name) (email : Email) (passwordHash locale : String) :
    Txn ℕ := do
  Tx.acquire (.userEmail email.canonical)
  let s ← Tx.snapshot
  Tx.require (!(s.users.any fun _ u => u.email.canonical = email.canonical)) .invitationInvalid
  let userId ← Tx.nextSerial
  let s ← Tx.snapshot
  Tx.require (!(s.invitationRoleIds id).isEmpty) .invitationInvalid
  Tx.update (·.addUser userId
    ⟨name, email, passwordHash, 1, none, some (localeOr locale), s.invitationRoleIds id⟩)
  pure userId

/-- `CompleteInvitationWithLocale`.

The invitation is found by a first read without a lock.  Whether it may be used is decided on its
row as it is behind the locks of the address, of the roles and of the row. -/
def completeInvitation (selector verifierDigest : Bytes) (passwordHash locale : String) :
    Txn Unit := do
  let s ← Tx.snapshot
  let (id, found) ← Tx.expect (s.invitations.find? fun _ i => i.selector = selector)
    .invitationInvalid
  Tx.acquire (.address found.email.canonical)
  let s ← Tx.snapshot
  lockRoles (s.invitationRoleIds id)
  let (i, checkedAt) ← lockInvitationRow id
  Tx.require (checkedAt < i.expiresAt && i.verifierDigest = verifierDigest) .invitationInvalid
  supersedeMail (mailOfInvitation id) "superseded"
  let userId ← activateAccount id found.name found.email passwordHash locale
  Tx.update (·.deleteInvitation id)
  Tx.update (·.record (.accepted id userId selector verifierDigest))

end BindPlane.Auth
