import BindPlane.Mail.Outbox
import BindPlane.Settings.Data

/-!
# Accounts, roles and authorities

The rows of the auth service: accounts, their sessions, roles, invitations, and the two authorities
a user can ask for, a password reset and an email change.

**Rows.**  The roles of an account (`auth_user_roles`), those of an invitation
(`auth_invitation_roles`) and the permissions of a role (`auth_role_permissions`) are columns of
their owner here: every statement that writes them holds the lock of the owner, or has just
inserted it.  A name and an address are what `NewName` and `NewEmail` have accepted.  A session is
under a number here, and the digest of its token is a column.

**The journal** is no table: it lists what has been committed, in the order of the commits.

**Clocks.**  `clock_timestamp()` is a part of the store, so that every statement reads its own.

**Versions.**  An account has an `authVersion`, which is raised by everything that should end its
sessions.  A session keeps the version for which it was created.  So to end all sessions of an
account is one update of one row, and nobody has to find the sessions.

**Source.**  What is modelled here is in `internal/auth/adapter/postgres/personal_settings.go`,
`internal/auth/adapter/postgres/store.go`, `internal/auth/application/mail_tasks.go`,
`internal/auth/domain/access.go`, `internal/auth/domain/credentials.go` and
`internal/auth/domain/user.go`.
-/

namespace BindPlane.Auth

open ReadCommitted
open Mail (Bytes MailKind MailTask MailTaskInput)
open Settings (trimSpace)

/-! ## Names and addresses -/

/-- A line break, of a text that becomes part of a mail. -/
def breaksLine (s : String) : Bool := s.toList.any fun c => c = '\r' || c = '\n'

/-- What `NewName` returns, as far as its readers depend on it. -/
structure Name where
  value : String
  single : breaksLine value = false
  short : 1 ≤ value.length ∧ value.length ≤ 100
  deriving DecidableEq

/-- `isEmailAtom`. -/
def isEmailAtom (c : Char) : Bool :=
  c.isAlphanum || "!#$%&'*+-/=?^_`\x7b|\x7d~".toList.contains c

/-- A label of the host. -/
def validLabel (label : List Char) : Bool :=
  1 ≤ label.length && label.length ≤ 63 && label.head? ≠ some '-' && label.getLast? ≠ some '-' &&
    label.all fun c => c.isAlphanum || c = '-'

/-- The checks of `NewEmail`, of a text without surrounding space. -/
def validEmail (value : String) : Bool :=
  1 ≤ value.utf8ByteSize && value.utf8ByteSize ≤ 254 && (value.toList.all fun c => c.toNat ≤ 127) &&
    match value.toList.splitOn '@' with
    | [user, host] =>
        1 ≤ user.length && user.length ≤ 64 && 1 ≤ host.length &&
          -- no dot first, last or behind another one
          ((user.splitOn '.').all fun part => !part.isEmpty) &&
          (user.all fun c => c = '.' || isEmailAtom c) && (host.splitOn '.').all validLabel
    | _ => false

/-- What `NewEmail` returns. -/
structure Email where
  display : String
  valid : validEmail display = true
  deriving DecidableEq

/-- The address under which it is found. -/
def Email.canonical (e : Email) : String := e.display.toLower

/-- `NewEmail`. -/
def newEmail (value : String) : Option Email :=
  if h : validEmail (trimSpace value) = true then some ⟨trimSpace value, h⟩ else none

/-! ## Rows -/

/-- A row of `auth_users`. -/
structure User where
  name : Name
  email : Email
  passwordHash : String
  authVersion : ℕ
  disabledAt : Option Instant
  locale : Option String
  roles : List ℕ
  deriving DecidableEq

/-- `disabled_at IS NULL`. -/
def User.enabled (u : User) : Bool := u.disabledAt.isNone

/-- A row of `auth_sessions`. -/
structure Session where
  tokenDigest : Bytes
  userId : ℕ
  authVersion : ℕ
  createdAt : Instant
  lastSeenAt : Instant
  idleExpiresAt : Instant
  absoluteExpiresAt : Instant
  disabledRevoked : Bool
  deriving DecidableEq

/-- A row of `auth_password_resets`; its key is the user. -/
structure PasswordReset where
  selector : Bytes
  verifierDigest : Bytes
  expiresAt : Instant
  createdAt : Instant
  deriving DecidableEq

/-- A row of `auth_email_change_requests`. -/
structure EmailChangeRequest where
  userId : ℕ
  oldEmail : Email
  newEmail : Email
  selector : Bytes
  verifierDigest : Bytes
  expiresAt : Instant
  resendAfter : Instant
  attemptsRemaining : ℕ
  revision : ℕ
  createdAt : Instant
  deriving DecidableEq

/-- A row of `auth_user_invitations`. -/
structure Invitation where
  name : Name
  email : Email
  selector : Bytes
  verifierDigest : Bytes
  locale : String
  expiresAt : Instant
  createdBy : Option ℕ
  revision : ℕ
  createdAt : Instant
  updatedAt : Instant
  roles : List ℕ
  deriving DecidableEq

/-- A row of `auth_roles`. -/
structure Role where
  systemKey : Option String
  name : String
  nameCanonical : String
  description : String
  revision : ℕ
  permissions : List String
  deriving DecidableEq

/-- The row of `auth_system_identity`. -/
structure SystemIdentity where
  systemName : Name
  revision : ℕ
  deriving DecidableEq

/-- What has been committed.

An event is appended in the step in which its transaction commits, and so the journal is the order
of the commits.  It is needed because the rows forget: a reset that has been used is deleted, and so
is one that has expired. -/
inductive Event
  | resetIssued (userId : ℕ) (selector verifierDigest : Bytes) (expiresAt : Instant)
  | passwordReset (userId : ℕ) (selector verifierDigest : Bytes) (passwordHash : String)
  | passwordChanged (userId : ℕ)
  | codeIssued (requestId userId : ℕ) (oldEmail newEmail : Email) (selector verifierDigest : Bytes)
      (issuedAt expiresAt : Instant)
  | wrongCode (requestId userId : ℕ)
  | emailChanged (requestId userId : ℕ) (verifierDigest : Bytes)
  | deactivated (userId : ℕ)
  | reactivated (userId : ℕ)
  | deleted (userId : ℕ)
  | invited (id : ℕ) (name : Name) (email : Email) (roles : List ℕ)
      (selector verifierDigest : Bytes) (expiresAt : Instant)
  | reinvited (id : ℕ) (selector verifierDigest : Bytes) (expiresAt : Instant)
  | revoked (id : ℕ)
  | accepted (id userId : ℕ) (selector verifierDigest : Bytes)
  deriving DecidableEq

/-- The store.

The outbox of the mails is one of the tables: a mail is queued in the transaction that makes it
necessary, so that there is no mail without its cause and no cause without its mail. -/
structure Db where
  clock : Instant
  users : Table User
  sessions : Table Session
  resets : Table PasswordReset
  emailChanges : Table EmailChangeRequest
  invitations : Table Invitation
  roles : Table Role
  identity : Option SystemIdentity
  outbox : Table MailTask
  journal : List Event

/-! ## Transactions -/

/-- The locks: rows, entries of unique indexes, and the advisory lock of an address. -/
inductive Key
  | user (id : ℕ)
  | session (id : ℕ)
  | reset (userId : ℕ)
  | emailChange (id : ℕ)
  | invitation (id : ℕ)
  | role (id : ℕ)
  | identity
  | address (canonical : String)
  | userEmail (canonical : String)
  | sessionDigest (tokenDigest : Bytes)
  | invitationEmail (canonical : String)
  | emailChangeOf (userId : ℕ)
  | resetSelector (selector : Bytes)
  | emailChangeSelector (selector : Bytes)
  | invitationSelector (selector : Bytes)
  | roleName (canonical : String)
  deriving DecidableEq

/-- The errors, under the names of the application. -/
inductive Failure
  | invalidCredentials | accountNotFound | userNotFound | accountDisabled | selfUserOperation
  | staleRevision
  | forbidden | permissionScope | lastSuperAdmin | invalidRoleSet
  | roleNotFound | roleInUse | immutableRole | roleAlreadyExists
  | invalidPasswordResetToken | dependencyUnavailable
  | sameEmail | emailAlreadyRegistered | emailChangeNotFound | emailChangeExpired
  | emailChangeAttemptsExceeded | emailChangeResendTooSoon | invalidEmailChange
  | invitationPending | invitationInvalid | invitationNotFound | invitationRoleForbidden
  | invitationNotManageable
  /-- A statement fails. -/
  | database
  deriving DecidableEq, Repr

/-- Transactions on the store. -/
abbrev Txn := Tx Db Key Failure

/-! ## Mail -/

/-- `MailTaskMaterial`, without the message of a test mail. -/
structure MailTaskMaterial where
  kind : MailKind
  name : String
  email : String
  locale : String
  systemName : String
  createdAt : Instant
  expiresAt : Instant
  resetSelector : Bytes
  emailSelector : Bytes
  verifierDigest : Bytes
  deriving DecidableEq

/-- `sealMailTaskMaterial`: the nonce it draws, and the material. -/
abbrev Sealer := Bytes → MailTaskMaterial → Option Bytes

end BindPlane.Auth
