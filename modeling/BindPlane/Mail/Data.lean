import BindPlane.ReadCommitted.Contract
import BindPlane.ReadCommitted.Table
import BindPlane.Release.Data

/-!
# Mail tasks

The rows of the outbox (`auth_mail_outbox`), the history of their attempts
(`auth_mail_task_attempts`) and the rows of the accounts that a message may depend on.

**Counters.**  A task counts its attempts, and those of its round; the history names an attempt by
its task, its round and its number in the round.  `handed` is no table: it lists the jobs that a
claim has handed out, in the order of their commits.

**Clocks.**  `clock_timestamp()` is a part of the store, so that every statement reads its own.

**Rounds.**  A task is tried a number of times, and when it has died an administrator may have it
tried again; that is a new round, whose attempts are counted from the beginning.  So an attempt has
three numbers, and a row of the history that has all three of them can be written once only.

**Source.**  What is modelled here is in `internal/auth/application/mail_tasks.go` and
`internal/auth/application/ports.go`.
-/

namespace BindPlane.Mail

open ReadCommitted

abbrev Bytes := List UInt8

/-! ## Rows -/

inductive MailKind
  | passwordReset | passwordChanged | userInvitation | emailChangeCode | emailChanged | testEmail
  deriving DecidableEq, Repr

/-- A row of `auth_mail_outbox`, without its key. -/
structure MailTask where
  kind : MailKind
  userId : Option ℕ
  invitationId : Option ℕ
  resetSelector : Option Bytes
  recipientEmail : Option String
  recipientName : Option String
  emailChangeRequestId : Option ℕ
  emailChangeSelector : Option Bytes
  locale : String
  systemName : String
  materialCiphertext : Option Bytes
  attemptCount : ℕ
  roundNumber : ℕ
  roundAttemptCount : ℕ
  availableAt : Instant
  leaseToken : Option String
  leaseExpiresAt : Option Instant
  sentAt : Option Instant
  canceledAt : Option Instant
  deadAt : Option Instant
  finishedAt : Option Instant
  lastErrorCode : Option String
  createdAt : Instant
  expiresAt : Instant
  deriving DecidableEq, Repr

inductive Outcome
  | sent | failed
  deriving DecidableEq, Repr

/-- The unique key of the history. -/
structure AttemptKey where
  taskId : ℕ
  roundNumber : ℕ
  attemptNumber : ℕ
  deriving DecidableEq, Repr

/-- A row of `auth_mail_task_attempts`. -/
structure Attempt where
  key : AttemptKey
  outcome : Outcome
  errorCode : Option String
  occurredAt : Instant
  deriving DecidableEq, Repr

/-- A name and an address: of a row of `auth_users`. -/
structure Person where
  name : String
  email : String
  deriving DecidableEq, Repr

/-- A row of `auth_user_invitations`. -/
structure Invitation where
  person : Person
  verifierDigest : Bytes
  expiresAt : Instant
  deriving DecidableEq, Repr

/-- A row of `auth_password_resets`, or of `auth_email_change_requests`. -/
structure Credential where
  selector : Bytes
  verifierDigest : Bytes
  expiresAt : Instant
  deriving DecidableEq, Repr

/-- The rows that a message without its own material depends on; the resets are by their users. -/
structure Authority where
  users : Table Person
  invitations : Table Invitation
  resets : Table Credential
  emailChanges : Table Credential

/-- What a claim returns. -/
structure MailJob where
  id : ℕ
  kind : MailKind
  userId : Option ℕ
  invitationId : Option ℕ
  emailChangeRequestId : Option ℕ
  name : String
  email : String
  systemName : String
  locale : String
  encryptedMaterial : Bytes
  resetSelector : Bytes
  emailChangeSelector : Bytes
  verifierDigest : Bytes
  invitationSelector : Bytes
  invitationVerifierDigest : Bytes
  attempts : ℕ
  round : ℕ
  roundAttempts : ℕ
  leaseToken : String
  createdAt : Instant
  expiresAt : Instant
  deriving DecidableEq, Repr

/-- The attempt that a job is about. -/
def MailJob.key (job : MailJob) : AttemptKey := ⟨job.id, job.round, job.roundAttempts⟩

/-- The store. -/
structure Db where
  clock : Instant
  tasks : Table MailTask
  attempts : List Attempt
  authority : Authority
  handed : List MailJob

namespace Db

def empty : Db where
  clock := 0
  tasks := ∅
  attempts := []
  authority := ⟨∅, ∅, ∅, ∅⟩
  handed := []

end Db

/-! ## Transactions -/

/-- The locks: rows, and entries of the unique index of the history. -/
inductive Key
  | task (id : ℕ)
  | attempt (key : AttemptKey)
  | reset (userId : ℕ)
  | emailChange (id : ℕ)
  deriving DecidableEq, Repr

inductive Failure
  /-- `ErrMailTaskNotFound`. -/
  | notFound
  /-- `ErrMailTaskSending`. -/
  | sending
  /-- `ErrMailTaskNotRetryable`. -/
  | notRetryable
  /-- A statement fails. -/
  | database
  deriving DecidableEq, Repr

/-- Transactions on the outbox. -/
abbrev Txn := Tx Db Key Failure

/-! ## Conditions on rows -/

namespace MailTask

/-- `sent_at IS NULL AND canceled_at IS NULL AND dead_at IS NULL`. -/
def open? (t : MailTask) : Bool := t.sentAt.isNone && t.canceledAt.isNone && t.deadAt.isNone

/-- `lease_expires_at IS NULL OR lease_expires_at <= clock_timestamp()`. -/
def unleased (t : MailTask) (now : Instant) : Bool := t.leaseExpiresAt.all (· ≤ now)

/-- `COALESCE(octet_length(material_ciphertext), 0) > 0`. -/
def hasMaterial (t : MailTask) : Bool := t.materialCiphertext.any fun m => 0 < m.length

/-- The row of `auth_password_resets` that a task joins. -/
def reset (t : MailTask) (a : Authority) : Option Credential :=
  (t.userId.bind a.resets.get?).filter fun r => t.resetSelector = some r.selector

/-- The row of `auth_email_change_requests` that a task joins. -/
def emailChange (t : MailTask) (a : Authority) : Option Credential :=
  (t.emailChangeRequestId.bind a.emailChanges.get?).filter fun e =>
    t.emailChangeSelector = some e.selector

def invitation (t : MailTask) (a : Authority) : Option Invitation :=
  t.invitationId.bind a.invitations.get?

/-- What a message without its own material needs. -/
def authorised (t : MailTask) (a : Authority) (now : Instant) : Bool :=
  match t.kind with
  | .passwordChanged | .emailChanged => true
  | .passwordReset => (t.reset a).any (now < ·.expiresAt)
  | .userInvitation => (t.invitation a).any (now < ·.expiresAt)
  | .emailChangeCode => (t.emailChange a).any (now < ·.expiresAt)
  | .testEmail => false

/-- The condition of `ClaimMail`. -/
def claimable (t : MailTask) (a : Authority) (now : Instant) : Bool :=
  t.open? && t.availableAt ≤ now && t.unleased now && (t.hasMaterial || now < t.expiresAt) &&
    (t.hasMaterial || t.authorised a now)

/-- `lease_token IS NULL OR lease_expires_at <= clock_timestamp()`. -/
def unheld (t : MailTask) (now : Instant) : Bool :=
  t.leaseToken.isNone || t.leaseExpiresAt.any (· ≤ now)

/-- A reset whose row is gone or has expired. -/
def superseded (t : MailTask) (a : Authority) (now : Instant) : Bool :=
  t.kind = .passwordReset && !t.hasMaterial && !((t.reset a).any (now < ·.expiresAt))

/-- The condition of the second statement of `SweepMail`. -/
def sweptExpired (t : MailTask) (now : Instant) : Bool :=
  t.open? && t.unheld now && !t.hasMaterial && t.expiresAt ≤ now

/-- The condition of its third statement. -/
def sweptSuperseded (t : MailTask) (a : Authority) (now : Instant) : Bool :=
  t.superseded a now && t.open? && t.unheld now

/-- `canceled_at = clock_timestamp(), …, last_error_code = $1`. -/
def cancel (now : Instant) (code : String) (t : MailTask) : MailTask :=
  { t with
    canceledAt := some now
    finishedAt := some now
    leaseToken := none
    leaseExpiresAt := none
    lastErrorCode := some code }

end MailTask

end BindPlane.Mail
