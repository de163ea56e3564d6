import BindPlane.Auth.Data
import BindPlane.ReadCommitted.Rows

/-!
# Passwords and their recovery

`RequestPasswordReset`, `CompletePasswordReset` and `ChangePassword`, and the statements that the
transactions of the auth service have in common.

**Silence.**  A request for a reset commits and answers in the same way whether or not somebody has
the address.  What differs is only in the tables: a row and a mail, or nothing.

**Source.**  What is modelled here is in `internal/auth/adapter/postgres/mail_tasks.go`,
`internal/auth/adapter/postgres/personal_settings.go`, `internal/auth/adapter/postgres/recovery.go`
and `internal/auth/application/personal_settings.go`.
-/

namespace BindPlane.Auth

open ReadCommitted
open Mail (Bytes MailKind MailTask MailTaskInput)
open Settings (trimSpace)

/-! ## Statements -/

namespace Db

/-- It is committed. -/
def record (d : Db) (e : Event) : Db := { d with journal := d.journal ++ [e] }

/-- `UPDATE auth_users SET … WHERE id = $1`. -/
def modifyUser (d : Db) (id : ℕ) (f : User → User) : Db := { d with users := d.users.modify id f }

/-- `INSERT INTO auth_password_resets … ON CONFLICT (user_id) DO UPDATE`. -/
def putReset (d : Db) (userId : ℕ) (r : PasswordReset) : Db :=
  { d with resets := d.resets.insert userId r }

/-- `DELETE FROM auth_password_resets WHERE user_id IN …`. -/
def deleteResets (d : Db) (userIds : List ℕ) : Db :=
  { d with resets := d.resets.deleteWhere fun id _ => userIds.contains id }

/-- `INSERT INTO auth_mail_outbox`. -/
def addMail (d : Db) (id : ℕ) (t : MailTask) : Db := { d with outbox := d.outbox.insert id t }

/-- `UPDATE auth_mail_outbox SET canceled_at = …, last_error_code = $1`, of the tasks that satisfy a
condition, have not ended and carry no material. -/
def supersede (d : Db) (p : MailTask → Bool) (now : Instant) (code : String) : Db :=
  { d with
    outbox := d.outbox.updateWhere
      (fun _ t => p t && t.open? && t.materialCiphertext.isNone) (MailTask.cancel now code) }

end Db

/-- The column of a password. -/
def User.setPassword (passwordHash : String) (u : User) : User :=
  { u with passwordHash := passwordHash, authVersion := u.authVersion + 1 }

/-- The greatest `bigint`. -/
def maxVersion : ℕ := 9223372036854775807

/-- `UPDATE auth_mail_outbox … WHERE … AND material_ciphertext IS NULL`. -/
def supersedeMail (p : MailTask → Bool) (code : String) : Txn Unit := do
  let s ← Tx.snapshot
  Tx.update (·.supersede p s.clock code)

/-- `DELETE FROM auth_password_resets WHERE user_id = $1`. -/
def deleteReset (userId : ℕ) : Txn Unit := do
  Tx.acquire (.reset userId)
  Tx.update (·.deleteResets [userId])

/-- `DefaultSystemName`. -/
def defaultSystemName : String := "Temvia"

/-- `mailTaskSystemName`. -/
def Db.mailTaskSystemName (d : Db) : String :=
  match d.identity with
  | none => defaultSystemName
  | some i => if trimSpace i.systemName.value = "" then defaultSystemName else i.systemName.value

/-- What a mail is about. -/
inductive MailSubject
  | ofReset (userId : ℕ)
  | ofUser (userId : ℕ)
  | ofInvitation (id : ℕ)
  | ofEmailChange (userId requestId : ℕ)

/-- The new row of `auth_mail_outbox`. -/
def MailTaskMaterial.task (m : MailTaskMaterial) (subject : MailSubject) (ciphertext : Bytes) :
    MailTaskInput where
  kind := m.kind
  userId := match subject with
    | .ofReset userId | .ofUser userId | .ofEmailChange userId _ => some userId
    | .ofInvitation _ => none
  invitationId := match subject with
    | .ofInvitation id => some id
    | _ => none
  resetSelector := match subject with
    | .ofReset _ | .ofInvitation _ => some m.resetSelector
    | _ => none
  recipientEmail := some m.email
  recipientName := some m.name
  emailChangeRequestId := match subject with
    | .ofEmailChange _ id => some id
    | _ => none
  emailChangeSelector := match subject with
    | .ofEmailChange _ _ => some m.emailSelector
    | _ => none
  locale := m.locale
  systemName := m.systemName
  materialCiphertext := if ciphertext = [] then none else some ciphertext
  createdAt := m.createdAt
  expiresAt := m.expiresAt

/-- The end of a transaction that sends a mail: the system name is read, the material sealed and the
task inserted. -/
def queueMail (box : Sealer) (nonce : Bytes) (subject : MailSubject)
    (material : String → MailTaskMaterial) : Txn Unit := do
  let s ← Tx.snapshot
  let ciphertext ← Tx.expect (box nonce (material s.mailTaskSystemName)) .dependencyUnavailable
  let s' ← Tx.snapshot
  let id ← Tx.nextSerial
  Tx.update (·.addMail id (((material s.mailTaskSystemName).task subject ciphertext).row s'.clock))

/-! ## RequestPasswordReset -/

/-- The tasks of a user that carry a reset. -/
def resetMailOf (userId : ℕ) (t : MailTask) : Bool :=
  t.userId = some userId && t.kind = .passwordReset

/-- The material of a reset. -/
def resetMaterial (user : User) (reset : PasswordReset) (selector verifierDigest : Bytes)
    (locale systemName : String) : MailTaskMaterial where
  kind := .passwordReset
  name := user.name.value
  email := user.email.display
  locale := locale
  systemName := systemName
  createdAt := reset.createdAt
  expiresAt := reset.expiresAt
  resetSelector := selector
  emailSelector := []
  verifierDigest := verifierDigest

/-- `INSERT INTO auth_password_resets`, with its mail. -/
def issueReset (box : Sealer) (nonce : Bytes) (userId : ℕ) (selector verifierDigest : Bytes)
    (ttl : ℕ) (locale : String) : Txn Unit := do
  supersedeMail (resetMailOf userId) "superseded"
  Tx.acquire (.reset userId)
  Tx.acquire (.resetSelector selector)
  let s ← Tx.snapshot
  Tx.require (0 < ttl && !(s.resets.any fun id r => id ≠ userId && r.selector = selector)) .database
  Tx.update (·.putReset userId ⟨selector, verifierDigest, s.clock + ttl, s.clock⟩)
  let s ← Tx.snapshot
  let user ← Tx.expect ((s.users.get? userId).filter User.enabled) .database
  let reset ← Tx.expect (s.resets.get? userId) .database
  queueMail box nonce (.ofReset userId) (resetMaterial user reset selector verifierDigest locale)
  Tx.update (·.record (.resetIssued userId selector verifierDigest reset.expiresAt))

/-- `RequestPasswordReset`. -/
def requestPasswordReset (box : Sealer) (nonce : Bytes) (canonical : String)
    (selector verifierDigest : Bytes) (ttl : ℕ) (locale : String) : Txn Unit := do
  let found ← Tx.findForUpdate Db.users .user
    fun _ _ (u : User) => u.email.canonical = canonical && u.enabled
  match found with
  | none => pure ()
  | some (userId, _) => issueReset box nonce userId selector verifierDigest ttl locale

/-! ## CompletePasswordReset -/

/-- The material of a notice. -/
def noticeMaterial (kind : MailKind) (name email locale : String) (createdAt expiresAt : Instant)
    (systemName : String) : MailTaskMaterial where
  kind := kind
  name := name
  email := email
  locale := locale
  systemName := systemName
  createdAt := createdAt
  expiresAt := expiresAt
  resetSelector := []
  emailSelector := []
  verifierDigest := []

/-- The notice of a new password. -/
def notifyPasswordChanged (box : Sealer) (nonce : Bytes) (userId : ℕ) (user : User)
    (changedAt : Instant) (locale : String) (notificationTTL : ℕ) : Txn Unit :=
  queueMail box nonce (.ofUser userId) (noticeMaterial .passwordChanged user.name.value
    user.email.display locale changedAt (changedAt + notificationTTL))

/-- `SELECT … FROM auth_password_resets AS r JOIN auth_users AS u … FOR UPDATE OF r, u`: the reset
and the moment at which its expiry was checked, which is the beginning of the statement unless a row
has changed since. -/
def lockReset (selector : Bytes) : Txn (ℕ × PasswordReset × Instant) := do
  let s ← Tx.snapshot
  let joined := s.resets.find? fun id r =>
    r.selector = selector && (s.users.get? id).any User.enabled
  let (userId, r) ← Tx.expect joined .invalidPasswordResetToken
  Tx.acquire (.reset userId)
  Tx.acquire (.user userId)
  let latest ← Tx.snapshot
  let reset ← Tx.expect ((latest.resets.get? userId).filter (·.selector = selector))
    .invalidPasswordResetToken
  Tx.require ((latest.users.get? userId).any User.enabled) .invalidPasswordResetToken
  let unchanged := decide (reset = r) && decide (latest.users.get? userId = s.users.get? userId)
  pure (userId, reset, if unchanged then s.clock else latest.clock)

/-- The part of `CompletePasswordReset` behind its first statement.

The reset is deleted in the transaction that sets the password, and its row is locked until then, so
a token is used once.  The version goes up with the password, which ends every session. -/
def consumeReset (box : Sealer) (nonce : Bytes) (selector verifierDigest : Bytes)
    (passwordHash locale : String) (notificationTTL : ℕ) : Txn Instant := do
  let (userId, reset, checkedAt) ← lockReset selector
  Tx.require (checkedAt < reset.expiresAt && reset.verifierDigest = verifierDigest)
    .invalidPasswordResetToken
  supersedeMail (resetMailOf userId) "superseded"
  let s ← Tx.snapshot
  let _ ← Tx.expect ((s.users.get? userId).filter (·.authVersion < maxVersion))
    .dependencyUnavailable
  Tx.update (·.modifyUser userId (User.setPassword passwordHash))
  deleteReset userId
  let s' ← Tx.snapshot
  let user ← Tx.expect (s'.users.get? userId) .database
  notifyPasswordChanged box nonce userId user s.clock locale notificationTTL
  Tx.update (·.record (.passwordReset userId selector verifierDigest passwordHash))
  pure s.clock

/-- `CompletePasswordReset`. -/
def completePasswordReset (box : Sealer) (nonce : Bytes) (selector verifierDigest : Bytes)
    (passwordHash locale : String) (notificationTTL : ℕ) : Txn Instant := do
  -- the account is locked before the reset
  let account ← Tx.findForUpdate Db.users .user fun s id (u : User) =>
    (s.resets.find? fun _ r => r.selector = selector).map Prod.fst = some id && u.enabled
  let _ ← Tx.expect account .invalidPasswordResetToken
  consumeReset box nonce selector verifierDigest passwordHash locale notificationTTL

/-! ## ChangePassword -/

/-- A lifetime that is not positive is a day. -/
def noticeTTL (ttl : ℕ) : ℕ := if ttl = 0 then 24 * 60 * 60 * 1000000 else ttl

/-- `Locale.Valid`. -/
def validLocale (locale : String) : Bool := locale = "en" || locale = "zh-CN"

/-- A locale that is not valid is English. -/
def localeOr (locale : String) : String := if validLocale locale then locale else "en"

/-- `ChangePassword`. -/
def changePassword (box : Sealer) (nonce : Bytes) (userId expectedAuthVersion : ℕ)
    (passwordHash locale : String) (notificationTTL : ℕ) : Txn Instant := do
  let account ← Tx.selectForUpdate Db.users .user .accountNotFound userId
  Tx.require account.enabled .accountDisabled
  Tx.require (account.authVersion = expectedAuthVersion) .staleRevision
  supersedeMail (resetMailOf userId) "superseded"
  let s ← Tx.snapshot
  let user ← Tx.expect ((s.users.get? userId).filter (·.authVersion < maxVersion)) .database
  Tx.update (·.modifyUser userId (User.setPassword passwordHash))
  deleteReset userId
  notifyPasswordChanged box nonce userId user s.clock (localeOr locale) (noticeTTL notificationTTL)
  Tx.update (·.record (.passwordChanged userId))
  pure s.clock

end BindPlane.Auth
