import BindPlane.Auth.Recovery

/-!
# The change of an address

`RequestEmailChange`, `ResendEmailChange` and `CompleteEmailChange`.  A user has one request at
most; it holds the digest of the code that was sent last, and counts down the attempts.

**Guessing.**  The code is six digits, and everything that makes it safe is in the row: the number
of attempts that are left, the time before which no other code is sent, and the expiry.  A wrong
code is a commit, so that the attempt is counted even though the user is told that it has failed.

**Source.**  What is modelled here is in `internal/auth/adapter/postgres/personal_settings.go` and
`internal/auth/application/personal_settings.go`.
-/

namespace BindPlane.Auth

open ReadCommitted
open Mail (Bytes MailKind MailTask)

namespace Db

/-- `INSERT INTO auth_email_change_requests`. -/
def addEmailChange (d : Db) (id : ℕ) (r : EmailChangeRequest) : Db :=
  { d with emailChanges := d.emailChanges.insert id r }

/-- `UPDATE auth_email_change_requests SET … WHERE id = $1`. -/
def modifyEmailChange (d : Db) (id : ℕ) (f : EmailChangeRequest → EmailChangeRequest) : Db :=
  { d with emailChanges := d.emailChanges.modify id f }

/-- `DELETE FROM auth_email_change_requests WHERE id IN …`. -/
def deleteEmailChanges (d : Db) (ids : List ℕ) : Db :=
  { d with emailChanges := d.emailChanges.deleteWhere fun id _ => ids.contains id }

/-- An account other than `userId`, or an invitation, has the address. -/
def occupied (d : Db) (canonical : String) (userId : ℕ) : Bool :=
  (d.users.any fun id u => u.email.canonical = canonical && id ≠ userId) ||
    d.invitations.any fun _ i => i.email.canonical = canonical

end Db

/-- Sixty seconds. -/
def resendInterval : ℕ := 60 * 1000000

/-- `EmailChangeValidity`, where the lifetime is not positive. -/
def codeTTL (ttl : ℕ) : ℕ := if ttl = 0 then 10 * 60 * 1000000 else ttl

/-- The attempts of one code. -/
def emailChangeAttempts : ℕ := 5

/-- The tasks of a user that carry a code. -/
def codeMailOf (userId : ℕ) (t : MailTask) : Bool :=
  t.userId = some userId && t.kind = .emailChangeCode

/-- The material of a code. -/
def codeMaterial (user : User) (r : EmailChangeRequest) (createdAt : Instant)
    (locale systemName : String) : MailTaskMaterial where
  kind := .emailChangeCode
  name := user.name.value
  email := r.newEmail.display
  locale := localeOr locale
  systemName := systemName
  createdAt := createdAt
  expiresAt := r.expiresAt
  resetSelector := []
  emailSelector := r.selector
  verifierDigest := r.verifierDigest

/-- The mail of a code. -/
def queueCode (box : Sealer) (nonce : Bytes) (userId requestId : ℕ) (user : User)
    (r : EmailChangeRequest) (createdAt : Instant) (locale : String) : Txn Unit :=
  queueMail box nonce (.ofEmailChange userId requestId) (codeMaterial user r createdAt locale)

/-- The row of the last request, which must not be younger than a minute. -/
def lockPreviousRequest (userId : ℕ) : Txn (Option (ℕ × EmailChangeRequest)) := do
  let previous ← Tx.findForUpdate Db.emailChanges .emailChange fun _ _ r => r.userId = userId
  match previous with
  | none => pure none
  | some (id, r) => do
      let s ← Tx.snapshot
      Tx.require (r.resendAfter ≤ s.clock) .emailChangeResendTooSoon
      pure (some (id, r))

/-- The new row, in the place of the previous one. -/
def newRequest (userId : ℕ) (oldEmail newEmail : Email) (selector verifierDigest : Bytes)
    (ttl : ℕ) (previous : Option (ℕ × EmailChangeRequest)) (now : Instant) :
    EmailChangeRequest where
  userId := userId
  oldEmail := oldEmail
  newEmail := newEmail
  selector := selector
  verifierDigest := verifierDigest
  expiresAt := now + codeTTL ttl
  resendAfter := now + resendInterval
  attemptsRemaining := emailChangeAttempts
  revision := (previous.map fun p => p.2.revision).getD 0 + 1
  createdAt := (previous.map fun p => p.2.createdAt).getD now

/-- The event of a code. -/
def EmailChangeRequest.issued (r : EmailChangeRequest) (id : ℕ) (now : Instant) : Event :=
  .codeIssued id r.userId r.oldEmail r.newEmail r.selector r.verifierDigest now r.expiresAt

/-- `INSERT INTO auth_email_change_requests`. -/
def insertRequest (userId : ℕ) (oldEmail newEmail : Email) (selector verifierDigest : Bytes)
    (ttl : ℕ) (previous : Option (ℕ × EmailChangeRequest)) : Txn (ℕ × EmailChangeRequest) := do
  Tx.acquire (.emailChangeOf userId)
  Tx.acquire (.emailChangeSelector selector)
  let s ← Tx.snapshot
  Tx.require (!(s.emailChanges.any fun _ x => x.userId = userId || x.selector = selector)) .database
  let r := newRequest userId oldEmail newEmail selector verifierDigest ttl previous s.clock
  let id ← Tx.nextSerial
  Tx.update fun d => (d.addEmailChange id r).record (r.issued id s.clock)
  pure (id, r)

/-- `RequestEmailChange`.

A request replaces the one before it: its row is deleted, and the mail with its code is superseded.
-/
def requestEmailChange (box : Sealer) (nonce : Bytes) (userId : ℕ) (newEmail : Email)
    (selector verifierDigest : Bytes) (ttl : ℕ) (locale : String) :
    Txn (ℕ × EmailChangeRequest) := do
  Tx.acquire (.address newEmail.canonical)
  let user ← Tx.selectForUpdate Db.users .user .accountNotFound userId
  Tx.require user.enabled .accountDisabled
  Tx.require (user.email.canonical ≠ newEmail.canonical) .sameEmail
  let s ← Tx.snapshot
  Tx.require (!s.occupied newEmail.canonical userId) .emailAlreadyRegistered
  let previous ← lockPreviousRequest userId
  supersedeMail (codeMailOf userId) "superseded"
  -- `DELETE … WHERE user_id = $1`: the row that is locked
  Tx.update (·.deleteEmailChanges (previous.map Prod.fst).toList)
  let (id, r) ← insertRequest userId user.email newEmail selector verifierDigest ttl previous
  let s ← Tx.snapshot
  queueCode box nonce userId id user r (if previous.isSome then s.clock else r.createdAt) locale
  pure (id, r)

/-! ## ResendEmailChange -/

/-- The columns of a new code. -/
def EmailChangeRequest.reissue (selector verifierDigest : Bytes) (now : Instant) (ttl : ℕ)
    (r : EmailChangeRequest) : EmailChangeRequest :=
  { r with
    selector := selector
    verifierDigest := verifierDigest
    expiresAt := now + codeTTL ttl
    resendAfter := now + resendInterval
    attemptsRemaining := emailChangeAttempts
    revision := r.revision + 1 }

/-- `ResendEmailChange`. -/
def resendEmailChange (box : Sealer) (nonce : Bytes) (userId : ℕ)
    (selector verifierDigest : Bytes) (ttl : ℕ) (locale : String) :
    Txn (ℕ × EmailChangeRequest) := do
  let user ← Tx.selectForUpdate Db.users .user .accountNotFound userId
  Tx.require user.enabled .accountDisabled
  let found ← Tx.findForUpdate Db.emailChanges .emailChange fun _ _ r => r.userId = userId
  let (id, r) ← Tx.expect found .emailChangeNotFound
  let s ← Tx.snapshot
  Tx.require (s.clock < r.expiresAt) .emailChangeExpired
  Tx.require (0 < r.attemptsRemaining) .emailChangeAttemptsExceeded
  Tx.require (r.resendAfter ≤ s.clock) .emailChangeResendTooSoon
  supersedeMail (codeMailOf userId) "superseded"
  Tx.acquire (.emailChangeSelector selector)
  let s ← Tx.snapshot
  Tx.require (!(s.emailChanges.any fun i x => i ≠ id && x.selector = selector)) .database
  let r' := r.reissue selector verifierDigest s.clock ttl
  Tx.update fun d => (d.modifyEmailChange id fun _ => r').record (r'.issued id s.clock)
  let s ← Tx.snapshot
  queueCode box nonce userId id user r' s.clock locale
  pure (id, r')

/-! ## CompleteEmailChange -/

/-- What `CompleteEmailChange` answers behind a commit. -/
inductive CodeAnswer
  | changed (changedAt : Instant)
  /-- `ErrInvalidEmailChangeCode`. -/
  | wrong
  /-- `ErrEmailChangeAttemptsExceeded`. -/
  | exceeded
  deriving DecidableEq

/-- The columns of a new address. -/
def User.setEmail (email : Email) (u : User) : User :=
  { u with email := email, authVersion := u.authVersion + 1 }

/-- One attempt less. -/
def EmailChangeRequest.fail (r : EmailChangeRequest) : EmailChangeRequest :=
  { r with attemptsRemaining := r.attemptsRemaining - 1 }

/-- The tasks of a request. -/
def mailOfRequest (requestId : ℕ) (t : MailTask) : Bool := t.emailChangeRequestId = some requestId

/-- The part of `CompleteEmailChange` behind a wrong code, which is committed. -/
def countWrongCode (requestId userId : ℕ) (r : EmailChangeRequest) : Txn CodeAnswer := do
  Tx.update (·.modifyEmailChange requestId EmailChangeRequest.fail)
  Tx.update (·.record (.wrongCode requestId userId))
  if r.attemptsRemaining ≤ 1 then do
    supersedeMail (mailOfRequest requestId) "invalid_email_change"
    pure .exceeded
  else pure .wrong

/-- The part of `CompleteEmailChange` behind the right code.

Whoever has the old mails can do nothing with them from here on: the codes and the reset of the
account are taken away in the transaction that changes its address. -/
def applyEmailChange (box : Sealer) (nonce : Bytes) (userId requestId : ℕ) (user : User)
    (r : EmailChangeRequest) (locale : String) (notificationTTL : ℕ) : Txn CodeAnswer := do
  Tx.require (user.email.display = r.oldEmail.display) .invalidEmailChange
  let s ← Tx.snapshot
  Tx.require (!s.occupied r.newEmail.canonical userId) .emailAlreadyRegistered
  supersedeMail (mailOfRequest requestId) "superseded"
  supersedeMail (resetMailOf userId) "superseded"
  Tx.acquire (.userEmail r.newEmail.canonical)
  let s ← Tx.snapshot
  Tx.require (!(s.users.any fun id u => id ≠ userId && u.email.canonical = r.newEmail.canonical))
    .database
  let _ ← Tx.expect ((s.users.get? userId).filter (·.authVersion < maxVersion)) .database
  Tx.update (·.modifyUser userId (User.setEmail r.newEmail))
  Tx.update (·.deleteEmailChanges [requestId])
  deleteReset userId
  queueMail box nonce (.ofUser userId) (noticeMaterial .emailChanged user.name.value
    r.oldEmail.display (localeOr locale) s.clock (s.clock + noticeTTL notificationTTL))
  Tx.update (·.record (.emailChanged requestId userId r.verifierDigest))
  pure (.changed s.clock)

/-- `CompleteEmailChange`.

A wrong code is not an error of the transaction: the attempt that it costs must be committed. -/
def completeEmailChange (box : Sealer) (nonce : Bytes) (userId requestId : ℕ)
    (presentedDigest : Bytes) (locale : String) (notificationTTL : ℕ) : Txn CodeAnswer := do
  let s ← Tx.snapshot
  -- the destination alone, before any lock
  let target ← Tx.expect ((s.emailChanges.get? requestId).filter (·.userId = userId))
    .invalidEmailChange
  Tx.acquire (.address target.newEmail.canonical)
  let user ← Tx.selectForUpdate Db.users .user .accountNotFound userId
  Tx.require user.enabled .accountDisabled
  let found ← Tx.findForUpdate Db.emailChanges .emailChange fun _ id r =>
    id = requestId && r.userId = userId
  let (_, r) ← Tx.expect found .invalidEmailChange
  let s ← Tx.snapshot
  Tx.require (s.clock < r.expiresAt) .emailChangeExpired
  Tx.require (0 < r.attemptsRemaining) .emailChangeAttemptsExceeded
  if r.verifierDigest = presentedDigest then
    applyEmailChange box nonce userId requestId user r locale notificationTTL
  else countWrongCode requestId userId r

end BindPlane.Auth
