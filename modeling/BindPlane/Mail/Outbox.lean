import BindPlane.Mail.Data

/-!
# The outbox

`ClaimMail`, the acknowledgements, `RecordMailAttempt`, `SweepMail` and `RetryMailTask`, and the
system of any number of them on one store.

A dispatcher may stop anywhere: a transaction may abort at every statement, and a job that was
handed out may be acknowledged never, or late.  A result is recorded only of a job that was handed
out (`MailDispatcher.recordMailAttempt`), however long ago.

**Two programs.**  A dispatcher claims a task and sends its mail, and the result is recorded in two
transactions: the acknowledgement, which updates the task under its lease, and the row of the
history.  The second may come after the lease has been lost, and even after another dispatcher has
claimed the task again.

**Source.**  What is modelled here is in `internal/auth/adapter/postgres/mail_tasks.go`,
`internal/auth/adapter/postgres/outbox.go` and `internal/auth/application/mail_tasks.go`.
-/

namespace BindPlane.Mail

open ReadCommitted

/-! ## Statements -/

/-- The codes that `CHECK` allows. -/
def errorCodes : List String :=
  ["temporary", "permanent", "expired", "superseded", "invalid_reset", "invalid_invitation",
    "invalid_email_change", "dependency"]

/-- The constraints of the history. -/
def Attempt.allowed (a : Attempt) : Bool :=
  0 < a.key.roundNumber && 0 < a.key.attemptNumber && a.errorCode.all (· ∈ errorCodes) &&
    (a.outcome = .failed || a.errorCode.isNone)

namespace Db

/-- There is an attempt under a key. -/
def recorded (d : Db) (k : AttemptKey) : Bool := d.attempts.any fun a => a.key = k

/-- `INSERT … ON CONFLICT (task_id, round_number, attempt_number) DO NOTHING`. -/
def addAttempt (d : Db) (a : Attempt) : Db :=
  if d.recorded a.key then d else { d with attempts := d.attempts ++ [a] }

/-- `INSERT … ON CONFLICT (task_id, round_number, attempt_number) DO UPDATE`. -/
def upsertAttempt (d : Db) (a : Attempt) : Db :=
  if d.recorded a.key then
    { d with attempts := d.attempts.map fun b => if b.key = a.key then a else b }
  else { d with attempts := d.attempts ++ [a] }

/-- `UPDATE auth_mail_outbox SET … WHERE id = $1`. -/
def modifyTask (d : Db) (id : ℕ) (f : MailTask → MailTask) : Db :=
  { d with tasks := d.tasks.modify id f }

/-- `UPDATE auth_mail_outbox SET canceled_at = …, last_error_code = $1 WHERE id IN …`. -/
def cancelTasks (d : Db) (ids : List ℕ) (now : Instant) (code : String) : Db :=
  { d with tasks := d.tasks.updateWhere (fun id _ => ids.contains id) (MailTask.cancel now code) }

/-- A claim returns. -/
def hand (d : Db) (job : MailJob) : Db := { d with handed := d.handed ++ [job] }

/-- `COALESCE(MAX(attempt_number), 0)`, of a round. -/
def lastRecorded (d : Db) (id round : ℕ) : ℕ :=
  (d.attempts.filter fun a => a.key.taskId = id && a.key.roundNumber = round).foldr
    (fun a n => max a.key.attemptNumber n) 0

/-- `DELETE FROM auth_password_resets`. -/
def deleteResets (d : Db) (ids : List ℕ) : Db :=
  { d with authority.resets := d.authority.resets.deleteWhere fun id _ => ids.contains id }

/-- `DELETE FROM auth_email_change_requests`. -/
def deleteEmailChanges (d : Db) (ids : List ℕ) : Db :=
  { d with
    authority.emailChanges := d.authority.emailChanges.deleteWhere fun id _ => ids.contains id }

end Db

/-- `FOR UPDATE SKIP LOCKED LIMIT n`: the rows that are free and, where they have changed since the
statement began, still satisfy its condition. -/
def pickRows {ρ : Type} [DecidableEq ρ] (key : ℕ → Key) (table : Db → Table ρ)
    (p : ρ → Instant → Bool) : List (ℕ × ρ) → ℕ → Txn (List (ℕ × ρ))
  | _, 0 => pure []
  | [], _ => pure []
  | (id, r) :: rest, n + 1 => do
      let got ← Tx.tryAcquire (key id)
      let latest ← Tx.snapshot
      match ((table latest).get? id).filter fun u => got && (u = r || p u latest.clock) with
      | some u => do
          let more ← pickRows key table p rest n
          pure ((id, u) :: more)
      | none => pickRows key table p rest (n + 1)

/-- `INSERT … ON CONFLICT … DO NOTHING` of failed attempts, each with its code. -/
def insertAttempts : List (AttemptKey × String) → Txn Unit
  | [] => pure ()
  | (k, code) :: rest => do
      Tx.acquire (.attempt k)
      let s ← Tx.snapshot
      Tx.require (s.tasks.get? k.taskId).isSome .database
      Tx.update (·.addAttempt ⟨k, .failed, some code, s.clock⟩)
      insertAttempts rest

/-- `upsertMailAttemptTx`. -/
def upsertMailAttempt (k : AttemptKey) (outcome : Outcome) (errorCode : String) : Txn Unit := do
  Tx.acquire (.attempt k)
  let s ← Tx.snapshot
  let a : Attempt := ⟨k, outcome, if errorCode = "" then none else some errorCode, s.clock⟩
  Tx.require ((s.tasks.get? k.taskId).isSome && a.allowed) .database
  Tx.update (·.upsertAttempt a)

/-! ## ClaimMail -/

/-- `ORDER BY o.created_at, o.id`. -/
def earlier (a b : ℕ × MailTask) : Prop :=
  a.2.createdAt < b.2.createdAt ∨ a.2.createdAt = b.2.createdAt ∧ a.1 ≤ b.1

instance : DecidableRel earlier := fun _ _ => inferInstanceAs (Decidable (_ ∨ _ ∧ _))

/-- The tasks that `ClaimMail` finds. -/
def Db.claimables (d : Db) : List (ℕ × MailTask) :=
  (d.tasks.rows.filter fun r => r.2.claimable d.authority d.clock).insertionSort earlier

namespace MailTask

/-- The job of the next attempt. -/
def job (t : MailTask) (id : ℕ) (a : Authority) (leaseToken : String) : MailJob :=
  let user := t.userId.bind a.users.get?
  let invitation := t.invitation a
  let bare {α : Type} (x : Option α) : Option α := if t.materialCiphertext.isNone then x else none
  let selector := (bare t.resetSelector).getD []
  let digest := (bare <| ((t.reset a).map (·.verifierDigest)).or <|
    ((t.emailChange a).map (·.verifierDigest)).or (invitation.map (·.verifierDigest))).getD []
  let material := t.materialCiphertext.getD []
  { id := id
    kind := t.kind
    userId := t.userId
    invitationId := t.invitationId
    emailChangeRequestId := t.emailChangeRequestId
    name := (t.recipientName.or <| (user.map (·.name)).or (invitation.map (·.person.name))).getD ""
    email := (t.recipientEmail.or <|
      (user.map (·.email)).or (invitation.map (·.person.email))).getD ""
    systemName := t.systemName
    locale := t.locale
    encryptedMaterial := material
    resetSelector := if material = [] ∧ t.kind ≠ .emailChangeCode then selector else []
    emailChangeSelector :=
      if material = [] ∧ t.kind = .emailChangeCode then (bare t.emailChangeSelector).getD [] else []
    verifierDigest := if material = [] then digest else []
    invitationSelector := if material = [] then selector else []
    invitationVerifierDigest := if material = [] then digest else []
    attempts := t.attemptCount + 1
    round := t.roundNumber
    roundAttempts := t.roundAttemptCount + 1
    leaseToken := leaseToken
    createdAt := t.createdAt
    expiresAt := t.expiresAt }

/-- The columns that `ClaimMail` sets. -/
def claimed (leaseToken : String) (leaseEnd : Instant) (t : MailTask) : MailTask :=
  { t with
    leaseToken := some leaseToken
    leaseExpiresAt := some leaseEnd
    attemptCount := t.attemptCount + 1
    roundAttemptCount := t.roundAttemptCount + 1 }

/-- `CHECK (attempt_count BETWEEN 0 AND 1000000)`, and of the round. -/
def countable (t : MailTask) : Bool := t.attemptCount < 1000000 && t.roundAttemptCount < 1000000

end MailTask

/-- The attempts of a round that a claim closes. -/
def missing (id round recorded previous : ℕ) : List (AttemptKey × String) :=
  (List.range' (recorded + 1) (previous - recorded)).map fun n => (⟨id, round, n⟩, "dependency")

/-- The part of `ClaimMail` that closes the last attempt of the round. -/
def closeAttempts (id round previous : ℕ) : Txn Unit :=
  if 0 < previous then do
    let s ← Tx.snapshot
    if s.lastRecorded id round < previous then
      insertAttempts (missing id round (s.lastRecorded id round) previous)
    else pure ()
  else pure ()

/-- `ClaimMail`. -/
def claimMail (leaseToken : String) (leaseDuration : ℕ) : Txn (Option MailJob) := do
  let start ← Tx.snapshot
  let picked ← pickRows .task Db.tasks (fun t now => t.claimable start.authority now)
    start.claimables 1
  match picked with
  | [] => pure none
  | (id, t) :: _ => do
      closeAttempts id t.roundNumber t.roundAttemptCount
      let s ← Tx.snapshot
      Tx.require t.countable .database
      Tx.update (·.modifyTask id (MailTask.claimed leaseToken (s.clock + leaseDuration)))
      Tx.update (·.hand (t.job id start.authority leaseToken))
      pure (some (t.job id start.authority leaseToken))

/-! ## Acknowledgements -/

namespace MailTask

/-- `lease_token = $2 AND sent_at IS NULL AND canceled_at IS NULL AND dead_at IS NULL`. -/
def heldBy (t : MailTask) (leaseToken : String) : Bool :=
  t.leaseToken = some leaseToken && t.open?

/-- The columns that `MarkMailSent` sets. -/
def markSent (now : Instant) (t : MailTask) : MailTask :=
  { t with
    leaseToken := none
    leaseExpiresAt := none
    sentAt := some now
    finishedAt := some now
    lastErrorCode := none }

/-- The columns that `DeadLetterMail` sets. -/
def deadLetter (code : String) (now : Instant) (t : MailTask) : MailTask :=
  { t with
    leaseToken := none
    leaseExpiresAt := none
    deadAt := some now
    finishedAt := some now
    lastErrorCode := some code }

/-- The columns that `RetryMail` sets. -/
def retry (delay : ℕ) (code : String) (now : Instant) (t : MailTask) : MailTask :=
  { t with
    availableAt := now + delay
    leaseToken := none
    leaseExpiresAt := none
    lastErrorCode := some code }

end MailTask

/-- An `UPDATE` of the row that a lease holds, and the result of its attempt: whether the lease
still held it.  The row that is written has to pass the `CHECK` of `last_error_code`, where the
empty code is no code. -/
def acknowledge (id : ℕ) (leaseToken : String) (set : Instant → MailTask → MailTask)
    (outcome : Outcome) (errorCode : String) : Txn Bool := do
  let s ← Tx.snapshot
  if (s.tasks.get? id).any (·.heldBy leaseToken) then do
    let got ← Tx.acquireIf (.task id) fun d => (d.tasks.get? id).any (·.heldBy leaseToken)
    if got then do
      let latest ← Tx.snapshot
      let t ← Tx.expect (latest.tasks.get? id) .database
      Tx.require ((set latest.clock t).lastErrorCode.all (· ∈ errorCodes)) .database
      Tx.update (·.modifyTask id (set latest.clock))
      upsertMailAttempt ⟨id, t.roundNumber, t.roundAttemptCount⟩ outcome errorCode
      pure true
    else pure false
  else pure false

/-- `MarkMailSent`. -/
def markMailSent (id : ℕ) (leaseToken : String) : Txn Bool :=
  acknowledge id leaseToken MailTask.markSent .sent ""

/-- `RetryMail`. -/
def retryMail (id : ℕ) (leaseToken : String) (delay : ℕ) (errorCode : String) : Txn Bool :=
  acknowledge id leaseToken (MailTask.retry delay errorCode) .failed errorCode

/-- `DeadLetterMail`. -/
def deadLetterMail (id : ℕ) (leaseToken errorCode : String) : Txn Bool :=
  acknowledge id leaseToken (MailTask.deadLetter errorCode) .failed errorCode

/-- `DiscardMail`. -/
def discardMail (id : ℕ) (leaseToken errorCode : String) : Txn Bool :=
  acknowledge id leaseToken (fun now => MailTask.cancel now errorCode) .failed errorCode

/-- `RecordMailAttempt`, of a job that was handed out. -/
def recordMailAttempt (job : MailJob) (outcome : Outcome) (errorCode : String) : Txn Unit := do
  let s ← Tx.snapshot
  Tx.require (s.handed.contains job) .database
  upsertMailAttempt job.key outcome errorCode

/-! ## SweepMail -/

/-- `outboxMaintenanceBatchSize`. -/
def batchSize : ℕ := 100

/-- The code of an attempt that the sweep closes. -/
def MailTask.sweepCode (t : MailTask) (a : Authority) (now : Instant) : String :=
  if !t.hasMaterial && t.expiresAt ≤ now then "expired"
  else if t.superseded a now then "superseded"
  else "dependency"

/-- The last attempts that nobody has recorded. -/
def Db.unrecorded (d : Db) : List (AttemptKey × String) :=
  d.tasks.rows.filterMap fun r =>
    let k : AttemptKey := ⟨r.1, r.2.roundNumber, r.2.roundAttemptCount⟩
    if 0 < r.2.roundAttemptCount && r.2.open? && r.2.unheld d.clock && !d.recorded k then
      some (k, r.2.sweepCode d.authority d.clock)
    else none

/-- `ORDER BY o.expires_at, o.id`. -/
def expiresEarlier (a b : ℕ × MailTask) : Prop :=
  a.2.expiresAt < b.2.expiresAt ∨ a.2.expiresAt = b.2.expiresAt ∧ a.1 ≤ b.1

instance : DecidableRel expiresEarlier := fun _ _ => inferInstanceAs (Decidable (_ ∨ _ ∧ _))

/-- `ORDER BY r.expires_at, r.id`. -/
def credentialEarlier (a b : ℕ × Credential) : Prop :=
  a.2.expiresAt < b.2.expiresAt ∨ a.2.expiresAt = b.2.expiresAt ∧ a.1 ≤ b.1

instance : DecidableRel credentialEarlier := fun _ _ => inferInstanceAs (Decidable (_ ∨ _ ∧ _))

/-- The statements that cancel: of expired tasks, and of resets that were superseded. -/
def sweepTasks (p : MailTask → Instant → Bool) (order : ℕ × MailTask → ℕ × MailTask → Prop)
    [DecidableRel order] (code : String) (s : Db) : Txn Unit := do
  let picked ← pickRows .task Db.tasks p
    ((s.tasks.rows.filter fun r => p r.2 s.clock).insertionSort order) batchSize
  let latest ← Tx.snapshot
  Tx.update (·.cancelTasks (picked.map Prod.fst) latest.clock code)

/-- `SweepMail`.

The statements commit together, but each of them reads the tables anew.  The attempts without a
record come first, so that a task is not ended before its last attempt is on record. -/
def sweepMail : Txn Unit := do
  let s ← Tx.snapshot
  insertAttempts s.unrecorded
  let s ← Tx.snapshot
  sweepTasks MailTask.sweptExpired expiresEarlier "expired" s
  let s ← Tx.snapshot
  sweepTasks (fun t now => t.sweptSuperseded s.authority now) earlier "superseded" s
  let s ← Tx.snapshot
  let resets ← pickRows .reset (·.authority.resets) (fun r now => r.expiresAt ≤ now)
    ((s.authority.resets.rows.filter fun r => r.2.expiresAt ≤ s.clock).insertionSort
      credentialEarlier) batchSize
  Tx.update (·.deleteResets (resets.map Prod.fst))
  let s ← Tx.snapshot
  let changes ← pickRows .emailChange (·.authority.emailChanges) (fun r now => r.expiresAt ≤ now)
    ((s.authority.emailChanges.rows.filter fun r => r.2.expiresAt ≤ s.clock).insertionSort
      credentialEarlier) batchSize
  Tx.update (·.deleteEmailChanges (changes.map Prod.fst))

/-! ## RetryMailTask -/

/-- The columns that `RetryMailTask` sets. -/
def MailTask.nextRound (now : Instant) (t : MailTask) : MailTask :=
  { t with
    canceledAt := none
    deadAt := none
    availableAt := now
    leaseToken := none
    leaseExpiresAt := none
    lastErrorCode := none
    finishedAt := none
    roundNumber := t.roundNumber + 1
    roundAttemptCount := 0 }

/-- `RetryMailTask`. -/
def retryMailTask (id : ℕ) : Txn Unit := do
  let before ← Tx.snapshot
  let _ ← Tx.expect (before.tasks.get? id) .notFound
  Tx.acquire (.task id)
  let latest ← Tx.snapshot
  let t ← Tx.expect (latest.tasks.get? id) .notFound
  Tx.require (!(t.leaseExpiresAt.any (latest.clock < ·) && t.open?)) .sending
  Tx.require (t.canceledAt.isSome || t.deadAt.isSome) .notRetryable
  let s ← Tx.snapshot
  Tx.update (·.modifyTask id (MailTask.nextRound s.clock))

/-! ## The system -/

/-- What an `INSERT INTO auth_mail_outbox` supplies. -/
structure MailTaskInput where
  kind : MailKind
  userId : Option ℕ
  invitationId : Option ℕ
  resetSelector : Option Bytes
  recipientEmail : Option String
  recipientName : Option String
  emailChangeRequestId : Option ℕ
  emailChangeSelector : Option Bytes
  locale : String
  systemName : String
  materialCiphertext : Option Bytes
  createdAt : Instant
  expiresAt : Instant

/-- The new row. -/
def MailTaskInput.row (input : MailTaskInput) (now : Instant) : MailTask where
  kind := input.kind
  userId := input.userId
  invitationId := input.invitationId
  resetSelector := input.resetSelector
  recipientEmail := input.recipientEmail
  recipientName := input.recipientName
  emailChangeRequestId := input.emailChangeRequestId
  emailChangeSelector := input.emailChangeSelector
  locale := input.locale
  systemName := input.systemName
  materialCiphertext := input.materialCiphertext
  attemptCount := 0
  roundNumber := 1
  roundAttemptCount := 0
  availableAt := now
  leaseToken := none
  leaseExpiresAt := none
  sentAt := none
  canceledAt := none
  deadAt := none
  finishedAt := none
  lastErrorCode := none
  createdAt := input.createdAt
  expiresAt := input.expiresAt

/-- `INSERT INTO auth_mail_outbox`. -/
def enqueueMailTask (input : MailTaskInput) : Txn Unit := do
  let s ← Tx.snapshot
  let id ← Tx.nextSerial
  Tx.update fun d => { d with tasks := d.tasks.insert id (input.row s.clock) }

/-- Time passes. -/
def elapse (time : ℕ) : Txn Unit := Tx.update fun d => { d with clock := d.clock + time }

/-- Anything happens to the accounts. -/
def changeAuthority (a : Authority) : Txn Unit := Tx.update fun d => { d with authority := a }

/-- A transaction, with what its caller passes. -/
inductive Op
  | elapse (time : ℕ)
  | changeAuthority (a : Authority)
  | enqueueMailTask (input : MailTaskInput)
  | claimMail (leaseToken : String) (leaseDuration : ℕ)
  | markMailSent (id : ℕ) (leaseToken : String)
  | retryMail (id : ℕ) (leaseToken : String) (delay : ℕ) (errorCode : String)
  | deadLetterMail (id : ℕ) (leaseToken errorCode : String)
  | discardMail (id : ℕ) (leaseToken errorCode : String)
  | recordMailAttempt (job : MailJob) (outcome : Outcome) (errorCode : String)
  | sweepMail
  | retryMailTask (id : ℕ)

/-- What comes back. -/
inductive Reply
  | done
  | job (job : Option MailJob)
  | held (b : Bool)
  deriving DecidableEq, Repr

/-- The program of an operation. -/
def body : Op → Unit → Txn Reply
  | .elapse time, _ => (elapse time).bind fun _ => .pure .done
  | .changeAuthority a, _ => (changeAuthority a).bind fun _ => .pure .done
  | .enqueueMailTask input, _ => (enqueueMailTask input).bind fun _ => .pure .done
  | .claimMail token duration, _ => (claimMail token duration).bind fun r => .pure (.job r)
  | .markMailSent id token, _ => (markMailSent id token).bind fun r => .pure (.held r)
  | .retryMail id token delay code, _ => (retryMail id token delay code).bind fun r =>
      .pure (.held r)
  | .deadLetterMail id token code, _ => (deadLetterMail id token code).bind fun r =>
      .pure (.held r)
  | .discardMail id token code, _ => (discardMail id token code).bind fun r => .pure (.held r)
  | .recordMailAttempt job outcome code, _ => (recordMailAttempt job outcome code).bind fun _ =>
      .pure .done
  | .sweepMail, _ => sweepMail.bind fun _ => .pure .done
  | .retryMailTask id, _ => (retryMailTask id).bind fun _ => .pure .done

/-- The state of the outbox: the store and the transactions on it. -/
abbrev Outbox := Sys ℕ Db Key Op Unit Failure Reply

/-- A state that some run leads to from the empty store. -/
def Outbox.Reachable (s : Outbox) : Prop := Sys.Steps body (Sys.init Db.empty 0) s

end BindPlane.Mail
