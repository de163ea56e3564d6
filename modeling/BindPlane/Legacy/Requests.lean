import BindPlane.Legacy.Data

/-!
# The requests of the legacy API

`prepare_release_endpoint`, `create_release_job` and `retry_release_job`, each a transaction and
what follows it: a new job is enqueued after its commit, by the request that made it, and what
has come of that is written by a second transaction.  A request that finds its job already there,
and not known to be enqueued, enqueues it within the transaction.

An enqueue may deliver the job, once or more often, and it may raise; neither tells of the other.

**Source.**  What is modelled here is in `backend/bind_plane/api/routes/releases.py`.
-/

namespace BindPlane.Legacy

open ReadCommitted Coroutine

/-- `QUEUE_ENQUEUED_MESSAGE`. -/
def queueEnqueuedMessage : String := "Queue enqueue confirmed"

/-- What the commit of a call is about. -/
inductive Reply
  | quiet
  /-- A new job, of a preparation or of a confirmation. -/
  | created (jobId : ℕ)
  | retried (user : User) (originalId : ℕ)
  | marked (jobId : ℕ)
  | claimed (jobId : ℕ)
  | sent (jobId : ℕ)
  | finished (jobId : ℕ)
  deriving DecidableEq, Repr

/-! ## Statements -/

/-- `_get_visible_job(…, for_update=True)`. -/
def getVisibleJob (user : User) (jobId : ℕ) : Txn ReleaseJob := do
  let before ← Tx.snapshot
  let _ ← Tx.expect (before.jobs.get? jobId) (.http 404 "Job not found")
  Tx.acquire (.job jobId)
  let s ← Tx.snapshot
  Tx.expect ((s.jobs.get? jobId).filter (·.visible user)) (.http 404 "Job not found")

/-- `_get_release_for_preparation`. -/
def getReleaseForPreparation (user : User) (preparationJobId : ℕ) :
    Txn (Option (ℕ × ReleaseJob)) := do
  let s ← Tx.snapshot
  pure (s.jobs.find? fun _ job =>
    job.kind = .release && job.preparationJobId = some preparationJobId && job.visible user)

/-- `ORDER BY created_at`. -/
def createdEarlier (a b : ℕ × ReleaseJob) : Prop := a.2.createdAt ≤ b.2.createdAt

instance : DecidableRel createdEarlier := fun _ _ => inferInstanceAs (Decidable (_ ≤ _))

/-- `_get_active_retry`. -/
def getActiveRetry (user : User) (originalId : ℕ) : Txn (Option (ℕ × ReleaseJob)) := do
  let s ← Tx.snapshot
  pure ((s.jobs.rows.filter fun r => r.2.retries originalId && r.2.visible user).insertionSort
    createdEarlier).head?

/-- `_has_enqueue_confirmation`. -/
def Db.hasEnqueueConfirmation (d : Db) (jobId : ℕ) : Bool :=
  d.events.any fun e => e.jobId = jobId && e.message = some queueEnqueuedMessage

/-- The attributes that `_mark_enqueue_failed` assigns. -/
def ReleaseJob.enqueueFailed (now : Instant) (job : ReleaseJob) : ReleaseJob :=
  { job with
    status := .failed
    phase := .finished
    errorMessage := some "Queue enqueue failed"
    finishedAt := some now }

/-- The `UPDATE` of a commit, where anything has changed.  It has to match a row. -/
def flush (jobId : ℕ) (old new : ReleaseJob) : Txn Unit :=
  if new = old then pure ()
  else do
    Tx.acquire (.job jobId)
    let s ← Tx.snapshot
    Tx.require (s.jobs.get? jobId).isSome .database
    Tx.update (·.flushJob jobId old new)

/-- `_mark_enqueue_failed`. -/
def markEnqueueFailed (jobId : ℕ) (job : ReleaseJob) : Txn Unit := do
  let s ← Tx.snapshot
  flush jobId job (job.enqueueFailed s.clock)
  Tx.update (·.addEvent ⟨jobId, .finished, .failed, some "Queue enqueue failed"⟩)

/-- The event of `_enqueue_or_mark_failed`. -/
def confirmEnqueue (jobId : ℕ) (job : ReleaseJob) : Txn Unit :=
  Tx.update (·.addEvent ⟨jobId, job.phase, job.status, some queueEnqueuedMessage⟩)

/-- `HTTP_503_SERVICE_UNAVAILABLE`. -/
def serviceUnavailable : Exc := { cls := .http 503, name := "HTTPException" }

/-- `_enqueue_or_mark_failed`, of a job that was there, within the transaction of the request.
`raises` is what comes of the enqueue. -/
def enqueueAgain (jobId : ℕ) (job : ReleaseJob) (raises : Option Exc) :
    Txn (Handled × Reply) :=
  match raises with
  | some _ => do
      markEnqueueFailed jobId job
      pure (.failed serviceUnavailable, .marked jobId)
  | none => do
      confirmEnqueue jobId job
      pure (.answered (.created jobId job.status job.phase), .quiet)

/-- The answer about a job that was there, which may have to be enqueued again. -/
def answerExisting (jobId : ℕ) (job : ReleaseJob) (raises : Option Exc) :
    Txn (Handled × Reply) := do
  let s ← Tx.snapshot
  if job.status = .queued && !s.hasEnqueueConfirmation jobId then enqueueAgain jobId job raises
  else pure (.answered (.created jobId job.status job.phase), .quiet)

/-! ## prepare_release_endpoint -/

/-- The job of a preparation. -/
def Plan.job (plan : Plan) (user : User) (now : Instant) : ReleaseJob where
  targetIp := plan.targetIp
  kind := .preReleaseQuery
  reason := plan.reason
  ticketId := none
  force := plan.force
  status := .queued
  phase := .queued
  beforeState := none
  afterState := none
  result := {}
  rawBeforeOutput := none
  rawReleaseOutput := none
  rawAfterOutput := none
  errorMessage := none
  startedAt := none
  finishedAt := none
  operatorId := user.id
  switchId := plan.switchId
  commandProfileId := plan.commandProfileId
  retryOfId := none
  preparationJobId := none
  createdAt := now

/-- The transaction of `prepare_release_endpoint`. -/
def prepare (user : User) (plan : Plan) : Txn (Handled × Reply) := do
  let s ← Tx.snapshot
  let id ← Tx.nextSerial
  Tx.update (·.addJob id (plan.job user s.clock))
  Tx.update (·.addEvent ⟨id, .queued, .queued, some "Pre-release query queued"⟩)
  pure (.queued id (plan.job user s.clock) rfl, .created id)

/-! ## create_release_job -/

/-- The release of a preparation. -/
def ReleaseJob.toRelease (job : ReleaseJob) (preparationJobId : ℕ) (user : User)
    (payload : ReleaseJobCreateRequest) (force : Bool) (now : Instant) : ReleaseJob where
  targetIp := job.targetIp
  kind := .release
  reason := job.reason
  ticketId := payload.ticketId.filter (· ≠ "")
  force := force
  status := .queued
  phase := .queued
  beforeState := job.beforeState
  afterState := none
  result := {}
  rawBeforeOutput := job.rawBeforeOutput
  rawReleaseOutput := none
  rawAfterOutput := none
  errorMessage := none
  startedAt := none
  finishedAt := none
  operatorId := user.id
  switchId := job.switchId
  commandProfileId := job.commandProfileId
  retryOfId := none
  preparationJobId := some preparationJobId
  createdAt := now

/-- The attributes of a preparation that its confirmation assigns. -/
def ReleaseJob.confirmed (job : ReleaseJob) (force : Bool) (releaseId : ℕ) (now : Instant) :
    ReleaseJob :=
  { job with
    force := force
    status := .succeeded
    phase := .finished
    finishedAt := some now
    result :=
      { job.result with
        preparationStatus := some .ready
        message := some "Pre-release query confirmed; release job queued"
        releaseJobId := some releaseId } }

/-- `create_release_job` from the new row on.  Where the index has an entry of the preparation the
`INSERT` fails, and the answer is about the release that is there.

The row of the preparation is locked by then; the unique index is a second guard behind the lock. -/
def insertRelease (user : User) (payload : ReleaseJobCreateRequest) (job : ReleaseJob)
    (force : Bool) : Txn (Handled × Reply) := do
  Tx.acquire (.preparation payload.preparationJobId)
  let s ← Tx.snapshot
  if s.jobs.any fun _ row => row.preparationJobId = some payload.preparationJobId then do
    let existing ← getReleaseForPreparation user payload.preparationJobId
    let (id, release) ← Tx.expect existing .database
    pure (.answered (.created id release.status release.phase), .quiet)
  else do
    let id ← Tx.nextSerial
    let release := job.toRelease payload.preparationJobId user payload force s.clock
    Tx.update (·.addJob id release)
    flush payload.preparationJobId job (job.confirmed force id s.clock)
    Tx.update (·.addEvent ⟨payload.preparationJobId, .finished, .succeeded,
      some "Pre-release query confirmed"⟩)
    Tx.update (·.addEvent ⟨id, .queued, .queued, some "Release job queued"⟩)
    pure (.queued id release rfl, .created id)

/-- `_existing_release_response`. -/
def existingReleaseResponse (user : User) (preparationJobId : ℕ) (job : ReleaseJob)
    (raises : Option Exc) : Txn (Option (Handled × Reply)) :=
  match job.result.releaseJobId with
  | none => pure none
  | some releaseJobId => do
      let release ← getReleaseForPreparation user preparationJobId
      match release.filter (·.1 = releaseJobId) with
      | none => pure none
      | some (id, row) => do
          let answer ← answerExisting id row raises
          pure (some answer)

/-- The transaction of `create_release_job`. -/
def createReleaseJob (user : User) (payload : ReleaseJobCreateRequest) (raises : Option Exc) :
    Txn (Handled × Reply) := do
  Tx.require payload.confirmed (.http 400 "Explicit confirmation is required")
  let job ← getVisibleJob user payload.preparationJobId
  let forceAfterNoRecord := payload.force && job.stoppedNoRecord
  Tx.require (job.operatorId = user.id)
    (.http 403 "Only the user who prepared the release can confirm it")
  Tx.require (job.kind = .preReleaseQuery) (.http 409 "Release has already been confirmed")
  Tx.require (job.targetIp = payload.targetIp && job.reason = payload.reason)
    (.http 409 "Release confirmation does not match prepared release")
  Tx.require (job.force = payload.force || forceAfterNoRecord)
    (.http 409 "Release confirmation does not match prepared release")
  Tx.require (!(job.force || payload.force || forceAfterNoRecord) || user.isAdmin)
    (.http 403 "Only admin can force release jobs")
  let force := forceAfterNoRecord || job.force
  if job.status = .waitingConfirmation then insertRelease user payload job force
  else do
    let existing ← if job.status = .succeeded then
        existingReleaseResponse user payload.preparationJobId job raises
      else pure none
    match existing with
    | some answer => pure answer
    | none => do
        Tx.require forceAfterNoRecord (.http 409 "Release preparation is not ready")
        insertRelease user payload job force

/-! ## retry_release_job -/

/-- The statuses that can be retried. -/
def ReleaseJobStatus.retryable : ReleaseJobStatus → Bool
  | failed | timeout | needsManualConfirmation => true
  | _ => false

/-- The retry of a job. -/
def ReleaseJob.retry (original : ReleaseJob) (originalId : ℕ) (user : User) (now : Instant) :
    ReleaseJob where
  targetIp := original.targetIp
  kind := .release
  reason := original.reason
  ticketId := original.ticketId
  force := original.force
  status := .queued
  phase := .queued
  beforeState := original.beforeState
  afterState := none
  result := {}
  rawBeforeOutput := none
  rawReleaseOutput := none
  rawAfterOutput := none
  errorMessage := none
  startedAt := none
  finishedAt := none
  operatorId := user.id
  switchId := original.switchId
  commandProfileId := original.commandProfileId
  retryOfId := some originalId
  preparationJobId := none
  createdAt := now

/-- The transaction of `retry_release_job`. -/
def retryReleaseJob (user : User) (jobId : ℕ) (raises : Option Exc) : Txn (Handled × Reply) := do
  let original ← getVisibleJob user jobId
  Tx.require (original.kind = .release)
    (.http 409 "Only confirmed release jobs can be retried")
  Tx.require original.status.retryable
    (.http 409 "Only failed, timed out, or manual-confirmation jobs can be retried")
  Tx.require (!original.force || user.isAdmin) (.http 403 "Only admin can retry forced release jobs")
  let active ← getActiveRetry user jobId
  match active with
  | some (id, retry) => answerExisting id retry raises
  | none => do
      let s ← Tx.snapshot
      let id ← Tx.nextSerial
      Tx.update (·.addJob id (original.retry jobId user s.clock))
      Tx.update (·.addEvent ⟨id, .queued, .queued, some "Release retry queued"⟩)
      pure (.queued id (original.retry jobId user s.clock) rfl, .retried user jobId)

/-! ## The programs -/

/-- `_enqueue_or_mark_failed`, of a new job. -/
def enqueueOrMarkFailed (jobId : ℕ) (job : ReleaseJob) (queued : job.status = .queued) :
    Exec Unit := do
  Prog.tryCatch (Prog.perform (Call.enqueue job.kind jobId)) fun _ => do
    Prog.perform (Call.markEnqueueFailed jobId job queued)
    Prog.raise serviceUnavailable
  Prog.perform (Call.confirmEnqueue jobId job)

/-- A request behind its transaction. -/
def goOn (handled : Handled) (answer : ℕ → ReleaseJob → Answer) : Exec Answer :=
  match handled with
  | .answered a => pure a
  | .failed e => Prog.raise e
  | .queued jobId job queued => do
      enqueueOrMarkFailed jobId job queued
      pure (answer jobId job)

/-- `prepare_release_endpoint`, behind `prepare_release`, which plans a query or none. -/
def prepareReleaseEndpoint (user : User) (plan : Option Plan) : Exec Answer :=
  match plan with
  | none => pure (.prepared none)
  | some plan => do
      let handled ← Prog.perform (Call.prepare user plan)
      goOn handled fun jobId _ => .prepared (some jobId)

/-- `create_release_job`. -/
def createReleaseJobEndpoint (user : User) (payload : ReleaseJobCreateRequest) : Exec Answer := do
  let handled ← Prog.perform (Call.createReleaseJob user payload)
  goOn handled fun jobId job => .created jobId job.status job.phase

/-- `retry_release_job`. -/
def retryReleaseJobEndpoint (user : User) (jobId : ℕ) : Exec Answer := do
  let handled ← Prog.perform (Call.retryReleaseJob user jobId)
  goOn handled fun jobId job => .created jobId job.status job.phase

/-- A request of the API. -/
inductive Request
  | prepare (user : User) (plan : Option Plan)
  | createReleaseJob (user : User) (payload : ReleaseJobCreateRequest)
  | retryReleaseJob (user : User) (jobId : ℕ)

def Request.program : Request → Exec Answer
  | prepare user plan => prepareReleaseEndpoint user plan
  | createReleaseJob user payload => createReleaseJobEndpoint user payload
  | retryReleaseJob user jobId => retryReleaseJobEndpoint user jobId

end BindPlane.Legacy
