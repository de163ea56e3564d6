import BindPlane.Legacy.Requests

/-!
# The executor of the legacy worker

`claim_job_for_execution`, and the programs `execute_pre_release_query_job` and
`execute_release_job`: what they do to their job, and in which order the switch is asked.  What
the outputs of a switch mean is left to the platform; and whether the settings and the commands
of a job can be used, to whoever answers the calls.

**Beside the new worker.**  As there, the command stands between two queries of the switch.  What is
missing are the lease and the token: nothing tells an execution that its row has been written by
somebody else.

**Source.**  What is modelled here is in `backend/bind_plane/worker/release_executor.py`.
-/

namespace BindPlane.Legacy

open ReadCommitted Coroutine

/-- `ClassifiedReleaseResult`. -/
structure Classified where
  status : ReleaseJobStatus
  message : String
  settled : status.active = false

/-- What the executor reads off its job and off the outputs of a switch. -/
structure Platform where
  /-- `ip_address(job.target_ip)`, an IPv4 address. -/
  target : String → Except Exc Unit
  /-- `parse_arp_observation`. -/
  observe : ReleaseJob → String → Except Exc ArpEntryType
  /-- `classify_release_result`. -/
  classify : ReleaseJob → String → ArpEntryType → Except Exc Classified

/-- The `UPDATE` of `claim_job_for_execution`. -/
def ReleaseJob.claimed (job : ReleaseJob) (now : Instant) : ReleaseJob :=
  { job with
    startedAt := job.startedAt.or (some now)
    phase := .connecting
    status := .running }

/-- `claim_job_for_execution`.

The row is read without a lock, then locked and refreshed, so that only one delivery of a job finds
it queued.  A job of another kind is handed out as it is: the program behind it raises. -/
def claimJobForExecution (expectedKind : ReleaseJobKind) (jobId : ℕ) :
    Txn ((ReleaseJob × Bool) × Reply) := do
  let before ← Tx.snapshot
  let _ ← Tx.expect (before.jobs.get? jobId) .database
  Tx.acquire (.job jobId)
  let s ← Tx.snapshot
  let job ← Tx.expect (s.jobs.get? jobId) .database
  if job.kind ≠ expectedKind then pure ((job, true), .quiet)
  else if job.status ≠ .queued then pure ((job, false), .quiet)
  else do
    flush jobId job (job.claimed s.clock)
    Tx.update (·.addEvent ⟨jobId, .connecting, .running, some "Job claimed for execution"⟩)
    pure ((job.claimed s.clock, true), .claimed jobId)

/-! ## Parts of the programs -/

/-- Assign attributes of the object. -/
def assign (a : Assignment) : Exec Unit := Prog.perform (Call.assign a)

/-- Assign the status with which the job ends. -/
def settle (a : Settlement) : Exec Unit := Prog.perform (Call.settle a)

def updateJobPhase (phase : ReleaseJobPhase) : Exec Unit :=
  Prog.perform (Call.updateJobPhase phase)

def commitJobCheckpoint : Exec Unit := Prog.perform Call.commitJobCheckpoint

/-- `ReleaseJobConfigurationError`. -/
def configurationError (text : String) : Exc :=
  { cls := .expected, name := "ReleaseJobConfigurationError", text := text }

/-- `str(exc) or fallback`. -/
def timeoutMessage (exc : Exc) (fallback : String) : String :=
  if exc.text = "" then fallback else exc.text

/-- `mark_job_timeout`. -/
def markJobTimeout (exc : Exc) (fallback : String) : Exec Unit :=
  settle { set := fun now job =>
    { job with
      status := .timeout
      phase := .finished
      errorMessage := some (timeoutMessage exc fallback)
      finishedAt := some now } }

/-- `capture_partial_release_output`. -/
def capturePartialReleaseOutput (exc : Exc) : Exec Unit :=
  match exc.partialOutput.filter (· ≠ "") with
  | none => pure ()
  | some output => assign { set := fun _ job =>
      { job with
        rawReleaseOutput :=
          if (job.rawReleaseOutput.getD "") = "" then some output else job.rawReleaseOutput } }

/-- `close_switch_session_safely`. -/
def closeSwitchSessionSafely : Exec Unit :=
  Prog.tryCatch (Prog.perform Call.close) fun exc =>
    if exc.cls = .jobTimeout then Prog.raise exc
    else assign { set := fun _ job =>
      { job with
        result := { job.result with
          closeError := some ("Switch session close failed: " ++ exc.name) } } }

/-- The part of the programs up to the first state: the session is opened, and the switch is
asked for the entry. -/
def queryBefore (P : Platform) (job : ReleaseJob) (kind : ReleaseJobKind) (wrongKind : String) :
    Exec ArpEntryType := do
  Prog.ofExcept (P.target job.targetIp)
  if job.kind ≠ kind then Prog.raise (configurationError wrongKind)
  else do
    Prog.perform Call.openSession
    Prog.perform Call.connect
    updateJobPhase .queryingBefore
    let beforeOutput ← Prog.perform Call.queryBefore
    assign { set := fun _ job => { job with rawBeforeOutput := some beforeOutput } }
    let before ← Prog.ofExcept (P.observe job beforeOutput)
    assign { set := fun _ job => { job with beforeState := some before } }
    commitJobCheckpoint
    pure before

/-- The end of a job that raised. -/
def settleFailed (message : String) (finishedAt : Bool) : Exec Unit :=
  settle { set := fun now job =>
    { job with
      status := .failed
      phase := .finished
      errorMessage := some message
      finishedAt := if finishedAt then some now else job.finishedAt } }

/-! ## execute_pre_release_query_job -/

/-- The body of the `try`. -/
def preReleaseQuery (P : Platform) (job : ReleaseJob) : Exec Unit := do
  let before ← queryBefore P job .preReleaseQuery "Job is not a pre-release query"
  let latest ← Prog.perform Call.job
  if before = .unknown then
    settle { set := fun now job =>
      { job with
        status := .needsManualConfirmation
        phase := .finished
        finishedAt := some now
        result :=
          { preparationStatus := some .needsManualConfirmation
            message := some "Pre-release state could not be parsed confidently" } } }
  else if before = .missing && !latest.force then
    settle { set := fun now job =>
      { job with
        status := .cancelled
        phase := .finished
        finishedAt := some now
        result :=
          { preparationStatus := some .stoppedNoRecord
            message := some "No pre-release record was found; normal release stopped" } } }
  else
    settle { set := fun _ job =>
      { job with
        force := if before = .missing then job.force else false
        status := .waitingConfirmation
        phase := .waitingConfirmation
        result :=
          { preparationStatus := some .ready
            message := some "Pre-release query complete; waiting for confirmation" } } }

/-- Its handlers. -/
def preReleaseQueryFailed (exc : Exc) : Exec Unit :=
  match exc.cls with
  | .connectionTimeout => markJobTimeout exc "Pre-release query timed out"
  | .jobTimeout => markJobTimeout exc "RQ pre-release query timed out"
  | .expected => settleFailed exc.text true
  | _ => settleFailed ("Unexpected pre-release query error: " ++ exc.name) true

/-- Its `finally`. -/
def finishPreReleaseQuery : Exec Unit := do
  Prog.tryCatch closeSwitchSessionSafely fun exc =>
    if exc.cls = .jobTimeout then
      markJobTimeout exc "RQ pre-release query timed out while closing"
    else Prog.raise exc
  Prog.perform (Call.finish fun job =>
    (job.errorMessage.filter (· ≠ "")).or job.result.message)

/-- `execute_pre_release_query_job`. -/
def executePreReleaseQueryJob (P : Platform) (jobId : ℕ) : Exec Answer := do
  let claim ← Prog.perform (Call.claimJob .preReleaseQuery jobId)
  if claim.2 then
    Prog.andFinally (Prog.tryCatch (preReleaseQuery P claim.1) preReleaseQueryFailed)
      finishPreReleaseQuery
  pure .executed

/-! ## execute_release_job -/

/-- The body of the `try`, from the release command on.

The phase of the release is committed before the command is sent, and what the switch has said to
the command is committed before it is asked again. -/
def releaseAndClassify (P : Platform) (job : ReleaseJob) : Exec Unit := do
  updateJobPhase .releasing
  let releaseOutput ← Prog.perform Call.release
  assign { set := fun _ job => { job with rawReleaseOutput := some releaseOutput } }
  commitJobCheckpoint
  updateJobPhase .queryingAfter
  let afterOutput ← Prog.perform Call.queryAfter
  assign { set := fun _ job => { job with rawAfterOutput := some afterOutput } }
  let after ← Prog.ofExcept (P.observe job afterOutput)
  assign { set := fun _ job => { job with afterState := some after } }
  commitJobCheckpoint
  updateJobPhase .classifying
  let classified ← Prog.ofExcept (P.classify job releaseOutput after)
  settle
    { set := fun _ job =>
        { job with
          status := classified.status
          phase := .finished
          result := { message := some classified.message } }
      settled := fun _ _ => classified.settled }

/-- The body of the `try`. -/
def releaseJob (P : Platform) (job : ReleaseJob) : Exec Unit := do
  let before ← queryBefore P job .release "Job is not a confirmed release"
  let latest ← Prog.perform Call.job
  if before = .unknown then
    settle { set := fun _ job =>
      { job with
        status := .needsManualConfirmation
        phase := .finished
        result := { message := some "Pre-release state could not be parsed confidently" } } }
  else if before = .missing && !latest.force then
    settle { set := fun _ job =>
      { job with
        status := .cancelled
        phase := .finished
        result :=
          { message := some "No pre-release record was found; release stopped before command" } } }
  else releaseAndClassify P job

/-- Its handlers. -/
def releaseJobFailed (exc : Exc) : Exec Unit :=
  match exc.cls with
  | .connectionTimeout => do
      capturePartialReleaseOutput exc
      markJobTimeout exc "Release job timed out"
  | .jobTimeout => markJobTimeout exc "RQ release job timed out"
  | .expected => do
      capturePartialReleaseOutput exc
      settleFailed exc.text false
  | _ => settleFailed ("Unexpected release job error: " ++ exc.name) false

/-- Its `finally`. -/
def finishReleaseJob : Exec Unit := do
  Prog.tryCatch closeSwitchSessionSafely fun exc =>
    if exc.cls = .jobTimeout then
      markJobTimeout exc "RQ release job timed out while closing"
    else Prog.raise exc
  assign { set := fun now job => { job with finishedAt := some now } }
  Prog.perform (Call.finish fun job => job.errorMessage)

/-- `execute_release_job`. -/
def executeReleaseJob (P : Platform) (jobId : ℕ) : Exec Answer := do
  let claim ← Prog.perform (Call.claimJob .release jobId)
  if claim.2 then
    Prog.andFinally (Prog.tryCatch (releaseJob P claim.1) releaseJobFailed) finishReleaseJob
  pure .executed

/-- What a delivery of the queue runs: `_release_queue_function_name`. -/
def deliveredProgram (P : Platform) (kind : ReleaseJobKind) (jobId : ℕ) : Exec Answer :=
  match kind with
  | .preReleaseQuery => executePreReleaseQueryJob P jobId
  | .release => executeReleaseJob P jobId

end BindPlane.Legacy
