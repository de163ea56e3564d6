import BindPlane.Coroutine.Program
import BindPlane.ReadCommitted.Contract
import BindPlane.ReadCommitted.Table
import BindPlane.Release.Data

/-!
# Release jobs of the legacy application

The rows of `release_jobs` and `release_job_events`, and the processes that work on them: the
requests of the API and the executions of the workers.

**Copies.**  A process holds its job as an object, and a commit writes those columns in which the
object differs from what it was when it was last read or written (`ReleaseJob.flush`).  What the
row has become meanwhile plays no part.

**Processes.**  A process is a coroutine: its calls are its transactions, the queue and the
session on the switch.  It is kept in the store, with its object and with the journal of its
calls, and moves by one call at a time.

**Why the copy matters.**  The object of a process is written as a difference to what the process
believes to be in the row.  A column that somebody else has changed meanwhile is neither noticed nor
protected: it is overwritten if the process has assigned it, and kept if not.

**Source.**  What is modelled here is in `backend/bind_plane/api/routes/releases.py`,
`backend/bind_plane/db/models.py` and `backend/bind_plane/worker/release_executor.py`.
-/

namespace BindPlane.Legacy

open ReadCommitted Coroutine

/-! ## Rows -/

inductive RoleName
  | operator | admin
  deriving DecidableEq, Repr

/-- A user as `get_current_user` has read it. -/
structure User where
  id : ℕ
  roles : List RoleName
  deriving DecidableEq, Repr

/-- `_is_admin`. -/
def User.isAdmin (user : User) : Bool := user.roles.contains .admin

inductive ReleaseJobStatus
  | queued | running | waitingConfirmation | succeeded | failed | timeout
  | needsManualConfirmation | cancelled
  deriving DecidableEq, Repr

/-- `status IN (queued, running)`. -/
def ReleaseJobStatus.active : ReleaseJobStatus → Bool
  | queued | running => true
  | _ => false

inductive ReleaseJobPhase
  | queued | resolvingSwitch | queryingBefore | waitingConfirmation | connecting | enteringConfig
  | releasing | queryingAfter | classifying | finished
  deriving DecidableEq, Repr

inductive ReleaseJobKind
  | preReleaseQuery | release
  deriving DecidableEq, Repr

inductive ArpEntryType
  | static | dynamic | missing | unknown
  deriving DecidableEq, Repr

inductive ReleasePreparationStatus
  | queryQueued | ready | stoppedNoRecord | stoppedNoSwitch | stoppedAmbiguousSwitch
  | needsManualConfirmation
  deriving DecidableEq, Repr

/-- The keys of the column `result` that are read or written here. -/
structure JobResult where
  preparationStatus : Option ReleasePreparationStatus := none
  message : Option String := none
  releaseJobId : Option ℕ := none
  closeError : Option String := none
  deriving DecidableEq, Repr

/-- A row of `release_jobs`, without its key.  Of the states the type of the entry is kept. -/
structure ReleaseJob where
  targetIp : String
  kind : ReleaseJobKind
  reason : String
  ticketId : Option String
  force : Bool
  status : ReleaseJobStatus
  phase : ReleaseJobPhase
  beforeState : Option ArpEntryType
  afterState : Option ArpEntryType
  result : JobResult
  rawBeforeOutput : Option String
  rawReleaseOutput : Option String
  rawAfterOutput : Option String
  errorMessage : Option String
  startedAt : Option Instant
  finishedAt : Option Instant
  operatorId : ℕ
  switchId : ℕ
  commandProfileId : ℕ
  retryOfId : Option ℕ
  preparationJobId : Option ℕ
  createdAt : Instant
  deriving DecidableEq, Repr

/-- A row of `release_job_events`. -/
structure ReleaseJobEvent where
  jobId : ℕ
  phase : ReleaseJobPhase
  status : ReleaseJobStatus
  message : Option String
  deriving DecidableEq, Repr

namespace ReleaseJob

/-- A column of an `UPDATE`, which leaves out the attributes that have not changed. -/
def written {α : Type} [DecidableEq α] (old new row : α) : α := if new = old then row else new

/-- The `UPDATE` of a flush: `old` is what the object was, `new` what it is. -/
def flush (old new row : ReleaseJob) : ReleaseJob :=
  { row with
    force := written old.force new.force row.force
    status := written old.status new.status row.status
    phase := written old.phase new.phase row.phase
    beforeState := written old.beforeState new.beforeState row.beforeState
    afterState := written old.afterState new.afterState row.afterState
    result := written old.result new.result row.result
    rawBeforeOutput := written old.rawBeforeOutput new.rawBeforeOutput row.rawBeforeOutput
    rawReleaseOutput := written old.rawReleaseOutput new.rawReleaseOutput row.rawReleaseOutput
    rawAfterOutput := written old.rawAfterOutput new.rawAfterOutput row.rawAfterOutput
    errorMessage := written old.errorMessage new.errorMessage row.errorMessage
    startedAt := written old.startedAt new.startedAt row.startedAt
    finishedAt := written old.finishedAt new.finishedAt row.finishedAt }

/-- An active retry of a job. -/
def retries (original : ℕ) (job : ReleaseJob) : Bool :=
  job.kind = .release && job.retryOfId = some original && job.status.active

/-- The job that a user may see: `_get_visible_job`. -/
def visible (user : User) (job : ReleaseJob) : Bool := user.isAdmin || job.operatorId = user.id

/-- `_is_stopped_no_record_preparation`. -/
def stoppedNoRecord (job : ReleaseJob) : Bool :=
  job.kind = .preReleaseQuery && job.status = .cancelled &&
    job.result.preparationStatus = some .stoppedNoRecord && job.beforeState = some .missing

end ReleaseJob

/-! ## Processes -/

/-- The classes of exceptions that the handlers tell apart. -/
inductive ErrorClass
  /-- `SwitchConnectionTimeoutError`. -/
  | connectionTimeout
  /-- `JobTimeoutException`. -/
  | jobTimeout
  /-- The other `SwitchSessionError`s, `CommandProfileError`, `ReleaseJobConfigurationError`. -/
  | expected
  | http (code : ℕ)
  | other
  deriving DecidableEq, Repr

/-- An exception. -/
structure Exc where
  cls : ErrorClass
  name : String := ""
  text : String := ""
  partialOutput : Option String := none
  deriving DecidableEq, Repr

/-- The plan of a preparation that queries: `ReleasePreparation`. -/
structure Plan where
  targetIp : String
  reason : String
  force : Bool
  switchId : ℕ
  commandProfileId : ℕ
  deriving DecidableEq, Repr

/-- `ReleaseJobCreateRequest`. -/
structure ReleaseJobCreateRequest where
  preparationJobId : ℕ
  targetIp : String
  reason : String
  ticketId : Option String
  force : Bool
  confirmed : Bool
  deriving DecidableEq, Repr

/-- What a process returns. -/
inductive Answer
  /-- `ReleasePreparationRead`. -/
  | prepared (jobId : Option ℕ)
  /-- `ReleaseJobCreated`. -/
  | created (jobId : ℕ) (status : ReleaseJobStatus) (phase : ReleaseJobPhase)
  /-- An execution has ended. -/
  | executed
  deriving DecidableEq, Repr

/-- How the transaction of a request ends. -/
inductive Handled
  /-- It has committed a new job, which is to be enqueued. -/
  | queued (jobId : ℕ) (job : ReleaseJob) (queued : job.status = .queued)
  | answered (a : Answer)
  /-- It has committed, and raises. -/
  | failed (e : Exc)

/-- Attributes of the object are assigned, but not its status, nor when it was started. -/
structure Assignment where
  set : Instant → ReleaseJob → ReleaseJob
  status : ∀ now job, (set now job).status = job.status := by intros; rfl
  startedAt : ∀ now job, (set now job).startedAt = job.startedAt := by intros; rfl

/-- The status is assigned, to one that is not active, with other attributes. -/
structure Settlement where
  set : Instant → ReleaseJob → ReleaseJob
  settled : ∀ now job, (set now job).status.active = false := by intros; rfl
  startedAt : ∀ now job, (set now job).startedAt = job.startedAt := by intros; rfl

/-- The calls of a process. -/
inductive Call
  | prepare (user : User) (plan : Plan)
  | createReleaseJob (user : User) (payload : ReleaseJobCreateRequest)
  | retryReleaseJob (user : User) (jobId : ℕ)
  | enqueue (kind : ReleaseJobKind) (jobId : ℕ)
  | markEnqueueFailed (jobId : ℕ) (job : ReleaseJob) (queued : job.status = .queued)
  | confirmEnqueue (jobId : ℕ) (job : ReleaseJob)
  | claimJob (kind : ReleaseJobKind) (jobId : ℕ)
  | assign (a : Assignment)
  | settle (a : Settlement)
  /-- The object. -/
  | job
  | updateJobPhase (phase : ReleaseJobPhase)
  | commitJobCheckpoint
  /-- The last event of an execution, with its message, and the last commit. -/
  | finish (message : ReleaseJob → Option String)
  /-- The settings and the commands, and the session object. -/
  | openSession
  | connect
  | queryBefore
  | release
  | queryAfter
  | close

@[reducible] def Call.Result : Call → Type
  | .prepare .. | .createReleaseJob .. | .retryReleaseJob .. => Handled
  | .claimJob .. => ReleaseJob × Bool
  | .job => ReleaseJob
  | .queryBefore | .release | .queryAfter => String
  | _ => Unit

/-- A part of a process. -/
abbrev Exec : Type → Type := Prog Call.Result Exc

/-- The journal of a process, newest entry first. -/
abbrev Journal : Type := List (Event Call.Result Exc)

/-- The object of an execution: what it was when it was last read or written, and what it is;
and whether there is a session to be closed. -/
structure Memory where
  jobId : ℕ
  base : ReleaseJob
  job : ReleaseJob
  opened : Bool

structure Process where
  rest : Exec Answer
  memory : Option Memory
  journal : Journal

/-- The store. -/
structure Db where
  clock : Instant
  jobs : Table ReleaseJob
  events : List ReleaseJobEvent
  processes : Table Process

def Db.empty : Db := ⟨0, ∅, [], ∅⟩

/-! ## Transactions -/

/-- The locks: rows, entries of the unique index on the preparation, and the thread of a process,
which does one thing at a time. -/
inductive Key
  | job (id : ℕ)
  | preparation (id : ℕ)
  | process (id : ℕ)
  deriving DecidableEq, Repr

/-- A transaction fails: with an `HTTPException`, or in a statement. -/
inductive Failure
  | http (code : ℕ) (detail : String)
  | database
  deriving DecidableEq, Repr

/-- Transactions on the store. -/
abbrev Txn := Tx Db Key Failure

namespace Db

/-- `session.add(ReleaseJobEvent(…))`. -/
def addEvent (d : Db) (e : ReleaseJobEvent) : Db := { d with events := d.events ++ [e] }

/-- `session.add(ReleaseJob(…))`. -/
def addJob (d : Db) (id : ℕ) (job : ReleaseJob) : Db := { d with jobs := d.jobs.insert id job }

/-- The `UPDATE` of a row. -/
def flushJob (d : Db) (id : ℕ) (old new : ReleaseJob) : Db :=
  { d with jobs := d.jobs.modify id (ReleaseJob.flush old new) }

/-- A process moves. -/
def putProcess (d : Db) (p : ℕ) (proc : Process) : Db :=
  { d with processes := d.processes.insert p proc }

end Db

end BindPlane.Legacy
