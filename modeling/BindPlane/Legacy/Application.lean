import BindPlane.Legacy.Executor

/-!
# The legacy application

The store with any number of processes: requests of the API, and executions that the queue has
delivered.  A process makes one call after the other; `Op.move` is the next of them, and
`Op.raise` its failure, which has written nothing.

The queue delivers a job that it has been given as often as it likes, and at any time: a request
enqueues the job that it has committed, and a worker that starts enqueues all that are queued
(`_reconcile_queued_jobs`).  Hence a delivery needs the row and nothing else.

**Delivery.**  Nothing is assumed of the queue but that it delivers what exists: it may deliver a
job twice, late, to two workers at once, or never.  What is claimed of executions must hold all the
same, and the claim of a job under the lock of its row is what it rests on.
-/

namespace BindPlane.Legacy

open ReadCommitted Coroutine

variable (P : Platform)

/-- Update the object, at the present time. -/
def remember (memory : Option Memory) (set : Instant → ReleaseJob → ReleaseJob) :
    Txn (Option Memory) := do
  let s ← Tx.snapshot
  pure (memory.map fun m => { m with job := set s.clock m.job })

/-- A commit of the object, with the events that were added. -/
def commitObject (memory : Option Memory) (set : ReleaseJob → ReleaseJob)
    (events : ReleaseJob → List ReleaseJobEvent) : Txn Memory := do
  let m ← Tx.expect memory .database
  let job := set m.job
  flush m.jobId m.base job
  Tx.update fun d => (events job).foldl Db.addEvent d
  pure { m with base := job, job := job }

/-- What a call does, what it returns and what the process remembers.  `answer` is what the
switch says, and `raises` what comes of an enqueue within a transaction.

Each call is a transaction of its own.  What a process remembers of the job is passed in and out,
since a flush writes the attributes that differ from what the object was when it was last read or
written, and not those that differ from the row. -/
def Call.run (memory : Option Memory) (answer : String) (raises : Option Exc) :
    (q : Call) → Txn (q.Result × Option Memory × Reply)
  | .prepare user plan => do
      let (handled, reply) ← Legacy.prepare user plan
      pure (handled, memory, reply)
  | .createReleaseJob user payload => do
      let (handled, reply) ← Legacy.createReleaseJob user payload raises
      pure (handled, memory, reply)
  | .retryReleaseJob user jobId => do
      let (handled, reply) ← Legacy.retryReleaseJob user jobId raises
      pure (handled, memory, reply)
  | .enqueue _ _ => pure ((), memory, .quiet)
  | .markEnqueueFailed jobId copy _ => do
      Legacy.markEnqueueFailed jobId copy
      pure ((), memory, .marked jobId)
  | .confirmEnqueue jobId copy => do
      Legacy.confirmEnqueue jobId copy
      pure ((), memory, .quiet)
  | .claimJob kind jobId => do
      let (claim, reply) ← claimJobForExecution kind jobId
      pure (claim, some ⟨jobId, claim.1, claim.1, false⟩, reply)
  | .assign a => do
      let memory ← remember memory a.set
      pure ((), memory, .quiet)
  | .settle a => do
      let memory ← remember memory a.set
      pure ((), memory, .quiet)
  | .job => do
      let m ← Tx.expect memory .database
      pure (m.job, memory, .quiet)
  | .updateJobPhase phase => do
      let m ← commitObject memory (fun job => { job with phase := phase, status := .running })
        fun _ => (memory.map fun m => ⟨m.jobId, phase, .running, none⟩).toList
      pure ((), some m, .quiet)
  | .commitJobCheckpoint => do
      let m ← commitObject memory id fun _ => []
      pure ((), some m, .quiet)
  | .finish message => do
      let m ← commitObject memory id fun job =>
        (memory.map fun m => ⟨m.jobId, job.phase, job.status, message job⟩).toList
      pure ((), some m, .finished m.jobId)
  | .openSession => pure ((), memory.map fun m => { m with opened := true }, .quiet)
  | .connect => pure ((), memory, .quiet)
  | .queryBefore => pure (answer, memory, .quiet)
  | .release => do
      let m ← Tx.expect memory .database
      pure (answer, memory, .sent m.jobId)
  | .queryAfter => pure (answer, memory, .quiet)
  | .close => pure ((), memory, .quiet)

/-- What the failure of a call leaves behind: a command may have been sent. -/
def Call.raised (memory : Option Memory) : Call → Reply
  | .release => (memory.map fun m => Reply.sent m.jobId).getD .quiet
  | _ => .quiet

/-- The failure of a call, if it can fail: without a session there is nothing to close. -/
def Call.fails (memory : Option Memory) : Call → Bool
  | .close => memory.any (·.opened)
  | _ => true

/-- A process hears of its call. -/
def Process.hear (proc : Process) (q : Call) (k : Except Exc q.Result → Exec Answer)
    (memory : Option Memory) (r : Except Exc q.Result) : Process :=
  ⟨k r, memory, .returned q r :: .called q :: proc.journal⟩

/-- A process makes its next call. -/
def move (p : ℕ) (answer : String) (raises : Option Exc) : Txn Reply := do
  Tx.acquire (.process p)
  let s ← Tx.snapshot
  let proc ← Tx.expect (s.processes.get? p) .database
  match proc.rest with
  | .call q k => do
      let (result, memory, reply) ← q.run proc.memory answer raises
      Tx.update (·.putProcess p (proc.hear q k memory (.ok result)))
      pure reply
  | _ => Tx.raise .database

/-- The next call of a process raises. -/
def raise (p : ℕ) (e : Exc) : Txn Reply := do
  Tx.acquire (.process p)
  let s ← Tx.snapshot
  let proc ← Tx.expect (s.processes.get? p) .database
  match proc.rest with
  | .call q k => do
      Tx.require (q.fails proc.memory) .database
      Tx.update (·.putProcess p (proc.hear q k proc.memory (.error e)))
      pure (q.raised proc.memory)
  | _ => Tx.raise .database

/-- A process starts. -/
def start (p : ℕ) (program : Exec Answer) : Txn Reply := do
  Tx.acquire (.process p)
  let s ← Tx.snapshot
  Tx.require (s.processes.get? p).isNone .database
  Tx.update (·.putProcess p ⟨program, none, []⟩)
  pure .quiet

/-- The queue delivers a job. -/
def deliver (p jobId : ℕ) : Txn Reply := do
  let s ← Tx.snapshot
  let job ← Tx.expect (s.jobs.get? jobId) .database
  start p (deliveredProgram P job.kind jobId)

/-- Time passes. -/
def elapse (time : ℕ) : Txn Reply := do
  Tx.update fun d => { d with clock := d.clock + time }
  pure .quiet

inductive Op
  | elapse (time : ℕ)
  | request (p : ℕ) (r : Request)
  | deliver (p jobId : ℕ)
  | move (p : ℕ) (answer : String) (raises : Option Exc)
  | raise (p : ℕ) (e : Exc)

/-- The program of an operation. -/
def body : Op → Unit → Txn Reply
  | .elapse time, _ => elapse time
  | .request p r, _ => start p r.program
  | .deliver p jobId, _ => deliver P p jobId
  | .move p answer raises, _ => move p answer raises
  | .raise p e, _ => raise p e

/-- The state of the application: the store, and the transactions on it. -/
abbrev Application := Sys ℕ Db Key Op Unit Failure Reply

/-- A state that some run leads to from the empty store. -/
def Application.Reachable (s : Application) : Prop :=
  Sys.Steps (body P) (Sys.init Db.empty 0) s

end BindPlane.Legacy
