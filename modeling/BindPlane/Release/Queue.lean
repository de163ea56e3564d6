import BindPlane.Release.Store
import Mathlib.Data.List.Sort

/-!
# The queue: claim, checkpoint, heartbeat, sweep

The worker's four statements on `bp_release_jobs`, and the query that loads what a
job runs with.

An `UPDATE … WHERE` under READ COMMITTED takes its candidates from the statement's
snapshot, waits for each row, and tests the condition again on the row's latest
version (`updateJobs`).  `SELECT … FOR UPDATE SKIP LOCKED LIMIT 1` walks the
candidates in order, passes over the rows somebody else has locked, and tests the
first it gets again (`pickQueued`).

**The barrier.**  The claim of a release takes the advisory lock of the address, and only behind it
looks for a release of the address that is running or uncertain.  The look and the update are two
statements, and nothing else keeps another worker from claiming a second release of the address in
between; that is what the lock is for.

**The fence.**  A claim writes a new token into the row, and every later write of the worker names
the token in its condition.  An update whose condition fails writes nothing and says so.

**Source.**  What is modelled here is in `worker/main.py`.
-/

namespace BindPlane

open ReadCommitted

/-- What the model takes from PostgreSQL and Go's standard library: the hash of an
address that the advisory lock is taken under, and the decoding `auditValue` compares
`jsonb` texts by. -/
structure Platform where
  /-- `hashtextextended(host(ip), 0)`. -/
  hashtextextended : IPv4 → ℤ
  /-- The texts decode to equal values. -/
  sameJson : String → String → Bool

/-! ## `UPDATE … WHERE` -/

/-- Lock the rows one by one; keep those that still satisfy the condition. -/
def lockMatching (p : Job → Bool) : List Id → Txn (List Id)
  | [] => pure []
  | id :: rest => do
      Tx.acquire (.job id)
      let latest ← Tx.snapshot
      let more ← lockMatching p rest
      pure (if (latest.job? id).any p then id :: more else more)

/-- `UPDATE bp_release_jobs SET f WHERE p RETURNING id`, with the rows an access path
offers. -/
def updateJobs (rows : Db → List Id) (p : Job → Bool) (f : Job → Job) :
    Txn (List Id) := do
  let s ← Tx.snapshot
  let ids ← lockMatching p ((rows s).filter fun id => (s.job? id).any p)
  Tx.update (·.modifyJobs ids f)
  pure ids

/-! ## sweep_expired -/

/-- The columns `sweep_expired` sets. -/
def Job.swept (now : Instant) (j : Job) : Job :=
  { j with
    status := .needsManualConfirmation
    phase := .finished
    finishedAt := some now
    updatedAt := now
    errorMessage := some "Worker lease expired; switch state is uncertain"
    leaseToken := none
    leaseUntil := none }

/-- One event for every row swept. -/
def sweepEvents (now : Instant) : List Id → Txn PUnit
  | [] => pure ⟨⟩
  | id :: rest => do
      insertEvent now id .finished .needsManualConfirmation (some "Worker lease expired") none
      sweepEvents now rest

def sweepExpired (now : Instant) : Txn (List Id) := do
  let ids ← updateJobs (fun d => d.jobs.keys) (Job.expired now) (Job.swept now)
  sweepEvents now ids
  pure ids

/-! ## claim -/

/-- What `claim` returns of the row it started. -/
structure ClaimedJob where
  id : Id
  leaseToken : Id
  kind : Kind
  targetIp : IPv4
  force : Bool
  switchId : Id
  commandProfileId : Id
  switchVersion : ℕ
  commandProfileVersion : ℕ
  deriving DecidableEq, Repr

/-- The columns `claim` sets. -/
def Job.started (now : Instant) (token : Id) (j : Job) : Job :=
  { j with
    status := .running
    phase := .connecting
    startedAt := some now
    updatedAt := now
    leaseToken := some token
    leaseUntil := some (now + leaseInterval) }

/-- The `RETURNING` list. -/
def Job.claimed (id token : Id) (j : Job) : ClaimedJob :=
  ⟨id, token, j.kind, j.targetIp, j.force, j.pins.switchId, j.pins.commandProfileId,
    j.pins.switchVersion, j.pins.commandProfileVersion⟩

/-- The `WHERE` of the first query: queued, and no release of the address is running
or uncertain in this snapshot. -/
def Db.claimable (s : Db) (id : Id) (j : Job) : Bool :=
  j.status = .queued && (j.kind = .preReleaseQuery || !s.blockedBy j.targetIp (some id))

/-- The candidates, oldest first. -/
def Db.claimQueue (s : Db) : List Id :=
  ((s.jobRows.filter fun r => s.claimable r.1 r.2).insertionSort
    fun a b => a.2.createdAt ≤ b.2.createdAt).map Prod.fst

/-- `FOR UPDATE OF j SKIP LOCKED LIMIT 1`. -/
def pickQueued (s : Db) : List Id → Txn (Option (Id × Job))
  | [] => pure none
  | id :: rest => do
      let got ← Tx.tryAcquire (.job id)
      let latest ← Tx.snapshot
      match (latest.job? id).filter fun j => got && s.claimable id j with
      | some j => pure (some (id, j))
      | none => pickQueued s rest

/-- A running release needs its entry of `bp_one_running_release_per_ip`. -/
def enterRunningIndex (id : Id) (j : Job) : Txn PUnit := do
  if j.kind = .release then do
    Tx.acquire (.runningRelease j.targetIp)
    let s ← Tx.snapshot
    Tx.require (!s.jobRows.any fun r => r.1 ≠ id && r.2.kind = .release &&
      r.2.targetIp = j.targetIp && r.2.status = .running) .uniqueViolation
  else pure ⟨⟩

/-- `UPDATE bp_release_jobs SET status='running',… WHERE id=$1 RETURNING …`. -/
def startJob (now : Instant) (id : Id) (j : Job) : Txn (Option ClaimedJob) := do
  enterRunningIndex id j
  let token ← Tx.nextSerial
  Tx.update (·.modifyJob id (Job.started now token))
  pure (some (j.claimed id token))

def claim (P : Platform) (now : Instant) : Txn (Option ClaimedJob) := do
  let s ← Tx.snapshot
  let row ← pickQueued s s.claimQueue
  match row with
  | none => pure none
  | some (id, j) =>
      if j.kind = .release then do
        -- serialize the address through the re-check, not merely through the snapshot
        Tx.acquire (.address (P.hashtextextended j.targetIp))
        let latest ← Tx.snapshot
        if latest.blockedBy j.targetIp (some id) then pure none
        else startJob now id j
      else startJob now id j

/-! ## checkpoint and heartbeat -/

/-- The columns a checkpoint may set besides status and phase (`allowed`). -/
structure Changes where
  beforeState : Option Observation := none
  afterState : Option Observation := none
  result : Option JobResult := none
  rawBeforeOutput : Option String := none
  rawReleaseOutput : Option String := none
  rawAfterOutput : Option String := none
  errorMessage : Option String := none
  deriving DecidableEq, Repr

/-- The arguments of a checkpoint.  No call site passes `queued`. -/
structure Checkpoint where
  phase : Phase
  status : Status
  message : Option String := none
  changes : Changes := {}
  status_ne : status ≠ .queued := by decide
  deriving DecidableEq

/-- A job as its executor knows it. -/
structure JobRef where
  id : Id
  leaseToken : Id
  deriving DecidableEq, Repr

/-- The columns a checkpoint sets.

A checkpoint that leaves the row running extends the lease, and any other gives it up.  A change
that is not supplied leaves its column as it is. -/
def Job.checkpointed (now : Instant) (c : Checkpoint) (j : Job) : Job :=
  { j with
    phase := c.phase
    status := c.status
    updatedAt := now
    leaseUntil := if c.status = .running then some (now + leaseInterval) else none
    leaseToken := if c.status = .running then j.leaseToken else none
    finishedAt :=
      if c.status = .running ∨ c.status = .waitingConfirmation then none else some now
    beforeState := c.changes.beforeState <|> j.beforeState
    afterState := c.changes.afterState <|> j.afterState
    result := c.changes.result.getD j.result
    rawBeforeOutput := c.changes.rawBeforeOutput <|> j.rawBeforeOutput
    rawReleaseOutput := c.changes.rawReleaseOutput <|> j.rawReleaseOutput
    rawAfterOutput := c.changes.rawAfterOutput <|> j.rawAfterOutput
    errorMessage := c.changes.errorMessage <|> j.errorMessage }

def checkpoint (now : Instant) (job : JobRef) (c : Checkpoint) : Txn PUnit := do
  -- a stale executor cannot overwrite a job whose lease has been revoked
  let row ← updateJobs (fun _ => [job.id]) (Job.holds job.leaseToken now)
    (Job.checkpointed now c)
  Tx.require (!row.isEmpty) .leaseLost
  insertEvent now job.id c.phase c.status c.message none

/-- The column `heartbeat` sets. -/
def Job.extended (now : Instant) (j : Job) : Job :=
  { j with leaseUntil := some (now + leaseInterval) }

/-- One tick of `heartbeat`: the number in `UPDATE n`. -/
def heartbeat (now : Instant) (job : JobRef) : Txn ℕ := do
  let row ← updateJobs (fun _ => [job.id]) (Job.holds job.leaseToken now) (Job.extended now)
  pure row.length

/-! ## load_dependencies -/

/-- The columns `load_dependencies` selects. -/
structure Dependencies where
  managementIp : Cell
  isEnabled : Bool
  switchVersion : ℕ
  profileVersion : ℕ
  vendor : Cell
  protocol : Cell
  port : Cell
  username : Cell
  encryptedPassword : Cell
  encryptedSecret : Cell
  credentialActive : Bool
  profileActive : Bool
  loginPromptPatterns : Cell
  commandTemplates : Cell
  promptPatterns : Cell
  paginationRules : Cell
  successPatterns : Cell
  errorPatterns : Cell
  parserRules : Cell
  deriving DecidableEq, Repr

/-- The select list. -/
def Joined.dependencies (r : Joined) : Dependencies where
  managementIp := r.switch.cell .managementIp
  isEnabled := r.switch.flag .isEnabled
  switchVersion := r.switch.version
  profileVersion := r.profile.version
  vendor := r.switch.cell .vendor
  protocol := r.switch.cell .protocol
  port := r.switch.cell .port
  username := r.credential.cell .username
  encryptedPassword := r.credential.cell .encryptedPassword
  encryptedSecret := r.credential.cell .encryptedSecret
  credentialActive := r.credential.flag .isActive
  profileActive := r.profile.flag .isActive
  loginPromptPatterns := r.profile.cell .loginPromptPatterns
  commandTemplates := r.profile.cell .commandTemplates
  promptPatterns := r.profile.cell .promptPatterns
  paginationRules := r.profile.cell .paginationRules
  successPatterns := r.profile.cell .successPatterns
  errorPatterns := r.profile.cell .errorPatterns
  parserRules := r.profile.cell .parserRules

/-- `load_dependencies`: one statement, so one snapshot of all three rows. -/
def loadDependencies (switchId commandProfileId : Id) : Txn (Option Dependencies) := do
  let s ← Tx.snapshot
  pure (((s.usableSwitch switchId).filter (·.profileId = commandProfileId)).map
    Joined.dependencies)

end BindPlane
