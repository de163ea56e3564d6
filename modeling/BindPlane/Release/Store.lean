import BindPlane.Release.Resolution

/-!
# Prepare, Confirm and Retry

The three API operations that insert jobs, from the HTTP handler down to the store,
each as one transaction program.  `Principal` is who the session belongs to when the
request is served: it is read once per request, so a later change of roles does not
reach a request already admitted.

A statement is a snapshot followed by a decision on it; `SELECT … FOR UPDATE` waits
for the row lock and reads the row again behind it.

**Source.**  What is modelled here is in `internal/release/decision.go`, `internal/release/http.go`,
`internal/release/retry.go` and `internal/release/store.go`.
-/

namespace BindPlane

open ReadCommitted

/-- What the transactions lock. -/
inductive Key
  /-- A row of `bp_release_jobs`. -/
  | job (id : Id)
  /-- A row of an asset table. -/
  | asset (table : AssetTable) (id : Id)
  /-- `pg_advisory_xact_lock`. -/
  | address (hash : ℤ)
  /-- An entry of the partial unique index `bp_one_running_release_per_ip`. -/
  | runningRelease (ip : IPv4)
  /-- An entry of the unique index on `preparation_job_id`. -/
  | preparation (id : Id)
  deriving DecidableEq, Repr

/-- A transaction on the release store. -/
abbrev Txn := Tx Db Key Failure

/-! ## Statements -/

/-- `SELECT … FROM bp_release_jobs WHERE id=$1 FOR UPDATE`. -/
def selectJobForUpdate (id : Id) : Txn (Option Job) := do
  let before ← Tx.snapshot
  match before.job? id with
  | none => pure none
  | some _ => do
      Tx.acquire (.job id)
      let latest ← Tx.snapshot
      pure (latest.job? id)

/-- `INSERT INTO bp_release_jobs … RETURNING id` of a row without a preparation. -/
def insertJob (j : Job) : Txn Id := do
  let id ← Tx.nextSerial
  Tx.update (·.putJob id j)
  pure id

/-- `INSERT INTO bp_release_events`. -/
def insertEvent (now : Instant) (jobId : Id) (phase : Phase) (status : Status)
    (message : Option String) (retryOfId : Option Id) : Txn PUnit := do
  let id ← Tx.nextSerial
  Tx.update (·.addEvent ⟨id, jobId, phase, status, message, retryOfId, now⟩)

/-! ## Requests -/

/-- A text in the place of a uuid. -/
inductive UuidText
  | empty
  /-- Not a canonical uuid. -/
  | malformed
  | canonical (id : Id)
  deriving DecidableEq, Repr

/-- `domain.IsCanonicalUUID`, and the uuid it is. -/
def UuidText.id? : UuidText → Option Id
  | canonical id => some id
  | _ => none

/-- The signed-in user of a request. -/
structure Principal where
  userId : Id
  email : String
  superAdmin : Bool
  roles : List String
  deriving DecidableEq, Repr

namespace Principal

/-- `admin` as `handler.principal` computes it. -/
def admin (p : Principal) : Bool := p.superAdmin || p.roles.contains "Admin"

/-- `operator` as `handler.principal` computes it. -/
def operator (p : Principal) : Bool := p.admin || p.roles.contains "Operator"

end Principal

structure PrepareInput where
  targetIp : String
  reason : String
  force : Bool
  selectedSwitchId : UuidText
  deriving DecidableEq, Repr

structure ConfirmInput where
  preparationJobId : UuidText
  force : Bool
  deriving DecidableEq, Repr

structure ResolvedSwitch where
  switchId : Id
  networkId : Option Id
  cidr : String
  name : String
  managementIp : String
  deriving DecidableEq, Repr

structure Preparation where
  preparationJobId : Option Id
  status : String
  targetIp : String
  resolvedSwitch : Option ResolvedSwitch
  force : Bool
  reason : String
  deriving DecidableEq, Repr

/-- The fields of the reply's `Job` that `Confirm` and `Retry` fill. -/
structure JobReply where
  id : Id
  targetIp : IPv4
  switchId : Id
  switchName : Option String
  switchManagementIp : Option String
  kind : Kind
  status : Status
  phase : Phase
  reason : String
  force : Bool
  deriving DecidableEq, Repr

/-- `ValidReason`. -/
def validReason (value : String) : Bool :=
  ["temporary_test", "user_report", "ip_mac_change", "wrong_binding_fix",
    "security_response", "other"].contains value

/-- `CanConfirmRelease`. -/
def canConfirmRelease (before : Option EntryType) (force admin : Bool) : Bool :=
  if before = some .static then !force else before = some .missing && force && admin

/-- A row as `INSERT` leaves the columns it does not name. -/
def Job.blank (now : Instant) (targetIp : IPv4) (kind : Kind) (reason : String)
    (force : Bool) (actorId : Id) (actorEmail : String) (pins : Pins) : Job where
  targetIp := targetIp
  kind := kind
  reason := reason
  ticketId := none
  force := force
  status := .queued
  phase := .queued
  beforeState := none
  afterState := none
  result := .empty
  rawBeforeOutput := none
  rawReleaseOutput := none
  rawAfterOutput := none
  errorMessage := none
  actorId := actorId
  actorEmail := actorEmail
  pins := pins
  resolvedNetworkId := none
  retryOfId := none
  preparationJobId := none
  leaseToken := none
  leaseUntil := none
  createdAt := now
  updatedAt := now
  startedAt := none
  finishedAt := none

/-! ## Prepare -/

/-- How `Prepare` settled on a switch: the network, if an administrator did not. -/
structure Selection where
  switchId : Id
  networkId : Option Id
  cidr : String

/-- The row `Prepare` inserts. -/
def preparationJob (now : Instant) (p : Principal) (input : PrepareInput) (ip : IPv4)
    (selected : Selection) (r : Joined) : Job :=
  { Job.blank now ip .preReleaseQuery input.reason input.force p.userId p.email r.pins with
    result := .selection selected.networkId selected.cidr
    resolvedNetworkId := selected.networkId }

/-- The transaction of `Prepare`: insert from the switch if it is still usable. -/
def insertPreparation (now : Instant) (p : Principal) (input : PrepareInput) (ip : IPv4)
    (selected : Selection) : Txn Preparation := do
  let s ← Tx.snapshot
  let r ← Tx.expect ((s.usableSwitch selected.switchId).filter Joined.usable) .assetChanged
  let id ← insertJob (preparationJob now p input ip selected r)
  insertEvent now id .queued .queued (some "Pre-release query queued") none
  pure ⟨some id, "query_queued", input.targetIp,
    some ⟨selected.switchId, selected.networkId, selected.cidr, r.pins.switchName,
      r.pins.switchManagementIp⟩, input.force, input.reason⟩

/-- An early stop of `Prepare`: nothing is inserted. -/
def stoppedPreparation (input : PrepareInput) (status : String) : Preparation :=
  ⟨none, status, input.targetIp, none, input.force, input.reason⟩

/-- `SQLStore.Prepare`.

Two failures of the resolver are no errors of the request: they come back as a stopped preparation,
and no row is written.  An administrator may name a switch where no network answers for the address;
the request is then pinned to that switch and to no network. -/
def storePrepare (now : Instant) (p : Principal) (input : PrepareInput) :
    Txn Preparation := do
  Tx.require (validReason input.reason) .conflict
  let ip ← Tx.expect (parseAddr input.targetIp) .invalidIp
  let s ← Tx.snapshot
  match networkOf ip s.activeNetworks with
  | .error .ambiguous => pure (stoppedPreparation input "stopped_ambiguous_switch")
  | .error .noSwitch =>
      if input.selectedSwitchId ≠ .empty && input.force && p.admin then do
        -- an administrator's explicit choice is not re-resolved later
        let switchId ← Tx.expect input.selectedSwitchId.id? .database
        let s ← Tx.snapshot
        Tx.require ((s.usableSwitch switchId).any Joined.usable) .noSwitch
        insertPreparation now p input ip ⟨switchId, none, ""⟩
      else pure (stoppedPreparation input "stopped_no_switch")
  | .error e => Tx.raise e
  | .ok network => do
      Tx.require (input.selectedSwitchId = .empty) .conflict
      insertPreparation now p input ip ⟨network.switchId, some network.id, network.cidr.text⟩

/-- `handler.prepare`. -/
def prepare (now : Instant) (p : Principal) (input : PrepareInput) : Txn Preparation := do
  Tx.require p.operator (.forbidden "operator role required")
  Tx.require (!(input.force && !p.admin ||
      input.selectedSwitchId ≠ .empty && (!p.admin || !input.force)))
    (.forbidden "admin force required")
  Tx.require (validReason input.reason) (.unprocessable "release reason required")
  Tx.require (parseAddr input.targetIp).isSome
    (.unprocessable "one IPv4 address is required")
  storePrepare now p input

/-! ## Confirm -/

/-- `pinnedSwitchCurrent`: the pinned revision still applies to the address. -/
def pinnedSwitchCurrent (ip : IPv4) (pins : Pins) (resolvedNetwork : Option Id) :
    Txn PUnit := do
  let s ← Tx.snapshot
  Tx.require (s.pinsCurrent pins) .assetChanged
  if resolvedNetwork.isSome then do
    let s ← Tx.snapshot
    Tx.require (match networkOf ip s.activeNetworks with
      | .ok selected => selected.switchId = pins.switchId
      | .error _ => false) .assetChanged
  else pure ⟨⟩

/-- The row `Confirm` inserts: a copy of the preparation under its own kind and force. -/
def Job.release (prep : Job) (now : Instant) (force : Bool) (preparationJobId : Id) : Job :=
  { Job.blank now prep.targetIp .release prep.reason force prep.actorId prep.actorEmail
      prep.pins with
    beforeState := prep.beforeState
    resolvedNetworkId := prep.resolvedNetworkId
    preparationJobId := some preparationJobId }

/-- `INSERT INTO bp_release_jobs … SELECT … FROM bp_release_jobs WHERE id=$2`, held up
by the unique index on `preparation_job_id`. -/
def insertRelease (now : Instant) (force : Bool) (preparationJobId : Id) : Txn Id := do
  let s ← Tx.snapshot
  let prep ← Tx.expect (s.job? preparationJobId) .database
  Tx.acquire (.preparation preparationJobId)
  let latest ← Tx.snapshot
  Tx.require (latest.releaseOf preparationJobId).isNone .uniqueViolation
  insertJob (prep.release now force preparationJobId)

/-- What the locked preparation must allow before anything else is looked at. -/
def Job.confirmable (prep : Job) (force admin : Bool) : Bool :=
  prep.kind = .preReleaseQuery &&
    (prep.status = .waitingConfirmation ||
      prep.status = .cancelled && prep.entryType = some .missing) &&
    canConfirmRelease prep.entryType force admin

/-- The reply of `Confirm`. -/
def confirmReply (prep : Job) (id : Id) (status : Status) (phase : Phase) (force : Bool) :
    JobReply :=
  ⟨id, prep.targetIp, prep.pins.switchId, none, none, .release, status, phase, prep.reason,
    force⟩

/-- `SQLStore.Confirm`.

The row of the pre-query is locked throughout, so two confirmations of it come one after the other.
The second finds the release that the first has inserted, and answers with it if it asks for the
same `force`; only the first looks for a release that blocks the address, and at the switch again.
-/
def storeConfirm (now : Instant) (p : Principal) (input : ConfirmInput) : Txn JobReply := do
  let prepId ← Tx.expect input.preparationJobId.id? .notFound
  let found ← selectJobForUpdate prepId
  let prep ← Tx.expect found .notFound
  Tx.require (prep.actorId = p.userId) .notFound
  Tx.require (prep.confirmable input.force p.admin) .conflict
  Tx.require (!(!prep.force && input.force && prep.entryType ≠ some .missing)) .conflict
  let s ← Tx.snapshot
  match s.releaseOf prepId with
  | some (existing, row) => do
      Tx.require (row.force = input.force) .conflict
      pure (confirmReply prep existing row.status row.phase row.force)
  | none => do
      let s ← Tx.snapshot
      Tx.require (!s.blockedBy prep.targetIp none) .conflict
      pinnedSwitchCurrent prep.targetIp prep.pins prep.resolvedNetworkId
      let id ← insertRelease now input.force prepId
      insertEvent now id .queued .queued (some "Release confirmed and queued") none
      pure (confirmReply prep id .queued .queued input.force)

/-- `handler.confirm`. -/
def confirm (now : Instant) (p : Principal) (input : ConfirmInput) : Txn JobReply := do
  Tx.require p.operator (.forbidden "operator role required")
  Tx.require (input.preparationJobId ≠ .empty) (.badRequest "preparation job required")
  Tx.require (!(input.force && !p.admin)) (.forbidden "admin force required")
  storeConfirm now p input

/-! ## Retry -/

/-- The row `Retry` inserts: a fresh pre-query against the current revision. -/
def Job.retry (original : Job) (now : Instant) (p : Principal) (originalId : Id)
    (resolvedNetworkId : Option Id) (r : Joined) : Job :=
  { Job.blank now original.targetIp .preReleaseQuery original.reason original.force
      p.userId p.email r.pins with
    ticketId := original.ticketId
    retryOfId := some originalId
    resolvedNetworkId := resolvedNetworkId }

/-- An auto-resolved target is resolved again; an explicit switch is kept. -/
def resolveAgain (original : Job) : Txn (Id × Option Id) := do
  if original.resolvedNetworkId.isSome then do
    let s ← Tx.snapshot
    match networkOf original.targetIp s.activeNetworks with
    | .error e => Tx.raise e
    | .ok selected => pure (selected.switchId, some selected.id)
  else pure (original.pins.switchId, none)

/-- `SQLStore.Retry`.

A retry is a new pre-query on a row of its own.  It carries the reason and the `force` of the
original over and resolves the address again, but takes nothing that the original has observed. -/
def storeRetry (now : Instant) (p : Principal) (original : UuidText) : Txn JobReply := do
  let originalId ← Tx.expect original.id? .notFound
  let found ← selectJobForUpdate originalId
  let job ← Tx.expect found .notFound
  Tx.require (p.admin || job.actorId = p.userId) .notFound
  Tx.require (!(job.force && !p.admin)) .conflict
  Tx.require (job.status = .failed || job.status = .timeout ||
    job.status = .needsManualConfirmation) .conflict
  let target ← resolveAgain job
  let s ← Tx.snapshot
  let row ← Tx.expect (s.job? originalId) .assetChanged
  let r ← Tx.expect ((s.usableSwitch target.1).filter Joined.usable) .assetChanged
  let id ← insertJob (row.retry now p originalId target.2 r)
  insertEvent now id .queued .queued (some "Retry begins with a fresh pre-query")
    (some originalId)
  pure ⟨id, job.targetIp, target.1, some r.pins.switchName, some r.pins.switchManagementIp,
    .preReleaseQuery, .queued, .queued, row.reason, job.force⟩

/-- `handler.retry`. -/
def retry (now : Instant) (p : Principal) (original : UuidText) : Txn JobReply := do
  Tx.require p.operator (.forbidden "operator role required")
  storeRetry now p original

end BindPlane
