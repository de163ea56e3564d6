import BindPlane.ReadCommitted.Contract
import Mathlib.Data.List.AList
import Mathlib.Algebra.Group.Nat.Defs

/-!
# The release store

The tables the release queue lives in, as the migrations lay them out: jobs with
their lease, the append-only event log, and the versioned assets a job is pinned to
(credentials, command profiles, switches, networks).

* A **job** row keeps all of its columns.  The columns `pinnedColumns` copies from the
  switch and its profile are one record, `Pins`, so that copying them is one
  assignment here as it is one column list there.
* An **asset** row is its version and its editable cells.  The edit of an asset is
  generic over the table, as `updateAuditedThen` is, and the typed readers
  (`Asset.flag`, `Asset.ref?`) are what the queries select.
* `Job.blocking` is the predicate of the address barrier: a release that is running
  or uncertain.

Identifiers (uuids and identity columns) are numbers drawn from one sequence, and
times are microseconds.

**What is kept of the schema.**  Primary keys, the partial unique index on running releases and the
unique index on the preparation are part of the operations that insert or update rows: a violation
is a failure of the statement, as it is in PostgreSQL.  No row is ever deleted here, so that a
reference stays good once it was.

**Source.**  What is modelled here is in `backend/bind_plane/services/command_profiles.py`,
`internal/release/http.go` and `internal/release/store.go`.
-/

namespace BindPlane

open ReadCommitted

/-- A uuid or an identity column's value. -/
abbrev Id := ℕ

/-- `timestamptz`, in microseconds. -/
abbrev Instant := ℕ

/-- An `inet` of family 4. -/
abbrev IPv4 := BitVec 32

/-- `interval '90 seconds'`. -/
def leaseInterval : ℕ := 90000000

inductive Kind
  | preReleaseQuery
  | release
  deriving DecidableEq, Repr

inductive Status
  | queued
  | running
  | waitingConfirmation
  | succeeded
  | failed
  | timeout
  | needsManualConfirmation
  | cancelled
  deriving DecidableEq, Repr

inductive Phase
  | queued
  | connecting
  | queryingBefore
  | releasing
  | queryingAfter
  | classifying
  | waitingConfirmation
  | finished
  deriving DecidableEq, Repr

/-- `ArpEntryType`. -/
inductive EntryType
  | static
  | dynamic
  | missing
  | unknown
  deriving DecidableEq, Repr

/-- `observation_to_dict`: what a job row keeps of an observation. -/
structure Observation where
  targetIp : IPv4
  entryType : EntryType
  mac : Option String
  deriving DecidableEq, Repr

/-- The `result` column. -/
inductive JobResult
  /-- The column default `{}`. -/
  | empty
  /-- `selectionJSON`: how the address was resolved. -/
  | selection (networkId : Option Id) (cidr : String)
  /-- What a pre-query decided. -/
  | preparation (preparationStatus : String)
  /-- `{"message": …, **details}` of a classified release. -/
  | classified (message : String) (afterState : Observation)
      (successPatternMatched : Option Bool)
  deriving DecidableEq, Repr

/-- `pinnedColumns`: the switch and profile revision a job was made for. -/
structure Pins where
  switchId : Id
  commandProfileId : Id
  switchVersion : ℕ
  commandProfileVersion : ℕ
  switchName : String
  switchManagementIp : String
  deriving DecidableEq, Repr

/-- A row of `bp_release_jobs`.

The row is kept with all of its columns, although most results look at a few of them only: an
operation that copies or overwrites a column by mistake would otherwise not be seen. -/
structure Job where
  targetIp : IPv4
  kind : Kind
  reason : String
  ticketId : Option String
  force : Bool
  status : Status
  phase : Phase
  /-- `none` is the column default `{}`. -/
  beforeState : Option Observation
  afterState : Option Observation
  result : JobResult
  rawBeforeOutput : Option String
  rawReleaseOutput : Option String
  rawAfterOutput : Option String
  errorMessage : Option String
  actorId : Id
  actorEmail : String
  pins : Pins
  resolvedNetworkId : Option Id
  retryOfId : Option Id
  preparationJobId : Option Id
  leaseToken : Option Id
  leaseUntil : Option Instant
  createdAt : Instant
  updatedAt : Instant
  startedAt : Option Instant
  finishedAt : Option Instant
  deriving DecidableEq, Repr

namespace Job

/-- `status IN ('running','needs_manual_confirmation')`. -/
def occupied (j : Job) : Bool :=
  j.status = .running || j.status = .needsManualConfirmation

/-- The address barrier: a release that is running or uncertain. -/
def blocking (j : Job) : Bool := j.kind = .release && j.occupied

/-- `status='running' AND lease_until<now()`. -/
def expired (now : Instant) (j : Job) : Bool :=
  j.status = .running && j.leaseUntil.any (· < now)

/-- `lease_token=$2 AND status='running' AND lease_until>now()`. -/
def holds (token : Id) (now : Instant) (j : Job) : Bool :=
  j.leaseToken = some token && j.status = .running && j.leaseUntil.any (now < ·)

/-- The `entry_type` of `before_state`; absent under the column default. -/
def entryType (j : Job) : Option EntryType := j.beforeState.map Observation.entryType

end Job

/-- A row of `bp_release_events`. -/
structure JobEvent where
  id : Id
  jobId : Id
  phase : Phase
  status : Status
  message : Option String
  /-- `payload ->> 'retry_of_id'`. -/
  retryOfId : Option Id
  createdAt : Instant
  deriving DecidableEq, Repr

/-! ## Assets -/

/-- The versioned asset tables the release path reads. -/
inductive AssetTable
  | credentials
  | commandProfiles
  | switches
  | networks
  deriving DecidableEq, Repr

/-- The editable columns of all of them. -/
inductive Column
  | name | username | description | isActive | encryptedPassword | encryptedSecret
  | loginPromptPatterns | commandTemplates | promptPatterns | paginationRules
  | successPatterns | errorPatterns | parserRules
  | managementIp | credentialId | commandProfileId | isEnabled | vendor | model | site
  | groupId | protocol | port
  | switchId | cidr | isValidated | vlan
  deriving DecidableEq, Repr

/-- A prefix as `netip.ParsePrefix` reads it off a `cidr` column. -/
inductive Cidr
  | v4 (addr : IPv4) (bits : Fin 33)
  | v6 (text : String)
  deriving DecidableEq, Repr

/-- The value of a column. -/
inductive Cell
  | null
  | text (s : String)
  | int (n : ℤ)
  | bool (b : Bool)
  /-- A `jsonb` value, by its text. -/
  | json (s : String)
  | ref (id : Id)
  | cidr (c : Cidr)
  deriving DecidableEq, Repr

/-- A row of an asset table. -/
structure Asset where
  version : ℕ
  cell : Column → Cell

namespace Asset

/-- A boolean column. -/
def flag (a : Asset) (c : Column) : Bool := a.cell c = .bool true

/-- A foreign key. -/
def ref? (a : Asset) (c : Column) : Option Id :=
  match a.cell c with
  | .ref id => some id
  | _ => none

/-- A text column. -/
def text (a : Asset) (c : Column) : String :=
  match a.cell c with
  | .text s | .json s => s
  | _ => ""

end Asset

/-- What the audit record says of one changed column: secrets never enter it. -/
inductive AuditChange
  | fromTo (old new : Cell)
  | cleared
  | replaced
  deriving DecidableEq, Repr

/-- A row of `bp_asset_events`, the audit record of an edit. -/
structure AssetEvent where
  actorId : Id
  actorEmail : String
  action : String
  objectId : Id
  objectName : Cell
  changes : List (Column × AuditChange)
  deriving DecidableEq, Repr

/-! ## The store -/

/-- The tables. -/
structure Db where
  jobs : AList (fun _ : Id => Job)
  events : List JobEvent
  assets : AssetTable → AList (fun _ : Id => Asset)
  assetEvents : List AssetEvent

namespace Db

/-- A freshly migrated store. -/
def empty : Db := ⟨∅, [], fun _ => ∅, []⟩

/-- The job with a given primary key. -/
def job? (d : Db) (id : Id) : Option Job := d.jobs.lookup id

/-- All jobs with their keys. -/
def jobRows (d : Db) : List (Id × Job) := d.jobs.entries.map fun e => (e.1, e.2)

/-- Insert or overwrite one job row. -/
def putJob (d : Db) (id : Id) (j : Job) : Db := { d with jobs := d.jobs.insert id j }

/-- Set columns of one job row, if it is there. -/
def modifyJob (d : Db) (id : Id) (f : Job → Job) : Db :=
  match d.job? id with
  | some j => d.putJob id (f j)
  | none => d

/-- Set columns of several job rows. -/
def modifyJobs (d : Db) (ids : List Id) (f : Job → Job) : Db :=
  ids.foldl (fun d id => d.modifyJob id f) d

/-- Append to the event log. -/
def addEvent (d : Db) (e : JobEvent) : Db := { d with events := e :: d.events }

/-- The event log of one job. -/
def eventsOf (d : Db) (id : Id) : List JobEvent := d.events.filter (·.jobId = id)

/-- An asset by its primary key. -/
def asset? (d : Db) (t : AssetTable) (id : Id) : Option Asset := (d.assets t).lookup id

/-- All rows of an asset table. -/
def assetRows (d : Db) (t : AssetTable) : List (Id × Asset) :=
  (d.assets t).entries.map fun e => (e.1, e.2)

/-- Insert or overwrite one asset row. -/
def putAsset (d : Db) (t : AssetTable) (id : Id) (a : Asset) : Db :=
  { d with assets := Function.update d.assets t ((d.assets t).insert id a) }

/-- Set columns of one asset row, if it is there. -/
def modifyAsset (d : Db) (t : AssetTable) (id : Id) (f : Asset → Asset) : Db :=
  match d.asset? t id with
  | some a => d.putAsset t id (f a)
  | none => d

/-- Append to the audit log. -/
def addAssetEvent (d : Db) (e : AssetEvent) : Db :=
  { d with assetEvents := e :: d.assetEvents }

/-- A release on `ip` that is running or uncertain, other than the job `except`. -/
def blockedBy (d : Db) (ip : IPv4) (except : Option Id) : Bool :=
  d.jobRows.any fun r => r.2.targetIp = ip && some r.1 ≠ except && r.2.blocking

/-- `WHERE preparation_job_id=$1`; the column is unique. -/
def releaseOf (d : Db) (preparation : Id) : Option (Id × Job) :=
  d.jobRows.find? fun r => r.2.preparationJobId = some preparation

/-! ### Reading back what was written -/

@[simp] theorem mem_jobRows {d : Db} {id : Id} {j : Job} :
    (id, j) ∈ d.jobRows ↔ d.job? id = some j := by
  simp only [jobRows, List.mem_map, Prod.mk.injEq, job?]
  constructor
  · rintro ⟨⟨a, b⟩, h, rfl, rfl⟩
    exact AList.mem_lookup_iff.mpr h
  · intro h
    exact ⟨⟨id, j⟩, AList.mem_lookup_iff.mp h, rfl, rfl⟩

theorem job?_putJob (d : Db) (id id' : Id) (j : Job) :
    (d.putJob id j).job? id' = if id' = id then some j else d.job? id' := by
  simp only [putJob, job?]
  split
  · next h => rw [h, AList.lookup_insert]
  · next h => rw [AList.lookup_insert_ne h]

@[simp] theorem job?_putJob_self (d : Db) (id : Id) (j : Job) :
    (d.putJob id j).job? id = some j := by simp [job?_putJob]

theorem job?_modifyJob (d : Db) (id id' : Id) (f : Job → Job) :
    (d.modifyJob id f).job? id' =
      if id' = id then (d.job? id').map f else d.job? id' := by
  unfold modifyJob
  by_cases h : id' = id
  · subst h
    cases hj : d.job? id' with
    | none => simp [hj]
    | some j => simp
  · cases hj : d.job? id with
    | none => simp [h]
    | some j => simp [job?_putJob, h]

theorem job?_modifyJobs (d : Db) {ids : List Id} (hids : ids.Nodup) (id : Id)
    (f : Job → Job) :
    (d.modifyJobs ids f).job? id = if id ∈ ids then (d.job? id).map f else d.job? id := by
  unfold modifyJobs
  induction ids generalizing d with
  | nil => simp
  | cons i ids ih =>
      obtain ⟨hi, hids⟩ := List.nodup_cons.mp hids
      rw [List.foldl_cons, ih _ hids, job?_modifyJob]
      by_cases h : id = i
      · subst h
        simp [hi]
      · simp [h]

@[simp] theorem job?_addEvent (d : Db) (e : JobEvent) (id : Id) :
    (d.addEvent e).job? id = d.job? id := rfl
@[simp] theorem job?_putAsset (d : Db) (t : AssetTable) (i id : Id) (a : Asset) :
    (d.putAsset t i a).job? id = d.job? id := rfl
@[simp] theorem job?_addAssetEvent (d : Db) (e : AssetEvent) (id : Id) :
    (d.addAssetEvent e).job? id = d.job? id := rfl

@[simp] theorem events_putJob (d : Db) (id : Id) (j : Job) :
    (d.putJob id j).events = d.events := rfl
@[simp] theorem events_addEvent (d : Db) (e : JobEvent) :
    (d.addEvent e).events = e :: d.events := rfl
@[simp] theorem events_putAsset (d : Db) (t : AssetTable) (i : Id) (a : Asset) :
    (d.putAsset t i a).events = d.events := rfl
@[simp] theorem events_addAssetEvent (d : Db) (e : AssetEvent) :
    (d.addAssetEvent e).events = d.events := rfl
@[simp] theorem events_modifyJob (d : Db) (id : Id) (f : Job → Job) :
    (d.modifyJob id f).events = d.events := by
  unfold modifyJob
  split <;> rfl

@[simp] theorem asset?_addEvent (d : Db) (e : JobEvent) (t : AssetTable) (id : Id) :
    (d.addEvent e).asset? t id = d.asset? t id := rfl
@[simp] theorem asset?_putJob (d : Db) (i : Id) (j : Job) (t : AssetTable) (id : Id) :
    (d.putJob i j).asset? t id = d.asset? t id := rfl
@[simp] theorem asset?_addAssetEvent (d : Db) (e : AssetEvent) (t : AssetTable) (id : Id) :
    (d.addAssetEvent e).asset? t id = d.asset? t id := rfl
@[simp] theorem assets_modifyJob (d : Db) (i : Id) (f : Job → Job) :
    (d.modifyJob i f).assets = d.assets := by
  unfold modifyJob
  split <;> rfl

theorem modifyJobs_events (d : Db) (ids : List Id) (f : Job → Job) :
    (d.modifyJobs ids f).events = d.events := by
  unfold modifyJobs
  induction ids generalizing d with
  | nil => rfl
  | cons i ids ih => rw [List.foldl_cons, ih, events_modifyJob]

theorem modifyJobs_assets (d : Db) (ids : List Id) (f : Job → Job) :
    (d.modifyJobs ids f).assets = d.assets := by
  unfold modifyJobs
  induction ids generalizing d with
  | nil => rfl
  | cons i ids ih => rw [List.foldl_cons, ih, assets_modifyJob]

theorem asset?_putAsset (d : Db) (t t' : AssetTable) (id id' : Id) (a : Asset) :
    (d.putAsset t id a).asset? t' id' =
      if t' = t ∧ id' = id then some a else d.asset? t' id' := by
  simp only [putAsset, asset?]
  by_cases ht : t' = t
  · subst ht
    by_cases hid : id' = id
    · subst hid
      simp
    · simp [hid]
  · simp [ht]

theorem asset?_modifyAsset (d : Db) (t t' : AssetTable) (id id' : Id) (f : Asset → Asset) :
    (d.modifyAsset t id f).asset? t' id' =
      if t' = t ∧ id' = id then (d.asset? t' id').map f else d.asset? t' id' := by
  unfold modifyAsset
  by_cases h : t' = t ∧ id' = id
  · obtain ⟨rfl, rfl⟩ := h
    cases ha : d.asset? t' id' with
    | none => simp [ha]
    | some a => simp [asset?_putAsset]
  · cases ha : d.asset? t id with
    | none => simp [h]
    | some a => simp [asset?_putAsset, h]

@[simp] theorem job?_modifyAsset (d : Db) (t : AssetTable) (i id : Id) (f : Asset → Asset) :
    (d.modifyAsset t i f).job? id = d.job? id := by
  unfold modifyAsset
  split <;> rfl

@[simp] theorem events_modifyAsset (d : Db) (t : AssetTable) (i : Id) (f : Asset → Asset) :
    (d.modifyAsset t i f).events = d.events := by
  unfold modifyAsset
  split <;> rfl

theorem blockedBy_eq_true {d : Db} {ip : IPv4} {except : Option Id} :
    d.blockedBy ip except = true ↔
      ∃ id j, d.job? id = some j ∧ j.targetIp = ip ∧ some id ≠ except ∧ j.blocking := by
  simp only [blockedBy, List.any_eq_true, Prod.exists, mem_jobRows, Bool.and_eq_true,
    decide_eq_true_eq, and_assoc]

theorem blockedBy_eq_false {d : Db} {ip : IPv4} {except : Option Id} :
    d.blockedBy ip except = false ↔
      ∀ id j, d.job? id = some j → j.targetIp = ip → some id ≠ except →
        j.blocking = false := by
  rw [Bool.eq_false_iff, Ne, blockedBy_eq_true]
  push Not
  simp only [Bool.not_eq_true]

theorem releaseOf_eq_none {d : Db} {p : Id} :
    d.releaseOf p = none ↔ ∀ id j, d.job? id = some j → j.preparationJobId ≠ some p := by
  simp only [releaseOf, List.find?_eq_none, Prod.forall, mem_jobRows, decide_eq_true_eq]

theorem releaseOf_eq_some {d : Db} {p id : Id} {j : Job} (h : d.releaseOf p = some (id, j)) :
    d.job? id = some j ∧ j.preparationJobId = some p := by
  have hmem := List.mem_of_find?_eq_some h
  have hp := List.find?_some h
  exact ⟨mem_jobRows.mp hmem, by simpa using hp⟩

end Db

end BindPlane
