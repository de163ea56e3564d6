import BindPlane.Devices.Cron
import BindPlane.ReadCommitted.Table

/-!
# The device store

The tables of the device operations: switch groups and the switches with their status
columns, schedules, task runs with one item for each device, configuration versions and
alerts.

The item of a task is leased to one executor, which knows its token from the `claim` that
returned it; `Db.handed` is what the claims that committed have returned.  The two clocks
are the database's, which `now()` reads, and the one the API processes share, which
`time.Now()` reads.

**Pending.**  An item is pending as long as it is queued or running, and the partial unique index
lets a switch have one pending item of a kind.  An alert is unresolved as long as it is open or
acknowledged, and the index lets a key have one such alert.
-/

namespace BindPlane.Devices

open ReadCommitted

/-- `config_backup` and `reachability`. -/
inductive TaskKind
  | configBackup
  | reachability
  deriving DecidableEq, Repr

inductive ItemStatus
  | queued
  | running
  | succeeded
  | failed
  | skipped
  deriving DecidableEq, Repr

inductive AlertKind
  | deviceUnreachable
  | backupFailed
  | complianceViolation
  deriving DecidableEq, Repr

inductive Severity
  | info
  | warning
  | critical
  deriving DecidableEq, Repr

inductive AlertStatus
  | opened
  | acknowledged
  | resolved
  deriving DecidableEq, Repr

/-- The texts of the `dedupe_key` column. -/
inductive DedupeKey
  /-- `device_unreachable:<switch>`. -/
  | deviceUnreachable (switchId : Id)
  /-- `backup_failed:<switch>`. -/
  | backupFailed (switchId : Id)
  /-- `compliance:<switch>:<rule>`. -/
  | compliance (switchId ruleId : Id)
  deriving DecidableEq, Repr

/-! ## Rows -/

/-- A row of `bp_switch_groups`. -/
structure Group where
  name : String
  deriving DecidableEq, Repr

/-- A row of `bp_switches`: what device operations select of it, its version, and the status
columns. -/
structure Switch where
  name : String
  isEnabled : Bool
  groupId : Option Id
  version : ℕ
  reachable : Option Bool
  reachabilityCheckedAt : Option Instant
  reachabilityChangedAt : Option Instant
  reachabilityLatencyMs : Option ℕ
  reachabilityError : Option String
  configCheckedAt : Option Instant
  configError : Option String
  deriving DecidableEq, Repr

/-- The scope of a stored schedule: `scope` and `group_id`, which are set together. -/
inductive ScheduleScope
  | all
  | group (id : Id)
  deriving DecidableEq, Repr

/-- A row of `bp_schedules`. -/
structure Schedule where
  name : String
  kind : TaskKind
  cron : String
  scope : ScheduleScope
  isEnabled : Bool
  nextRunAt : Option Instant
  lastRunAt : Option Instant
  version : ℕ
  deriving DecidableEq, Repr

/-- A row of `bp_device_tasks`. -/
structure Task where
  kind : TaskKind
  scheduleId : Option Id
  actorId : Option Id
  actorEmail : Option String
  scopeLabel : String
  createdAt : Instant
  deriving DecidableEq, Repr

/-- A row of `bp_device_task_items`. -/
structure Item where
  taskId : Id
  kind : TaskKind
  switchId : Id
  status : ItemStatus
  message : Option String
  changed : Option Bool
  backupId : Option Id
  leaseToken : Option Id
  leaseUntil : Option Instant
  createdAt : Instant
  startedAt : Option Instant
  finishedAt : Option Instant
  deriving DecidableEq, Repr

/-- A row of `bp_config_backups`. -/
structure Backup where
  switchId : Id
  capturedAt : Instant
  contentSha256 : String
  sizeBytes : ℕ
  lineCount : ℕ
  encryptedContent : String
  deriving DecidableEq, Repr

/-- A row of `bp_alerts`. -/
structure Alert where
  kind : AlertKind
  severity : Severity
  switchId : Id
  ruleId : Option Id
  message : String
  status : AlertStatus
  dedupeKey : DedupeKey
  openedAt : Instant
  lastSeenAt : Instant
  acknowledgedAt : Option Instant
  acknowledgedBy : Option String
  resolvedAt : Option Instant
  deriving DecidableEq, Repr

/-- A value in the `changes` of an audit event. -/
inductive AuditValue
  | null
  | text (s : String)
  | flag (b : Bool)
  | ref (id : Id)
  | number (n : ℕ)
  deriving DecidableEq, Repr

/-- One entry of the `changes` of an audit event. -/
inductive AuditEntry
  | value (v : AuditValue)
  | fromTo (old new : AuditValue)
  deriving DecidableEq, Repr

/-- A row of `bp_asset_events`. -/
structure AuditEvent where
  actorId : Id
  actorEmail : String
  action : String
  objectId : Id
  objectName : String
  changes : List (String × AuditEntry)
  deriving DecidableEq, Repr

/-- What `claim_device_items` returns of a row. -/
structure ClaimedItem where
  id : Id
  leaseToken : Id
  kind : TaskKind
  switchId : Id
  deriving DecidableEq, Repr

namespace Item

/-- `status IN ('queued','running')`. -/
def pending (i : Item) : Bool := i.status = .queued || i.status = .running

/-- `lease_token=$2 AND status='running'`. -/
def holds (token : Id) (i : Item) : Bool := i.leaseToken = some token && i.status = .running

/-- `status='running' AND lease_until<now()`. -/
def expired (now : Instant) (i : Item) : Bool :=
  i.status = .running && i.leaseUntil.any (· < now)

/-- The pending operation of a switch and kind. -/
def pendingFor (s : Id) (kind : TaskKind) (i : Item) : Bool :=
  i.switchId = s && i.kind = kind && i.pending

end Item

/-- `status<>'resolved'`. -/
def Alert.active (a : Alert) : Bool := a.status ≠ .resolved

/-- The scope of a requested run. -/
inductive Scope
  | all
  | group (id : Id)
  | switches (ids : List Id)
  deriving DecidableEq, Repr

def ScheduleScope.toScope : ScheduleScope → Scope
  | all => .all
  | group id => .group id

/-! ## The store -/

/-- The tables, the clocks, and what the claims have returned. -/
structure Db where
  clock : Instant
  wall : Instant
  groups : Table Group
  switches : Table Switch
  schedules : Table Schedule
  tasks : Table Task
  items : Table Item
  backups : Table Backup
  alerts : Table Alert
  events : List AuditEvent
  handed : List ClaimedItem

namespace Db

/-- A freshly migrated store. -/
def empty : Db := ⟨0, 0, ∅, ∅, ∅, ∅, ∅, ∅, ∅, [], []⟩

/-- The `filter` of a scope. -/
def inScope (scope : Scope) (id : Id) (sw : Switch) : Bool :=
  match scope with
  | .all => true
  | .group g => sw.groupId = some g
  | .switches ids => ids.contains id

/-- `s.is_enabled AND filter`. -/
def targeted (scope : Scope) (id : Id) (sw : Switch) : Bool :=
  sw.isEnabled && inScope scope id sw

/-- `SELECT s.id FROM bp_switches s WHERE s.is_enabled AND filter`. -/
def targets (d : Db) (scope : Scope) : List Id := d.switches.keysWhere (targeted scope)

/-- An entry of `bp_device_task_items_pending_idx`. -/
def hasPending (d : Db) (s : Id) (kind : TaskKind) : Bool :=
  d.items.any fun _ i => i.pendingFor s kind

/-- The item a token was handed out for is still running under it. -/
def held (d : Db) (id token : Id) : Bool := (d.items.get? id).any (Item.holds token)

/-- The entry of `bp_alerts_active_key`. -/
def activeAlert (d : Db) (key : DedupeKey) : Option (Id × Alert) :=
  d.alerts.find? fun _ a => a.dedupeKey = key && a.active

/-- The versions of a switch. -/
def backupsOf (d : Db) (s : Id) : List (ℕ × Backup) := d.backups.rows.filter fun b => b.2.switchId = s

end Db

end BindPlane.Devices
