import BindPlane.Devices.Executor

/-!
# The device operations: all transactions over one store

`Op` is every transaction the API and the workers run against the device store, with the
arguments it is called with, and `body` is its program.  Time passes by the transaction
`elapse`, so that a program reads the clocks like any other part of the store, each at the
statement that reads it.

**Clocks.**  A transaction of PostgreSQL has one `now()`, which is read at its begin, while the
handlers read the clock of their own process between two statements.  Both clocks are part of the
store here, and `elapse` moves them, so that a run may let any time pass anywhere and nothing
relates the two.

**Whole runs.**  The executors appear only by the transactions with which they end their items: what
an executor does between the claim and that transaction is a function of what it has met
(`BindPlane.Devices.BackUp`), and the run may begin that transaction at any time, more than once or
never.
-/

namespace BindPlane.Devices

open ReadCommitted

/-- `group`: a new switch group. -/
def createGroup (actor : Principal) (name : String) : Txn Id := do
  authorize actor
  Tx.require (trimSpace name ≠ "") (.unprocessable "group name required")
  let id ← Tx.nextSerial
  Tx.update fun d => { d with groups := d.groups.insert id ⟨trimSpace name⟩ }
  Tx.update (·.addEvent ⟨actor.userId, actor.email, "group.create", id, trimSpace name, []⟩)
  pure id

/-- The columns of a new switch that device operations select. -/
structure SwitchInput where
  name : String
  isEnabled : Bool
  groupId : Option Id
  deriving DecidableEq, Repr

/-- The row of a new switch: its status columns are null. -/
def SwitchInput.row (input : SwitchInput) : Switch where
  name := input.name
  isEnabled := input.isEnabled
  groupId := input.groupId
  version := 1
  reachable := none
  reachabilityCheckedAt := none
  reachabilityChangedAt := none
  reachabilityLatencyMs := none
  reachabilityError := none
  configCheckedAt := none
  configError := none

/-- A switch is created, by its handler or by an import. -/
def createSwitch (actor : Principal) (input : SwitchInput) : Txn Id := do
  authorize actor
  let id ← Tx.nextSerial
  Tx.update fun d => { d with switches := d.switches.insert id input.row }
  Tx.update (·.addEvent ⟨actor.userId, actor.email, "switch.create", id, input.name, []⟩)
  pure id

/-- The columns an edit supplies, of those device operations select; `other` where it
changes another one. -/
structure SwitchEdit where
  version : ℕ
  name : Option String
  isEnabled : Option Bool
  groupId : Option (Option Id)
  other : Bool
  deriving DecidableEq, Repr

namespace Switch

/-- The row with the supplied columns. -/
def edited (e : SwitchEdit) (sw : Switch) : Switch :=
  { sw with
    name := e.name.getD sw.name
    isEnabled := e.isEnabled.getD sw.isEnabled
    groupId := e.groupId.getD sw.groupId
    version := sw.version + 1 }

/-- `switchFields`, of the columns modelled here. -/
def fields (sw : Switch) : List (String × AuditValue) :=
  [("name", .text sw.name), ("is_enabled", .flag sw.isEnabled),
    ("group_id", (sw.groupId.map .ref).getD .null)]

end Switch

/-- `editSwitch`: the version afterwards. -/
def editSwitch (actor : Principal) (id : UuidText) (e : SwitchEdit) : Txn ℕ := do
  authorize actor
  let id ← Tx.expect id.id? .notFound
  Tx.require (1 ≤ e.version) (.unprocessable "current version required")
  let before ← Tx.snapshot
  let _ ← Tx.expect (before.switches.get? id) .notFound
  Tx.acquire (.switch id)
  let latest ← Tx.snapshot
  let row ← Tx.expect (latest.switches.get? id) .notFound
  Tx.require (row.version = e.version) .staleAsset
  if auditChanges row.fields (row.edited e).fields = [] && !e.other then pure row.version
  else do
    Tx.update (·.modifySwitch id (Switch.edited e))
    Tx.update (·.addEvent ⟨actor.userId, actor.email, "switch.update", id,
      (row.edited e).name, auditChanges row.fields (row.edited e).fields⟩)
    pure (row.version + 1)

/-- Time passes for the database and for the API processes. -/
def elapse (clock wall : ℕ) : Txn Unit :=
  Tx.update fun d => { d with clock := d.clock + clock, wall := d.wall + wall }

/-! ## The system -/

/-- A transaction, with what its caller passes. -/
inductive Op
  | elapse (clock wall : ℕ)
  | createGroup (actor : Principal) (name : String)
  | createSwitch (actor : Principal) (input : SwitchInput)
  | editSwitch (actor : Principal) (id : UuidText) (e : SwitchEdit)
  | runTask (actor : Principal) (input : RunInput)
  | createSchedule (actor : Principal) (input : ScheduleInput)
  | editSchedule (actor : Principal) (id : UuidText) (input : ScheduleEdit)
  | runSchedule (actor : Principal) (id : UuidText)
  | runDueSchedules
  | claimDeviceItems (limit : ℕ)
  | sweepDeviceItems
  | skipItem (item : ClaimedItem)
  | failItem (item : ClaimedItem)
  | recordReachability (item : ClaimedItem) (p : Probe)
  | recordBackupFailure (item : ClaimedItem) (message : String)
  | recordBackup (item : ClaimedItem) (c : Capture)
  | acknowledge (actor : Principal) (id : Id)
  | pruneTasks
  | pruneAlerts
  | raiseCompliance (s rule : Id) (message : String)
  | resolveCompliance (s rule : Id)

/-- What comes back. -/
inductive Reply
  | done
  | created (id : Id)
  | version (n : ℕ)
  | run (task : Enqueued)
  | edited (e : ScheduleEdited)
  | ticked (t : Ticked)
  | claimed (claims : List ClaimedItem)
  | count (n : ℕ)
  | won (b : Bool)
  deriving DecidableEq, Repr

/-- The program of an operation. -/
def body (P : Platform) : Op → Unit → Txn Reply
  | .elapse c w, _ => (elapse c w).bind fun _ => .pure .done
  | .createGroup actor name, _ => (createGroup actor name).bind fun r => .pure (.created r)
  | .createSwitch actor input, _ => (createSwitch actor input).bind fun r => .pure (.created r)
  | .editSwitch actor id e, _ => (editSwitch actor id e).bind fun r => .pure (.version r)
  | .runTask actor input, _ => (runTask actor input).bind fun r => .pure (.run r)
  | .createSchedule actor input, _ =>
      (createSchedule P actor input).bind fun r => .pure (.created r)
  | .editSchedule actor id input, _ =>
      (editSchedule P actor id input).bind fun r => .pure (.edited r)
  | .runSchedule actor id, _ => (runSchedule actor id).bind fun r => .pure (.run r)
  | .runDueSchedules, _ => (runDueSchedules P).bind fun r => .pure (.ticked r)
  | .claimDeviceItems limit, _ => (claimDeviceItems limit).bind fun r => .pure (.claimed r)
  | .sweepDeviceItems, _ => sweepDeviceItems.bind fun r => .pure (.count r)
  | .skipItem item, _ => (skipItem item).bind fun r => .pure (.won r)
  | .failItem item, _ => (failItem item).bind fun r => .pure (.won r)
  | .recordReachability item p, _ => (recordReachability item p).bind fun r => .pure (.won r)
  | .recordBackupFailure item message, _ =>
      (recordBackupFailure item message).bind fun r => .pure (.won r)
  | .recordBackup item c, _ => (recordBackup item c).bind fun r => .pure (.won r)
  | .acknowledge actor id, _ => (acknowledge actor id).bind fun _ => .pure .done
  | .pruneTasks, _ => pruneTasks.bind fun r => .pure (.count r)
  | .pruneAlerts, _ => pruneAlerts.bind fun r => .pure (.count r)
  | .raiseCompliance s rule message, _ =>
      (raiseCompliance s rule message).bind fun _ => .pure .done
  | .resolveCompliance s rule, _ => (resolveCompliance s rule).bind fun _ => .pure .done

/-- The state of the device operations: the store and the transactions on it. -/
abbrev Plane := Sys ℕ Db Key Op Unit Failure Reply

/-- Any number of actions. -/
abbrev Plane.Steps (P : Platform) : Plane → Plane → Prop := Sys.Steps (body P)

/-- A state some run leads to from the empty store.

The tables are empty at first, and everything in them has been created, edited or enqueued by
transactions of the run.  The results about device operations hold in these states. -/
def Plane.Reachable (P : Platform) (s : Plane) : Prop :=
  Plane.Steps P (Sys.init Db.empty 0) s

end BindPlane.Devices
