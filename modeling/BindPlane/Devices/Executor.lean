import BindPlane.Devices.Schedules

/-!
# Items, their executors, and alerts

The worker's statements on `bp_device_task_items` (`claim_device_items`,
`sweep_device_items`, `finish_item`), the transactions an executor ends its item with, and
the two statements on `bp_alerts` they and the compliance evaluator share.

An executor's transaction begins with `claimedAt`: the item it is about came out of a claim.
Nothing else is known of it.  It may have been swept since, and its row may be gone.

**Ending an item.**  Each way to end an item is one transaction that updates the item under its
token, and then the switch, the versions and the alerts.  If the first update finds no row the
transaction returns without writing anything: the item was swept, and somebody else may be at work.

**Source.**  What is modelled here is in `internal/release/ops.go`,
`internal/release/ops_schedules.go` and `worker/devices.py`.
-/

namespace BindPlane.Devices

open ReadCommitted

namespace Db

/-- `UPDATE bp_device_task_items SET … WHERE id=$1`. -/
def modifyItem (d : Db) (id : Id) (f : Item → Item) : Db := { d with items := d.items.modify id f }

/-- `UPDATE bp_switches SET … WHERE id=$1`. -/
def modifySwitch (d : Db) (id : Id) (f : Switch → Switch) : Db :=
  { d with switches := d.switches.modify id f }

/-- `INSERT INTO bp_alerts`. -/
def addAlert (d : Db) (id : Id) (a : Alert) : Db := { d with alerts := d.alerts.insert id a }

/-- `UPDATE bp_alerts SET … WHERE id=$1`. -/
def modifyAlert (d : Db) (id : Id) (f : Alert → Alert) : Db :=
  { d with alerts := d.alerts.modify id f }

/-- `INSERT INTO bp_config_backups`. -/
def addBackup (d : Db) (id : Id) (b : Backup) : Db := { d with backups := d.backups.insert id b }

/-- A claim returns. -/
def hand (d : Db) (claims : List ClaimedItem) : Db := { d with handed := d.handed ++ claims }

end Db

/-! ## claim_device_items -/

/-- `CASE kind WHEN 'config_backup' THEN interval '10 minutes' ELSE interval '2 minutes'`. -/
def TaskKind.lease : TaskKind → ℕ
  | configBackup => 600000000
  | reachability => 120000000

/-- The columns `claim_device_items` sets. -/
def Item.started (now : Instant) (token : Id) (i : Item) : Item :=
  { i with
    status := .running
    startedAt := some now
    leaseToken := some token
    leaseUntil := some (now + i.kind.lease) }

/-- `WHERE status='queued' ORDER BY id`. -/
def Db.itemQueue (d : Db) : List (ℕ × Item) :=
  (d.items.rows.filter fun r => r.2.status = .queued).insertionSort fun a b => a.1 ≤ b.1

/-- The same row: its entry of the pending index never changes. -/
def Item.sameEntry (i j : Item) : Bool := i.switchId = j.switchId && i.kind = j.kind

/-- `FOR UPDATE SKIP LOCKED LIMIT n`: the rows that are free and queued behind their lock. -/
def pickQueued : List (ℕ × Item) → ℕ → Txn (List (Id × Item))
  | _, 0 => pure []
  | [], _ => pure []
  | (id, i) :: rest, n + 1 => do
      let got ← Tx.tryAcquire (.pending i.switchId i.kind)
      let latest ← Tx.snapshot
      match (latest.items.get? id).filter fun j => got && j.sameEntry i && j.status = .queued with
      | some j => do
          let more ← pickQueued rest n
          pure ((id, j) :: more)
      | none => pickQueued rest (n + 1)

/-- One row of the `UPDATE` after the other. -/
def startItems (start : Instant) : List (Id × Item) → Txn (List ClaimedItem)
  | [] => pure []
  | (id, i) :: rest => do
      let token ← Tx.nextSerial
      Tx.update (·.modifyItem id (Item.started start token))
      let more ← startItems start rest
      pure (⟨id, token, i.kind, i.switchId⟩ :: more)

/-- `claim_device_items`. -/
def claimDeviceItems (limit : ℕ) : Txn (List ClaimedItem) := do
  let start ← now
  let s ← Tx.snapshot
  let rows ← pickQueued s.itemQueue limit
  let claims ← startItems start rows
  Tx.update (·.hand claims)
  pure claims

/-! ## sweep_device_items -/

/-- The columns `sweep_device_items` sets. -/
def Item.swept (now : Instant) (i : Item) : Item :=
  { i with
    status := .failed
    message := some "Worker stopped before finishing"
    finishedAt := some now
    leaseToken := none
    leaseUntil := none }

/-- One row after the other, tested again behind its lock: the number in `UPDATE n`. -/
def sweepItems (start : Instant) : List (ℕ × Item) → Txn ℕ
  | [] => pure 0
  | (id, i) :: rest => do
      let got ← Tx.acquireIf (.pending i.switchId i.kind) fun d =>
        (d.items.get? id).any fun j => j.sameEntry i && j.expired start
      if got then do
        Tx.update (·.modifyItem id (Item.swept start))
        let n ← sweepItems start rest
        pure (n + 1)
      else sweepItems start rest

/-- `sweep_device_items`. -/
def sweepDeviceItems : Txn ℕ := do
  let start ← now
  let s ← Tx.snapshot
  sweepItems start (s.items.rows.filter fun r => r.2.expired start)

/-! ## finish_item -/

/-- What `finish_item` is told. -/
structure Finish where
  status : ItemStatus
  message : Option String
  changed : Option Bool := none
  backupId : Option Id := none
  deriving DecidableEq, Repr

/-- The columns `finish_item` sets. -/
def Item.finished (now : Instant) (f : Finish) (i : Item) : Item :=
  { i with
    status := f.status
    message := f.message
    changed := f.changed
    backupId := f.backupId
    finishedAt := some now
    leaseToken := none
    leaseUntil := none }

/-- `finish_item`: whether the row was still running under the token. -/
def finishItem (start : Instant) (item : ClaimedItem) (f : Finish) : Txn Bool := do
  let s ← Tx.snapshot
  if s.held item.id item.leaseToken then do
    let got ← Tx.acquireIf (.pending item.switchId item.kind) fun d =>
      d.held item.id item.leaseToken
    if got then do
      Tx.update (·.modifyItem item.id (Item.finished start f))
      pure true
    else pure false
  else pure false

/-- The item of a transaction came out of a claim; the time it begins at. -/
def claimedAt (item : ClaimedItem) : Txn Instant := do
  let s ← Tx.snapshot
  Tx.require (s.handed.contains item) .database
  pure s.clock

/-- `process_device_item` on a switch that is gone or disabled. -/
def skipItem (item : ClaimedItem) : Txn Bool := do
  let start ← claimedAt item
  finishItem start item ⟨.skipped, some "Switch is disabled", none, none⟩

/-- `process_device_item` on an exception. -/
def failItem (item : ClaimedItem) : Txn Bool := do
  let start ← claimedAt item
  finishItem start item ⟨.failed, some "Unexpected worker error", none, none⟩

/-! ## Alerts -/

/-- A row of `upsert_alert`. -/
structure NewAlert where
  kind : AlertKind
  severity : Severity
  switchId : Id
  ruleId : Option Id
  message : String
  key : DedupeKey
  deriving DecidableEq, Repr

/-- The inserted row. -/
def NewAlert.row (a : NewAlert) (now : Instant) : Alert where
  kind := a.kind
  severity := a.severity
  switchId := a.switchId
  ruleId := a.ruleId
  message := a.message
  status := .opened
  dedupeKey := a.key
  openedAt := now
  lastSeenAt := now
  acknowledgedAt := none
  acknowledgedBy := none
  resolvedAt := none

namespace Alert

/-- `DO UPDATE SET last_seen_at=now(),message=EXCLUDED.message`. -/
def seen (now : Instant) (new : NewAlert) (a : Alert) : Alert :=
  { a with lastSeenAt := now, message := new.message }

/-- `DO UPDATE SET …,severity=EXCLUDED.severity`. -/
def seenAs (now : Instant) (new : NewAlert) (a : Alert) : Alert :=
  { a with lastSeenAt := now, message := new.message, severity := new.severity }

/-- `SET status='resolved',resolved_at=now()`. -/
def resolve (now : Instant) (a : Alert) : Alert :=
  { a with status := .resolved, resolvedAt := some now }

/-- The columns `acknowledge` sets. -/
def acknowledge (now : Instant) (email : String) (a : Alert) : Alert :=
  { a with status := .acknowledged, acknowledgedAt := some now, acknowledgedBy := some email }

end Alert

/-- `INSERT … ON CONFLICT (dedupe_key) WHERE status<>'resolved' DO UPDATE SET touch`. -/
def upsertAlert (start : Instant) (new : NewAlert) (touch : Alert → Alert) : Txn PUnit := do
  Tx.acquire (.alert new.key)
  let s ← Tx.snapshot
  match s.activeAlert new.key with
  | some (id, _) => Tx.update (·.modifyAlert id touch)
  | none => do
      Tx.require (s.switches.get? new.switchId).isSome .database
      let id ← Tx.nextSerial
      Tx.update (·.addAlert id (new.row start))

/-- `UPDATE bp_alerts … WHERE dedupe_key=$1 AND status<>'resolved'`: the index leaves one row
at most. -/
def resolveAlert (start : Instant) (key : DedupeKey) : Txn PUnit := do
  let s ← Tx.snapshot
  match s.activeAlert key with
  | none => pure ⟨⟩
  | some (id, _) => do
      let got ← Tx.acquireIf (.alert key) fun d =>
        (d.alerts.get? id).any fun a => a.dedupeKey = key && a.active
      if got then Tx.update (·.modifyAlert id (Alert.resolve start)) else pure ⟨⟩

/-! ## check_reachability -/

/-- What the connection attempt gave: the port, and the latency or the error. -/
structure Probe where
  port : ℕ
  latency : Option ℕ
  error : Option String
  deriving DecidableEq, Repr

/-- The status columns of a check. -/
def Switch.checked (now : Instant) (p : Probe) (sw : Switch) : Switch :=
  { sw with
    reachable := some p.error.isNone
    reachabilityCheckedAt := some now
    reachabilityChangedAt :=
      if sw.reachable = some p.error.isNone then sw.reachabilityChangedAt else some now
    reachabilityLatencyMs := p.latency
    reachabilityError := p.error }

/-- The alert on a switch that does not answer. -/
def unreachableAlert (s : Id) (port : ℕ) (error : String) : NewAlert where
  kind := .deviceUnreachable
  severity := .warning
  switchId := s
  ruleId := none
  message := "Port " ++ toString port ++ " unreachable: " ++ error
  key := .deviceUnreachable s

/-- The transaction of `check_reachability`.

The item is finished first, under the condition that its token is still there.  An executor that has
lost its lease writes neither to the switch nor to an alert. -/
def recordReachability (item : ClaimedItem) (p : Probe) : Txn Bool := do
  let start ← claimedAt item
  Tx.require (item.kind = .reachability) .database
  let won ← finishItem start item ⟨.succeeded, p.error, none, none⟩
  if won then do
    Tx.acquire (.switch item.switchId)
    Tx.update (·.modifySwitch item.switchId (Switch.checked start p))
    match p.error with
    | none => resolveAlert start (.deviceUnreachable item.switchId)
    | some error =>
        let new := unreachableAlert item.switchId p.port error
        upsertAlert start new (Alert.seen start new)
    pure true
  else pure false

/-! ## back_up -/

/-- The status columns of a backup. -/
def Switch.backedUp (now : Instant) (error : Option String) (sw : Switch) : Switch :=
  { sw with configCheckedAt := some now, configError := error }

/-- The alert on a switch whose configuration could not be read. -/
def backupAlert (s : Id) (message : String) : NewAlert where
  kind := .backupFailed
  severity := .warning
  switchId := s
  ruleId := none
  message := "Backup failed: " ++ message
  key := .backupFailed s

/-- The transaction of `back_up` behind an exception.

The message is written three times, in the item, in the row of the switch and in the alert, and by
one transaction. -/
def recordBackupFailure (item : ClaimedItem) (message : String) : Txn Bool := do
  let start ← claimedAt item
  Tx.require (item.kind = .configBackup) .database
  let won ← finishItem start item ⟨.failed, some message, none, none⟩
  if won then do
    Tx.acquire (.switch item.switchId)
    Tx.update (·.modifySwitch item.switchId (Switch.backedUp start (some message)))
    let new := backupAlert item.switchId message
    upsertAlert start new (Alert.seen start new)
    pure true
  else pure false

/-- What `back_up` has read and sealed. -/
structure Capture where
  fingerprint : String
  sizeBytes : ℕ
  lineCount : ℕ
  sealed : String
  deriving DecidableEq, Repr

/-- `(captured_at, id)` of `a` is not before that of `b`. -/
def Backup.notBefore (a b : ℕ × Backup) : Prop :=
  b.2.capturedAt < a.2.capturedAt ∨ b.2.capturedAt = a.2.capturedAt ∧ b.1 ≤ a.1

instance : DecidableRel Backup.notBefore := fun a b =>
  inferInstanceAs (Decidable (_ ∨ _ ∧ _))

/-- `ORDER BY captured_at DESC,id DESC LIMIT 1`. -/
def Db.latestBackup (d : Db) (s : Id) : Option (ℕ × Backup) :=
  ((d.backupsOf s).insertionSort Backup.notBefore).head?

/-- `INSERT INTO bp_config_backups … RETURNING id`. -/
def insertBackup (start : Instant) (s : Id) (c : Capture) : Txn Id := do
  let id ← Tx.nextSerial
  Tx.update (·.addBackup id
    ⟨s, start, c.fingerprint, c.sizeBytes, c.lineCount, c.sealed⟩)
  pure id

/-- The new version of a changed configuration. -/
def insertChanged (start : Instant) (s : Id) (c : Capture) (changed : Bool) :
    Txn (Option Id) :=
  if changed then do
    let id ← insertBackup start s c
    pure (some id)
  else pure none

/-- The transaction of `back_up` on a configuration: whether it has changed.

Here the new version is inserted before the item is finished.  Where the lease has been lost in the
meantime, the exception takes the version back with the transaction. -/
def recordBackup (item : ClaimedItem) (c : Capture) : Txn Bool := do
  let start ← claimedAt item
  Tx.require (item.kind = .configBackup) .database
  let s ← Tx.snapshot
  let changed : Bool := (s.latestBackup item.switchId).map (·.2.contentSha256) ≠ some c.fingerprint
  let backupId ← insertChanged start item.switchId c changed
  let message := if changed then "New configuration version" else "Configuration unchanged"
  let won ← finishItem start item ⟨.succeeded, some message, some changed, backupId⟩
  -- rolls the new version back
  Tx.require won .leaseLost
  Tx.acquire (.switch item.switchId)
  Tx.update (·.modifySwitch item.switchId (Switch.backedUp start none))
  resolveAlert start (.backupFailed item.switchId)
  pure changed

/-! ## acknowledge -/

/-- `acknowledge`. -/
def acknowledge (actor : Principal) (id : Id) : Txn PUnit := do
  authorize actor
  let start ← now
  let s ← Tx.snapshot
  let alert ← Tx.expect ((s.alerts.get? id).filter (·.status = .opened))
    (.conflict "alert is not open")
  let got ← Tx.acquireIf (.alert alert.dedupeKey) fun d =>
    (d.alerts.get? id).any fun a => a.dedupeKey = alert.dedupeKey && a.status = .opened
  Tx.require got (.conflict "alert is not open")
  Tx.update (·.modifyAlert id (Alert.acknowledge start actor.email))
  Tx.update (·.addEvent ⟨actor.userId, actor.email, "alert.acknowledge", alert.switchId,
    "alert " ++ toString id, []⟩)

/-! ## pruneHistory -/

/-- `interval '30 days'`. -/
def taskRetention : ℕ := 30 * 24 * 3600 * 1000000

/-- `interval '180 days'`. -/
def alertRetention : ℕ := 180 * 24 * 3600 * 1000000

namespace Db

/-- `EXISTS (SELECT 1 FROM bp_device_task_items i WHERE i.task_id=t.id AND i.status IN
('queued','running'))`. -/
def unfinished (d : Db) (task : Id) : Bool := d.items.any fun _ i => i.taskId = task && i.pending

/-- The tasks the first statement of `pruneHistory` deletes. -/
def oldTasks (d : Db) (now : Instant) : List Id :=
  d.tasks.keysWhere fun id t => t.createdAt + taskRetention < now && !d.unfinished id

/-- The alerts the second statement deletes. -/
def oldAlerts (d : Db) (now : Instant) : List Id :=
  d.alerts.keysWhere fun _ a =>
    a.status = .resolved && a.resolvedAt.any (· + alertRetention < now)

/-- `DELETE FROM bp_device_tasks`, with the items by `ON DELETE CASCADE`.  The rows are tested
again; a task with no pending item gets none any more, so that the test changes nothing. -/
def deleteTasks (d : Db) (ids : List Id) : Db :=
  { d with
    tasks := d.tasks.deleteWhere fun id _ => ids.contains id && !d.unfinished id
    items := d.items.deleteWhere fun _ i => ids.contains i.taskId && !d.unfinished i.taskId }

/-- `DELETE FROM bp_alerts`, of the rows that are resolved still. -/
def deleteAlerts (d : Db) (ids : List Id) : Db :=
  { d with
    alerts := d.alerts.deleteWhere fun id a => ids.contains id && a.status = .resolved }

end Db

/-- The first statement of `pruneHistory`. -/
def pruneTasks : Txn ℕ := do
  let s ← Tx.snapshot
  Tx.update (·.deleteTasks (s.oldTasks s.clock))
  pure (s.oldTasks s.clock).length

/-- The second statement of `pruneHistory`. -/
def pruneAlerts : Txn ℕ := do
  let s ← Tx.snapshot
  Tx.update (·.deleteAlerts (s.oldAlerts s.clock))
  pure (s.oldAlerts s.clock).length

/-! ## evaluateCompliance -/

/-- The alert on a critical rule that a switch fails. -/
def complianceAlert (s rule : Id) (message : String) : NewAlert where
  kind := .complianceViolation
  severity := .critical
  switchId := s
  ruleId := some rule
  message := message
  key := .compliance s rule

/-- `upsertAlert`, as `evaluateCompliance` calls it. -/
def raiseCompliance (s rule : Id) (message : String) : Txn PUnit := do
  let start ← now
  let new := complianceAlert s rule message
  upsertAlert start new (Alert.seenAs start new)

/-- `resolveAlert`, as `evaluateCompliance` calls it. -/
def resolveCompliance (s rule : Id) : Txn PUnit := do
  let start ← now
  resolveAlert start (.compliance s rule)

end BindPlane.Devices
