import BindPlane.Devices.Service
import BindPlane.ReadCommitted.Contract

/-!
# What a commit may do

`Commit` is the contract of the device operations: for every operation, how its commit takes
the store from one state to the next, which locks it holds while it does, and what it
replies.

Each table is then read off it by one lemma: `Commit.item` for the life of an item (queued
or skipped, started, ended, pruned), `Commit.alerts` for the alerts that are not resolved,
`Commit.schedule`, `Commit.switch`, `Commit.backups`.  `Db.Valid` is what every commit keeps,
so that a transaction may rely on it at each of its statements.

**Keys.**  Most of these transactions exclude each other by an index and not by a row: the pending
index has one entry for a switch and a kind of task, the active index one for the key of an alert.
An insert that finds the entry taken by an uncommitted row waits for it, and this is a lock like any
other; the rows themselves are locked together with their entries.
-/

namespace BindPlane.Devices

open ReadCommitted

/-- The switch of a dedupe key. -/
def DedupeKey.switchId : DedupeKey → Id
  | deviceUnreachable s | backupFailed s | compliance s _ => s

/-- Whoever opens or resolves an alert of the key has the pending item of this lock. -/
def DedupeKey.guard : DedupeKey → Option Key
  | deviceUnreachable s => some (.pending s .reachability)
  | backupFailed s => some (.pending s .configBackup)
  | compliance _ _ => none

/-- The alerts of a key that are not resolved. -/
def activeIn (alerts : Table Alert) (key : DedupeKey) : Set Id :=
  {id | ∃ a, alerts.get? id = some a ∧ a.dedupeKey = key ∧ a.active = true}

namespace Db

/-- The number is the key of no row, and nothing that stays refers to it.

Numbers are drawn from one sequence for all tables, so the number of a new row is unused in each of
them until its transaction commits. -/
structure Unused (d : Db) (id : ℕ) : Prop where
  group : d.groups.get? id = none
  switch : d.switches.get? id = none
  schedule : d.schedules.get? id = none
  task : d.tasks.get? id = none
  item : d.items.get? id = none
  backup : d.backups.get? id = none
  alert : d.alerts.get? id = none
  handed : ∀ c ∈ d.handed, c.id ≠ id
  alerted : ∀ i a, d.alerts.get? i = some a → a.dedupeKey.switchId ≠ id

/-- The switch has no pending item of the kind. -/
def Idle (d : Db) (s : Id) (kind : TaskKind) : Prop :=
  ∀ id i, d.items.get? id = some i → i.pendingFor s kind = false

theorem hasPending_eq_false {d : Db} {s : Id} {kind : TaskKind} :
    d.hasPending s kind = false ↔ d.Idle s kind := Table.any_eq_false

end Db

theorem Item.pendingFor_eq_true {i : Item} {s : Id} {kind : TaskKind} :
    i.pendingFor s kind = true ↔ i.switchId = s ∧ i.kind = kind ∧ i.pending = true := by
  simp [pendingFor, and_assoc]

theorem Item.pending_eq_true {i : Item} :
    i.pending = true ↔ i.status = .queued ∨ i.status = .running := by
  simp [pending]

theorem Item.holds_eq_true {i : Item} {token : Id} :
    i.holds token = true ↔ i.leaseToken = some token ∧ i.status = .running := by
  simp [holds]

theorem Db.held_eq_true {d : Db} {id token : Id} :
    d.held id token = true ↔
      ∃ i, d.items.get? id = some i ∧ i.leaseToken = some token ∧ i.status = .running := by
  simp [held, Option.any_eq_true, Item.holds_eq_true]

/-! ## What a transaction adds -/

/-- The rows an enqueuing transaction inserts, and the schedules a tick moves on.

An enqueuing transaction inserts a task, then its items, and a tick does so for many schedules in
one transaction.  The rows are collected here in the order in which they are inserted, so that a
transaction is described by the batch that it leaves, whatever the statements were. -/
structure Batch where
  tasks : List (ℕ × Task) := []
  items : List (ℕ × Item) := []
  runs : List (Id × Instant × Option Instant) := []

/-- The writes of a batch. -/
def Db.apply (d : Db) (b : Batch) : Db :=
  { d with
    tasks := d.tasks.insertAll b.tasks
    items := d.items.insertAll b.items
    schedules := d.schedules.modifyAll (·.1) (fun r => Schedule.ran r.2.1 r.2.2) b.runs }

/-- A new item is queued under its entry of the index, which nobody has, or skipped. -/
inductive Item.New (K : Set (Resource Key)) (d : Db) (i : Item) : Prop
  | queued (hstatus : i.status = .queued) (hkey : .key (.pending i.switchId i.kind) ∈ K)
      (hidle : d.Idle i.switchId i.kind)
  | skipped (hstatus : i.status = .skipped)

/-- The batch may be added to the store.

A transaction collects the rows that it is going to insert in a batch.  The batch fits as long as
its numbers belong to the transaction and its pending items have their entries locked, and this does
not depend on what others commit in the meantime. -/
structure Batch.Fits (b : Batch) (K : Set (Resource Key)) (d : Db) : Prop where
  task : ∀ t ∈ b.tasks, .serial t.1 ∈ K ∧ d.Unused t.1
  item : ∀ i ∈ b.items, .serial i.1 ∈ K ∧ d.Unused i.1
  nodup_tasks : (b.tasks.map Prod.fst).Nodup
  nodup_items : (b.items.map Prod.fst).Nodup
  new : ∀ i ∈ b.items, i.2.New K d ∧ i.2.leaseToken = none ∧ i.2.backupId = none
  task_of : ∀ i ∈ b.items, ∃ t ∈ b.tasks, t.1 = i.2.taskId ∧ t.2.kind = i.2.kind
  one_queued : ∀ i ∈ b.items, ∀ j ∈ b.items, i.2.status = .queued → j.2.status = .queued →
    i.2.switchId = j.2.switchId → i.2.kind = j.2.kind → i = j
  one_each : ∀ i ∈ b.items, ∀ j ∈ b.items, i.2.taskId = j.2.taskId →
    i.2.switchId = j.2.switchId → i = j

/-- An executor's item is running under the token the claim gave it.

That the token is still in the row is tested by the update with which the transaction ends, behind
the lock of the row.  `handed` says that the token came out of a claim, and is not any number. -/
structure ClaimedItem.Runs (item : ClaimedItem) (K : Set (Resource Key)) (d : Db) : Prop where
  handed : item ∈ d.handed
  held : d.held item.id item.leaseToken = true
  key : .key (.pending item.switchId item.kind) ∈ K

/-- A write to the alerts. -/
def Db.mapAlerts (d : Db) (write : Table Alert → Table Alert) : Db :=
  { d with alerts := write d.alerts }

/-- The writes of an executor that ends its item. -/
def Db.settle (d : Db) (item : ClaimedItem) (f : Item → Item) (g : Switch → Switch)
    (write : Table Alert → Table Alert) : Db :=
  ((d.modifyItem item.id f).modifySwitch item.switchId g).mapAlerts write

/-- What an upsert writes to the alerts.

The insert of an alert goes through the partial unique index of unresolved alerts, so that an alert
that is there is touched and none is opened beside it. -/
inductive Upserts (K : Set (Resource Key)) (d : Db) (start : Instant) (new : NewAlert)
    (touch : Alert → Alert) : (Table Alert → Table Alert) → Prop
  | touched (id : Id) (hid : id ∈ activeIn d.alerts new.key) :
      Upserts K d start new touch fun t => t.modify id touch
  | opened (id : Id) (hnone : activeIn d.alerts new.key = ∅) (hserial : .serial id ∈ K)
      (hfresh : d.Unused id) (hswitch : ∃ sw, d.switches.get? new.switchId = some sw) :
      Upserts K d start new touch fun t => t.insert id (new.row start)

/-- What a resolution writes to the alerts. -/
inductive Resolves (K : Set (Resource Key)) (d : Db) (start : Instant) (key : DedupeKey) :
    (Table Alert → Table Alert) → Prop
  | resolved (id : Id) (hid : id ∈ activeIn d.alerts key) (hkey : .key (.alert key) ∈ K) :
      Resolves K d start key fun t => t.modify id (Alert.resolve start)
  | nothing (hnone : activeIn d.alerts key = ∅) : Resolves K d start key fun t => t

/-- The next run a tick stores for an expression. -/
inductive Platform.Ticks (P : Platform) (cron : String) (now : Instant) : Option Instant → Prop
  | run (t : Instant) (h : P.nextRun cron now = .ok t) : P.Ticks cron now (some t)
  | fails (e : CronError) (he : e ≠ .running) (h : P.nextRun cron now = .error e) :
      P.Ticks cron now none

/-- The next run an edit stores: of an enabled schedule the run behind the time it read, which
is not before the last run. -/
def Platform.Plans (P : Platform) (sc : Schedule) (d : Db) (time : Option Instant) : Prop :=
  if sc.isEnabled then
    ∃ t next, time = some t ∧ t ≤ d.wall ∧ (∀ x, sc.lastRunAt = some x → x ≤ t) ∧
      P.nextRun sc.cron t = .ok next ∧ sc.nextRunAt = some next
  else time = none ∧ sc.nextRunAt = none

/-- What a tick did for one schedule. -/
structure Fired.Moves (f : Fired) (P : Platform) (t : Instant) (K : Set (Resource Key)) (d : Db)
    (next : Option Instant) : Prop where
  key : .key (.schedule f.schedule) ∈ K
  row : d.schedules.get? f.schedule = some f.row
  due : f.row.due t = true
  next : P.Ticks f.row.cron t next
  task : ∃ e, f.task = some e

/-! ## The contract -/

/-- `Commit P op now K d d' r`: holding `K`, the operation takes `d` to `d'` and replies `r`.

One constructor for each way to commit, with the locks that are held at that moment.  Compared with
the release queue there are more tables and fewer statuses, and what matters is which table an
operation leaves alone; so each table has an inversion lemma of its own in
`BindPlane.Devices.Steps`. -/
inductive Commit (P : Platform) : Op → Unit → Set (Resource Key) → Db → Db → Reply → Prop
  | elapsed {K d} (c w : ℕ) :
      Commit P (.elapse c w) () K d { d with clock := d.clock + c, wall := d.wall + w } .done
  | groupMade {K d} (actor : Principal) (name : String) (id : Id) (g : Group) (e : AuditEvent)
      (hkey : .serial id ∈ K) (hfresh : d.Unused id) :
      Commit P (.createGroup actor name) () K d
        ({ d with groups := d.groups.insert id g }.addEvent e) (.created id)
  | switchMade {K d} (actor : Principal) (input : SwitchInput) (id : Id) (e : AuditEvent)
      (hkey : .serial id ∈ K) (hfresh : d.Unused id) :
      Commit P (.createSwitch actor input) () K d
        ({ d with switches := d.switches.insert id input.row }.addEvent e) (.created id)
  | switchEdited {K d} (actor : Principal) (uid : UuidText) (edit : SwitchEdit) (id : Id)
      (e : AuditEvent) (n : ℕ) :
      Commit P (.editSwitch actor uid edit) () K d
        ((d.modifySwitch id (Switch.edited edit)).addEvent e) (.version n)
  | switchUnedited {K d} (actor : Principal) (uid : UuidText) (edit : SwitchEdit) (n : ℕ) :
      Commit P (.editSwitch actor uid edit) () K d d (.version n)
  | taskRun {K d} (actor : Principal) (input : RunInput) (b : Batch) (t : Task)
      (e : Enqueued) (ev : AuditEvent) (hb : b.Fits K d) (htasks : b.tasks = [(e.task, t)])
      (hruns : b.runs = []) (hsched : t.scheduleId = none) :
      Commit P (.runTask actor input) () K d ((d.apply b).addEvent ev) (.run e)
  | scheduleRun {K d} (actor : Principal) (uid : UuidText) (b : Batch) (t : Task)
      (e : Enqueued) (ev : AuditEvent) (hb : b.Fits K d) (htasks : b.tasks = [(e.task, t)])
      (hruns : b.runs = []) (hsched : t.scheduleId = uid.id?) :
      Commit P (.runSchedule actor uid) () K d ((d.apply b).addEvent ev) (.run e)
  | scheduleMade {K d} (actor : Principal) (input : ScheduleInput) (id : Id) (sc : Schedule)
      (e : AuditEvent) (t next : Instant) (hkey : .serial id ∈ K) (hfresh : d.Unused id)
      (hnext : P.nextRun sc.cron t = .ok next) (htime : t ≤ d.wall)
      (hrow : sc.nextRunAt = if sc.isEnabled then some next else none)
      (hlast : sc.lastRunAt = none) (hgroup : d.hasGroup sc.scope = true) :
      Commit P (.createSchedule actor input) () K d ((d.addSchedule id sc).addEvent e)
        (.created id)
  | scheduleEdited {K d} (actor : Principal) (uid : UuidText) (input : ScheduleEdit)
      (c : ScheduleChanges) (id : Id) (row : Schedule) (next : Option Instant) (e : AuditEvent)
      (reply : ScheduleEdited) (huid : uid.id? = some id) (hchecked : input.checked = some c)
      (hkey : .key (.schedule id) ∈ K) (hrow : d.schedules.get? id = some row)
      (hreply : reply.id = id)
      (hchanged : auditChanges row.fields (row.edited c).fields ≠ [])
      (hplan : P.Plans ((row.edited c).withNextRun next) d reply.time)
      (hcron : ∀ x, c.cron = some x → ∃ t n, P.nextRun x t = .ok n)
      (hgroup : d.hasGroup (row.edited c).scope = true) :
      Commit P (.editSchedule actor uid input) () K d
        ((d.modifySchedule id fun sc => (sc.edited c).withNextRun next).addEvent e)
        (.edited reply)
  | scheduleUnedited {K d} (actor : Principal) (uid : UuidText) (input : ScheduleEdit)
      (reply : ScheduleEdited) (htime : reply.time = none) :
      Commit P (.editSchedule actor uid input) () K d d (.edited reply)
  | ticked {K d} (b : Batch) (t : Ticked) (hb : b.Fits K d) (htime : t.time ≤ d.wall)
      (hnodup : (t.fired.map Fired.schedule).Nodup)
      (hruns : b.runs.map (fun r => (r.1, r.2.1)) = t.fired.map fun f => (f.schedule, t.time))
      (hfired : ∀ f ∈ t.fired, ∃ next, (f.schedule, t.time, next) ∈ b.runs ∧
        f.Moves P t.time K d next)
      (htasks : b.tasks.map (·.2.scheduleId) = t.fired.map (some ·.schedule)) :
      Commit P .runDueSchedules () K d (d.apply b) (.ticked t)
  | claimed {K d} (limit : ℕ) (claims : List ClaimedItem) (start : Instant)
      (hnodup : (claims.map ClaimedItem.id).Nodup)
      (hrows : ∀ c ∈ claims, .key (.pending c.switchId c.kind) ∈ K ∧
        ∃ i, d.items.get? c.id = some i ∧ i.status = .queued ∧ i.switchId = c.switchId ∧
          i.kind = c.kind) :
      Commit P (.claimDeviceItems limit) () K d
        ({ d with
            items := d.items.modifyAll ClaimedItem.id
              (fun c => Item.started start c.leaseToken) claims }.hand claims)
        (.claimed claims)
  | swept {K d} (rows : List (Id × Item)) (start : Instant) (n : ℕ)
      (hnodup : (rows.map Prod.fst).Nodup)
      (hrows : ∀ r ∈ rows, .key (.pending r.2.switchId r.2.kind) ∈ K ∧
        d.items.get? r.1 = some r.2 ∧ r.2.status = .running) :
      Commit P .sweepDeviceItems () K d
        { d with items := d.items.modifyAll Prod.fst (fun _ => Item.swept start) rows } (.count n)
  | lost {op K d} (item : ClaimedItem) (hop : op = .skipItem item ∨ op = .failItem item ∨
        (∃ p, op = .recordReachability item p) ∨ ∃ m, op = .recordBackupFailure item m) :
      Commit P op () K d d (.won false)
  | ended {op K d} (item : ClaimedItem) (start : Instant) (f : Finish)
      (hop : op = .skipItem item ∧ f.status = .skipped ∨
        op = .failItem item ∧ f.status = .failed)
      (hbackup : f.backupId = none) (hruns : item.Runs K d) :
      Commit P op () K d (d.modifyItem item.id (Item.finished start f)) (.won true)
  | checked {K d} (item : ClaimedItem) (p : Probe) (start : Instant) (write : Table Alert → Table Alert)
      (hkind : item.kind = .reachability) (hruns : item.Runs K d)
      (hok : p.error = none → Resolves K d start (.deviceUnreachable item.switchId) write)
      (herror : ∀ e, p.error = some e →
        .key (.alert (.deviceUnreachable item.switchId)) ∈ K ∧
        Upserts K d start (unreachableAlert item.switchId p.port e)
          (Alert.seen start (unreachableAlert item.switchId p.port e)) write) :
      Commit P (.recordReachability item p) () K d
        (d.settle item (Item.finished start ⟨.succeeded, p.error, none, none⟩)
          (Switch.checked start p) write) (.won true)
  | backupFailed {K d} (item : ClaimedItem) (m : String) (start : Instant)
      (write : Table Alert → Table Alert) (hkind : item.kind = .configBackup) (hruns : item.Runs K d)
      (hkey : .key (.alert (.backupFailed item.switchId)) ∈ K)
      (halerts : Upserts K d start (backupAlert item.switchId m)
        (Alert.seen start (backupAlert item.switchId m)) write) :
      Commit P (.recordBackupFailure item m) () K d
        (d.settle item (Item.finished start ⟨.failed, some m, none, none⟩)
          (Switch.backedUp start (some m)) write) (.won true)
  | unchanged {K d} (item : ClaimedItem) (c : Capture) (start : Instant)
      (write : Table Alert → Table Alert) (m : String) (hkind : item.kind = .configBackup)
      (hruns : item.Runs K d)
      (halerts : Resolves K d start (.backupFailed item.switchId) write) :
      Commit P (.recordBackup item c) () K d
        (d.settle item (Item.finished start ⟨.succeeded, some m, some false, none⟩)
          (Switch.backedUp start none) write) (.won false)
  | backedUp {K d} (item : ClaimedItem) (c : Capture) (start : Instant)
      (write : Table Alert → Table Alert) (m : String) (id : Id) (hkind : item.kind = .configBackup)
      (hruns : item.Runs K d)
      (halerts : Resolves K d start (.backupFailed item.switchId) write)
      (hserial : .serial id ∈ K) (hfresh : d.Unused id) (hstart : start ≤ d.clock)
      (hlatest : (d.latestBackup item.switchId).map (·.2.contentSha256) ≠ some c.fingerprint)
      (hlast : ∀ b ∈ d.backupsOf item.switchId, b.2.capturedAt ≤ start ∧ b.1 < id) :
      Commit P (.recordBackup item c) () K d
        ((d.addBackup id
          ⟨item.switchId, start, c.fingerprint, c.sizeBytes, c.lineCount, c.sealed⟩).settle item
            (Item.finished start ⟨.succeeded, some m, some true, some id⟩)
            (Switch.backedUp start none) write) (.won true)
  | acknowledged {K d} (actor : Principal) (id : Id) (a : Alert) (start : Instant)
      (e : AuditEvent) (hkey : .key (.alert a.dedupeKey) ∈ K)
      (hrow : d.alerts.get? id = some a) (hopen : a.status = .opened) :
      Commit P (.acknowledge actor id) () K d
        ((d.modifyAlert id (Alert.acknowledge start actor.email)).addEvent e) .done
  | tasksPruned {K d} (ids : List Id) (n : ℕ) :
      Commit P .pruneTasks () K d (d.deleteTasks ids) (.count n)
  | alertsPruned {K d} (ids : List Id) (n : ℕ) :
      Commit P .pruneAlerts () K d (d.deleteAlerts ids) (.count n)
  | complianceRaised {K d} (s rule : Id) (m : String) (start : Instant)
      (write : Table Alert → Table Alert)
      (hkey : .key (.alert (.compliance s rule)) ∈ K)
      (halerts : Upserts K d start (complianceAlert s rule m)
        (Alert.seenAs start (complianceAlert s rule m)) write) :
      Commit P (.raiseCompliance s rule m) () K d (d.mapAlerts write) .done
  | complianceResolved {K d} (s rule : Id) (start : Instant) (id : Id)
      (hid : id ∈ activeIn d.alerts (.compliance s rule))
      (hkey : .key (.alert (.compliance s rule)) ∈ K) :
      Commit P (.resolveCompliance s rule) () K d (d.modifyAlert id (Alert.resolve start)) .done
  | complianceKept {K d} (s rule : Id) :
      Commit P (.resolveCompliance s rule) () K d d .done

end BindPlane.Devices
