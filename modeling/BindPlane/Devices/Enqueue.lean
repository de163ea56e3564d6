import BindPlane.Devices.Data
import BindPlane.Release.Store

/-!
# Queueing device tasks

`enqueueDeviceTask` and the handler `runTask`.

The task's items are two set-wise inserts.  The first offers one queued item for every
enabled switch in scope and leaves out a switch whose entry of the partial unique index
is taken; where another transaction is writing that entry it waits (`Tx.acquireIf`).  The
second records the switches that got no item as skipped, from a snapshot of its own.

**Skipping.**  A switch that still has a pending item of the kind gets no second one: its item in
this task is recorded as skipped, so that the page of the task shows every switch that was asked
for.

**Source.**  What is modelled here is in `internal/release/ops.go`.
-/

namespace BindPlane.Devices

open ReadCommitted

/-- What a transaction locks.  The row of a pending item goes with its entry of
`bp_device_task_items_pending_idx`, the row of an unresolved alert with its entry of
`bp_alerts_active_key`. -/
inductive Key
  | pending (switchId : Id) (kind : TaskKind)
  | switch (id : Id)
  | schedule (id : Id)
  | alert (key : DedupeKey)
  deriving DecidableEq, Repr

/-- The errors of the handlers and of the worker's transactions. -/
inductive Failure
  | forbidden (detail : String)
  | unprocessable (detail : String)
  /-- `unprocessable`, with the text of the cron error. -/
  | cron (e : CronError)
  | notFound
  | conflict (detail : String)
  | staleAsset
  /-- The `RuntimeError` of `back_up`. -/
  | leaseLost
  /-- A statement fails, or a computation does not end. -/
  | database
  deriving DecidableEq, Repr

/-- A transaction over the device store. -/
abbrev Txn := Tx Db Key Failure

/-- `now()`, in the first statement of a transaction. -/
def now : Txn Instant := do
  let s ← Tx.snapshot
  pure s.clock

/-- `time.Now()`. -/
def timeNow : Txn Instant := do
  let s ← Tx.snapshot
  pure s.wall

/-- `authorize`. -/
def authorize (actor : Principal) : Txn Unit := do
  Tx.require actor.operator (.forbidden "operator role required")
  Tx.require actor.admin (.forbidden "admin role required")

namespace Db

/-- `INSERT INTO bp_device_tasks`. -/
def addTask (d : Db) (id : Id) (t : Task) : Db := { d with tasks := d.tasks.insert id t }

/-- `INSERT INTO bp_device_task_items`. -/
def addItem (d : Db) (id : Id) (i : Item) : Db := { d with items := d.items.insert id i }

/-- `INSERT INTO bp_asset_events`. -/
def addEvent (d : Db) (e : AuditEvent) : Db := { d with events := e :: d.events }

end Db

/-! ## enqueueDeviceTask -/

/-- A row of the first insert. -/
def Item.queuedFor (task : Id) (kind : TaskKind) (s : Id) (start : Instant) : Item where
  taskId := task
  kind := kind
  switchId := s
  status := .queued
  message := none
  changed := none
  backupId := none
  leaseToken := none
  leaseUntil := none
  createdAt := start
  startedAt := none
  finishedAt := none

/-- A row of the second insert. -/
def Item.skippedFor (task : Id) (kind : TaskKind) (s : Id) (start : Instant) : Item :=
  { Item.queuedFor task kind s start with
    status := .skipped
    message := some "Already queued or running"
    finishedAt := some start }

/-- The rows of `INSERT … ON CONFLICT … DO NOTHING`: the number inserted. -/
def insertQueued (task : Id) (kind : TaskKind) (start : Instant) : List Id → Txn ℕ
  | [] => pure 0
  | s :: rest => do
      let free ← Tx.acquireIf (.pending s kind) fun d => !d.hasPending s kind
      if free then do
        let id ← Tx.nextSerial
        Tx.update (·.addItem id (Item.queuedFor task kind s start))
        let n ← insertQueued task kind start rest
        pure (n + 1)
      else insertQueued task kind start rest

/-- The rows of the second insert: the number inserted. -/
def insertSkipped (task : Id) (kind : TaskKind) (start : Instant) : List Id → Txn ℕ
  | [] => pure 0
  | s :: rest => do
      let id ← Tx.nextSerial
      Tx.update (·.addItem id (Item.skippedFor task kind s start))
      let n ← insertSkipped task kind start rest
      pure (n + 1)

/-- `label`; `none` is `ErrNotFound`. -/
def scopeLabel : Scope → Txn (Option String)
  | .all => pure (some "All enabled switches")
  | .group g => do
      let s ← Tx.snapshot
      pure ((s.groups.get? g).map fun g => "Group " ++ g.name)
  | .switches [id] => do
      let s ← Tx.snapshot
      pure (some (match s.switches.get? id with
        | some sw => "Switch " ++ sw.name
        | none => "1 selected switches"))
  | .switches ids => pure (some (toString ids.length ++ " selected switches"))

/-- `NOT EXISTS (SELECT 1 FROM bp_device_task_items i WHERE i.task_id=$1 AND
i.switch_id=s.id)`. -/
def Db.without (d : Db) (task s : Id) : Bool :=
  !d.items.any fun _ i => i.taskId = task && i.switchId = s

/-- What `enqueueDeviceTask` returns, with its arguments. -/
structure Enqueued where
  task : Id
  kind : TaskKind
  scope : Scope
  label : String
  queued : ℕ
  skipped : ℕ
  deriving DecidableEq, Repr

/-- `enqueueDeviceTask` in a transaction begun at `start`; `none` is `ErrNotFound`.

Two `INSERT … SELECT` statements read the targets one after the other, each in a snapshot of its
own.  The second takes those that the first has left without an item. -/
def enqueueDeviceTask (kind : TaskKind) (scheduleId actorId : Option Id)
    (actorEmail : Option String) (scope : Scope) (start : Instant) :
    Txn (Option Enqueued) := do
  let label ← scopeLabel scope
  match label with
  | none => pure none
  | some label => do
      let task ← Tx.nextSerial
      Tx.update (·.addTask task ⟨kind, scheduleId, actorId, actorEmail, label, start⟩)
      let s ← Tx.snapshot
      let queued ← insertQueued task kind start (s.targets scope)
      let s ← Tx.snapshot
      let skipped ← insertSkipped task kind start ((s.targets scope).filter (s.without task))
      pure (some ⟨task, kind, scope, label, queued, skipped⟩)

/-! ## runTask -/

/-- `importMaxRows`. -/
def importMaxRows : ℕ := 5000

/-- `deviceTaskKinds`. -/
def deviceTaskKind? : String → Option TaskKind
  | "config_backup" => some .configBackup
  | "reachability" => some .reachability
  | _ => none

/-- The text of the `kind` column. -/
def TaskKind.text : TaskKind → String
  | configBackup => "config_backup"
  | reachability => "reachability"

/-- The body of a `runTask` request. -/
structure RunInput where
  kind : String
  scope : String
  groupId : UuidText
  switchIds : List UuidText

/-- `valid`, and what the request asks for. -/
def RunInput.checked (input : RunInput) : Option (TaskKind × Scope) := do
  let kind ← deviceTaskKind? input.kind
  let ids ← input.switchIds.mapM UuidText.id?
  match input.scope with
  | "all" => some (kind, .all)
  | "group" => input.groupId.id?.map fun g => (kind, .group g)
  | "switches" => if 0 < ids.length ∧ ids.length ≤ importMaxRows then
      some (kind, .switches ids) else none
  | _ => none

/-- `runTask`. -/
def runTask (actor : Principal) (input : RunInput) : Txn Enqueued := do
  authorize actor
  let run ← Tx.expect input.checked
    (.unprocessable "kind and a scope (all, group or switches) required")
  let start ← now
  let task ← enqueueDeviceTask run.1 none (some actor.userId) (some actor.email) run.2 start
  let task ← Tx.expect task .notFound
  Tx.update (·.addEvent ⟨actor.userId, actor.email, "task.run", task.task, task.label,
    [("kind", .value (.text run.1.text)), ("queued", .value (.number task.queued))]⟩)
  pure task

end BindPlane.Devices
