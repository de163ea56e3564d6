import BindPlane.Devices.Enqueue

/-!
# Schedules

`createSchedule`, `editSchedule`, `runSchedule` and the scheduler's tick `runDueSchedules`.

All three writers of `next_run_at` evaluate the cron expression from `time.Now()`: a
creation reads the clock before its transaction, the hook of an edit reads it under the
row lock, and a tick reads it before it begins.  A search that has not ended within the
fuel never commits.

**The next run is stored.**  A tick does not evaluate the expressions of all schedules, it selects
the rows whose `next_run_at` has passed.  So a wrong value in that column is a run that is lost or
repeated, and every writer of the column matters.

**Source.**  What is modelled here is in `internal/release/ops_schedules.go`.
-/

namespace BindPlane.Devices

open ReadCommitted

/-- What the model takes from the configuration and from Go's library: the operations time
zone, and how many rounds of `Next`'s loop are run. -/
structure Platform where
  loc : Location
  fuel : ℕ

/-- `o.nextRun`. -/
def Platform.nextRun (P : Platform) (expression : String) (after : Instant) :
    Except CronError Instant := BindPlane.nextRun P.loc P.fuel expression after

/-- `strings.TrimSpace`. -/
def trimSpace (s : String) : String :=
  String.ofList ((s.toList.dropWhile isGoSpace).reverse.dropWhile isGoSpace).reverse

/-- `nextRun`, where its error is the request's. -/
def checkedNextRun (P : Platform) (expression : String) (after : Instant) : Txn Instant :=
  match P.nextRun expression after with
  | .ok t => pure t
  | .error e => Tx.raise (.cron e)

namespace Db

/-- `INSERT INTO bp_schedules`. -/
def addSchedule (d : Db) (id : Id) (sc : Schedule) : Db :=
  { d with schedules := d.schedules.insert id sc }

/-- `UPDATE bp_schedules SET … WHERE id=$1`. -/
def modifySchedule (d : Db) (id : Id) (f : Schedule → Schedule) : Db :=
  { d with schedules := d.schedules.modify id f }

/-- `REFERENCES bp_switch_groups(id)`. -/
def hasGroup (d : Db) : ScheduleScope → Bool
  | .all => true
  | .group g => (d.groups.get? g).isSome

end Db

/-! ## createSchedule -/

/-- The body of a `createSchedule` request. -/
structure ScheduleInput where
  name : String
  kind : String
  cron : String
  scope : String
  groupId : UuidText
  isEnabled : Option Bool

/-- `scope` and `group_id` of a request. -/
def scheduleScope? (scope : String) (groupId : Option UuidText) : Option ScheduleScope :=
  match scope with
  | "all" => some .all
  | "group" => groupId.bind fun g => g.id?.map .group
  | _ => none

/-- The first checks of `createSchedule`: name, kind and scope. -/
def ScheduleInput.checked (input : ScheduleInput) :
    Option (String × TaskKind × ScheduleScope) := do
  let kind ← deviceTaskKind? input.kind
  let scope ← scheduleScope? input.scope (some input.groupId)
  if trimSpace input.name = "" then none else some (trimSpace input.name, kind, scope)

/-- `createSchedule`.

The first run is computed also for a schedule that is created disabled: an expression that never
matches is refused either way, only the column stays empty. -/
def createSchedule (P : Platform) (actor : Principal) (input : ScheduleInput) : Txn Id := do
  authorize actor
  let row ← Tx.expect input.checked
    (.unprocessable "name, kind and scope (all, or group with a group) required")
  let t ← timeNow
  let next ← checkedNextRun P (normalizeCron input.cron) t
  let enabled := input.isEnabled.getD true
  let id ← Tx.nextSerial
  let s ← Tx.snapshot
  Tx.require (s.hasGroup row.2.2)
    (.conflict "schedule could not be saved (duplicate name or missing group)")
  Tx.update (·.addSchedule id ⟨row.1, row.2.1, normalizeCron input.cron, row.2.2, enabled,
    if enabled then some next else none, none, 1⟩)
  Tx.update (·.addEvent ⟨actor.userId, actor.email, "schedule.create", id, row.1, []⟩)
  pure id

/-! ## editSchedule -/

/-- The body of an `editSchedule` request. -/
structure ScheduleEdit where
  version : ℕ
  name : Option String
  kind : Option String
  cron : Option String
  scope : Option String
  groupId : Option UuidText
  isEnabled : Option Bool

/-- The columns an edit supplies. -/
structure ScheduleChanges where
  name : Option String
  kind : Option TaskKind
  cron : Option String
  scope : Option ScheduleScope
  isEnabled : Option Bool
  deriving DecidableEq, Repr

/-- An optional field: absent, or checked. -/
def optionally {α β : Type} (check : α → Option β) : Option α → Option (Option β)
  | none => some none
  | some a => (check a).map some

/-- The checks of `editSchedule` other than of the cron expression. -/
def ScheduleEdit.checked (input : ScheduleEdit) : Option ScheduleChanges := do
  let name ← optionally (fun s => if trimSpace s = "" then none else some (trimSpace s)) input.name
  let kind ← optionally deviceTaskKind? input.kind
  let scope ← optionally (scheduleScope? · input.groupId) input.scope
  some ⟨name, kind, input.cron.map normalizeCron, scope, input.isEnabled⟩

namespace Schedule

/-- The row with the supplied columns. -/
def edited (c : ScheduleChanges) (sc : Schedule) : Schedule :=
  { sc with
    name := c.name.getD sc.name
    kind := c.kind.getD sc.kind
    cron := c.cron.getD sc.cron
    scope := c.scope.getD sc.scope
    isEnabled := c.isEnabled.getD sc.isEnabled
    version := sc.version + 1 }

/-- `scheduleFields`, with the values of a row. -/
def fields (sc : Schedule) : List (String × AuditValue) :=
  [("name", .text sc.name), ("kind", .text sc.kind.text), ("cron", .text sc.cron),
    ("scope", .text (match sc.scope with | .all => "all" | .group _ => "group")),
    ("group_id", match sc.scope with | .all => .null | .group g => .ref g),
    ("is_enabled", .flag sc.isEnabled)]

/-- `UPDATE bp_schedules SET next_run_at=$2`. -/
def withNextRun (next : Option Instant) (sc : Schedule) : Schedule :=
  { sc with nextRunAt := next }

/-- `UPDATE bp_schedules SET last_run_at=$2,next_run_at=$3`. -/
def ran (now : Instant) (next : Option Instant) (sc : Schedule) : Schedule :=
  { sc with lastRunAt := some now, nextRunAt := next }

/-- `is_enabled AND next_run_at<=$1`. -/
def due (now : Instant) (sc : Schedule) : Bool := sc.isEnabled && sc.nextRunAt.any (· ≤ now)

end Schedule

/-- The `changes` of an edit: the columns whose values differ. -/
def auditChanges (old new : List (String × AuditValue)) : List (String × AuditEntry) :=
  (old.zip new).filterMap fun p =>
    if p.1.2 = p.2.2 then none else some (p.1.1, .fromTo p.1.2 p.2.2)

/-- `SELECT version,… FROM bp_schedules WHERE id=$1 FOR UPDATE`. -/
def selectScheduleForUpdate (id : Id) : Txn (Option Schedule) := do
  let before ← Tx.snapshot
  match before.schedules.get? id with
  | none => pure none
  | some _ => do
      Tx.acquire (.schedule id)
      let latest ← Tx.snapshot
      pure (latest.schedules.get? id)

/-- The cron expression an edit supplies has to have a next run. -/
def checkCron (P : Platform) : Option String → Txn PUnit
  | none => pure ⟨⟩
  | some expression => do
      let t ← timeNow
      let _ ← checkedNextRun P expression t
      pure ⟨⟩

/-- The hook of an edit: the time it read, where it did. -/
def recomputeNextRun (P : Platform) (id : Id) : Txn (Option Instant) := do
  let s ← Tx.snapshot
  let stored ← Tx.expect (s.schedules.get? id) .notFound
  if stored.isEnabled then do
    let t ← timeNow
    let next ← checkedNextRun P stored.cron t
    Tx.update (·.modifySchedule id (Schedule.withNextRun (some next)))
    pure (some t)
  else do
    Tx.update (·.modifySchedule id (Schedule.withNextRun none))
    pure none

/-- What an edit returns, with the time its hook read. -/
structure ScheduleEdited where
  id : Id
  version : ℕ
  time : Option Instant
  deriving DecidableEq, Repr

/-- `editSchedule`.

The hook behind the update computes the next run anew, from the clock of the API and not from the
transaction's, whichever field the edit has changed. -/
def editSchedule (P : Platform) (actor : Principal) (id : UuidText) (input : ScheduleEdit) :
    Txn ScheduleEdited := do
  authorize actor
  let changes ← Tx.expect input.checked (.unprocessable "invalid schedule")
  checkCron P changes.cron
  let id ← Tx.expect id.id? .notFound
  Tx.require (1 ≤ input.version) (.unprocessable "current version required")
  let found ← selectScheduleForUpdate id
  let row ← Tx.expect found .notFound
  Tx.require (row.version = input.version) .staleAsset
  if auditChanges row.fields (row.edited changes).fields = [] then pure ⟨id, row.version, none⟩
  else do
    let s ← Tx.snapshot
    Tx.require (s.hasGroup (row.edited changes).scope)
      (.conflict "change conflicts with existing assets")
    Tx.update (·.modifySchedule id (Schedule.edited changes))
    Tx.update (·.addEvent ⟨actor.userId, actor.email, "schedule.update", id,
      (row.edited changes).name, auditChanges row.fields (row.edited changes).fields⟩)
    let t ← recomputeNextRun P id
    pure ⟨id, row.version + 1, t⟩

/-! ## runSchedule -/

/-- `runSchedule`. -/
def runSchedule (actor : Principal) (id : UuidText) : Txn Enqueued := do
  authorize actor
  let id ← Tx.expect id.id? .notFound
  let start ← now
  let s ← Tx.snapshot
  let sc ← Tx.expect (s.schedules.get? id) .notFound
  let task ← enqueueDeviceTask sc.kind (some id) (some actor.userId) (some actor.email)
    sc.scope.toScope start
  let task ← Tx.expect task .notFound
  Tx.update (·.addEvent ⟨actor.userId, actor.email, "schedule.run", id, sc.name, []⟩)
  pure task

/-! ## runDueSchedules -/

/-- `FOR UPDATE SKIP LOCKED LIMIT n`: the rows that are free and due behind their lock. -/
def lockDue (now : Instant) : List Id → ℕ → Txn (List (Id × Schedule))
  | _, 0 => pure []
  | [], _ => pure []
  | id :: rest, n + 1 => do
      let got ← Tx.tryAcquire (.schedule id)
      let latest ← Tx.snapshot
      match (latest.schedules.get? id).filter fun sc => got && sc.due now with
      | some sc => do
          let more ← lockDue now rest n
          pure ((id, sc) :: more)
      | none => lockDue now rest (n + 1)

/-- The due schedules of a snapshot, `ORDER BY next_run_at`. -/
def Db.dueQueue (d : Db) (now : Instant) : List Id :=
  ((d.schedules.rows.filter fun r => r.2.due now).insertionSort
    fun a b => a.2.nextRunAt.getD 0 ≤ b.2.nextRunAt.getD 0).map Prod.fst

/-- The next run a tick stores: none where the expression has no match. -/
def tickNextRun (P : Platform) (expression : String) (now : Instant) :
    Txn (Option Instant) :=
  match P.nextRun expression now with
  | .ok t => pure (some t)
  | .error .running => Tx.raise .database
  | .error _ => pure none

/-- What a tick did for one schedule: the row it found due, and the task it enqueued. -/
structure Fired where
  schedule : Id
  row : Schedule
  task : Option Enqueued
  deriving DecidableEq, Repr

/-- The loop over the due schedules. -/
def fireAll (P : Platform) (now start : Instant) : List (Id × Schedule) → Txn (List Fired)
  | [] => pure []
  | (id, sc) :: rest => do
      let next ← tickNextRun P sc.cron now
      let task ← enqueueDeviceTask sc.kind (some id) none none sc.scope.toScope start
      Tx.update (·.modifySchedule id (Schedule.ran now next))
      let more ← fireAll P now start rest
      pure (⟨id, sc, task⟩ :: more)

/-- What a tick did, and the time it read. -/
structure Ticked where
  time : Instant
  fired : List Fired
  deriving DecidableEq, Repr

/-- `runDueSchedules`, at the `time.Now()` its caller reads. -/
def runDueSchedules (P : Platform) : Txn Ticked := do
  let t ← timeNow
  let start ← now
  let s ← Tx.snapshot
  let dues ← lockDue t (s.dueQueue t) 20
  let fired ← fireAll P t start dues
  pure ⟨t, fired⟩

end BindPlane.Devices
