import BindPlane.Release.Service
import BindPlane.Coroutine.Program
import BindPlane.Worker.Profile

/-!
# One job: device_task and execute

The executor of a claimed job as a coroutine: its calls are the checkpoints and the query for
its dependencies, the operations of the switch session, and the end of the heartbeat
that runs beside it.

The source keeps two flags for its exception handlers, `device_started` and
`command_may_have_run`.  Each is set once, at one place, so the handler of the part
before that place and the handler of the part behind it are two handlers here.

**Source.**  What is modelled here is in `worker/main.py`.
-/

namespace BindPlane

open Coroutine

/-- What a session is opened with: everything the executor uses of a dependency row, as
it was derived from it.

A session can only be built from a row of the database whose profile decodes and whose commands
render, and it carries the equations that say so.  So whatever is later known of a session is known
of the row. -/
structure Session (py : Python) where
  dep : Dependencies
  ip : IPv4
  profile : Profile
  settings : Settings
  commands : RenderedCommands
  profile_eq : decodeProfile py dep = .ok profile
  settings_eq : connectionSettings py dep profile = .ok settings
  commands_eq : renderCommands py profile.commandTemplates ip profile.paginationRules =
    .ok commands

/-- The calls of an executor. -/
inductive Call (py : Python)
  /-- A transaction on the store. -/
  | db (op : Op)
  | connect (session : Session py)
  | queryBefore (session : Session py)
  | release (session : Session py)
  | queryAfter (session : Session py)
  | close (session : Session py)
  /-- `keepalive.cancel()` and `await keepalive`, `CancelledError` suppressed. -/
  | stopHeartbeat

/-- What a call returns: the reply of a transaction, or a text.  Only the two queries and
the release return one of interest. -/
@[reducible] def Call.Result {py : Python} : Call py → Type
  | .db _ => Reply
  | _ => String

/-- A part of an executor. -/
abbrev Exec (py : Python) : Type → Type := Prog (@Call.Result py) Exc

/-- The journal of an executor, newest entry first. -/
abbrev Journal (py : Python) : Type := List (Event (@Call.Result py) Exc)

/-- The job as its checkpoints name it. -/
def ClaimedJob.ref (job : ClaimedJob) : JobRef := ⟨job.id, job.leaseToken⟩

/-- `dependency_problem`: why a job must not reach its switch at all, or the row it may
reach it with. -/
def dependencyProblem (job : ClaimedJob) : Option Dependencies → Except String Dependencies
  | none => .error "Switch, credential or command profile unavailable"
  | some dep =>
      if !(dep.isEnabled && dep.credentialActive && dep.profileActive) then
        .error "Switch, credential or command profile unavailable"
      else if dep.switchVersion ≠ job.switchVersion ||
          dep.profileVersion ≠ job.commandProfileVersion then
        .error "Switch configuration changed after the pre-query; query again"
      else .ok dep

/-- A job that has no problem has its row, at the versions it was made for. -/
theorem dependencyProblem_ok {job : ClaimedJob} {row dep : Dependencies}
    (h : dependencyProblem job (some row) = .ok dep) :
    dep = row ∧ row.switchVersion = job.switchVersion ∧
      row.profileVersion = job.commandProfileVersion := by
  simp only [dependencyProblem] at h
  split at h
  · cases h
  · split at h
    · cases h
    · next hversions =>
        cases h
        simpa using hversions

/-- The part of `device_task` up to the session: the profile, the settings, the
commands.

The session carries the computations it came from as fields, so that whoever has a session knows
that its profile was decoded, its settings were built and its commands were rendered. -/
def openSession (py : Python) (dep : Dependencies) (ip : IPv4) : Except Exc (Session py) :=
  match hprofile : decodeProfile py dep with
  | .error e => .error e
  | .ok profile =>
      match hsettings : connectionSettings py dep profile with
      | .error e => .error e
      | .ok settings =>
          match hcommands :
              renderCommands py profile.commandTemplates ip profile.paginationRules with
          | .error e => .error e
          | .ok commands =>
              .ok ⟨dep, ip, profile, settings, commands, hprofile, hsettings, hcommands⟩

theorem openSession_ok {py : Python} {dep : Dependencies} {ip : IPv4} {session : Session py}
    (h : openSession py dep ip = .ok session) : session.dep = dep ∧ session.ip = ip := by
  unfold openSession at h
  split at h
  · cases h
  · split at h
    · cases h
    · split at h <;> cases h
      exact ⟨rfl, rfl⟩

theorem ClassifiedReleaseResult.status_ne (c : ClassifiedReleaseResult) :
    c.status ≠ .queued := by
  rcases c.status_mem with h | h | h <;> simp [h]

theorem ClassifiedReleaseResult.status_ne_running (c : ClassifiedReleaseResult) :
    c.status ≠ .running := by
  rcases c.status_mem with h | h | h <;> simp [h]

/-- The status an exception in `device_task` ends a job with. -/
def failureStatus (commandMayHaveRun : Bool) (exc : Exc) : Status :=
  if commandMayHaveRun then .needsManualConfirmation
  else if exc.connectionTimeout then .timeout else .failed

theorem failureStatus_ne (commandMayHaveRun : Bool) (exc : Exc) :
    failureStatus commandMayHaveRun exc ≠ .queued := by
  unfold failureStatus
  split
  · decide
  · split <;> decide

section Program

variable {py : Python}

/-- `checkpoint_sync`, and `checkpoint` awaited by `execute` itself. -/
def saveCheckpoint (job : ClaimedJob) (c : Checkpoint) : Exec py Unit := do
  let _ ← Prog.perform (Call.db (.checkpoint job.ref c) : Call py)

/-- `device_task` from `connect` to the checkpoint that announces the release; whether it
came that far.

A checkpoint follows the connection, and another the parsed answer of the query.  Where the entry is
not as a release expects it, the next checkpoint is the last one, and the release command is never
asked for. -/
def queryFirst (job : ClaimedJob) (session : Session py) : Exec py Bool := do
  let _ ← Prog.perform (Call.connect session)
  saveCheckpoint job { phase := .queryingBefore, status := .running }
  let rawBefore ← Prog.perform (Call.queryBefore session)
  let before ← Prog.ofExcept
    (parseArpObservation py job.targetIp rawBefore session.profile.parserRules)
  saveCheckpoint job
    { phase := .queryingBefore, status := .running,
      changes := { rawBeforeOutput := some rawBefore, beforeState := some before } }
  if before.entryType = .unknown then
    saveCheckpoint job
      { phase := .finished, status := .needsManualConfirmation,
        message := some "Pre-query could not be parsed" }
    pure false
  else if job.kind = .preReleaseQuery then
    if before.entryType = .dynamic then
      saveCheckpoint job
        { phase := .finished, status := .cancelled,
          message := some "Dynamic entry is not a static binding",
          changes := { result := some (.preparation "stopped_dynamic_record") } }
    else if before.entryType = .missing && !job.force then
      saveCheckpoint job
        { phase := .finished, status := .cancelled,
          message := some "No record; operator must stop",
          changes := { result := some (.preparation "stopped_no_record") } }
    else
      saveCheckpoint job
        { phase := .waitingConfirmation, status := .waitingConfirmation,
          message := some "Pre-query ready for confirmation",
          changes := { result := some (.preparation "ready") } }
    pure false
  else if before.entryType = .dynamic then
    saveCheckpoint job
      { phase := .finished, status := .cancelled,
        message := some "Dynamic entry is not a static binding" }
    pure false
  else if before.entryType = .missing && !job.force then
    saveCheckpoint job
      { phase := .finished, status := .cancelled,
        message := some "No record; release stopped" }
    pure false
  else
    saveCheckpoint job { phase := .releasing, status := .running }
    pure true

/-- `device_task` from the release command on: `command_may_have_run`.

From here on an exception no longer means that nothing has happened on the switch, and the handler
of this part ends the job in manual confirmation. -/
def releaseAndClassify (job : ClaimedJob) (session : Session py) : Exec py Unit := do
  let rawRelease ← Prog.perform (Call.release session)
  saveCheckpoint job
    { phase := .queryingAfter, status := .running,
      changes := { rawReleaseOutput := some rawRelease } }
  let rawAfter ← Prog.perform (Call.queryAfter session)
  saveCheckpoint job
    { phase := .classifying, status := .running,
      changes := { rawAfterOutput := some rawAfter } }
  let after ← Prog.ofExcept
    (parseArpObservation py job.targetIp rawAfter session.profile.parserRules)
  let classified ← Prog.ofExcept (classifyReleaseResult py rawRelease after
    session.profile.errorPatterns session.profile.successPatterns)
  saveCheckpoint job
    { phase := .finished, status := classified.status, message := some classified.message,
      changes :=
        { afterState := some after, rawAfterOutput := some rawAfter,
          result := some (.classified classified.message classified.afterState
            classified.successPatternMatched) },
      status_ne := classified.status_ne }

/-- The exception handler of `device_task`. -/
def deviceFailed (job : ClaimedJob) (commandMayHaveRun : Bool) (exc : Exc) : Exec py Unit :=
  saveCheckpoint job
    { phase := .finished, status := failureStatus commandMayHaveRun exc,
      message := some exc.name,
      changes :=
        { errorMessage := some ("Switch execution: " ++ exc.name),
          rawReleaseOutput := if commandMayHaveRun then exc.partialOutput else none },
      status_ne := failureStatus_ne commandMayHaveRun exc }

/-- `session.close()`, its exceptions only logged. -/
def closeSession (session : Session py) : Exec py Unit :=
  Prog.tryCatch (do let _ ← Prog.perform (Call.close session)) fun _ => pure ()

/-- The two parts of `device_task` on an open session. -/
def useSession (job : ClaimedJob) (session : Session py) : Exec py Unit := do
  let releasing ← Prog.tryCatch (queryFirst job session) fun exc => do
    deviceFailed job false exc
    pure false
  if releasing then
    Prog.tryCatch (releaseAndClassify job session) (deviceFailed job true)
  else pure ()

/-- `device_task`. -/
def deviceTask (job : ClaimedJob) (dep : Option Dependencies) : Exec py Unit :=
  match dependencyProblem job dep with
  | .error _ => Prog.raise { name := "ValueError" }
  | .ok dep =>
      match openSession py dep job.targetIp with
      | .error exc =>
          -- nothing has reached the switch yet: a definite failure
          saveCheckpoint job
            { phase := .finished, status := .failed,
              message := some "Switch configuration could not be used",
              changes := { errorMessage := some ("Switch configuration: " ++ exc.name) } }
      | .ok session => Prog.andFinally (useSession job session) (closeSession session)

/-- `execute` up to `device_started = True`: the dependencies, if the job may go on.

The profile and the switch are read again here, by a query of their own, and compared with what the
job was pinned to.  A difference ends the job before a connection is opened. -/
def loadJob (job : ClaimedJob) : Exec py (Option Dependencies) := do
  let reply ← Prog.perform
    (Call.db (.loadDependencies job.switchId job.commandProfileId) : Call py)
  let dep := match reply with
    | .dependencies dep => dep
    | _ => none
  match dependencyProblem job dep with
  | .error problem =>
      saveCheckpoint job
        { phase := .finished, status := .failed, message := some problem,
          changes := { errorMessage := some problem } }
      pure none
  | .ok dep => pure (some dep)

/-- The last checkpoint of `execute`, its exceptions only logged. -/
def finalize (job : ClaimedJob) (deviceStarted : Bool) : Exec py Unit :=
  Prog.tryCatch
    (saveCheckpoint job (if deviceStarted then
        { phase := .finished, status := .needsManualConfirmation,
          message := some "Executor failure; switch state uncertain" }
      else
        { phase := .finished, status := .failed,
          message := some "Executor failure before switch connection" }))
    fun _ => pure ()

/-- `execute` inside its `try … finally`. -/
def executeJob (job : ClaimedJob) : Exec py Unit := do
  let started ← Prog.tryCatch (loadJob job) fun _ => do
    finalize job false
    pure none
  match started with
  | none => pure ()
  | some dep => Prog.tryCatch (deviceTask job (some dep)) fun _ => finalize job true

/-- `execute`. -/
def execute (job : ClaimedJob) : Exec py Unit :=
  Prog.andFinally (executeJob job) (do let _ ← Prog.perform (Call.stopHeartbeat : Call py))

end Program

end BindPlane
