import Mathlib.Algebra.Order.Group.Unbundled.Int
import Mathlib.Data.List.Basic
import Mathlib.Tactic.SplitIfs

/-!
# The server lifecycle

`runServerLifecycle` waits for a termination signal or for the end of the listener, and then
drains the server against two deadlines.  It runs beside three goroutines of its own, beside the
workers and the timers of its two contexts, and meets all of them in four `select` statements.

* `Lifecycle` is the state of one call: what lies in the channels, what the goroutines are at,
  the variables of the function and the `Stage` its control has reached.
* `Event` is one step of anybody.  The world may do anything at any time; a `select` may receive
  from any channel that is ready (`Event.take`); the statements between two waits are one step
  (`Event.go`) unless they read what others write.
* `log` is a history variable: what has been taken, called and returned, with the instant,
  newest first.

The texts that the function logs are left out.

**Select.**  A `select` with several ready channels receives from any of them, and a deadline that
has passed is one of these channels.  So a result that is ready and a deadline that is over may both
be chosen, whatever came first, and the code decides afterwards by comparing the clock, where it
does so.

**Source.**  What is modelled here is in `cmd/server/main.go` and `cmd/server/shutdown.go`.
-/

namespace BindPlane.Server

/-- An `os.Signal`, by its number. -/
structure Signal where
  number : ℕ
deriving DecidableEq, Repr

/-- An error, as far as `errors.Is` tells it from others. -/
inductive Fault
  /-- `context.DeadlineExceeded`, wrapped or not. -/
  | deadlineExceeded
  | failed (text : String)
deriving DecidableEq, Repr

/-- The arguments of `runServerLifecycle`: which of the pointers and functions are given rather
than `nil`, and the total budget in nanoseconds. -/
structure Setup where
  server : Bool
  total : ℤ
  stopWork : Bool
  workDone : Bool
  closeResource : Bool
  terminate : Bool
deriving DecidableEq, Repr

/-! ## Budgets -/

def shutdownExitReserve : ℤ := 2 * 1000000000

/-- The tail of the budget that is kept for canceling work and for closing dependencies. -/
def shutdownReserve (total : ℤ) : ℤ :=
  if total ≤ 0 then 0
  else
    let reserve := total / 10
    if shutdownExitReserve < reserve then shutdownExitReserve else reserve

/-- The drain budget and the reserve. -/
def shutdownBudgets (total : ℤ) : ℤ × ℤ :=
  if total ≤ 0 then (0, 0) else (total - shutdownReserve total, shutdownReserve total)

/-! ## States -/

/-- A goroutine that makes one call and sends its result on a channel of its own. -/
inductive Async
  | idle
  | running
  /-- The result lies in the channel, since `instant`. -/
  | sent (result : Option Fault) (instant : ℤ)
  | received (result : Option Fault) (instant : ℤ)
deriving DecidableEq, Repr

/-- The goroutine that awaits the workers and then `server.Shutdown`. -/
inductive Join
  | idle
  | awaitingWork
  | awaitingServer
  /-- The error of `server.Shutdown` lies in `joinResult`. -/
  | sent (serverShutdownErr : Option Fault)
  | received
deriving DecidableEq, Repr

/-- The variables of `runServerLifecycle`. -/
structure Locals where
  serverStartErr : Option Fault := none
  totalDeadline : ℤ := 0
  drainDeadline : ℤ := 0
  status : ℕ := 0
  serverShutdownErr : Option Fault := none
  waitedPastDrain : Bool := false
  joined : Bool := false
  forceClosed : Bool := false
deriving DecidableEq, Repr

/-- Where the control of `runServerLifecycle` is. -/
inductive Stage
  | entered
  /-- In the first `select`. -/
  | waiting
  /-- Before the clock is read and the contexts are made. -/
  | starting
  /-- In `stopWork`. -/
  | stopping
  /-- In the second `select`. -/
  | draining
  /-- Before the clock is compared with the drain deadline. -/
  | joined
  /-- Before the status is computed from what the drain has brought. -/
  | judging
  /-- In the `select` of the loop that forces connections closed. -/
  | forcing
  /-- Before `closeResource`. -/
  | finishing
  /-- In the last `select`. -/
  | closing
  /-- In `terminate`, which need not return. -/
  | terminating (signal : Signal)
  | returned (status : ℕ)
deriving DecidableEq, Repr

/-- An entry of the history. -/
inductive Entry
  | signalTaken (signal : Signal)
  | startFailed (fault : Fault)
  | secondSignalTaken (signal : Signal)
  | workClosed (instant : ℤ)
  | shutdownReturned (result : Option Fault) (instant : ℤ)
  | closeResourceCalled
  | closeResourceReturned (result : Option Fault) (instant : ℤ)
deriving DecidableEq, Repr

/-- The state of one call of `runServerLifecycle` and of what it runs beside.

The state has what others can see of the call, its own variables, and the history.  The goroutines
outlive the function in some runs: what they are at is kept even behind the return. -/
structure Lifecycle where
  now : ℤ
  signals : List Signal := []
  serverErrors : List (Option Fault) := []
  /-- Whether `workDone` is closed. -/
  workDone : Bool := false
  drainExpired : Bool := false
  totalExpired : Bool := false
  serverDone : Async := .idle
  joinResult : Join := .idle
  forceDone : Async := .idle
  closeDone : Async := .idle
  locals : Locals := {}
  stage : Stage := .entered
  log : List Entry := []
deriving DecidableEq, Repr

/-- A channel that a `select` receives from. -/
inductive Channel
  | signals
  | serverErrors
  | joinResult
  /-- `drainContext.Done()`. -/
  | drainDone
  | forceDone
  /-- `totalContext.Done()`. -/
  | totalDone
  | closeDone
deriving DecidableEq, Repr

/-- One step of anybody. -/
inductive Event
  | elapse (nanoseconds : ℕ)
  | signal (signal : Signal)
  /-- The listener has ended. -/
  | serverStops (result : Option Fault)
  /-- The last worker is done. -/
  | closeWork
  | drainExpires
  | totalExpires
  | shutdownReturns (result : Option Fault)
  /-- The joining goroutine passes `workDone`. -/
  | joinsWork
  /-- The joining goroutine passes `serverDone`. -/
  | joinsServer
  | closeReturns (result : Option Fault)
  | closeResourceReturns (result : Option Fault)
  | stopWorkReturns
  | terminateReturns
  /-- The function goes on to its next wait. -/
  | go
  /-- The `select` that the function is in receives. -/
  | take (channel : Channel)
deriving DecidableEq, Repr

/-! ## The world and the goroutines -/

namespace Lifecycle

variable (setup : Setup) (w : Lifecycle)

/-- Whether the contexts have been made. -/
def armed : Bool :=
  match w.stage with
  | .entered | .waiting | .starting => false
  | _ => true

/-- Start `server.Shutdown` and the goroutine that joins it with the workers. -/
def launch : Lifecycle :=
  { w with serverDone := .running, joinResult := .awaitingWork, stage := .draining }

/-- A step of the world or of a goroutine.

The timers of the contexts may fire at any time behind their deadlines, and not before. -/
def moveOutside : Event → Option Lifecycle
  | .elapse nanoseconds => some { w with now := w.now + nanoseconds }
  | .signal signal => some { w with signals := w.signals ++ [signal] }
  | .serverStops result => some { w with serverErrors := w.serverErrors ++ [result] }
  | .closeWork =>
      if w.workDone then none
      else some { w with workDone := true, log := .workClosed w.now :: w.log }
  | .drainExpires =>
      if w.armed ∧ w.locals.drainDeadline ≤ w.now then some { w with drainExpired := true }
      else none
  | .totalExpires =>
      if w.armed ∧ w.locals.totalDeadline ≤ w.now then some { w with totalExpired := true }
      else none
  | .shutdownReturns result =>
      if w.serverDone = .running then
        some { w with
          serverDone := .sent result w.now
          log := .shutdownReturned result w.now :: w.log }
      else none
  | .joinsWork =>
      if w.joinResult = .awaitingWork ∧ (setup.workDone → w.workDone) then
        some { w with joinResult := .awaitingServer }
      else none
  | .joinsServer =>
      match w.joinResult, w.serverDone with
      | .awaitingServer, .sent result instant =>
          some { w with serverDone := .received result instant, joinResult := .sent result }
      | _, _ => none
  | .closeReturns result =>
      if w.forceDone = .running then some { w with forceDone := .sent result w.now } else none
  | .closeResourceReturns result =>
      if w.closeDone = .running then
        some { w with
          closeDone := .sent result w.now
          log := .closeResourceReturned result w.now :: w.log }
      else none
  | _ => none

/-! ## `runServerLifecycle` -/

/-- `return status`.  The contexts that are cancelled on the way out concern nobody here. -/
def finish (status : ℕ) : Lifecycle := { w with stage := .returned status }

/-- `immediateShutdown`. -/
def immediateShutdown (signal : Signal) : Lifecycle :=
  { w with
    stage := if setup.terminate then .terminating signal else .returned 1
    log := .secondSignalTaken signal :: w.log }

/-- The first termination signal. -/
def takeSignal : Option Lifecycle :=
  match w.signals with
  | signal :: signals =>
      some { w with signals, stage := .starting, log := .signalTaken signal :: w.log }
  | [] => none

/-- The end of the listener, which is a failure also when it reports none. -/
def takeServerError : Option Lifecycle :=
  match w.serverErrors with
  | result :: serverErrors =>
      let fault := result.getD (.failed "HTTP server stopped unexpectedly")
      some { w with
        serverErrors, stage := .starting, log := .startFailed fault :: w.log
        locals := { w.locals with serverStartErr := some fault } }
  | [] => none

/-- A termination signal in one of the later `select` statements. -/
def takeSecondSignal : Option Lifecycle :=
  match w.signals with
  | signal :: signals => some ({ w with signals }.immediateShutdown setup signal)
  | [] => none

/-- Receive from `joinResult`, and never again. -/
def takeJoin : Option Lifecycle :=
  match w.joinResult with
  | .sent result =>
      some { w with
        joinResult := .received
        locals := { w.locals with serverShutdownErr := result, joined := true } }
  | _ => none

/-- The head of the loop that forces connections closed. -/
def loop : Lifecycle :=
  if !w.locals.joined || !w.locals.forceClosed then { w with stage := .forcing }
  else { w with stage := .finishing }

/-- Receive from `forceDone`.  Its error is only logged. -/
def takeForce : Option Lifecycle :=
  match w.forceDone with
  | .sent result instant =>
      some ({ w with
        forceDone := .received result instant
        locals := { w.locals with forceClosed := true } }.loop)
  | _ => none

/-- Receive from `closeDone`, and return. -/
def takeClose : Option Lifecycle :=
  match w.closeDone with
  | .sent result instant =>
      some ({ w with closeDone := .received result instant }.finish
        (if result.isSome then 1 else w.locals.status))
  | _ => none

/-- The `select` statements.  A channel that is not ready, or that the statement does not name,
is not received from.

A `select` with several channels ready may receive from any of them, and this is where the runs
branch. -/
def take : Channel → Option Lifecycle
  | .signals =>
      match w.stage with
      | .waiting => w.takeSignal
      | .draining | .forcing | .closing => w.takeSecondSignal setup
      | _ => none
  | .serverErrors => if w.stage = .waiting then w.takeServerError else none
  | .joinResult =>
      match w.stage with
      | .draining => w.takeJoin.map fun w => { w with stage := .joined }
      | .forcing => w.takeJoin.map loop
      | _ => none
  | .drainDone =>
      if w.stage = .draining ∧ w.drainExpired then
        some { w with stage := .judging, locals := { w.locals with waitedPastDrain := true } }
      else none
  | .forceDone => if w.stage = .forcing then w.takeForce else none
  | .totalDone =>
      if (w.stage = .forcing ∨ w.stage = .closing) ∧ w.totalExpired then some (w.finish 1)
      else none
  | .closeDone => if w.stage = .closing then w.takeClose else none

/-- Read the clock and make the two contexts. -/
def start : Lifecycle :=
  let w := { w with
    locals := { w.locals with
      totalDeadline := w.now + setup.total
      drainDeadline := w.now + (shutdownBudgets setup.total).1 } }
  if setup.stopWork then { w with stage := .stopping } else w.launch

/-- Compare the clock with the drain deadline after a join. -/
def checkDrain : Lifecycle :=
  { w with
    stage := .judging
    locals := { w.locals with
      waitedPastDrain := w.locals.waitedPastDrain ||
        (!decide (w.now < w.locals.drainDeadline) || w.drainExpired) } }

/-- The variables after the outcome of the drain has been looked at. -/
def Locals.judge (v : Locals) : Locals :=
  let v := if v.serverStartErr.isSome then { v with status := 1 } else v
  let v := match v.serverShutdownErr with
    | some .deadlineExceeded => { v with waitedPastDrain := true }
    | some (.failed _) => { v with status := 1 }
    | none => v
  if v.waitedPastDrain then { v with status := 1 } else v

/-- Compute the status, and force the connections closed if the drain took too long. -/
def judge : Lifecycle :=
  let w := { w with locals := Locals.judge w.locals }
  if w.locals.waitedPastDrain then { w with forceDone := .running }.loop
  else { w with stage := .finishing }

/-- Close the dependencies, if there are any and there is time. -/
def closeDependencies : Lifecycle :=
  if !setup.closeResource then w.finish w.locals.status
  else if w.totalExpired then w.finish 1
  else { w with
    closeDone := .running, stage := .closing, log := .closeResourceCalled :: w.log }

/-- The statements from one wait to the next. -/
def go : Option Lifecycle :=
  match w.stage with
  | .entered =>
      some (if !setup.server || decide (setup.total ≤ 0) then w.finish 1
        else { w with stage := .waiting })
  | .starting => some (w.start setup)
  | .joined => some w.checkDrain
  | .judging => some w.judge
  | .finishing => some (w.closeDependencies setup)
  | _ => none

/-- One step. -/
def step : Event → Option Lifecycle
  | .go => w.go setup
  | .take channel => w.take setup channel
  | .stopWorkReturns => if w.stage = .stopping then some w.launch else none
  | .terminateReturns =>
      match w.stage with
      | .terminating _ => some (w.finish 1)
      | _ => none
  | event => w.moveOutside setup event

/-- The steps of a list, one after the other. -/
def run : Lifecycle → List Event → Option Lifecycle
  | w, [] => some w
  | w, event :: events => (w.step setup event).bind fun w => w.run events

end Lifecycle

end BindPlane.Server
