import Mathlib.Logic.Function.Basic
import BindPlane.Mail.Delivery

/-!
# The loop of the mail dispatcher and its shutdown

One `MailDispatcher.Run` beside any number of `BeginShutdown` calls, the goroutines of their
callbacks, the store, the mailer and the ends of the contexts
(`internal/auth/application/mail_dispatcher.go`).

* `World` is the state: the fields of the dispatcher, the contexts, the callbacks that
  `context.AfterFunc` has registered, and where each party is.
* `linkActiveDelivery` is called by both sides.  A `Linker` is where such a call is: that of the
  loop has the number 0, that of the call `k` of `BeginShutdown` the number `k + 1`.
* What a party does under the mutex is one step; so is a statement that reads or writes what others
  see.

**The contexts.**  A delivery has a context of its own, which ends at its deadline or when it is
cancelled.  It does not end with that of the loop, but for an earlier deadline
(`boundedDetachedTimeout`).

**Granularity.**  Two goroutines can be interleaved between any two steps, and a step is as small as
the code allows others to see something: a read of `stopping`, a section under the mutex, the call
of a context function.  What a goroutine does with its own variables in between is part of the next
step.
-/

namespace BindPlane.Dispatch

open Coroutine Mail

/-! ## States -/

/-- An `activeMailDelivery` with the context that it cancels, and what has been done under it. -/
structure Delivery where
  deadline : ℤ := 0
  cancelled : Bool := false
  /-- The callback that `stop` would stop. -/
  stop : Option ℕ := none
  journal : Journal := []
  /-- The acknowledgements, newest first, each with whether its context was alive at its start. -/
  acknowledgements : List (Ack × Bool) := []
  released : Bool := false

/-- A callback that is `over` has run or was stopped. -/
inductive CallbackState
  | waiting | started | over
  deriving DecidableEq, Repr

/-- The cancellation of a delivery, registered with a context. -/
structure Callback where
  context : ℕ
  delivery : ℕ
  state : CallbackState
  deriving DecidableEq, Repr

/-- Where a call of `linkActiveDelivery` is. -/
inductive Linker
  | idle
  | entered (delivery context : ℕ)
  /-- Before the mutex. -/
  | registered (delivery callback : ℕ)
  /-- Before `stop()`. -/
  | withdrawing (delivery callback : ℕ)
  deriving DecidableEq, Repr

/-- Where a call of `BeginShutdown` is. -/
inductive Caller
  | idle
  | called (context : ℕ)
  | linking
  | returned
  deriving DecidableEq, Repr

/-- The places where the loop looks at its context and then at `stopping`. -/
inductive Check
  /-- At the head of the loop of `Run`. -/
  | top
  /-- On entry to `ProcessOnce`. -/
  | entry
  /-- Before a claim. -/
  | claim
  /-- Behind `ProcessOnce`. -/
  | bottom
  deriving DecidableEq, Repr

/-- Where the loop is. -/
inductive Stage
  /-- Before `ctx.Err()`. -/
  | reading (check : Check)
  /-- Before `d.isStopping()`. -/
  | asking (check : Check)
  | sweeping
  | cleaning
  /-- In `newLeaseToken`. -/
  | drawing
  /-- Before `ClaimMail`, or in it. -/
  | claiming (called : Bool)
  | claimed (job : MailJob)
  /-- The delivery has its context and is not yet the active one. -/
  | publishing (delivery : ℕ) (job : MailJob)
  /-- In `linkActiveDelivery`. -/
  | linking (delivery : ℕ) (job : MailJob)
  /-- Before the next call of the delivery, or in it. -/
  | delivering (delivery : ℕ) (called : Bool) (rest : Act Unit)
  /-- In `releaseActiveDelivery`. -/
  | releasing (delivery : ℕ) (failed : Bool)
  | stopping (delivery callback : ℕ) (failed : Bool)
  | cancelling (delivery : ℕ) (failed : Bool)
  /-- `ProcessOnce` has returned. -/
  | processed (failed : Bool)
  /-- In the `select` of `Run`. -/
  | waiting
  | returned

/-- The state of the dispatcher and of everybody who uses it.

The dispatcher is one object with a mutex, and several goroutines use it.  What is shared stands in
the fields of the world, and each goroutine is a program counter with its variables; time is a
number that `elapse` moves. -/
structure World where
  clock : ℤ
  runDeadline : Option ℤ
  runCancelled : Bool := false
  /-- The contexts of `BeginShutdown` that have ended. -/
  ended : ℕ → Bool := fun _ => false
  stopping : Bool := false
  shutdownContext : Option ℕ := none
  active : Option ℕ := none
  deliveries : ℕ → Delivery := fun _ => {}
  deliveryCount : ℕ := 0
  callbacks : ℕ → Callback := fun _ => ⟨0, 0, .over⟩
  callbackCount : ℕ := 0
  linkers : ℕ → Linker := fun _ => .idle
  calls : ℕ → Caller := fun _ => .idle
  stage : Stage := .reading .top
  /-- How many calls of `ClaimMail` have been started. -/
  claims : ℕ := 0

/-- One step of anybody. -/
inductive Event
  | elapse (nanoseconds : ℕ)
  | cancelRun
  | endContext (context : ℕ)
  /-- The goroutine of a callback cancels its delivery. -/
  | fire (callback : ℕ)
  | beginShutdown (call context : ℕ)
  /-- A call of `BeginShutdown` goes on. -/
  | advance (call : ℕ)
  /-- A call of `linkActiveDelivery` goes on. -/
  | link (linker : ℕ)
  /-- The loop goes on. -/
  | go
  /-- What the loop waits for fails. -/
  | fails
  | succeeds
  /-- `ClaimMail` returns a job. -/
  | claims (job : MailJob)
  /-- A call of the delivery returns. -/
  | answer (request : Request) (result : Except Failure (Reply request))
  /-- The `select` of `Run` receives from `ctx.Done()`, from `stopCh`, or from the ticker. -/
  | seesDone
  | seesStop
  | ticks

/-- Where the loop goes from a check that finds its context ended or the dispatcher stopping. -/
def Check.stop : Check → Stage
  | .top | .bottom => .returned
  | .entry | .claim => .processed true

/-- Where the loop goes from a check that finds neither. -/
def Check.pass (d : MailDispatcher) : Check → Stage
  | .top => .reading .entry
  | .entry => if d.wired then .sweeping else .processed true
  | .claim => .drawing
  | .bottom => .waiting

namespace World

variable (d : MailDispatcher) (w : World)

/-- `ctx.Err() != nil`, for the context of `Run`. -/
def runEnded : Bool := w.runCancelled || w.runDeadline.any (· ≤ w.clock)

def setDelivery (i : ℕ) (f : Delivery → Delivery) : World :=
  { w with deliveries := Function.update w.deliveries i (f (w.deliveries i)) }

/-! ## Callbacks -/

/-- `context.AfterFunc(context, active.cancel)`, which starts at once if the context has ended. -/
def afterFunc (context delivery : ℕ) : World :=
  { w with
    callbacks := Function.update w.callbacks w.callbackCount
      ⟨context, delivery, if w.ended context then .started else .waiting⟩
    callbackCount := w.callbackCount + 1 }

/-- `stop()`, which does nothing to a callback that has started. -/
def stopCallback (b : ℕ) : World :=
  if (w.callbacks b).state = .waiting then
    { w with callbacks := Function.update w.callbacks b { w.callbacks b with state := .over } }
  else w

/-- A context ends, which starts what waits for it. -/
def endContext (context : ℕ) : World :=
  { w with
    ended := Function.update w.ended context true
    callbacks := fun b =>
      if (w.callbacks b).context = context ∧ (w.callbacks b).state = .waiting then
        { w.callbacks b with state := .started }
      else w.callbacks b }

/-- A callback that has started cancels its delivery. -/
def fire (b : ℕ) : Option World :=
  if (w.callbacks b).state = .started then
    some { w.setDelivery (w.callbacks b).delivery fun v => { v with cancelled := true } with
      callbacks := Function.update w.callbacks b { w.callbacks b with state := .over } }
  else none

/-! ## `BeginShutdown` -/

/-- `linkActiveDelivery` goes on.

The callback is registered before the lock is taken, and so before it is known whether the delivery
is still the active one.  Where it is not, the registration is withdrawn, but the callback may have
started by then. -/
def link (l : ℕ) : Option World :=
  match w.linkers l with
  | .idle => none
  | .entered i context =>
      some { w.afterFunc context i with
        linkers := Function.update w.linkers l (.registered i w.callbackCount) }
  | .registered i b =>
      if w.active = some i then
        some { w.setDelivery i fun v => { v with stop := some b } with
          linkers := Function.update w.linkers l .idle }
      else some { w with linkers := Function.update w.linkers l (.withdrawing i b) }
  | .withdrawing _ b =>
      some { w.stopCallback b with linkers := Function.update w.linkers l .idle }

def setCall (k : ℕ) (caller : Caller) : World :=
  { w with calls := Function.update w.calls k caller }

/-- What `BeginShutdown` does under the mutex. -/
def beginShutdown (k context : ℕ) : World :=
  if w.stopping then w.setCall k .returned
  else
    match w.active with
    | none =>
        { w.setCall k .returned with stopping := true, shutdownContext := some context }
    | some i =>
        { w.setCall k .linking with
          stopping := true
          shutdownContext := some context
          linkers := Function.update w.linkers (k + 1) (.entered i context) }

def advance (k : ℕ) : Option World :=
  match w.calls k with
  | .called context => some (w.beginShutdown k context)
  | .linking => if w.linkers (k + 1) = .idle then some (w.setCall k .returned) else none
  | _ => none

/-! ## `Run` -/

def goTo (stage : Stage) : World := { w with stage }

/-- `activeJobContext`, up to the mutex: the context of a delivery. -/
def openDelivery (job : MailJob) : World :=
  let deadline := w.clock + d.bound
  let deadline := match w.runDeadline with
    | some parent => if parent < deadline then parent else deadline
    | none => deadline
  { w with
    deliveries := Function.update w.deliveries w.deliveryCount { deadline }
    deliveryCount := w.deliveryCount + 1
    stage := .publishing w.deliveryCount job }

/-- What `activeJobContext` does under the mutex, and behind it. -/
def publish (i : ℕ) (job : MailJob) : World :=
  match w.shutdownContext with
  | none => { w with active := some i, stage := .delivering i false (d.deliver job) }
  | some context =>
      { w with
        active := some i
        linkers := Function.update w.linkers 0 (.entered i context)
        stage := .linking i job }

/-- What a call of a delivery leaves behind.  The clock answers at once. -/
def request (i : ℕ) (q : Request) (k : Except Failure (Reply q) → Act Unit) : World :=
  match q, k with
  | .now, k =>
      { w.setDelivery i fun v =>
          { v with journal := .returned .now (.ok w.clock) :: .called .now :: v.journal } with
        stage := .delivering i false (k (.ok w.clock)) }
  | .acknowledge ack deadline, k =>
      { w.setDelivery i fun v =>
          { v with
            journal := .called (.acknowledge ack deadline) :: v.journal
            acknowledgements := (ack, decide (w.clock < deadline)) :: v.acknowledgements } with
        stage := .delivering i true (.call (.acknowledge ack deadline) k) }
  | q, k =>
      { w.setDelivery i fun v => { v with journal := .called q :: v.journal } with
        stage := .delivering i true (.call q k) }

/-- What `releaseActiveDelivery` does under the mutex. -/
def release (i : ℕ) (failed : Bool) : World :=
  if w.active = some i then
    match (w.deliveries i).stop with
    | none => { w with active := none, stage := .cancelling i failed }
    | some b => { w with active := none, stage := .stopping i b failed }
  else w.goTo (.processed failed)

/-- The statements of the loop from one wait to the next.

Where nothing leads on from a stage, the loop has returned, or it waits: for the database, for the
delivery, for the link or in the `select`. -/
def go : Option World :=
  match w.stage with
  | .reading check => some (w.goTo (if w.runEnded then check.stop else .asking check))
  | .asking check => some (w.goTo (if w.stopping then check.stop else check.pass d))
  | .claiming false => some { w with stage := .claiming true, claims := w.claims + 1 }
  | .claimed job => some (w.openDelivery d job)
  | .publishing i job => some (w.publish d i job)
  | .linking i job =>
      if w.linkers 0 = .idle then some (w.goTo (.delivering i false (d.deliver job))) else none
  | .delivering i false rest =>
      match rest with
      | .pure _ => some (w.goTo (.releasing i false))
      | .throw _ => some (w.goTo (.releasing i true))
      | .call q k => some (w.request i q k)
  | .releasing i failed => some (w.release i failed)
  | .stopping i b failed => some ((w.stopCallback b).goTo (.cancelling i failed))
  | .cancelling i failed =>
      some ((w.setDelivery i fun v => { v with cancelled := true, released := true }).goTo
        (.processed failed))
  | .processed failed =>
      some (w.goTo (if failed && w.runEnded then .returned else .reading .bottom))
  | _ => none

def fails : Option World :=
  match w.stage with
  | .sweeping | .cleaning | .drawing | .claiming true => some (w.goTo (.processed true))
  | _ => none

/-- Without a job, where it is `ClaimMail` that returns. -/
def succeeds : Option World :=
  match w.stage with
  | .sweeping => some (w.goTo .cleaning)
  | .cleaning => some (w.goTo (.reading .claim))
  | .drawing => some (w.goTo (.claiming false))
  | .claiming true => some (w.goTo (.processed false))
  | _ => none

def answer (request : Request) (result : Except Failure (Reply request)) : Option World :=
  match w.stage with
  | .delivering i true (.call q k) =>
      if h : request = q then
        some ((w.setDelivery i fun v =>
          { v with journal := .returned q (h ▸ result) :: v.journal }).goTo
            (.delivering i false (k (h ▸ result))))
      else none
  | _ => none

/-- `ClaimMail` returns a job. -/
def receives (job : MailJob) : Option World :=
  match w.stage with
  | .claiming true => some (w.goTo (.claimed job))
  | _ => none

/-- The `select` of `Run` takes a branch that is ready. -/
def select (ready : Bool) (next : Stage) : Option World :=
  match w.stage with
  | .waiting => if ready then some (w.goTo next) else none
  | _ => none

/-! ## Runs -/

def step : Event → Option World
  | .elapse nanoseconds => some { w with clock := w.clock + nanoseconds }
  | .cancelRun => some { w with runCancelled := true }
  | .endContext context => some (w.endContext context)
  | .fire b => w.fire b
  | .beginShutdown k context =>
      if w.calls k = .idle then some (w.setCall k (.called context)) else none
  | .advance k => w.advance k
  | .link l => w.link l
  | .go => w.go d
  | .fails => w.fails
  | .succeeds => w.succeeds
  | .claims job => w.receives job
  | .answer request result => w.answer request result
  | .seesDone => w.select w.runEnded .returned
  | .seesStop => w.select w.stopping .returned
  | .ticks => w.select true (.reading .top)

/-- The steps of a list, one after the other. -/
def run : World → List Event → Option World
  | w, [] => some w
  | w, event :: events => (w.step d event).bind fun w => run w events

end World

end BindPlane.Dispatch
