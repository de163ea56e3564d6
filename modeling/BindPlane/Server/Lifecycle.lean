import BindPlane.Server.Shutdown

/-!
# What the server lifecycle promises

Whatever the signals, the listener, the workers, the timers and the goroutines do, and whichever
ready channel a `select` receives from, `closeResource` is called at most once, behind the last
worker and behind `server.Shutdown`; a second signal ends the call with 1 and without another
step of the drain; and the status 0 stands for a drain in time (`Orderly`).

The one promise that is not kept is about the last wait: `runServerLifecycle` compares the clock
with the drain deadline when the join has come first, but it does not compare the clock with the
total deadline when `closeResource` has.  A call is orderly exactly if its last `select` does not
receive a success that came too late (`orderly_iff`).
-/

namespace BindPlane.Server

/-- An entry that the world or a goroutine makes. -/
def Entry.Outer : Entry → Prop
  | .workClosed _ | .shutdownReturned _ _ | .closeResourceReturned _ _ => True
  | _ => False

namespace Lifecycle

variable {setup : Setup} {w w' : Lifecycle} {event : Event}

/-! ## The promises -/

/-- The first event was a signal, and the HTTP drain and the workers were through without an error
before the drain deadline. -/
structure Drained (setup : Setup) (w : Lifecycle) : Prop where
  signalled : ∃ signal, .signalTaken signal ∈ w.log
  started : ∀ fault, .startFailed fault ∉ w.log
  drained : ∃ t < w.locals.drainDeadline, .shutdownReturned none t ∈ w.log
  worked : setup.workDone → ∃ t < w.locals.drainDeadline, .workClosed t ∈ w.log

/-- No second signal was taken. -/
def Alone (w : Lifecycle) : Prop := ∀ signal, .secondSignalTaken signal ∉ w.log

/-- What the status 0 stands for. -/
structure Succeeded (setup : Setup) (w : Lifecycle) : Prop where
  drained : w.Drained setup
  alone : w.Alone
  closed : setup.closeResource →
    ∃ t < w.locals.totalDeadline, .closeResourceReturned none t ∈ w.log

/-- The promises of `runServerLifecycle`.  A second signal ends it with 1 as soon as `terminate`
has returned.

Each field is a promise of the comments and of the documentation of the shutdown, stated of the
history of the call: what has been called, in which order, and when it has returned. -/
structure Orderly (setup : Setup) (w : Lifecycle) : Prop where
  closes_once : w.log.count .closeResourceCalled ≤ 1
  closes_last : ∀ later earlier, w.log = later ++ .closeResourceCalled :: earlier →
    (setup.workDone → ∃ t, .workClosed t ∈ earlier) ∧
      ∃ result t, .shutdownReturned result t ∈ earlier
  succeeds : w.stage = .returned 0 → w.Succeeded setup
  interrupted : ∀ signal later earlier,
    w.log = later ++ .secondSignalTaken signal :: earlier →
      .closeResourceCalled ∉ later ∧
        (w.stage = .returned 1 ∨ (∃ signal, w.stage = .terminating signal) ∧
          ∃ w', w.step setup .terminateReturns = some w' ∧ w'.stage = .returned 1)

/-- The last `select` is about to receive a success that came at the total deadline or past
it. -/
def late (w : Lifecycle) : Event → Bool
  | .take .closeDone =>
      match w.stage, w.closeDone with
      | .closing, .sent none t => w.locals.status == 0 && decide (w.locals.totalDeadline ≤ t)
      | _, _ => false
  | _ => false

/-- No step of the list is late. -/
def punctual (setup : Setup) : Lifecycle → List Event → Bool
  | _, [] => true
  | w, event :: events =>
      !w.late event && (w.step setup event).all fun w' => punctual setup w' events

/-! ## What a step can do -/

/-- A step of the function itself.

Each stage has the receptions that its `select` names, and a channel must hold a value for one of
them to happen. -/
inductive Moves (setup : Setup) (w : Lifecycle) : Event → Lifecycle → Prop
  | refuse (hstage : w.stage = .entered) : Moves setup w .go (w.finish 1)
  | await (hstage : w.stage = .entered) : Moves setup w .go { w with stage := .waiting }
  | first {signal : Signal} {signals : List Signal} (hstage : w.stage = .waiting) :
      Moves setup w (.take .signals)
        { w with signals, stage := .starting, log := .signalTaken signal :: w.log }
  | stopped {fault : Fault} {serverErrors : List (Option Fault)} (hstage : w.stage = .waiting) :
      Moves setup w (.take .serverErrors)
        { w with
          serverErrors, stage := .starting, log := .startFailed fault :: w.log
          locals := { w.locals with serverStartErr := some fault } }
  | start (hstage : w.stage = .starting) : Moves setup w .go (w.start setup)
  | launch (hstage : w.stage = .stopping) : Moves setup w .stopWorkReturns w.launch
  | join {result : Option Fault} (hstage : w.stage = .draining)
      (hjoin : w.joinResult = .sent result) :
      Moves setup w (.take .joinResult)
        { w with
          joinResult := .received, stage := .joined
          locals := { w.locals with serverShutdownErr := result, joined := true } }
  | drainOver (hstage : w.stage = .draining) :
      Moves setup w (.take .drainDone)
        { w with stage := .judging, locals := { w.locals with waitedPastDrain := true } }
  | second {signal : Signal} {signals : List Signal}
      (hstage : w.stage = .draining ∨ w.stage = .forcing ∨ w.stage = .closing) :
      Moves setup w (.take .signals) ({ w with signals }.immediateShutdown setup signal)
  | check (hstage : w.stage = .joined) : Moves setup w .go w.checkDrain
  | judge (hstage : w.stage = .judging) : Moves setup w .go w.judge
  | joinLate {result : Option Fault} (hstage : w.stage = .forcing)
      (hjoin : w.joinResult = .sent result) :
      Moves setup w (.take .joinResult)
        { w with
          joinResult := .received
          locals := { w.locals with serverShutdownErr := result, joined := true } }.loop
  | forced {result : Option Fault} {t : ℤ} (hstage : w.stage = .forcing) :
      Moves setup w (.take .forceDone)
        { w with
          forceDone := .received result t
          locals := { w.locals with forceClosed := true } }.loop
  | totalOver (hstage : w.stage = .forcing ∨ w.stage = .closing) :
      Moves setup w (.take .totalDone) (w.finish 1)
  | closeDependencies (hstage : w.stage = .finishing) :
      Moves setup w .go (w.closeDependencies setup)
  | closed {result : Option Fault} {t : ℤ} (hstage : w.stage = .closing)
      (hclose : w.closeDone = .sent result t) :
      Moves setup w (.take .closeDone)
        ({ w with closeDone := .received result t }.finish
          (if result.isSome then 1 else w.locals.status))
  | terminated {signal : Signal} (hstage : w.stage = .terminating signal) :
      Moves setup w .terminateReturns (w.finish 1)

/-- Only a message that lies in `signals` is received, and only by a `select` that names it. -/
theorem takeSignals_moves (h : w.take setup .signals = some w') :
    w.Moves setup (.take .signals) w' := by
  simp only [take, takeSignal, takeSecondSignal] at h
  split at h
  case h_1 hstage =>
    split at h
    · exact Option.some.inj h ▸ .first hstage
    · cases h
  case h_2 hstage | h_3 hstage | h_4 hstage =>
    split at h
    · exact Option.some.inj h ▸ .second (by simp [hstage])
    · cases h
  case h_5 => cases h

theorem takeJoin_eq_some (h : w.takeJoin = some w') : ∃ result, w.joinResult = .sent result ∧
    w' = { w with
      joinResult := .received
      locals := { w.locals with serverShutdownErr := result, joined := true } } := by
  unfold takeJoin at h
  split at h
  next result hjoin => exact ⟨result, hjoin, (Option.some.inj h).symm⟩
  next => cases h

theorem takeJoin_moves (h : w.take setup .joinResult = some w') :
    w.Moves setup (.take .joinResult) w' := by
  simp only [take] at h
  split at h
  next hstage =>
    obtain ⟨v, hv, rfl⟩ := Option.map_eq_some_iff.mp h
    obtain ⟨result, hjoin, rfl⟩ := takeJoin_eq_some hv
    exact .join hstage hjoin
  next hstage =>
    obtain ⟨v, hv, rfl⟩ := Option.map_eq_some_iff.mp h
    obtain ⟨result, hjoin, rfl⟩ := takeJoin_eq_some hv
    exact .joinLate hstage hjoin
  next => cases h

theorem take_moves {channel : Channel} (h : w.take setup channel = some w') :
    w.Moves setup (.take channel) w' := by
  cases channel with
  | signals => exact takeSignals_moves h
  | joinResult => exact takeJoin_moves h
  | serverErrors =>
      simp only [take, takeServerError] at h
      split_ifs at h with hstage
      split at h
      · exact Option.some.inj h ▸ .stopped hstage
      · cases h
  | drainDone =>
      simp only [take] at h
      split_ifs at h with hstage
      exact Option.some.inj h ▸ .drainOver hstage.1
  | forceDone =>
      simp only [take, takeForce] at h
      split_ifs at h with hstage
      split at h
      · exact Option.some.inj h ▸ .forced hstage
      · cases h
  | totalDone =>
      simp only [take] at h
      split_ifs at h with hstage
      exact Option.some.inj h ▸ .totalOver hstage.1
  | closeDone =>
      simp only [take, takeClose] at h
      split_ifs at h with hstage
      split at h
      next result t hclose => exact Option.some.inj h ▸ .closed hstage hclose
      next => cases h

theorem go_moves (h : w.go setup = some w') : w.Moves setup .go w' := by
  unfold go at h
  split at h <;> simp only [Option.some.injEq, reduceCtorEq] at h
  next hstage =>
    split_ifs at h
    · exact h ▸ .refuse hstage
    · exact h ▸ .await hstage
  next hstage => exact h ▸ .start hstage
  next hstage => exact h ▸ .check hstage
  next hstage => exact h ▸ .judge hstage
  next hstage => exact h ▸ .closeDependencies hstage

/-- A step is one of the function itself, or it is one of the world or of a goroutine. -/
theorem step_cases (h : w.step setup event = some w') :
    w.Moves setup event w' ∨ w.moveOutside setup event = some w' := by
  cases event with
  | go => exact .inl (go_moves h)
  | take channel => exact .inl (take_moves h)
  | stopWorkReturns =>
      simp only [step] at h
      split_ifs at h with hstage
      exact .inl (Option.some.inj h ▸ .launch hstage)
  | terminateReturns =>
      simp only [step] at h
      split at h
      next signal hstage => exact .inl (Option.some.inj h ▸ .terminated hstage)
      next => cases h
  | _ => exact .inr h

theorem loop_cases (w : Lifecycle) : w.loop = { w with stage := .forcing } ∨
    w.loop = { w with stage := .finishing } ∧ w.locals.joined = true := by
  unfold loop
  split_ifs with hloop
  · exact .inl rfl
  · exact .inr ⟨rfl, by grind⟩

theorem start_cases (setup : Setup) (w : Lifecycle) : ∃ locals, locals.joined = w.locals.joined ∧
    locals.serverStartErr = w.locals.serverStartErr ∧
    (w.start setup = { w with locals, stage := .stopping } ∨
      w.start setup = { w with locals }.launch) := by
  refine ⟨{ w.locals with
    totalDeadline := w.now + setup.total
    drainDeadline := w.now + (shutdownBudgets setup.total).1 }, rfl, rfl, ?_⟩
  unfold start
  dsimp only
  split_ifs
  · exact .inl rfl
  · exact .inr rfl

theorem closeDependencies_cases (setup : Setup) (w : Lifecycle) :
    setup.closeResource = false ∧ w.closeDependencies setup = w.finish w.locals.status ∨
      w.closeDependencies setup = w.finish 1 ∨
      setup.closeResource = true ∧ w.closeDependencies setup = { w with
        closeDone := .running, stage := .closing, log := .closeResourceCalled :: w.log } := by
  unfold closeDependencies
  split_ifs with hgiven htotal
  · exact .inl ⟨by simpa using hgiven, rfl⟩
  · exact .inr (.inl rfl)
  · exact .inr (.inr ⟨by simpa using hgiven, rfl⟩)

/-- What a step of the function itself does to the channels and to the history. -/
structure Inward (setup : Setup) (w w' : Lifecycle) : Prop where
  now : w'.now = w.now
  work : w'.workDone = w.workDone
  server : w'.serverDone = w.serverDone ∨ w'.serverDone = .running
  join : w'.joinResult = w.joinResult ∨ w'.joinResult = .awaitingWork ∨
    w'.joinResult = .received ∧ ∃ result, w.joinResult = .sent result
  close : w'.closeDone = w.closeDone ∨
    (w.stage = .finishing ∧ setup.closeResource ∧ w'.closeDone = .running) ∨
    ∃ result t, w.closeDone = .sent result t ∧ w'.closeDone = .received result t
  log : w'.log = w.log ∨ ∃ entry : Entry, ¬ entry.Outer ∧ w'.log = entry :: w.log

theorem Inward.restage {v : Lifecycle} (h : Inward setup w v) {stage : Stage} :
    Inward setup w { v with stage } :=
  ⟨h.now, h.work, h.server, h.join, h.close, h.log⟩

theorem Inward.loop {v : Lifecycle} (h : Inward setup w v) : Inward setup w v.loop := by
  obtain heq | ⟨heq, -⟩ := loop_cases v
  · exact heq ▸ h.restage
  · exact heq ▸ h.restage

/-- A step that leaves the channels and the history alone. -/
theorem Inward.same {v : Lifecycle} (h : v.now = w.now ∧ v.workDone = w.workDone ∧
    v.serverDone = w.serverDone ∧ v.joinResult = w.joinResult ∧ v.closeDone = w.closeDone ∧
    v.log = w.log) : Inward setup w v :=
  ⟨h.1, h.2.1, .inl h.2.2.1, .inl h.2.2.2.1, .inl h.2.2.2.2.1, .inl h.2.2.2.2.2⟩

/-- A step that adds an entry of its own to the history. -/
theorem Inward.told {v : Lifecycle} {entry : Entry} (hentry : ¬ entry.Outer)
    (h : v.now = w.now ∧ v.workDone = w.workDone ∧ v.serverDone = w.serverDone ∧
      v.joinResult = w.joinResult ∧ v.closeDone = w.closeDone ∧ v.log = entry :: w.log) :
    Inward setup w v :=
  ⟨h.1, h.2.1, .inl h.2.2.1, .inl h.2.2.2.1, .inl h.2.2.2.2.1,
    .inr ⟨entry, hentry, h.2.2.2.2.2⟩⟩

theorem Inward.finish (w : Lifecycle) (status : ℕ) : Inward setup w (w.finish status) :=
  .same ⟨rfl, rfl, rfl, rfl, rfl, rfl⟩

theorem launch_inward {v : Lifecycle} (h : Inward setup w v) : Inward setup w v.launch :=
  ⟨h.now, h.work, .inr rfl, .inr (.inl rfl), h.close, h.log⟩

theorem Moves.inward (h : w.Moves setup event w') : Inward setup w w' := by
  cases h with
  | refuse hstage => exact .finish w 1
  | await hstage | drainOver hstage | check hstage => exact .same ⟨rfl, rfl, rfl, rfl, rfl, rfl⟩
  | first hstage | stopped hstage | second hstage =>
      refine .told ?_ ⟨rfl, rfl, rfl, rfl, rfl, rfl⟩
      exact id
  | start hstage =>
      obtain ⟨locals, -, -, heq | heq⟩ := start_cases setup w
      · exact heq ▸ .same ⟨rfl, rfl, rfl, rfl, rfl, rfl⟩
      · exact heq ▸ launch_inward (.same ⟨rfl, rfl, rfl, rfl, rfl, rfl⟩)
  | launch hstage => exact launch_inward (.same ⟨rfl, rfl, rfl, rfl, rfl, rfl⟩)
  | join hstage hjoin => exact ⟨rfl, rfl, .inl rfl, .inr (.inr ⟨rfl, _, hjoin⟩), .inl rfl, .inl rfl⟩
  | judge hstage =>
      unfold Lifecycle.judge
      dsimp only
      split_ifs
      · exact .loop (.same ⟨rfl, rfl, rfl, rfl, rfl, rfl⟩)
      · exact .same ⟨rfl, rfl, rfl, rfl, rfl, rfl⟩
  | joinLate hstage hjoin =>
      exact .loop ⟨rfl, rfl, .inl rfl, .inr (.inr ⟨rfl, _, hjoin⟩), .inl rfl, .inl rfl⟩
  | forced hstage => exact .loop (.same ⟨rfl, rfl, rfl, rfl, rfl, rfl⟩)
  | totalOver hstage => exact .finish w 1
  | closeDependencies hstage =>
      obtain ⟨-, heq⟩ | heq | ⟨hgiven, heq⟩ := closeDependencies_cases setup w
      · exact heq ▸ .finish w _
      · exact heq ▸ .finish w 1
      · rw [heq]
        refine ⟨rfl, rfl, .inl rfl, .inl rfl, .inr (.inl ⟨hstage, hgiven, rfl⟩), .inr ⟨_, ?_, rfl⟩⟩
        exact id
  | closed hstage hclose =>
      exact ⟨rfl, rfl, .inl rfl, .inl rfl, .inr (.inr ⟨_, _, hclose, rfl⟩), .inl rfl⟩
  | terminated hstage => exact .finish w 1

/-- What a step of the world or of a goroutine leaves alone.

What the function knows is in its locals and its stage, and only its own steps change these. -/
structure Outward (w w' : Lifecycle) : Prop where
  now : w.now ≤ w'.now
  locals : w'.locals = w.locals
  stage : w'.stage = w.stage
  idle : w.closeDone = .idle → w'.closeDone = .idle
  received : ∀ result t, w'.closeDone = .received result t ↔ w.closeDone = .received result t
  log : w'.log = w.log ∨ ∃ entry : Entry, entry.Outer ∧ w'.log = entry :: w.log

theorem outward (h : w.moveOutside setup event = some w') : Outward w w' := by
  unfold moveOutside at h
  split at h
  case h_1 => exact Option.some.inj h ▸ ⟨by simp only; omega, rfl, rfl, id, fun _ _ => .rfl, .inl rfl⟩
  case h_2 | h_3 => exact Option.some.inj h ▸ ⟨le_rfl, rfl, rfl, id, fun _ _ => .rfl, .inl rfl⟩
  case h_4 =>
    split_ifs at h
    obtain rfl := Option.some.inj h
    refine ⟨le_rfl, rfl, rfl, id, fun _ _ => .rfl, .inr ⟨_, ?_, rfl⟩⟩
    trivial
  case h_5 | h_6 | h_8 | h_10 =>
    split_ifs at h
    exact Option.some.inj h ▸ ⟨le_rfl, rfl, rfl, id, fun _ _ => .rfl, .inl rfl⟩
  case h_7 =>
    split_ifs at h
    obtain rfl := Option.some.inj h
    refine ⟨le_rfl, rfl, rfl, id, fun _ _ => .rfl, .inr ⟨_, ?_, rfl⟩⟩
    trivial
  case h_9 =>
    split at h
    · exact Option.some.inj h ▸ ⟨le_rfl, rfl, rfl, id, fun _ _ => .rfl, .inl rfl⟩
    · cases h
  case h_11 =>
    split_ifs at h with hrunning
    obtain rfl := Option.some.inj h
    refine ⟨le_rfl, rfl, rfl, by simp [hrunning], by simp [hrunning], .inr ⟨_, ?_, rfl⟩⟩
    trivial
  case h_12 => cases h

/-! ## What the channels tell -/

/-- The last worker is done. -/
def WorkClosed (w : Lifecycle) : Prop := ∃ t ≤ w.now, .workClosed t ∈ w.log

/-- `server.Shutdown` has returned. -/
def ShutdownReturned (w : Lifecycle) (result : Option Fault) : Prop :=
  ∃ t ≤ w.now, .shutdownReturned result t ∈ w.log

/-- What lies in a channel has happened.

A value in a channel is the trace of an event that the log has as well.  The function decides by the
values; the theorems about its status speak of the log. -/
structure Heard (setup : Setup) (w : Lifecycle) : Prop where
  work : w.workDone = true → w.WorkClosed
  server : ∀ result t, w.serverDone = .sent result t → w.ShutdownReturned result
  passed : w.joinResult ≠ .idle → w.joinResult ≠ .awaitingWork → setup.workDone → w.WorkClosed
  join : ∀ result, w.joinResult = .sent result → w.ShutdownReturned result
  resource : ∀ result t, .closeResourceReturned result t ∈ w.log ↔
    w.closeDone = .sent result t ∨ w.closeDone = .received result t
  given : w.closeDone ≠ .idle → setup.closeResource

/-- The history grows, and the clock does not go back. -/
def Grows (w w' : Lifecycle) : Prop := w.now ≤ w'.now ∧ ∀ entry ∈ w.log, entry ∈ w'.log

theorem Grows.of_log (hnow : w.now ≤ w'.now)
    (h : w'.log = w.log ∨ ∃ entry, w'.log = entry :: w.log) : w.Grows w' := by
  obtain h | ⟨entry, h⟩ := h
  · exact ⟨hnow, fun e he => h ▸ he⟩
  · exact ⟨hnow, fun e he => h ▸ List.mem_cons_of_mem _ he⟩

theorem Outward.grows (h : Outward w w') : w.Grows w' :=
  .of_log h.now (h.log.imp_right fun ⟨entry, _, hlog⟩ => ⟨entry, hlog⟩)

theorem Inward.grows (h : Inward setup w w') : w.Grows w' :=
  .of_log h.now.ge (h.log.imp_right fun ⟨entry, _, hlog⟩ => ⟨entry, hlog⟩)

theorem WorkClosed.grows (h : w.WorkClosed) (hgrows : w.Grows w') : w'.WorkClosed := by
  obtain ⟨t, ht, hlog⟩ := h
  exact ⟨t, ht.trans hgrows.1, hgrows.2 _ hlog⟩

theorem ShutdownReturned.grows {result : Option Fault} (h : w.ShutdownReturned result)
    (hgrows : w.Grows w') : w'.ShutdownReturned result := by
  obtain ⟨t, ht, hlog⟩ := h
  exact ⟨t, ht.trans hgrows.1, hgrows.2 _ hlog⟩

theorem Heard.outward (h : w.Heard setup) (hstep : w.moveOutside setup event = some w') :
    w'.Heard setup := by
  have hgrows := (Lifecycle.outward hstep).grows
  unfold moveOutside at hstep
  split at hstep
  -- time, a signal, the end of the listener: the log only grows
  case h_1 | h_2 | h_3 =>
    obtain rfl := Option.some.inj hstep
    exact ⟨fun hw => (h.work hw).grows hgrows, fun r t hr => (h.server r t hr).grows hgrows,
      fun h₁ h₂ hw => (h.passed h₁ h₂ hw).grows hgrows, fun r hr => (h.join r hr).grows hgrows,
      h.resource, h.given⟩
  case h_4 =>
    split_ifs at hstep
    obtain rfl := Option.some.inj hstep
    exact ⟨fun _ => ⟨_, le_rfl, List.mem_cons_self⟩,
      fun r t hr => (h.server r t hr).grows hgrows,
      fun h₁ h₂ hw => (h.passed h₁ h₂ hw).grows hgrows, fun r hr => (h.join r hr).grows hgrows,
      fun r t => by simpa using h.resource r t, h.given⟩
  case h_5 | h_6 | h_10 =>
    split_ifs at hstep
    obtain rfl := Option.some.inj hstep
    exact ⟨h.work, h.server, h.passed, h.join, h.resource, h.given⟩
  case h_7 result =>
    split_ifs at hstep
    obtain rfl := Option.some.inj hstep
    refine ⟨fun hw => (h.work hw).grows hgrows, fun r t hr => ?_,
      fun h₁ h₂ hw => (h.passed h₁ h₂ hw).grows hgrows, fun r hr => (h.join r hr).grows hgrows,
      fun r t => by simpa using h.resource r t, h.given⟩
    obtain ⟨rfl, rfl⟩ := Async.sent.inj hr
    exact ⟨_, le_rfl, List.mem_cons_self⟩
  -- the joining goroutine waits for the work only if there is any
  case h_8 =>
    split_ifs at hstep with hwork
    obtain rfl := Option.some.inj hstep
    exact ⟨h.work, h.server, fun _ _ hgiven => h.work (hwork.2 hgiven), nofun, h.resource, h.given⟩
  -- what it sends is what the shutdown has returned
  case h_9 =>
    split at hstep
    next result t hjoin hserver =>
      obtain rfl := Option.some.inj hstep
      refine ⟨h.work, nofun, fun _ _ => h.passed (by simp [hjoin]) (by simp [hjoin]),
        fun r hr => ?_, h.resource, h.given⟩
      obtain rfl := Join.sent.inj hr
      exact h.server _ t hserver
    next => cases hstep
  case h_11 result =>
    split_ifs at hstep with hrunning
    obtain rfl := Option.some.inj hstep
    refine ⟨fun hw => (h.work hw).grows hgrows, fun r t hr => (h.server r t hr).grows hgrows,
      fun h₁ h₂ hw => (h.passed h₁ h₂ hw).grows hgrows, fun r hr => (h.join r hr).grows hgrows,
      fun r t => ?_, fun _ => h.given (by simp [hrunning])⟩
    have hnone : .closeResourceReturned r t ∉ w.log := by simp [h.resource, hrunning]
    simp [hnone, eq_comm]
  case h_12 => cases hstep

theorem Heard.inward (h : w.Heard setup) (hstep : Inward setup w w')
    (hidle : w.stage = .finishing → w.closeDone = .idle) : w'.Heard setup := by
  have hgrows := hstep.grows
  have hlog : ∀ result t, .closeResourceReturned result t ∈ w'.log ↔
      .closeResourceReturned result t ∈ w.log := by
    intro result t
    obtain heq | ⟨entry, hentry, heq⟩ := hstep.log
    · rw [heq]
    · rw [heq, List.mem_cons, or_iff_right]
      rintro rfl
      exact hentry trivial
  refine ⟨fun hw => ?_, fun r t hr => ?_, fun h₁ h₂ hw => ?_, fun r hr => ?_, fun r t => ?_, ?_⟩
  · exact (h.work (hstep.work ▸ hw)).grows hgrows
  · obtain heq | heq := hstep.server
    · exact (h.server r t (heq ▸ hr)).grows hgrows
    · simp [heq] at hr
  · obtain heq | heq | ⟨heq, result, hjoin⟩ := hstep.join
    · exact (h.passed (heq ▸ h₁) (heq ▸ h₂) hw).grows hgrows
    · exact absurd heq h₂
    · exact (h.passed (by simp [hjoin]) (by simp [hjoin]) hw).grows hgrows
  · obtain heq | heq | ⟨heq, -⟩ := hstep.join
    · exact (h.join r (heq ▸ hr)).grows hgrows
    · simp [heq] at hr
    · simp [heq] at hr
  · rw [hlog, h.resource]
    obtain heq | ⟨hstage, -, heq⟩ | ⟨result, t', hsent, heq⟩ := hstep.close
    · rw [heq]
    · simp [heq, hidle hstage]
    · simp [heq, hsent]
  · obtain heq | ⟨-, hgiven, heq⟩ | ⟨result, t', hsent, heq⟩ := hstep.close
    · exact heq ▸ h.given
    · exact fun _ => hgiven
    · exact fun _ => h.given (by simp [hsent])

/-! ## What holds at each stage -/

/-- Nobody has called `closeResource` and no second signal was taken. -/
structure Quiet (w : Lifecycle) : Prop where
  idle : w.closeDone = .idle
  uncalled : .closeResourceCalled ∉ w.log
  alone : w.Alone

/-- If the listener has not ended first, a signal has come first. -/
def Begun (w : Lifecycle) : Prop :=
  w.locals.serverStartErr = none →
    (∃ signal, .signalTaken signal ∈ w.log) ∧ ∀ fault, .startFailed fault ∉ w.log

/-- The join has been received from. -/
structure Joined (setup : Setup) (w : Lifecycle) : Prop where
  worked : setup.workDone → w.WorkClosed
  drained : w.ShutdownReturned w.locals.serverShutdownErr

/-- The workers and `server.Shutdown` were through before the drain deadline. -/
structure InTime (setup : Setup) (w : Lifecycle) : Prop where
  worked : setup.workDone → ∃ t < w.locals.drainDeadline, .workClosed t ∈ w.log
  drained : ∃ t < w.locals.drainDeadline,
    .shutdownReturned w.locals.serverShutdownErr t ∈ w.log

/-- The assertion that the control of `runServerLifecycle` carries along.

The function is sequential, so that what is known at a point of its control is an assertion in the
usual sense.  What is unusual is only that the assertion must survive every step of the others,
which write into the channels meanwhile. -/
def Holds (setup : Setup) (w : Lifecycle) : Prop :=
  match w.stage with
  | .entered | .waiting =>
      w.Quiet ∧ w.locals = {} ∧ ∀ fault, .startFailed fault ∉ w.log
  | .starting | .stopping | .draining =>
      w.Quiet ∧ w.Begun ∧ w.locals.status = 0 ∧ w.locals.joined = false
  | .joined => w.Quiet ∧ w.Begun ∧ w.locals.status = 0 ∧ w.Joined setup
  | .judging => w.Quiet ∧ w.Begun ∧ w.locals.status = 0 ∧
      (w.locals.joined = true → w.Joined setup) ∧
      (w.locals.waitedPastDrain = false → w.Joined setup ∧ w.InTime setup)
  | .forcing => w.Quiet ∧ (w.locals.joined = true → w.Joined setup) ∧ w.locals.status = 1
  | .finishing => w.Quiet ∧ w.Joined setup ∧ w.locals.status ≤ 1 ∧
      (w.locals.status = 0 → w.Drained setup)
  | .closing => w.Alone ∧ w.locals.status ≤ 1 ∧ (w.locals.status = 0 → w.Drained setup)
  | .terminating _ => True
  | .returned status => (status = 0 ∨ status = 1) ∧ (status = 0 → w.Alone ∧ w.Drained setup ∧
      (setup.closeResource → ∃ t, w.closeDone = .received none t))

/-! Steps of the world keep it. -/

theorem Outward.mem {entry : Entry} (h : Outward w w') (hentry : ¬ entry.Outer) :
    entry ∈ w'.log ↔ entry ∈ w.log := by
  obtain heq | ⟨e, he, heq⟩ := h.log
  · rw [heq]
  · rw [heq, List.mem_cons, or_iff_right]
    rintro rfl
    exact hentry he

theorem Alone.outward (h : w.Alone) (hstep : Outward w w') : w'.Alone :=
  fun signal hsignal => h signal ((hstep.mem id).mp hsignal)

theorem Quiet.outward (h : w.Quiet) (hstep : Outward w w') : w'.Quiet :=
  ⟨hstep.idle h.idle, fun hcalled => h.uncalled ((hstep.mem id).mp hcalled),
    h.alone.outward hstep⟩

theorem Begun.outward (h : w.Begun) (hstep : Outward w w') : w'.Begun := by
  intro hnone
  obtain ⟨⟨signal, hsignal⟩, hfault⟩ := h (hstep.locals ▸ hnone)
  exact ⟨⟨signal, hstep.grows.2 _ hsignal⟩, fun fault hmem => hfault fault ((hstep.mem id).mp hmem)⟩

theorem Joined.outward (h : w.Joined setup) (hstep : Outward w w') : w'.Joined setup :=
  ⟨fun hgiven => (h.worked hgiven).grows hstep.grows,
    hstep.locals.symm ▸ h.drained.grows hstep.grows⟩

theorem InTime.outward (h : w.InTime setup) (hstep : Outward w w') : w'.InTime setup := by
  refine ⟨fun hgiven => ?_, ?_⟩
  · obtain ⟨t, ht, hlog⟩ := h.worked hgiven
    exact ⟨t, hstep.locals ▸ ht, hstep.grows.2 _ hlog⟩
  · obtain ⟨t, ht, hlog⟩ := h.drained
    exact ⟨t, hstep.locals ▸ ht, hstep.locals ▸ hstep.grows.2 _ hlog⟩

theorem Drained.outward (h : w.Drained setup) (hstep : Outward w w') : w'.Drained setup := by
  refine ⟨?_, fun fault hmem => h.started fault ((hstep.mem id).mp hmem), ?_, fun hgiven => ?_⟩
  · obtain ⟨signal, hsignal⟩ := h.signalled
    exact ⟨signal, hstep.grows.2 _ hsignal⟩
  · obtain ⟨t, ht, hlog⟩ := h.drained
    exact ⟨t, hstep.locals ▸ ht, hstep.grows.2 _ hlog⟩
  · obtain ⟨t, ht, hlog⟩ := h.worked hgiven
    exact ⟨t, hstep.locals ▸ ht, hstep.grows.2 _ hlog⟩

theorem Holds.outward (h : w.Holds setup) (hstep : Outward w w') : w'.Holds setup := by
  have hlocals := hstep.locals
  unfold Holds at h ⊢
  rw [hstep.stage]
  cases hstage : w.stage <;> simp only [hstage] at h ⊢
  case entered | waiting =>
    exact ⟨h.1.outward hstep, hlocals.trans h.2.1,
      fun fault hmem => h.2.2 fault ((hstep.mem id).mp hmem)⟩
  case starting | stopping | draining =>
    exact ⟨h.1.outward hstep, h.2.1.outward hstep, hlocals ▸ h.2.2⟩
  case joined =>
    exact ⟨h.1.outward hstep, h.2.1.outward hstep, hlocals ▸ h.2.2.1, h.2.2.2.outward hstep⟩
  case judging =>
    refine ⟨h.1.outward hstep, h.2.1.outward hstep, hlocals ▸ h.2.2.1,
      fun hjoined => (h.2.2.2.1 (hlocals ▸ hjoined)).outward hstep, fun htime => ?_⟩
    obtain ⟨hjoined, hintime⟩ := h.2.2.2.2 (hlocals ▸ htime)
    exact ⟨hjoined.outward hstep, hintime.outward hstep⟩
  case forcing =>
    exact ⟨h.1.outward hstep, fun hjoined => (h.2.1 (hlocals ▸ hjoined)).outward hstep,
      hlocals ▸ h.2.2⟩
  case finishing =>
    exact ⟨h.1.outward hstep, h.2.1.outward hstep, hlocals ▸ h.2.2.1,
      fun hstatus => (h.2.2.2 (hlocals ▸ hstatus)).outward hstep⟩
  case closing =>
    exact ⟨h.1.outward hstep, hlocals ▸ h.2.1,
      fun hstatus => (h.2.2 (hlocals ▸ hstatus)).outward hstep⟩
  case returned status =>
    refine ⟨h.1, fun hstatus => ?_⟩
    obtain ⟨halone, hdrained, hclosed⟩ := h.2 hstatus
    refine ⟨halone.outward hstep, hdrained.outward hstep, fun hgiven => ?_⟩
    obtain ⟨t, ht⟩ := hclosed hgiven
    exact ⟨t, (hstep.received none t).mpr ht⟩

/-! Steps of the function itself establish it anew. -/

theorem Quiet.told {v : Lifecycle} {entry : Entry} (h : w.Quiet) (hclose : v.closeDone = w.closeDone)
    (hlog : v.log = entry :: w.log) (hcall : entry ≠ .closeResourceCalled)
    (hsecond : ∀ signal, entry ≠ .secondSignalTaken signal) : v.Quiet := by
  refine ⟨hclose.trans h.idle, ?_, fun signal => ?_⟩
  · rw [hlog, List.mem_cons, not_or]
    exact ⟨hcall.symm, h.uncalled⟩
  · rw [hlog, List.mem_cons, not_or]
    exact ⟨(hsecond signal).symm, h.alone signal⟩

/-- What the outcome of the drain makes of the status. -/
theorem Locals.judge_spec (v : Locals) (h : v.status = 0) :
    (Locals.judge v).joined = v.joined ∧
      (Locals.judge v).drainDeadline = v.drainDeadline ∧
      (Locals.judge v).serverShutdownErr = v.serverShutdownErr ∧
      (Locals.judge v).status ≤ 1 ∧
      ((Locals.judge v).waitedPastDrain = true → (Locals.judge v).status = 1) ∧
      ((Locals.judge v).waitedPastDrain = false → v.waitedPastDrain = false) ∧
      ((Locals.judge v).status = 0 → v.serverStartErr = none ∧ v.serverShutdownErr = none) := by
  obtain ⟨start, total, drain, status, shutdown, waited, joined, forced⟩ := v
  subst h
  unfold Locals.judge
  rcases start with - | fault <;> rcases shutdown with - | (- | text) <;> cases waited <;> simp

theorem loop_holds {v : Lifecycle} (hquiet : v.Quiet)
    (hjoined : v.locals.joined = true → v.Joined setup) (hstatus : v.locals.status = 1) :
    v.loop.Holds setup := by
  obtain heq | ⟨heq, hloop⟩ := loop_cases v
  · rw [heq]
    exact ⟨⟨hquiet.idle, hquiet.uncalled, hquiet.alone⟩,
      fun h => ⟨(hjoined h).worked, (hjoined h).drained⟩, hstatus⟩
  · rw [heq]
    exact ⟨⟨hquiet.idle, hquiet.uncalled, hquiet.alone⟩,
      ⟨(hjoined hloop).worked, (hjoined hloop).drained⟩, hstatus.le,
      fun hzero => absurd (hstatus.symm.trans hzero) Nat.one_ne_zero⟩

theorem Quiet.same {v : Lifecycle} (h : w.Quiet) (hclose : v.closeDone = w.closeDone)
    (hlog : v.log = w.log) : v.Quiet :=
  ⟨hclose.trans h.idle, hlog ▸ h.uncalled, fun signal => hlog ▸ h.alone signal⟩

theorem start_holds (hstage : w.stage = .starting) (h : w.Holds setup) :
    (w.start setup).Holds setup := by
  simp only [Holds, hstage] at h
  obtain ⟨hquiet, hbegun, hstatus, hjoined⟩ := h
  unfold start
  dsimp only
  split_ifs
  · exact ⟨hquiet.same rfl rfl, hbegun, hstatus, hjoined⟩
  · exact ⟨hquiet.same rfl rfl, hbegun, hstatus, hjoined⟩

/-- A join counts only if the clock has not reached the drain deadline. -/
theorem checkDrain_holds (hstage : w.stage = .joined) (h : w.Holds setup) :
    w.checkDrain.Holds setup := by
  simp only [Holds, hstage] at h
  obtain ⟨hquiet, hbegun, hstatus, hjoined⟩ := h
  refine ⟨hquiet.same rfl rfl, hbegun, hstatus, fun _ => ⟨hjoined.worked, hjoined.drained⟩,
    fun htime => ⟨⟨hjoined.worked, hjoined.drained⟩, ?_⟩⟩
  have hnow : w.now < w.locals.drainDeadline := by
    simp only [checkDrain, Bool.or_eq_false_iff, Bool.not_eq_false', decide_eq_true_eq] at htime
    exact htime.2.1
  refine ⟨fun hgiven => ?_, ?_⟩
  · obtain ⟨t, ht, hlog⟩ := hjoined.worked hgiven
    exact ⟨t, ht.trans_lt hnow, hlog⟩
  · obtain ⟨t, ht, hlog⟩ := hjoined.drained
    exact ⟨t, ht.trans_lt hnow, hlog⟩

theorem judge_holds (hstage : w.stage = .judging) (h : w.Holds setup) :
    w.judge.Holds setup := by
  simp only [Holds, hstage] at h
  obtain ⟨hquiet, hbegun, hstatus, hjoined, hintime⟩ := h
  obtain ⟨hsame, hdeadline, hresult, hle, hforce, hwait, hzero⟩ :=
    Locals.judge_spec w.locals hstatus
  have hstill : ∀ v : Lifecycle, v.now = w.now → v.log = w.log →
      v.locals.serverShutdownErr = w.locals.serverShutdownErr → w.Joined setup →
      v.Joined setup := by
    intro v hnow hlog hsame hjoined
    exact ⟨fun hgiven => (hjoined.worked hgiven).grows ⟨hnow.ge, fun e => hlog ▸ id⟩,
      hsame ▸ hjoined.drained.grows ⟨hnow.ge, fun e => hlog ▸ id⟩⟩
  unfold judge
  dsimp only
  split_ifs with hwaited
  · refine loop_holds (hquiet.same rfl rfl) (fun h => ?_) (hforce hwaited)
    exact hstill _ rfl rfl hresult (hjoined (hsame ▸ h))
  · obtain ⟨hjoined, htime⟩ := hintime (hwait (by simpa using hwaited))
    refine ⟨hquiet.same rfl rfl, hstill _ rfl rfl hresult hjoined, hle, fun hstatus => ?_⟩
    obtain ⟨hstart, hshutdown⟩ := hzero hstatus
    obtain ⟨t, ht, hlog⟩ := htime.drained
    refine ⟨(hbegun hstart).1, (hbegun hstart).2, ⟨t, hdeadline ▸ ht, hshutdown ▸ hlog⟩, ?_⟩
    exact fun hgiven => (htime.worked hgiven).imp fun t ht => ⟨hdeadline ▸ ht.1, ht.2⟩

theorem closeDependencies_holds (hstage : w.stage = .finishing) (h : w.Holds setup) :
    (w.closeDependencies setup).Holds setup := by
  simp only [Holds, hstage] at h
  obtain ⟨hquiet, hjoined, hle, hdrained⟩ := h
  obtain ⟨hgiven, heq⟩ | heq | ⟨hgiven, heq⟩ := closeDependencies_cases setup w
  · rw [heq]
    refine ⟨by omega, fun hstatus => ⟨hquiet.alone, ?_, fun h => by simp [hgiven] at h⟩⟩
    exact ⟨(hdrained hstatus).1, (hdrained hstatus).2, (hdrained hstatus).3, (hdrained hstatus).4⟩
  · rw [heq]
    exact ⟨.inr rfl, nofun⟩
  · rw [heq]
    refine ⟨fun signal => ?_, hle, fun hstatus => ?_⟩
    · simpa using hquiet.alone signal
    · obtain ⟨hsignal, hstart, hserver, hwork⟩ := hdrained hstatus
      refine ⟨hsignal.imp fun signal => List.mem_cons_of_mem _, by simpa using hstart,
        hserver.imp fun t ht => ⟨ht.1, List.mem_cons_of_mem _ ht.2⟩, fun h => ?_⟩
      exact (hwork h).imp fun t ht => ⟨ht.1, List.mem_cons_of_mem _ ht.2⟩

theorem Holds.inward (hm : w.Moves setup event w') (hheard : w.Heard setup)
    (h : w.Holds setup) : w'.Holds setup := by
  cases hm with
  | refuse hstage => exact ⟨.inr rfl, nofun⟩
  | await hstage =>
      simp only [Holds, hstage] at h
      exact ⟨h.1.same rfl rfl, h.2⟩
  | @first signal signals hstage =>
      simp only [Holds, hstage] at h
      obtain ⟨hquiet, hlocals, hfault⟩ := h
      refine ⟨hquiet.told rfl rfl nofun nofun, fun _ => ⟨⟨signal, List.mem_cons_self⟩, ?_⟩,
        by simp [hlocals], by simp [hlocals]⟩
      exact fun fault hmem => hfault fault (by simpa using hmem)
  | stopped hstage =>
      simp only [Holds, hstage] at h
      obtain ⟨hquiet, hlocals, hfault⟩ := h
      exact ⟨hquiet.told rfl rfl nofun nofun, nofun, by simp [hlocals], by simp [hlocals]⟩
  | start hstage => exact start_holds hstage h
  | launch hstage =>
      simp only [Holds, hstage] at h
      exact ⟨h.1.same rfl rfl, h.2⟩
  | join hstage hjoin =>
      simp only [Holds, hstage] at h
      exact ⟨h.1.same rfl rfl, h.2.1, h.2.2.1,
        ⟨hheard.passed (by simp [hjoin]) (by simp [hjoin]), hheard.join _ hjoin⟩⟩
  | drainOver hstage =>
      simp only [Holds, hstage] at h
      exact ⟨h.1.same rfl rfl, h.2.1, h.2.2.1, fun hjoined => by simp [h.2.2.2] at hjoined, nofun⟩
  -- a second signal ends the process, or is handed to `terminate`
  | second hstage =>
      unfold immediateShutdown
      cases hgiven : setup.terminate
      · exact ⟨.inr rfl, nofun⟩
      · trivial
  | check hstage => exact checkDrain_holds hstage h
  | judge hstage => exact judge_holds hstage h
  -- a join that comes late counts as one that comes in time
  | joinLate hstage hjoin =>
      simp only [Holds, hstage] at h
      exact loop_holds (h.1.same rfl rfl) (fun _ =>
        ⟨hheard.passed (by simp [hjoin]) (by simp [hjoin]), hheard.join _ hjoin⟩) h.2.2
  | forced hstage =>
      simp only [Holds, hstage] at h
      exact loop_holds (h.1.same rfl rfl)
        (fun hjoined => ⟨(h.2.1 hjoined).worked, (h.2.1 hjoined).drained⟩) h.2.2
  | totalOver hstage => exact ⟨.inr rfl, nofun⟩
  | closeDependencies hstage => exact closeDependencies_holds hstage h
  -- the status is that of the drain, unless the close has failed
  | @closed result t hstage hclose =>
      simp only [Holds, hstage] at h
      obtain ⟨halone, hle, hdrained⟩ := h
      cases result with
      | some fault => exact ⟨.inr rfl, nofun⟩
      | none =>
          refine ⟨Nat.le_one_iff_eq_zero_or_eq_one.mp hle, fun hstatus => ?_⟩
          obtain ⟨hsignal, hstart, hserver, hwork⟩ := hdrained hstatus
          exact ⟨halone, ⟨hsignal, hstart, hserver, hwork⟩, fun _ => ⟨t, rfl⟩⟩
  | terminated hstage => exact ⟨.inr rfl, nofun⟩

/-! ## The order of the history -/

/-- Behind every call of `closeResource` lie the end of the workers and of `server.Shutdown`, and
neither another call nor a second signal. -/
def Ordered (setup : Setup) : List Entry → Prop
  | [] => True
  | entry :: log =>
      (entry = .closeResourceCalled → .closeResourceCalled ∉ log ∧
        (∀ signal, .secondSignalTaken signal ∉ log) ∧
        (setup.workDone → ∃ t, .workClosed t ∈ log) ∧
        ∃ result t, .shutdownReturned result t ∈ log) ∧ Ordered setup log

theorem Ordered.drop : ∀ {later earlier : List Entry},
    Ordered setup (later ++ earlier) → Ordered setup earlier
  | [], _, h => h
  | _ :: _, _, h => Ordered.drop h.2

theorem Ordered.count : ∀ {log : List Entry},
    Ordered setup log → log.count .closeResourceCalled ≤ 1
  | [], _ => by simp
  | entry :: log, h => by
      rw [List.count_cons]
      split_ifs with hentry
      · rw [List.count_eq_zero.mpr (h.1 (by simpa using hentry)).1]
      · simpa using h.2.count

/-- Behind a second signal nothing is closed. -/
theorem Ordered.interrupted {signal : Signal} {earlier : List Entry} : ∀ {later : List Entry},
    Ordered setup (later ++ .secondSignalTaken signal :: earlier) →
      .closeResourceCalled ∉ later
  | [], _ => by simp
  | entry :: later, h => by
      rw [List.mem_cons, not_or]
      refine ⟨fun hentry => ?_, Ordered.interrupted h.2⟩
      exact (h.1 hentry.symm).2.1 signal (by simp)

theorem Ordered.outward (h : Ordered setup w.log) (hstep : Outward w w') :
    Ordered setup w'.log := by
  obtain heq | ⟨entry, hentry, heq⟩ := hstep.log
  · exact heq ▸ h
  · rw [heq]
    refine ⟨?_, h⟩
    rintro rfl
    exact hentry.elim

theorem Ordered.inward (hm : w.Moves setup event w') (hholds : w.Holds setup)
    (h : Ordered setup w.log) : Ordered setup w'.log := by
  cases hm with
  | refuse | await | launch | join | drainOver | check | totalOver | closed | terminated => exact h
  | first | stopped | second => exact ⟨nofun, h⟩
  | start =>
      obtain ⟨locals, -, -, heq | heq⟩ := start_cases setup w
      · exact heq ▸ h
      · exact heq ▸ h
  | judge =>
      unfold Lifecycle.judge
      dsimp only
      split_ifs
      · obtain heq | ⟨heq, -⟩ := loop_cases { w with
          locals := Locals.judge w.locals, forceDone := .running }
        · exact heq ▸ h
        · exact heq ▸ h
      · exact h
  | joinLate | forced =>
      unfold Lifecycle.loop
      split_ifs
      · exact h
      · exact h
  | closeDependencies hstage =>
      obtain ⟨-, heq⟩ | heq | ⟨-, heq⟩ := closeDependencies_cases setup w
      · exact heq ▸ h
      · exact heq ▸ h
      · rw [heq]
        simp only [Holds, hstage] at hholds
        obtain ⟨hquiet, ⟨hwork, t, -, hserver⟩, -⟩ := hholds
        exact ⟨fun _ => ⟨hquiet.uncalled, hquiet.alone,
          fun hgiven => (hwork hgiven).imp fun t ht => ht.2, _, t, hserver⟩, h⟩

/-! ## Runs -/

/-- What holds at every moment of a call. -/
structure Kept (setup : Setup) (w : Lifecycle) : Prop where
  heard : w.Heard setup
  holds : w.Holds setup
  ordered : Ordered setup w.log

theorem Kept.init (now : ℤ) : Kept setup { now } :=
  ⟨⟨nofun, nofun, fun h => absurd rfl h, nofun, fun _ _ => by simp, fun h => absurd rfl h⟩,
    ⟨⟨rfl, by simp, fun _ => by simp⟩, rfl, fun _ => by simp⟩, trivial⟩

theorem Kept.step (h : w.Kept setup) (hstep : w.step setup event = some w') :
    w'.Kept setup := by
  obtain hm | hout := step_cases hstep
  · refine ⟨h.heard.inward hm.inward fun hstage => ?_, h.holds.inward hm h.heard,
      h.ordered.inward hm h.holds⟩
    have hholds := h.holds
    simp only [Holds, hstage] at hholds
    exact hholds.1.idle
  · exact ⟨h.heard.outward hout, h.holds.outward (outward hout), h.ordered.outward (outward hout)⟩

/-- The call has returned 0 although `closeResource` came too late. -/
def Overran (w : Lifecycle) : Prop :=
  w.stage = .returned 0 ∧
    ∃ t, w.closeDone = .received none t ∧ w.locals.totalDeadline ≤ t

theorem late_iff : w.late event = true ↔ event = .take .closeDone ∧ w.stage = .closing ∧
    w.locals.status = 0 ∧ ∃ t, w.closeDone = .sent none t ∧ w.locals.totalDeadline ≤ t := by
  unfold late
  split
  · split
    next hstage hclose => simp [hstage, hclose]
    next hne =>
      refine ⟨nofun, fun ⟨_, hstage, _, t, hclose, _⟩ => ?_⟩
      exact absurd hclose (hne t hstage)
  next hne => exact ⟨nofun, fun h => absurd h.1 hne⟩

theorem Moves.stage_ne (hm : w.Moves setup event w') (status : ℕ) :
    w.stage ≠ .returned status := by
  cases hm with
  | second hstage => rcases hstage with hstage | hstage | hstage <;> simp [hstage]
  | totalOver hstage => rcases hstage with hstage | hstage <;> simp [hstage]
  | _ => simp [*]

/-- The call returns 0 without dependencies, or with what `closeResource` has returned. -/
theorem Moves.returned_zero (hm : w.Moves setup event w') (h : w'.stage = .returned 0) :
    w.stage = .finishing ∧ w'.closeDone = w.closeDone ∨
      event = .take .closeDone ∧ w.stage = .closing ∧ w.locals.status = 0 ∧
        w'.locals = w.locals ∧
        ∃ t, w.closeDone = .sent none t ∧ w'.closeDone = .received none t := by
  have hloop : ∀ v : Lifecycle, v.loop.stage ≠ .returned 0 := by
    intro v
    obtain heq | ⟨heq, -⟩ := loop_cases v
    · simp [heq]
    · simp [heq]
  cases hm with
  | refuse | totalOver | terminated => simp [finish] at h
  | await | first | stopped | join | drainOver | launch | check => cases h
  | start =>
      obtain ⟨locals, -, -, heq | heq⟩ := start_cases setup w
      · simp [heq] at h
      · rw [heq] at h
        cases h
  | second =>
      unfold immediateShutdown at h
      dsimp only at h
      split_ifs at h <;> simp at h
  | judge =>
      unfold Lifecycle.judge at h
      dsimp only at h
      split_ifs at h
      · exact absurd h (hloop _)
  | joinLate | forced => exact absurd h (hloop _)
  | closeDependencies hstage =>
      obtain ⟨-, heq⟩ | heq | ⟨-, heq⟩ := closeDependencies_cases setup w
      · exact .inl ⟨hstage, by rw [heq]; rfl⟩
      · simp [heq, finish] at h
      · simp [heq] at h
  | @closed result t hstage hclose =>
      cases result with
      | some fault => simp [finish] at h
      | none => exact .inr ⟨rfl, hstage, by simpa [finish] using h, rfl, t, hclose, rfl⟩

/-- The one step to an overrun is a late one. -/
theorem step_overran (h : w.Kept setup) (hstep : w.step setup event = some w') :
    w'.Overran ↔ w.late event = true ∨ w.Overran := by
  obtain hm | hout := step_cases hstep
  · rw [or_iff_left fun hover => hm.stage_ne 0 hover.1, late_iff]
    constructor
    · rintro ⟨hstage', t, hclose, hle⟩
      obtain ⟨hstage, heq⟩ | ⟨hevent, hstage, hstatus, hlocals, t', hsent, heq⟩ :=
        hm.returned_zero hstage'
      · have hholds := h.holds
        simp only [Holds, hstage] at hholds
        simp [heq, hholds.1.idle] at hclose
      · obtain ⟨-, rfl⟩ := Async.received.inj (heq.symm.trans hclose)
        exact ⟨hevent, hstage, hstatus, t', hsent, hlocals ▸ hle⟩
    · rintro ⟨rfl, hstage, hstatus, t, hsent, hle⟩
      cases hm with
      | closed _ hclose =>
          obtain ⟨rfl, rfl⟩ := Async.sent.inj (hsent.symm.trans hclose)
          exact ⟨by simp [finish, hstatus], t, rfl, hle⟩
  · have hframe := outward hout
    have hlate : w.late event = false := by
      rw [Bool.eq_false_iff, ne_eq, late_iff]
      rintro ⟨rfl, -⟩
      cases hout
    unfold Overran
    rw [hlate, hframe.stage, hframe.locals]
    simp [hframe.received]

theorem Kept.run {events : List Event} : ∀ {w : Lifecycle}, w.Kept setup →
    w.run setup events = some w' →
      w'.Kept setup ∧ (w'.Overran ↔ punctual setup w events = false ∨ w.Overran) := by
  induction events with
  | nil =>
      intro w h hrun
      obtain rfl := Option.some.inj hrun
      exact ⟨h, by simp [punctual]⟩
  | cons event events ih =>
      intro w h hrun
      obtain ⟨v, hstep, hrun⟩ := Option.bind_eq_some_iff.mp hrun
      obtain ⟨hkept, hover⟩ := ih (h.step hstep) hrun
      refine ⟨hkept, hover.trans ?_⟩
      simp only [punctual, hstep, Option.all_some, step_overran h hstep, Bool.and_eq_false_iff,
        Bool.not_eq_false']
      tauto

/-- Everything is kept but the promise about the total deadline, and that too unless the call
overran. -/
theorem Kept.orderly_unless (h : w.Kept setup) : w.Orderly setup ↔ ¬ w.Overran := by
  constructor
  · rintro ⟨-, -, hsucceeds, -⟩ ⟨hstage, t, hclose, hle⟩
    obtain ⟨t', hlt, hlog⟩ := (hsucceeds hstage).closed (h.heard.given (by simp [hclose]))
    obtain hsent | hreceived := (h.heard.resource none t').mp hlog
    · simp [hclose] at hsent
    · obtain ⟨-, rfl⟩ := Async.received.inj (hclose.symm.trans hreceived)
      exact absurd hle (not_le.mpr hlt)
  · intro hover
    refine ⟨h.ordered.count, fun later earlier hlog => ?_, fun hstage => ?_,
      fun signal later earlier hlog => ?_⟩
    · have hordered := (hlog ▸ h.ordered).drop
      exact (hordered.1 rfl).2.2
    · have hholds := h.holds
      simp only [Holds, hstage] at hholds
      obtain ⟨halone, hdrained, hclosed⟩ := hholds.2 trivial
      refine ⟨hdrained, halone, fun hgiven => ?_⟩
      obtain ⟨t, hclose⟩ := hclosed hgiven
      refine ⟨t, not_le.mp fun hle => hover ⟨hstage, t, hclose, hle⟩, ?_⟩
      exact (h.heard.resource none t).mpr (.inr hclose)
    · refine ⟨Ordered.interrupted (hlog ▸ h.ordered), ?_⟩
      have htaken : ¬ w.Alone := fun halone => halone signal (by simp [hlog])
      have hholds := h.holds
      unfold Holds at hholds
      split at hholds
      case h_10 => exact absurd hholds.1 htaken
      case h_11 signal hstage =>
        refine .inr ⟨⟨signal, hstage⟩, w.finish 1, ?_, rfl⟩
        simp only [Lifecycle.step, hstage]
      case h_12 status hstage =>
        obtain rfl | rfl := hholds.1
        · exact absurd (hholds.2 rfl).1 htaken
        · exact .inl hstage
      all_goals exact absurd hholds.1.alone htaken

/-- **The lifecycle is orderly.**  In every run of one call, every state reached keeps every promise
exactly if no step of the run so far has received, in the last `select`, a success that came at
the total deadline or past it.

`Orderly` has many promises, and all of them but one are kept by every step (`Kept`), whatever the
scheduler picks.  The invariant that carries them says for each place in the function which channels
have been received from, which contexts have ended and what the clock has come to.  The remaining
promise fails in one place, the last `select`, and the condition `punctual` is about the events of
the run: the success that is received there has come before the total deadline. -/
theorem orderly_iff {now : ℤ} {events : List Event}
    (h : run setup { now } events = some w) :
    w.Orderly setup ↔ punctual setup { now } events = true := by
  obtain ⟨hkept, hover⟩ := (Kept.init now).run h
  rw [hkept.orderly_unless, hover]
  simp [Overran]

end Lifecycle

namespace Demo

open Lifecycle

/-- Everything is given, and thirty seconds. -/
def given : Setup := ⟨true, 30000000000, true, true, true, true⟩

/-- A signal comes, the drain is through after a second, and the dependencies are being closed. -/
def drained : List Event :=
  [.go, .signal ⟨15⟩, .take .signals, .go, .stopWorkReturns, .elapse 1000000000, .closeWork,
    .joinsWork, .shutdownReturns none, .joinsServer, .take .joinResult, .go, .go, .go]

/-- The dependencies are closed in time. -/
def graceful : List Event := drained ++ [.closeResourceReturns none, .take .closeDone]

/-- The dependencies are closed when the total deadline has passed, and the last `select` finds
both channels ready. -/
def overrun : List Event :=
  drained ++ [.elapse 30000000000, .totalExpires, .closeResourceReturns none, .take .closeDone]

/-- The drain in time is orderly. -/
theorem graceful_orderly : ∃ w, run given { now := 0 } graceful = some w ∧
    w.stage = .returned 0 ∧ w.Orderly given := by
  have hstage : (run given { now := 0 } graceful).map stage = some (.returned 0) := by decide
  obtain ⟨w, hrun, hstage⟩ := Option.map_eq_some_iff.mp hstage
  exact ⟨w, hrun, hstage, (orderly_iff hrun).mpr (by decide)⟩

/-- The call returns 0 although `closeResource` has returned a second past the total deadline. -/
theorem overrun_succeeds : ∃ w, run given { now := 0 } overrun = some w ∧
    w.stage = .returned 0 ∧ ¬ w.Orderly given := by
  have hend : (run given { now := 0 } overrun).map
      (fun w => (w.stage, w.closeDone, w.locals.totalDeadline)) =
        some (.returned 0, .received none 31000000000, 30000000000) := by decide
  obtain ⟨w, hrun, hend⟩ := Option.map_eq_some_iff.mp hend
  obtain ⟨hstage, hclose, htotal⟩ : w.stage = .returned 0 ∧
      w.closeDone = .received none 31000000000 ∧ w.locals.totalDeadline = 30000000000 := by
    simpa using hend
  refine ⟨w, hrun, hstage, fun h => ?_⟩
  exact ((Kept.init 0).run hrun).1.orderly_unless.mp h ⟨hstage, _, hclose, by omega⟩

end Demo

end BindPlane.Server
