import BindPlane.Worker.Commands

/-!
# The heartbeat and the process

`execute` awaits the heartbeat it has cancelled and suppresses `CancelledError` only, and
`release_loop` calls it outside its `try`.  So an exception the heartbeat has ended in ends
the worker process, behind an execution that went well.

**What may fail a tick.**  Its `UPDATE` finds no running row under the lease (as it does
when the final checkpoint has committed before the heartbeat was cancelled), its database
call raises, or the call raises while it is being cancelled.  Where no tick fails
(`World.Beats`), no exception leaves `execute`, and every execution can return.
-/

namespace BindPlane

open ReadCommitted Coroutine Journal

variable {py : Python}

namespace World

/-- No tick of a heartbeat fails in this action: its `UPDATE` matched the row, and the
database call that a cancellation interrupts raises nothing of its own. -/
def Beats (w : World py) : Act → Prop
  | .tickReply i => ∀ claim job rest waiting t,
      w.workers i = .executing claim job rest waiting (.updating t) →
        outcome? w.queue t = some (.ok (.updated 1))
  | .tickLose _ _ => False
  | .answer i r => ∀ claim job k,
      w.workers i = .executing claim job (.call .stopHeartbeat k) .device (.cancelled true) →
        ∃ text, r = .ok text
  | _ => True

/-- Any number of actions in which no tick fails. -/
def BeatingSteps (P : Platform) : World py → World py → Prop :=
  Relation.ReflTransGen fun w w' => ∃ a, w.Beats a ∧ w.step P a = some w'

theorem BeatingSteps.steps {P : Platform} {w w' : World py} (h : BeatingSteps P w w') :
    Steps P w w' :=
  Relation.ReflTransGen.mono (fun _ _ hs => hs.imp fun _ ha => ha.2) _ _ h

/-- The device, or the cancelled heartbeat, can answer the call an executor has made. -/
def Answerable : Exec py Unit → Keepalive → Prop
  | .call q _, keepalive => (q.answer keepalive (.ok "")).isSome
  | _, _ => False

/-- A heartbeat that is not cancelled yet is not waited for. -/
theorem Answerable.ticks {rest : Exec py Unit} {keepalive keepalive' : Keepalive}
    (h : Answerable rest keepalive) (hk : ∀ busy, keepalive ≠ .cancelled busy)
    (hf : ∀ e, keepalive ≠ .failed e) : Answerable rest keepalive' := by
  cases rest with
  | pure a | throw e => exact h
  | call q k =>
      cases q with
      | stopHeartbeat =>
          cases keepalive with
          | sleeping => cases h
          | updating t => cases h
          | failed e => exact absurd rfl (hf e)
          | cancelled busy => exact absurd rfl (hk busy)
      | _ => exact h

/-- No heartbeat has an exception, none was heard of, and none has ended a process; who
waits for an answer can get one.

The heartbeat ends in an exception exactly if one of its ticks fails, and `execute` hands the
exception on when it awaits the task.  The invariant excludes the first, and with it everything that
could follow. -/
structure Unfailed (w : World py) : Prop where
  keepalive : ∀ {i claim job rest waiting e},
    w.workers i ≠ .executing claim job rest waiting (.failed e)
  stopped : ∀ {id e}, .returned Call.stopHeartbeat (.error e) ∉ w.journal id
  up : ∀ {i e}, w.workers i ≠ .down (some e)
  waits : ∀ {i claim job rest keepalive},
    w.workers i = .executing claim job rest .device keepalive → Answerable rest keepalive

section Preserved

variable {P : Platform} {w w' : World py}

theorem Keepalive.cancel_ne_failed {keepalive : Keepalive}
    (h : ∀ e, keepalive ≠ .failed e) (e : Exc) : keepalive.cancel ≠ .failed e := by
  cases keepalive with
  | failed e' => exact absurd rfl (h e')
  | _ => intro heq; cases heq

/-- A cancelled heartbeat answers. -/
theorem Answerable.of_cancel {k : Except Exc String → Exec py Unit} {keepalive : Keepalive}
    (h : ∀ e, keepalive.cancel ≠ .failed e) :
    Answerable (.call .stopHeartbeat k : Exec py Unit) keepalive.cancel := by
  cases keepalive with
  | sleeping => rfl
  | updating t => rfl
  | failed e => exact absurd rfl (h e)
  | cancelled busy => cases busy <;> rfl

/-- A worker moves on to a state without an exception, and nothing of a heartbeat is
entered. -/
theorem Unfailed.moves (hu : w.Unfailed) {i : ℕ} {wk : Worker py}
    (hworkers : w'.workers = Function.update w.workers i wk)
    (hkeepalive : ∀ claim job rest waiting e, wk ≠ .executing claim job rest waiting (.failed e))
    (hup : ∀ e, wk ≠ .down (some e))
    (hwaits : ∀ claim job rest keepalive, wk = .executing claim job rest .device keepalive →
      Answerable rest keepalive)
    (hjournal : ∀ id e, .returned Call.stopHeartbeat (.error e) ∈ w'.journal id →
      .returned Call.stopHeartbeat (.error e) ∈ w.journal id) : w'.Unfailed := by
  constructor
  case keepalive =>
    intro i' claim job rest waiting e
    by_cases hi : i' = i
    · subst hi
      rw [hworkers, Function.update_self]
      exact hkeepalive claim job rest waiting e
    · rw [hworkers, Function.update_of_ne hi]
      exact hu.keepalive
  case stopped =>
    intro id e hm
    exact hu.stopped (hjournal id e hm)
  case up =>
    intro i' e
    by_cases hi : i' = i
    · subst hi
      rw [hworkers, Function.update_self]
      exact hup e
    · rw [hworkers, Function.update_of_ne hi]
      exact hu.up
  case waits =>
    intro i' claim job rest keepalive hw
    by_cases hi : i' = i
    · subst hi
      rw [hworkers, Function.update_self] at hw
      exact hwaits claim job rest keepalive hw
    · rw [hworkers, Function.update_of_ne hi] at hw
      exact hu.waits hw

/-- An entry that is no failed heartbeat adds none. -/
theorem stopped_of_enter {job : ClaimedJob} {e' : Event (@Call.Result py) Exc}
    (hjournal : w'.journal = Function.update w.journal job.id (e' :: w.journal job.id))
    (he : ∀ e, e' ≠ .returned Call.stopHeartbeat (.error e)) (id : Id) (e : Exc)
    (hm : .returned Call.stopHeartbeat (.error e) ∈ w'.journal id) :
    .returned Call.stopHeartbeat (.error e) ∈ w.journal id := by
  rw [hjournal] at hm
  by_cases hid : id = job.id
  · subst hid
    rw [Function.update_self] at hm
    exact (List.mem_cons.mp hm).resolve_left fun heq => he e heq.symm
  · rwa [Function.update_of_ne hid] at hm

/-- An execution that goes on with the same heartbeat. -/
theorem Unfailed.goes_on (hu : w.Unfailed) {i claim : ℕ} {job : ClaimedJob}
    {rest r : Exec py Unit} {waiting u : Waiting} {keepalive : Keepalive}
    {c : Event (@Call.Result py) Exc}
    (hw : w.workers i = .executing claim job rest waiting keepalive)
    (hworkers : w'.workers = Function.update w.workers i
      (.executing claim job r u keepalive))
    (hjournal : w'.journal = Function.update w.journal job.id (c :: w.journal job.id))
    (he : ∀ e, c ≠ .returned Call.stopHeartbeat (.error e))
    (hwaits : u = .device → Answerable r keepalive) : w'.Unfailed := by
  refine hu.moves hworkers (fun _ _ _ _ e heq => ?_) (by simp) (fun _ _ _ _ heq => ?_)
    (stopped_of_enter hjournal he)
  · cases heq
    exact hu.keepalive hw
  · cases heq
    exact hwaits rfl

/-- The call an executor makes leaves its heartbeat as it is, or cancels it. -/
theorem Unfailed.call (hu : w.Unfailed) {i t claim : ℕ} {job : ClaimedJob} {q : Call py}
    {k : Except Exc q.Result → Exec py Unit} {keepalive : Keepalive}
    (hw : w.workers i = .executing claim job (.call q k) .nothing keepalive)
    (h : w.call P i t claim job ⟨q, k⟩ keepalive = some w') : w'.Unfailed := by
  cases q with
  | db op =>
      simp only [World.call, Option.map_eq_some_iff] at h
      obtain ⟨w₁, hw₁, rfl⟩ := h
      obtain ⟨-, hworkers, hjournal⟩ := request_eq_some hw₁
      refine hu.goes_on (r := .call (.db op) k) (u := .transaction t)
        (c := .called (.db op)) hw ?_ ?_ (by simp) (fun heq => by cases heq)
      · simp [enter, set, hworkers]
      · simp [enter, set, hjournal]
  | stopHeartbeat =>
      cases h
      have hne : ∀ e, keepalive.cancel ≠ .failed e :=
        Keepalive.cancel_ne_failed fun e he => hu.keepalive (he ▸ hw)
      refine hu.moves rfl (fun _ _ _ _ e heq => ?_) (by simp) (fun _ _ _ _ heq => ?_)
        (stopped_of_enter rfl (by simp))
      · exact hne e (Worker.executing.inj heq).2.2.2.2
      · cases heq
        exact Answerable.of_cancel hne
  | connect session => cases h; exact hu.goes_on hw rfl rfl (by simp) fun _ => rfl
  | queryBefore session => cases h; exact hu.goes_on hw rfl rfl (by simp) fun _ => rfl
  | release session => cases h; exact hu.goes_on hw rfl rfl (by simp) fun _ => rfl
  | queryAfter session => cases h; exact hu.goes_on hw rfl rfl (by simp) fun _ => rfl
  | close session => cases h; exact hu.goes_on hw rfl rfl (by simp) fun _ => rfl

/-- The answer an executor waits for is a failed heartbeat's only where the cancellation of
a tick raised. -/
theorem Unfailed.answer (hu : w.Unfailed) {i claim : ℕ} {job : ClaimedJob} {q : Call py}
    {k : Except Exc q.Result → Exec py Unit} {keepalive : Keepalive} {r₀ : Except Exc String}
    (hw : w.workers i = .executing claim job (.call q k) .device keepalive)
    (hb : w.Beats (.answer i r₀)) {r : Except Exc q.Result}
    (hr : q.answer keepalive r₀ = some r) (e : Exc) :
    (Event.returned q r : Event (@Call.Result py) Exc) ≠
      .returned Call.stopHeartbeat (.error e) := by
  intro heq
  obtain ⟨rfl, heq⟩ := Event.returned.inj heq
  cases heq
  cases keepalive with
  | failed e' => exact hu.keepalive hw
  | cancelled busy =>
      cases busy with
      | false => cases hr
      | true =>
          obtain ⟨text, rfl⟩ := hb claim job k hw
          cases hr
  | _ => cases hr

/-- **The step lemma.**

A heartbeat can fail in three places, and the condition on the run excludes each of them; an
execution can hear of a failure at one place only, where it awaits the task. -/
theorem Unfailed.step (hu : w.Unfailed) (hk : w.Kept) {a : Act} (hb : w.Beats a)
    (h : w.step P a = some w') : w'.Unfailed := by
  have hloops : ∀ {w₁ : World py} {i stage}, w₁.workers = w.workers → w₁.journal = w.journal →
      (w₁.set i (.looping stage)).Unfailed := by
    intro w₁ i stage hworkers hjournal
    exact hu.moves (by rw [set, hworkers]) (by simp) (by simp) (by simp)
      fun id e hm => hjournal ▸ hm
  have hbeats : ∀ {w₁ : World py} {i claim job rest waiting keepalive},
      w₁.workers = w.workers → w₁.journal = w.journal → (∀ e, keepalive ≠ .failed e) →
        (waiting = .device → Answerable rest keepalive) →
        (w₁.set i (.executing claim job rest waiting keepalive)).Unfailed := by
    intro w₁ i claim job rest waiting keepalive hworkers hjournal hne hwaits
    refine hu.moves (by rw [set, hworkers]) (fun _ _ _ _ e heq => ?_) (by simp)
      (fun _ _ _ _ heq => ?_) fun id e hm => hjournal ▸ hm
    · cases heq
      exact hne e rfl
    · cases heq
      exact hwaits rfl
  cases a with
  | store a =>
      have hsame : w'.workers = w.workers ∧ w'.journal = w.journal := by
        cases a with
        | request t op =>
            simp only [World.step, Option.ite_none_right_eq_some] at h
            exact (request_eq_some h.2).2
        | begin t now | advance t | abort t =>
            simp only [World.step, Option.map_eq_some_iff] at h
            obtain ⟨queue, -, rfl⟩ := h
            exact ⟨rfl, rfl⟩
      obtain ⟨hworkers, hjournal⟩ := hsame
      exact ⟨hworkers ▸ hu.keepalive, hjournal ▸ hu.stopped, hworkers ▸ hu.up,
        hworkers ▸ hu.waits⟩
  | start i =>
      simp only [World.step] at h
      split at h <;> cases h
      exact hloops rfl rfl
  | crash i =>
      simp only [World.step] at h
      split at h <;> cases h
      exact hu.moves rfl (by simp) (by simp) (by simp) fun _ _ hm => hm
  | sweep i t | claim i t =>
      simp only [World.step] at h
      split at h
      · obtain ⟨w₁, hw₁, rfl⟩ := Option.map_eq_some_iff.mp h
        obtain ⟨-, hworkers, hjournal⟩ := request_eq_some hw₁
        exact hloops hworkers hjournal
      · cases h
  | swept i =>
      simp only [World.step] at h
      split at h
      · split at h <;> cases h
        exact hloops rfl rfl
      · cases h
  | claimed i =>
      simp only [World.step] at h
      split at h
      · split at h <;> cases h
        · exact hbeats rfl rfl (by simp) fun heq => by cases heq
        · exact hloops rfl rfl
      · cases h
  | giveUp i =>
      simp only [World.step] at h
      split at h <;> cases h <;> exact hloops rfl rfl
  | call i t =>
      simp only [World.step] at h
      split at h
      · next hw => exact hu.call hw h
      · cases h
  | reply i =>
      simp only [World.step] at h
      split at h
      · next hw =>
          obtain ⟨r, -, rfl⟩ := Option.map_eq_some_iff.mp h
          exact hu.goes_on hw rfl rfl (by simp) fun heq => by cases heq
      · cases h
  | lose i name =>
      simp only [World.step] at h
      split at h
      · next hw =>
          cases h
          exact hu.goes_on hw rfl rfl (by simp) fun heq => by cases heq
      · cases h
  | answer i r₀ =>
      simp only [World.step] at h
      split at h
      · next hw =>
          obtain ⟨r, hr, rfl⟩ := Option.map_eq_some_iff.mp h
          exact hu.goes_on hw rfl rfl (hu.answer hw hb hr) fun heq => by cases heq
      · cases h
  | finish i =>
      simp only [World.step] at h
      split at h
      · cases h
        exact hloops rfl rfl
      · next job e keepalive hw =>
          -- an exception would be that of a heartbeat
          exact absurd (hk.runs hw) hu.stopped
      · cases h
  | tick i t =>
      simp only [World.step] at h
      split at h
      · next hw =>
          obtain ⟨w₁, hw₁, rfl⟩ := Option.map_eq_some_iff.mp h
          obtain ⟨-, hworkers, hjournal⟩ := request_eq_some hw₁
          refine hbeats hworkers hjournal (by simp) fun heq => ?_
          subst heq
          exact (hu.waits hw).ticks (by simp) (by simp)
      · cases h
  | tickReply i =>
      simp only [World.step] at h
      split at h
      · next claim job rest waiting t hw =>
          rw [hb claim job rest waiting t hw] at h
          cases h
          refine hbeats rfl rfl (by simp [Keepalive.ticked]) fun heq => ?_
          subst heq
          exact (hu.waits hw).ticks (by simp) (by simp)
      · cases h
  | tickLose i name => exact hb.elim

end Preserved

/-- **The run lemma.** -/
theorem BeatingSteps.unfailed {P : Platform} {w : World py} (h : BeatingSteps P (start py) w) :
    w.Unfailed := by
  induction h with
  | refl => exact ⟨nofun, nofun, nofun, nofun⟩
  | tail hrun hstep ih =>
      obtain ⟨a, hb, ha⟩ := hstep
      exact ih.step (Reachable.kept (BeatingSteps.steps hrun)) hb ha

/-! ## Returning -/

section Returns

variable {P : Platform} {w : World py}

/-- The world an action leads to, when nothing of the heartbeat fails in it. -/
theorem BeatingSteps.next {w₁ w₂ w' : World py} (a : Act) (hb : w₁.Beats a)
    (ha : w₁.step P a = some w₂) (h : BeatingSteps P w₂ w') : BeatingSteps P w₁ w' :=
  .head ⟨a, hb, ha⟩ h

/-- Worker `i` can come back to the top of its loop. -/
def Returns (P : Platform) (w : World py) (i : ℕ) : Prop :=
  ∃ w', BeatingSteps P w w' ∧ w'.workers i = .looping .top

theorem Returns.of_step {w' : World py} {i : ℕ} (a : Act) (hb : w.Beats a)
    (ha : w.step P a = some w') (h : w'.Returns P i) : w.Returns P i :=
  h.imp fun _ hs => ⟨hs.1.next a hb ha, hs.2⟩

/-- An execution that waits for the answer to a call can return, if it can from every
answer. -/
theorem returns_waiting (h : BeatingSteps P (start py) w) {i claim : ℕ} {job : ClaimedJob}
    {q : Call py} {k : Except Exc q.Result → Exec py Unit} {waiting : Waiting}
    {keepalive : Keepalive}
    (ih : ∀ r {w' : World py}, BeatingSteps P (start py) w' →
      w'.workers i = .executing claim job (k r) .nothing keepalive → w'.Returns P i)
    (hw : w.workers i = .executing claim job (.call q k) waiting keepalive)
    (hwaiting : waiting ≠ .nothing) : w.Returns P i := by
  have hresumed : ∀ r, (w.resume i claim job q k keepalive r).workers i =
      .executing claim job (k r) .nothing keepalive := fun r => Function.update_self ..
  cases waiting with
  | nothing => exact absurd rfl hwaiting
  | transaction t =>
      obtain ⟨⟨op, rfl, -⟩, -⟩ := (Reachable.kept h.steps).runs hw
      have ha : w.step P (.lose i "TimeoutError") = some (w.resume i claim job (.db op) k keepalive
          (.error { name := "TimeoutError" })) := by simp [World.step, hw]
      have hb : w.Beats (.lose i "TimeoutError") := trivial
      exact .of_step _ hb ha (ih _ (h.tail ⟨_, hb, ha⟩) (hresumed _))
  | device =>
      obtain ⟨r, hr⟩ := Option.isSome_iff_exists.mp (h.unfailed.waits hw)
      have ha : w.step P (.answer i (.ok "")) = some (w.resume i claim job q k keepalive r) := by
        simp [World.step, hw, hr]
      have hb : w.Beats (.answer i (.ok "")) := fun _ _ _ _ => ⟨"", rfl⟩
      exact .of_step _ hb ha (ih r (h.tail ⟨_, hb, ha⟩) (hresumed r))

/-- The call `q` of an executor has been made. -/
def Asked (P : Platform) (w : World py) (i claim : ℕ) (job : ClaimedJob) (q : Call py)
    (k : Except Exc q.Result → Exec py Unit) : Prop :=
  ∃ t w' waiting keepalive, w.step P (.call i t) = some w' ∧ waiting ≠ .nothing ∧
    w'.workers i = .executing claim job (.call q k) waiting keepalive

/-- An executor can make its next call. -/
theorem calls (h : BeatingSteps P (start py) w) {i claim : ℕ} {job : ClaimedJob}
    {q : Call py} {k : Except Exc q.Result → Exec py Unit} {keepalive : Keepalive}
    (hw : w.workers i = .executing claim job (.call q k) .nothing keepalive) :
    Asked P w i claim job q k := by
  have hdevice : ∀ keepalive', w.step P (.call i 0) =
      some ((w.set i (.executing claim job (.call q k) .device keepalive')).enter job.id
        (.called q)) → Asked P w i claim job q k :=
    fun keepalive' ha => ⟨0, _, .device, keepalive', ha, by simp, Function.update_self ..⟩
  cases q with
  | db op =>
      obtain ⟨t, ht⟩ := Sys.Steps.exists_absent (Steps.queue h.steps)
      have hrequest : w.request P t op =
          some { w with queue := w.queue.set t (.requested op) } := by
        simp [request, Sys.step, ht]
      have ha : w.step P (.call i t) =
          some ((World.set { w with queue := w.queue.set t (.requested op) } i
            (.executing claim job (.call (.db op) k) (.transaction t) keepalive)).enter job.id
              (.called (.db op))) := by
        simp only [World.step, hw, World.call, hrequest, Option.map_some]
      exact ⟨t, _, .transaction t, keepalive, ha, by simp, Function.update_self ..⟩
  | stopHeartbeat => exact hdevice keepalive.cancel (by simp only [World.step, hw, World.call])
  | _ => exact hdevice keepalive (by simp only [World.step, hw, World.call])

/-- An execution in a run in which no tick fails can return. -/
theorem BeatingSteps.returns (h : BeatingSteps P (start py) w) {i claim : ℕ}
    {job : ClaimedJob} {rest : Exec py Unit} {waiting : Waiting} {keepalive : Keepalive}
    (hw : w.workers i = .executing claim job rest waiting keepalive) : w.Returns P i := by
  induction rest generalizing w waiting keepalive with
  | pure a =>
      have hruns := (Reachable.kept h.steps).runs hw
      cases waiting with
      | nothing =>
          have ha : w.step P (.finish i) = some (w.set i (.looping .top)) := by
            simp [World.step, hw]
          have hb : w.Beats (.finish i) := trivial
          exact ⟨_, .single ⟨_, hb, ha⟩, Function.update_self ..⟩
      | _ => exact hruns.elim
  | throw e =>
      have hruns := (Reachable.kept h.steps).runs hw
      cases waiting with
      | nothing => exact absurd hruns h.unfailed.stopped
      | _ => exact hruns.elim
  | call q k ih =>
      cases waiting with
      | nothing =>
          obtain ⟨t, w', waiting, keepalive', ha, hne, hw'⟩ := calls h hw
          have hb : w.Beats (.call i t) := trivial
          exact .of_step _ hb ha (returns_waiting (h.tail ⟨_, hb, ha⟩)
            (fun r _ hs hr => ih r hs hr) hw' hne)
      | transaction t => exact returns_waiting h (fun r _ hs hr => ih r hs hr) hw (by simp)
      | device => exact returns_waiting h (fun r _ hs hr => ih r hs hr) hw (by simp)

/-- **Execute returns where no tick fails.**  In every run whose actions all let the
heartbeat beat, no process was ended by an exception, no execution stands at one, and every
execution can return to its loop.

The condition is on the actions of the run and not on what `execute` does: a heartbeat tick fails if
it finds no running row under its lease, or if its database call raises.  The heartbeat is a second
coroutine beside the execution, and `execute` awaits it at the end; so the invariant `unfailed` is
about both at once, and says that no heartbeat has an exception to hand over. -/
theorem BeatingSteps.stays_up (h : BeatingSteps P (start py) w) (i : ℕ) :
    (∀ e, w.workers i ≠ .down (some e)) ∧
      ∀ claim job rest waiting keepalive,
        w.workers i = .executing claim job rest waiting keepalive →
          (∀ e, rest ≠ .throw e) ∧
          ∃ w', BeatingSteps P w w' ∧ w'.workers i = .looping .top := by
  refine ⟨fun _ => h.unfailed.up, fun claim job rest waiting keepalive hw => ⟨?_, h.returns hw⟩⟩
  rintro e rfl
  have hruns := (Reachable.kept h.steps).runs hw
  cases waiting with
  | nothing => exact h.unfailed.stopped hruns
  | _ => exact hruns.elim

end Returns

end World

/-! ## The exception -/

namespace Demo

/-- The release `10` has saved its result when its heartbeat ticks once more. -/
def overticked : World python :=
  let w := does (.tickReply 0) (runs 18 16 (does (.tick 0 18) concluded))
  does (.finish 0) (hears "" (hears "" w))

theorem overticked_reachable : overticked.Reachable platform :=
  concluded_reachable.trans ((does_steps _ _).trans ((runs_steps _ _ _).trans
    ((does_steps _ _).trans ((hears_steps _ _).trans ((hears_steps _ _).trans
      (does_steps _ _))))))

/-- The pre-query `4` is being executed, and its heartbeat ticks. -/
def ticking : World python :=
  runs 4 3 (does (.tick 0 4) (claims 2 2 (does (.start 0) inserted)))

/-- It has ticked. -/
def ticked : World python := does (.tickReply 0) ticking

section Beating

variable {w : World python}

theorem does_beats {a : Act} (hb : w.Beats a) : World.BeatingSteps platform w (does a w) := by
  cases hs : w.step platform a with
  | none => rw [does, hs]; exact .refl
  | some w' => rw [does, hs]; exact .single ⟨a, hb, hs⟩

theorem advances_beats (t n : ℕ) : World.BeatingSteps platform w (advances t n w) := by
  induction n generalizing w with
  | zero => exact .refl
  | succ n ih =>
      rw [advances]
      split
      · next w' hs => exact .head ⟨.store (.advance t), trivial, hs⟩ ih
      · exact .refl

theorem runs_beats (t : ℕ) (now : Instant) : World.BeatingSteps platform w (runs t now w) :=
  (does_beats (a := .store (.begin t now)) trivial).trans (advances_beats t 40)

theorem asks_beats (t : ℕ) (op : Op) (now : Instant) :
    World.BeatingSteps platform w (asks t op now w) :=
  (does_beats (a := .store (.request t op)) trivial).trans (runs_beats t now)

theorem claims_beats (t : ℕ) (now : Instant) :
    World.BeatingSteps platform w (claims t now w) :=
  (does_beats (a := .sweep 0 t) trivial).trans ((runs_beats t now).trans
    ((does_beats (a := .swept 0) trivial).trans
      ((does_beats (a := .claim 0 (t + 1)) trivial).trans ((runs_beats (t + 1) now).trans
        (does_beats (a := .claimed 0) trivial)))))

/-- Whether the tick of a worker, if it has one, updated its job. -/
def updated (s : Queue) : Worker python → Bool
  | .executing _ _ _ _ (.updating t) => outcome? s t = some (.ok (.updated 1))
  | _ => true

theorem ticked_beats : World.BeatingSteps platform (World.start python) ticked := by
  have hreply : updated ticking.queue (ticking.workers 0) = true := by decide +kernel
  refine .trans ?_ (does_beats fun _ _ _ _ t hw => ?_)
  · exact (asks_beats 0 _ 0).trans ((does_beats (a := .store (.request 1 _)) trivial).trans
      ((does_beats (a := .store (.begin 1 1)) trivial).trans ((advances_beats 1 6).trans
        ((does_beats (a := .store (.advance 1)) trivial).trans
          ((does_beats (a := .start 0) trivial).trans ((claims_beats 2 2).trans
            ((does_beats (a := .tick 0 4) trivial).trans (runs_beats 4 3))))))))
  · rw [hw] at hreply
    exact of_decide_eq_true hreply

end Beating

end Demo

/-- Whether an exception has ended the process of a worker. -/
def Worker.failed : Worker py → Bool
  | .down (some _) => true
  | _ => false

/-- The tick behind the last checkpoint ends the process of an execution that succeeded. -/
theorem Demo.overticked_down : ¬∀ (w : World Demo.python) (i : ℕ) (e : Exc),
    w.Reachable Demo.platform → w.workers i ≠ .down (some e) := by
  intro hclaim
  have hdown : (Demo.overticked.workers 0).failed = true := by decide +kernel
  unfold Worker.failed at hdown
  split at hdown
  · next e hw => exact hclaim _ 0 e Demo.overticked_reachable hw
  · cases hdown

/-- Whether a worker is executing a job. -/
def Worker.executes : Worker py → Bool
  | .executing .. => true
  | _ => false

/-- The execution that has ticked can return. -/
theorem Demo.ticked_returns : ∃ w', World.BeatingSteps Demo.platform Demo.ticked w' ∧
    w'.workers 0 = .looping .top := by
  have hexecuting : (Demo.ticked.workers 0).executes = true := by decide +kernel
  unfold Worker.executes at hexecuting
  split at hexecuting
  · next claim job rest waiting keepalive hw =>
      exact ((Demo.ticked_beats.stays_up 0).2 claim job rest waiting keepalive hw).2
  · cases hexecuting

end BindPlane
