import BindPlane.Release.Confirmation
import BindPlane.Worker.Discipline

/-!
# Workers over the store

The whole system: the service with its transactions, any number of worker processes, and
the journal of every job that was executed.  A worker is `release_loop`: it sweeps, it
claims, and it executes what it claimed, with a heartbeat beside it.

A transaction a worker asks for is one of the service's: it begins, waits, commits or
fails when the store lets it, and the worker may hear of it, hear nothing (`lose`: a
timeout or a broken connection, while the transaction keeps its own fate), or die
meanwhile.  The switch answers a session's calls with any text or exception.

**Source.**  What is modelled here is in `worker/main.py`.
-/

namespace BindPlane

open ReadCommitted Coroutine

/-- The heartbeat task beside an execution. -/
inductive Keepalive
  /-- `asyncio.sleep(15)`. -/
  | sleeping
  /-- The `UPDATE` of a tick, as transaction `t`. -/
  | updating (t : ℕ)
  /-- The task has ended in an exception nobody has looked at. -/
  | failed (e : Exc)
  /-- Cancelled, in its sleep or in a database call. -/
  | cancelled (busy : Bool)

/-- `keepalive.cancel()`: a task that has ended is left as it is. -/
def Keepalive.cancel : Keepalive → Keepalive
  | sleeping => cancelled false
  | updating _ => cancelled true
  | failed e => failed e
  | cancelled busy => cancelled busy

/-- What an executor waits for. -/
inductive Waiting
  /-- Nothing: it is about to make its next call. -/
  | nothing
  | transaction (t : ℕ)
  /-- The switch, or the heartbeat task it has cancelled. -/
  | device

/-- `release_loop` between two jobs. -/
inductive Loop
  | top
  | sweeping (t : ℕ)
  | swept
  | claiming (t : ℕ)

/-- A worker process.

A worker is a process that may die at any point and be started again.  What it has in memory is
lost: the new process begins at the top of its loop, and of its former job only the row and the
journal are left. -/
inductive Worker (py : Python)
  /-- Not running; an exception that left `execute` is what ended it. -/
  | down (raised : Option Exc)
  | looping (stage : Loop)
  /-- Executing the job that the transaction `claim` claimed. -/
  | executing (claim : ℕ) (job : ClaimedJob) (rest : Exec py Unit) (waiting : Waiting)
      (keepalive : Keepalive)

/-- The service, the workers, and the journals of the jobs.

The journals are not a part of the program.  They record, for each job, the calls that its executor
has made and the answers it got, and exist so that one can speak of what has been sent to a switch,
of which the store knows nothing. -/
structure World (py : Python) where
  queue : Queue
  workers : ℕ → Worker py
  journal : Id → Journal py

/-- What can happen next.

Every action is one step of one party: of a transaction, of the loop of a worker, of an executor, of
a heartbeat, or of the world that breaks a connection or ends a process.  Nothing orders them.  In
particular the reply of a transaction may be delivered long after its commit, or never. -/
inductive Act
  /-- The store, or a request of the API. -/
  | store (a : QueueAction)
  | start (i : ℕ)
  | crash (i : ℕ)
  | sweep (i t : ℕ)
  | swept (i : ℕ)
  | claim (i t : ℕ)
  | claimed (i : ℕ)
  /-- A sweep or a claim raises, or its outcome is lost. -/
  | giveUp (i : ℕ)
  /-- The executor makes its next call, a transaction as number `t`. -/
  | call (i t : ℕ)
  | reply (i : ℕ)
  /-- The executor hears nothing of its transaction. -/
  | lose (i : ℕ) (name : String)
  | answer (i : ℕ) (r : Except Exc String)
  | finish (i : ℕ)
  | tick (i t : ℕ)
  | tickReply (i : ℕ)
  | tickLose (i : ℕ) (name : String)

/-- The operations of the API: what is requested by nobody's executor. -/
def Op.client : Op → Bool
  | .prepare .. | .confirm .. | .retry .. | .updateAudited .. | .createAssets .. => true
  | _ => false

/-- The exception a failed transaction raises in Python. -/
def Failure.exc : Failure → Exc
  | .leaseLost => { name := "RuntimeError" }
  | .uniqueViolation => { name := "UniqueViolationError" }
  | _ => { name := "PostgresError" }

/-- What a transaction that has ended returns or raises. -/
def outcome? (s : Queue) (t : ℕ) : Option (Except Exc Reply) :=
  match s.txns t with
  | .committed _ _ r => some (.ok r)
  | .rolledBack _ _ e => some (.error e.exc)
  | .aborted _ => some (.error { name := "PostgresError" })
  | _ => none

section Answers

variable {py : Python}

/-- What an awaited session call returns, or the cancelled heartbeat. -/
def Call.answer (keepalive : Keepalive) : (q : Call py) → Except Exc String →
    Option (Except Exc q.Result)
  | .db _, _ => none
  | .connect _, r | .queryBefore _, r | .release _, r | .queryAfter _, r | .close _, r => some r
  | .stopHeartbeat, r =>
      match keepalive with
      | .failed e => some (.error e)
      | .cancelled false => some (.ok "")
      | .cancelled true => some r
      | _ => none

end Answers

namespace World

variable {py : Python}

/-- Move one worker on. -/
def set (w : World py) (i : ℕ) (wk : Worker py) : World py :=
  { w with workers := Function.update w.workers i wk }

/-- Enter into the journal of a job. -/
def enter (w : World py) (id : Id) (e : Event (@Call.Result py) Exc) : World py :=
  { w with journal := Function.update w.journal id (e :: w.journal id) }

/-- Ask the store for a transaction. -/
def request (P : Platform) (w : World py) (t : ℕ) (op : Op) : Option (World py) :=
  (w.queue.step (body P) (.request t op)).map fun queue => { w with queue := queue }

/-- An executor goes on from the answer to its call. -/
def resume (w : World py) (i claim : ℕ) (job : ClaimedJob) (q : Call py)
    (k : Except Exc q.Result → Exec py Unit) (keepalive : Keepalive) (r : Except Exc q.Result) :
    World py :=
  (w.set i (.executing claim job (k r) .nothing keepalive)).enter job.id (.returned q r)

/-- An executor makes its next call. -/
def call (P : Platform) (w : World py) (i t claim : ℕ) (job : ClaimedJob)
    (k : (q : Call py) × (Except Exc q.Result → Exec py Unit)) (keepalive : Keepalive) :
    Option (World py) :=
  match k with
  | ⟨.db op, k⟩ =>
      (w.request P t op).map fun w =>
        (w.set i (.executing claim job (.call (.db op) k) (.transaction t) keepalive)).enter
          job.id (.called (.db op))
  | ⟨.stopHeartbeat, k⟩ =>
      some ((w.set i (.executing claim job (.call .stopHeartbeat k) .device
        keepalive.cancel)).enter job.id (.called .stopHeartbeat))
  | ⟨q, k⟩ =>
      some ((w.set i (.executing claim job (.call q k) .device keepalive)).enter job.id
        (.called q))

/-- The state of the heartbeat task behind a tick. -/
def Keepalive.ticked : Except Exc Reply → Keepalive
  | .ok (.updated 1) => .sleeping
  | .ok _ => .failed { name := "RuntimeError" }
  | .error e => .failed e

/-- One action; `none` when it cannot happen. -/
def step (P : Platform) (w : World py) : Act → Option (World py)
  | .store a =>
      match a with
      | .request t op => if op.client then w.request P t op else none
      | a => (w.queue.step (body P) a).map fun queue => { w with queue := queue }
  | .start i =>
      match w.workers i with
      | .down _ => some (w.set i (.looping .top))
      | _ => none
  | .crash i =>
      match w.workers i with
      | .down _ => none
      | _ => some (w.set i (.down none))
  | .sweep i t =>
      match w.workers i with
      | .looping .top => (w.request P t .sweepExpired).map (·.set i (.looping (.sweeping t)))
      | _ => none
  | .swept i =>
      match w.workers i with
      | .looping (.sweeping t) =>
          match outcome? w.queue t with
          | some (.ok _) => some (w.set i (.looping .swept))
          | _ => none
      | _ => none
  | .claim i t =>
      match w.workers i with
      | .looping .swept => (w.request P t .claim).map (·.set i (.looping (.claiming t)))
      | _ => none
  | .claimed i =>
      match w.workers i with
      | .looping (.claiming t) =>
          match outcome? w.queue t with
          | some (.ok (.claimed (some job))) =>
              some (w.set i (.executing t job (execute job) .nothing .sleeping))
          | some (.ok _) => some (w.set i (.looping .top))
          | _ => none
      | _ => none
  | .giveUp i =>
      match w.workers i with
      | .looping (.sweeping _) | .looping (.claiming _) => some (w.set i (.looping .top))
      | _ => none
  | .call i t =>
      match w.workers i with
      | .executing claim job (.call q k) .nothing keepalive => w.call P i t claim job ⟨q, k⟩ keepalive
      | _ => none
  | .reply i =>
      match w.workers i with
      | .executing claim job (.call (.db op) k) (.transaction t) keepalive =>
          (outcome? w.queue t).map (w.resume i claim job (.db op) k keepalive)
      | _ => none
  | .lose i name =>
      match w.workers i with
      | .executing claim job (.call (.db op) k) (.transaction _) keepalive =>
          some (w.resume i claim job (.db op) k keepalive (.error { name := name }))
      | _ => none
  | .answer i r =>
      match w.workers i with
      | .executing claim job (.call q k) .device keepalive =>
          (q.answer keepalive r).map (w.resume i claim job q k keepalive)
      | _ => none
  | .finish i =>
      match w.workers i with
      | .executing _ _ (.pure _) .nothing _ => some (w.set i (.looping .top))
      | .executing _ _ (.throw e) .nothing _ => some (w.set i (.down (some e)))
      | _ => none
  | .tick i t =>
      match w.workers i with
      | .executing claim job rest waiting .sleeping =>
          (w.request P t (.heartbeat job.ref)).map
            (·.set i (.executing claim job rest waiting (.updating t)))
      | _ => none
  | .tickReply i =>
      match w.workers i with
      | .executing claim job rest waiting (.updating t) =>
          (outcome? w.queue t).map fun r =>
            w.set i (.executing claim job rest waiting (Keepalive.ticked r))
      | _ => none
  | .tickLose i name =>
      match w.workers i with
      | .executing claim job rest waiting (.updating _) =>
          some (w.set i (.executing claim job rest waiting (.failed { name := name })))
      | _ => none

/-- Any number of actions. -/
def Steps (P : Platform) : World py → World py → Prop :=
  Relation.ReflTransGen fun w w' => ∃ a, w.step P a = some w'

/-- Nobody is up, on a freshly migrated store. -/
def start (py : Python) : World py := ⟨Queue.start, fun _ => .down none, fun _ => []⟩

/-- A world some run leads to. -/
def Reachable (P : Platform) (w : World py) : Prop := Steps P (start py) w

/-! ## What a step can do -/

/-- **The inversion**: an action of the store, or one worker moves on.

Two things can happen in a step, a move of the store or a move of one worker, and a step of a worker
extends one journal by one entry at most.  The invariants of the books and of the commands are
proved by these cases. -/
inductive Moved (P : Platform) (w w' : World py) : Prop
  | store (a : QueueAction) (hqueue : w.queue.step (body P) a = some w'.queue)
      (hclient : ∀ t op, a = .request t op → op.client = true)
      (hworkers : w'.workers = w.workers) (hjournal : w'.journal = w.journal)
  | halts (i : ℕ) (raised : Option Exc) (hqueue : w'.queue = w.queue)
      (hworkers : w'.workers = Function.update w.workers i (.down raised))
      (hjournal : w'.journal = w.journal)
      (hraised : ∀ e, raised = some e → ∃ claim job keepalive,
        w.workers i = .executing claim job (.throw e) .nothing keepalive)
  | loops (i : ℕ) (stage : Loop)
      (hqueue : w'.queue = w.queue ∨
        ∃ t, w.queue.step (body P) (.request t .sweepExpired) = some w'.queue)
      (hworkers : w'.workers = Function.update w.workers i (.looping stage))
      (hjournal : w'.journal = w.journal) (hstage : ∀ t, stage ≠ .claiming t)
  | claims (i t : ℕ) (hqueue : w.queue.step (body P) (.request t .claim) = some w'.queue)
      (hworkers : w'.workers = Function.update w.workers i (.looping (.claiming t)))
      (hjournal : w'.journal = w.journal)
  | begins (i t : ℕ) (job : ClaimedJob) (hqueue : w'.queue = w.queue)
      (hw : w.workers i = .looping (.claiming t))
      (houtcome : outcome? w.queue t = some (.ok (.claimed (some job))))
      (hworkers : w'.workers = Function.update w.workers i
        (.executing t job (execute job) .nothing .sleeping))
      (hjournal : w'.journal = w.journal)
  | asks (i t claim : ℕ) (job : ClaimedJob) (op : Op) (k : Except Exc Reply → Exec py Unit)
      (keepalive : Keepalive)
      (hw : w.workers i = .executing claim job (.call (.db op) k) .nothing keepalive)
      (hqueue : w.queue.step (body P) (.request t op) = some w'.queue)
      (hworkers : w'.workers = Function.update w.workers i
        (.executing claim job (.call (.db op) k) (.transaction t) keepalive))
      (hjournal : w'.journal = Function.update w.journal job.id
        (.called (.db op) :: w.journal job.id))
  | enters (i claim : ℕ) (job : ClaimedJob) (q : Call py)
      (k : Except Exc q.Result → Exec py Unit) (keepalive keepalive' : Keepalive)
      (hw : w.workers i = .executing claim job (.call q k) .nothing keepalive)
      (hq : ∀ op, q ≠ .db op) (hqueue : w'.queue = w.queue)
      (hworkers : w'.workers = Function.update w.workers i
        (.executing claim job (.call q k) .device keepalive'))
      (hkeepalive : keepalive' = keepalive ∨ keepalive' = keepalive.cancel)
      (hjournal : w'.journal = Function.update w.journal job.id
        (.called q :: w.journal job.id))
  | hears (i claim : ℕ) (job : ClaimedJob) (op : Op) (k : Except Exc Reply → Exec py Unit)
      (t : ℕ) (keepalive : Keepalive) (r : Except Exc Reply)
      (hw : w.workers i = .executing claim job (.call (.db op) k) (.transaction t) keepalive)
      (hr : ∀ reply, r = .ok reply → outcome? w.queue t = some (.ok reply))
      (hqueue : w'.queue = w.queue)
      (hworkers : w'.workers = Function.update w.workers i
        (.executing claim job (k r) .nothing keepalive))
      (hjournal : w'.journal = Function.update w.journal job.id
        (.returned (.db op) r :: w.journal job.id))
  | returns (i claim : ℕ) (job : ClaimedJob) (q : Call py)
      (k : Except Exc q.Result → Exec py Unit) (keepalive : Keepalive) (r₀ : Except Exc String)
      (r : Except Exc q.Result)
      (hw : w.workers i = .executing claim job (.call q k) .device keepalive)
      (hr : q.answer keepalive r₀ = some r) (hqueue : w'.queue = w.queue)
      (hworkers : w'.workers = Function.update w.workers i
        (.executing claim job (k r) .nothing keepalive))
      (hjournal : w'.journal = Function.update w.journal job.id
        (.returned q r :: w.journal job.id))
  | beats (i claim : ℕ) (job : ClaimedJob) (rest : Exec py Unit) (waiting : Waiting)
      (keepalive keepalive' : Keepalive)
      (hw : w.workers i = .executing claim job rest waiting keepalive)
      (hqueue : w'.queue = w.queue ∨
        ∃ t, w.queue.step (body P) (.request t (.heartbeat job.ref)) = some w'.queue)
      (hworkers : w'.workers = Function.update w.workers i
        (.executing claim job rest waiting keepalive'))
      (hjournal : w'.journal = w.journal)

variable {P : Platform} {w w' : World py}

theorem request_eq_some {t : ℕ} {op : Op} (h : w.request P t op = some w') :
    w.queue.step (body P) (.request t op) = some w'.queue ∧ w'.workers = w.workers ∧
      w'.journal = w.journal := by
  rw [request, Option.map_eq_some_iff] at h
  obtain ⟨queue, hqueue, rfl⟩ := h
  exact ⟨hqueue, rfl, rfl⟩

theorem call_moved {i t claim : ℕ} {job : ClaimedJob} {q : Call py}
    {k : Except Exc q.Result → Exec py Unit} {keepalive : Keepalive}
    (hw : w.workers i = .executing claim job (.call q k) .nothing keepalive)
    (h : w.call P i t claim job ⟨q, k⟩ keepalive = some w') : Moved P w w' := by
  cases q with
  | db op =>
      simp only [call, Option.map_eq_some_iff] at h
      obtain ⟨w₁, hw₁, rfl⟩ := h
      obtain ⟨hqueue, hworkers, hjournal⟩ := request_eq_some hw₁
      exact .asks i t claim job op k keepalive hw hqueue (by simp [enter, set, hworkers])
        (by simp [enter, set, hjournal])
  | stopHeartbeat =>
      cases h
      exact .enters i claim job _ k keepalive _ hw (by simp) rfl rfl (.inr rfl) rfl
  | connect session =>
      cases h
      exact .enters i claim job _ k keepalive _ hw (by simp) rfl rfl (.inl rfl) rfl
  | queryBefore session =>
      cases h
      exact .enters i claim job _ k keepalive _ hw (by simp) rfl rfl (.inl rfl) rfl
  | release session =>
      cases h
      exact .enters i claim job _ k keepalive _ hw (by simp) rfl rfl (.inl rfl) rfl
  | queryAfter session =>
      cases h
      exact .enters i claim job _ k keepalive _ hw (by simp) rfl rfl (.inl rfl) rfl
  | close session =>
      cases h
      exact .enters i claim job _ k keepalive _ hw (by simp) rfl rfl (.inl rfl) rfl

/-- Every action is one of these moves. -/
theorem step_moved {a : Act} (h : w.step P a = some w') : Moved P w w' := by
  cases a with
  | store a =>
      cases a with
      -- a client asks only for what is left to clients
      | request t op =>
          simp only [step, Option.ite_none_right_eq_some] at h
          obtain ⟨hclient, h⟩ := h
          obtain ⟨hqueue, hworkers, hjournal⟩ := request_eq_some h
          refine .store _ hqueue (fun t' op' heq => ?_) hworkers hjournal
          cases heq
          exact hclient
      | begin t now | advance t | abort t =>
          simp only [step, Option.map_eq_some_iff] at h
          obtain ⟨queue, hqueue, rfl⟩ := h
          exact .store _ hqueue (by simp) rfl rfl
  | start i =>
      simp only [step] at h
      split at h <;> cases h
      exact .loops i .top (.inl rfl) rfl rfl (by simp)
  | crash i =>
      simp only [step] at h
      split at h <;> cases h
      exact .halts i none rfl rfl rfl (by simp)
  | sweep i t =>
      simp only [step] at h
      split at h
      · rw [Option.map_eq_some_iff] at h
        obtain ⟨w₁, hw₁, rfl⟩ := h
        obtain ⟨hqueue, hworkers, hjournal⟩ := request_eq_some hw₁
        exact .loops i (.sweeping t) (.inr ⟨t, hqueue⟩) (by simp [set, hworkers]) hjournal
          (by simp)
      · cases h
  | swept i =>
      simp only [step] at h
      split at h
      · split at h <;> cases h
        exact .loops i .swept (.inl rfl) rfl rfl (by simp)
      · cases h
  | claim i t =>
      simp only [step] at h
      split at h
      · rw [Option.map_eq_some_iff] at h
        obtain ⟨w₁, hw₁, rfl⟩ := h
        obtain ⟨hqueue, hworkers, hjournal⟩ := request_eq_some hw₁
        exact .claims i t hqueue (by simp [set, hworkers]) hjournal
      · cases h
  -- the transaction has handed out a job, or nothing, or it has failed
  | claimed i =>
      simp only [step] at h
      split at h
      · next t hw =>
          split at h
          · next job houtcome =>
              cases h
              exact .begins i t job rfl hw houtcome rfl rfl
          · cases h
            exact .loops i .top (.inl rfl) rfl rfl (by simp)
          · cases h
      · cases h
  | giveUp i =>
      simp only [step] at h
      split at h
      · cases h
        exact .loops i .top (.inl rfl) rfl rfl (by simp)
      · cases h
        exact .loops i .top (.inl rfl) rfl rfl (by simp)
      · cases h
  | call i t =>
      simp only [step] at h
      split at h
      · next claim job q k keepalive hw => exact call_moved hw h
      · cases h
  -- the answer of the store goes into the journal as it is
  | reply i =>
      simp only [step] at h
      split at h
      · next claim job op k t keepalive hw =>
          rw [Option.map_eq_some_iff] at h
          obtain ⟨r, hr, rfl⟩ := h
          refine .hears i claim job op k t keepalive r hw (fun reply heq => ?_) rfl rfl rfl
          rw [hr, heq]
      · cases h
  -- the answer is lost, and whether the transaction commits remains open
  | lose i name =>
      simp only [step] at h
      split at h
      · next claim job op k t keepalive hw =>
          cases h
          exact .hears i claim job op k t keepalive _ hw (by simp) rfl rfl rfl
      · cases h
  | answer i r₀ =>
      simp only [step] at h
      split at h
      · next claim job q k keepalive hw =>
          rw [Option.map_eq_some_iff] at h
          obtain ⟨r, hr, rfl⟩ := h
          exact .returns i claim job q k keepalive r₀ r hw hr rfl rfl rfl
      · cases h
  | finish i =>
      simp only [step] at h
      split at h
      · cases h
        exact .loops i .top (.inl rfl) rfl rfl (by simp)
      · next claim job e keepalive hw =>
          cases h
          refine .halts i (some e) rfl rfl rfl fun e' heq => ?_
          cases heq
          exact ⟨claim, job, keepalive, hw⟩
      · cases h
  -- a heartbeat runs beside the execution and enters nothing in its journal
  | tick i t =>
      simp only [step] at h
      split at h
      · next claim job rest waiting hw =>
          rw [Option.map_eq_some_iff] at h
          obtain ⟨w₁, hw₁, rfl⟩ := h
          obtain ⟨hqueue, hworkers, hjournal⟩ := request_eq_some hw₁
          exact .beats i claim job rest waiting .sleeping (.updating t) hw (.inr ⟨t, hqueue⟩)
            (by simp [set, hworkers]) hjournal
      · cases h
  | tickReply i =>
      simp only [step] at h
      split at h
      · next claim job rest waiting t hw =>
          rw [Option.map_eq_some_iff] at h
          obtain ⟨r, hr, rfl⟩ := h
          exact .beats i claim job rest waiting _ _ hw (.inl rfl) rfl rfl
      · cases h
  | tickLose i name =>
      simp only [step] at h
      split at h
      · next claim job rest waiting t hw =>
          cases h
          exact .beats i claim job rest waiting _ _ hw (.inl rfl) rfl rfl
      · cases h

/-- The store of a world moves as the service does. -/
theorem Moved.queue (h : Moved P w w') : Queue.Steps P w.queue w'.queue := by
  have hsame : w'.queue = w.queue → Queue.Steps P w.queue w'.queue := fun heq =>
    heq ▸ Relation.ReflTransGen.refl
  have hstep : ∀ {a}, w.queue.step (body P) a = some w'.queue →
      Queue.Steps P w.queue w'.queue := fun ha => .single ⟨_, ha⟩
  cases h with
  | store a hqueue => exact hstep hqueue
  | halts i raised hqueue => exact hsame hqueue
  | loops i stage hqueue => exact hqueue.elim hsame fun ⟨t, ht⟩ => hstep ht
  | claims i t hqueue => exact hstep hqueue
  | begins i t job hqueue => exact hsame hqueue
  | asks i t claim job op k keepalive hw hqueue => exact hstep hqueue
  | enters i claim job q k keepalive keepalive' hw hq hqueue => exact hsame hqueue
  | hears i claim job op k t keepalive r hw hr hqueue => exact hsame hqueue
  | returns i claim job q k keepalive r₀ r hw hr hqueue => exact hsame hqueue
  | beats i claim job rest waiting keepalive keepalive' hw hqueue =>
      exact hqueue.elim hsame fun ⟨t, ht⟩ => hstep ht

theorem Steps.queue (h : Steps P w w') : Queue.Steps P w.queue w'.queue := by
  induction h with
  | refl => exact .refl
  | tail _ hstep ih =>
      obtain ⟨a, ha⟩ := hstep
      exact ih.trans (step_moved ha).queue

/-- **The workers run the service**: every reachable world is over a reachable store, so
everything proved of the service holds here.

A step of the world moves the service by one of its own steps or leaves it where it is, and a worker
asks for nothing that a client could not have asked for. -/
theorem Reachable.queue (h : w.Reachable P) : w.queue.Reachable P := Steps.queue h

/-- A journal only grows. -/
theorem Moved.journal (h : Moved P w w') (id : Id) : w.journal id <:+ w'.journal id := by
  have hsame : w'.journal = w.journal → w.journal id <:+ w'.journal id := fun heq =>
    heq ▸ List.suffix_rfl
  have hmore : ∀ {i e}, w'.journal = Function.update w.journal i (e :: w.journal i) →
      w.journal id <:+ w'.journal id := by
    intro i e heq
    rw [heq]
    by_cases hid : id = i
    · subst hid
      rw [Function.update_self]
      exact List.suffix_cons _ _
    · have hold : Function.update w.journal i (e :: w.journal i) id = w.journal id :=
        Function.update_of_ne hid _ _
      exact hold ▸ List.suffix_rfl
  cases h with
  | store _ _ _ _ hjournal => exact hsame hjournal
  | halts _ _ _ _ hjournal => exact hsame hjournal
  | loops _ _ _ _ hjournal => exact hsame hjournal
  | claims _ _ _ _ hjournal => exact hsame hjournal
  | begins _ _ _ _ _ _ _ hjournal => exact hsame hjournal
  | asks _ _ _ _ _ _ _ _ _ _ hjournal => exact hmore hjournal
  | enters _ _ _ _ _ _ _ _ _ _ _ _ hjournal => exact hmore hjournal
  | hears _ _ _ _ _ _ _ _ _ _ _ _ hjournal => exact hmore hjournal
  | returns _ _ _ _ _ _ _ _ _ _ _ _ hjournal => exact hmore hjournal
  | beats _ _ _ _ _ _ _ _ _ _ hjournal => exact hsame hjournal

theorem Steps.journal (h : Steps P w w') (id : Id) : w.journal id <:+ w'.journal id := by
  induction h with
  | refl => exact List.suffix_rfl
  | tail _ hstep ih =>
      obtain ⟨a, ha⟩ := hstep
      exact ih.trans ((step_moved ha).journal id)

end World

end BindPlane
