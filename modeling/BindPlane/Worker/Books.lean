import BindPlane.Release.Claims
import BindPlane.Worker.World

/-!
# The books of a run

What holds between the workers, the journals and the store in every reachable world
(`World.Kept`).

* A claim is heard of by one worker, a job is claimed once, and so the journal of a job is
  written by one execution.
* The execution goes on from where its journal says it stands (`Runs`), so that every
  journal keeps to the guard of its job.
* Every checkpoint anybody has asked for is in the journal of its job, and every reply in a
  journal is that of a committed transaction (`Reachable.heard_since`).

**What the books are for.**  A worker never sees the store, only replies, and replies can be lost.
So a fact about the store is turned into one about a journal in two steps: the journal has an entry
for the reply, and a reply is that of a committed transaction.  The other way round, a checkpoint
that has committed was asked for by somebody, and its journal says so.
-/

namespace BindPlane

open ReadCommitted Coroutine Journal

variable {py : Python}

/-- The claim a worker waits for, or whose job it executes. -/
def Worker.claim? : Worker py → Option ℕ
  | .looping (.claiming t) => some t
  | .executing t _ _ _ _ => some t
  | _ => none

/-- An execution that waits for the answer to `q` goes on safely from any answer. -/
def Awaits (job : ClaimedJob) (h : Journal py) (q : Call py)
    (k : Except Exc q.Result → Exec py Unit) : Prop :=
  .called q ∈ h ∧ ∀ r, (k r).Safe (Guard job) Ended (.returned q r :: h)

/-- Where an execution stands in the journal of its job. -/
def Runs (s : Queue) (job : ClaimedJob) (h : Journal py) : Exec py Unit → Waiting → Prop
  | rest, .nothing => rest.Safe (Guard job) Ended h
  | .call q k, .transaction t => (∃ op, q = .db op ∧ (s.txns t).op? = some op) ∧ Awaits job h q k
  | .call q k, .device => Awaits job h q k
  | _, _ => False

namespace World

/-- The execution of one claimed job wrote the journal `id`, and keeps to its guard. -/
def Owned (w : World py) (id : Id) : Prop :=
  ∃ t job, w.queue.ClaimedBy t job ∧ job.id = id ∧ Allowed (Guard job) (w.journal id) ∧
    ∀ i, w.workers i ≠ .looping (.claiming t)

/-- **The invariant of a run.**

The fields tie three accounts of a run together: what the workers are doing, what the journals say
they have done, and which transactions have committed.  The central one is that whoever executes a
job has claimed it and stands where its journal ends; since a claim is heard by one worker only, no
journal is written by two. -/
structure Kept (w : World py) : Prop where
  claim : ∀ {i t}, (w.workers i).claim? = some t → (w.queue.txns t).op? = some .claim
  alone : ∀ {i i' t}, (w.workers i).claim? = some t → (w.workers i').claim? = some t → i = i'
  claimed : ∀ {i t job rest waiting keepalive},
    w.workers i = .executing t job rest waiting keepalive → w.queue.ClaimedBy t job
  runs : ∀ {i t job rest waiting keepalive},
    w.workers i = .executing t job rest waiting keepalive →
      Runs w.queue job (w.journal job.id) rest waiting
  owned : ∀ {id}, w.journal id ≠ [] → w.Owned id
  asked : ∀ {t id token c}, (w.queue.txns t).op? = some (.checkpoint ⟨id, token⟩ c) →
    .called (Call.db (.checkpoint ⟨id, token⟩ c)) ∈ w.journal id

theorem Kept.start : (start py).Kept where
  claim h := by cases h
  alone h := by cases h
  claimed h := by cases h
  runs h := by cases h
  owned h := absurd rfl h
  asked h := by cases h

section Preserved

variable {P : Platform} {w w' : World py}

/-! ## The store moves -/

/-- What a move keeps of the transactions: operations asked for, and claims committed. -/
structure Later (s s' : Queue) : Prop where
  op : ∀ {t op}, (s.txns t).op? = some op → (s'.txns t).op? = some op
  claimed : ∀ {t job}, s.ClaimedBy t job → s'.ClaimedBy t job

theorem Later.of_steps {s s' : Queue} (h : s.Reachable P) (hs : Queue.Steps P s s') :
    Later s s' where
  op := Sys.Steps.op hs
  claimed hc := hc.imp fun _ ht => h.committed hs ht

theorem Runs.later {s s' : Queue} (hl : Later s s') {job : ClaimedJob} {h : Journal py}
    {rest : Exec py Unit} {waiting : Waiting} (hr : Runs s job h rest waiting) :
    Runs s' job h rest waiting := by
  cases waiting with
  | nothing => exact hr
  | device => cases rest <;> exact hr
  | transaction t =>
      cases rest with
      | call q k =>
          obtain ⟨⟨op, hq, hop⟩, ha⟩ := hr
          exact ⟨⟨op, hq, hl.op hop⟩, ha⟩
      | _ => exact hr

/-- Two executions of one job are one. -/
theorem Kept.one (hk : w.Kept) (hq : w.queue.Reachable P) {i i' t t' : ℕ}
    {job job' : ClaimedJob} {rest rest' : Exec py Unit} {waiting waiting' : Waiting}
    {keepalive keepalive' : Keepalive}
    (hw : w.workers i = .executing t job rest waiting keepalive)
    (hw' : w.workers i' = .executing t' job' rest' waiting' keepalive')
    (hid : job.id = job'.id) : i = i' := by
  have ht : t = t' := hq.claimed_once (hk.claimed hw) (hk.claimed hw') hid
  exact hk.alone (by rw [hw]; rfl) (by rw [hw', ht]; rfl)

/-- The journal of a job being executed keeps to its guard. -/
theorem Kept.allowed (hk : w.Kept) (hq : w.queue.Reachable P) {i t : ℕ} {job : ClaimedJob}
    {rest : Exec py Unit} {waiting : Waiting} {keepalive : Keepalive}
    (hw : w.workers i = .executing t job rest waiting keepalive) :
    Allowed (Guard job) (w.journal job.id) := by
  by_cases hnil : w.journal job.id = []
  · rw [hnil]
    trivial
  · obtain ⟨t', job', hclaimed, hid, hallowed, -⟩ := hk.owned hnil
    have ht := hq.claimed_once hclaimed (hk.claimed hw) hid
    subst ht
    rw [hclaimed.job_eq (hk.claimed hw)] at hallowed
    exact hallowed

/-! ## Moves that enter nothing -/

/-- Worker `i` moves on to `wk`, and nothing is entered in a journal.

This covers the loop between two jobs and the heartbeats.  The transactions that the worker asks for
on the way are no checkpoints. -/
structure Quiets (w w' : World py) (i : ℕ) (wk : Worker py) : Prop where
  later : Later w.queue w'.queue
  workers : w'.workers = Function.update w.workers i wk
  journal : w'.journal = w.journal
  asked : ∀ {t job c}, (w'.queue.txns t).op? = some (.checkpoint job c) →
    (w.queue.txns t).op? = some (.checkpoint job c)
  claim : ∀ {t}, wk.claim? = some t → (w'.queue.txns t).op? = some .claim ∧
    ∀ i', i' ≠ i → (w.workers i').claim? ≠ some t
  claimed : ∀ {t job rest waiting keepalive}, wk = .executing t job rest waiting keepalive →
    w'.queue.ClaimedBy t job ∧ Runs w'.queue job (w.journal job.id) rest waiting
  fresh : ∀ {t}, wk = .looping (.claiming t) → w.workers i = .looping (.claiming t) ∨
    ∀ job, ¬w'.queue.ClaimedBy t job

theorem Kept.quiets (hk : w.Kept) {i : ℕ} {u : Worker py} (h : Quiets w w' i u) :
    w'.Kept := by
  -- only worker `i` changes; of the others everything is as it was
  have hself : w'.workers i = u := by rw [h.workers, Function.update_self]
  have hother : ∀ {i'}, i' ≠ i → w'.workers i' = w.workers i' := fun hne => by
    rw [h.workers, Function.update_of_ne hne]
  constructor
  case claim =>
    intro i' t ht
    by_cases hi : i' = i
    · subst hi
      rw [hself] at ht
      exact (h.claim ht).1
    · rw [hother hi] at ht
      exact h.later.op (hk.claim ht)
  case alone =>
    intro i₁ i₂ t h₁ h₂
    by_cases hi₁ : i₁ = i
    · by_cases hi₂ : i₂ = i
      · rw [hi₁, hi₂]
      · rw [hi₁, hself] at h₁
        rw [hother hi₂] at h₂
        exact absurd h₂ ((h.claim h₁).2 i₂ hi₂)
    · rw [hother hi₁] at h₁
      by_cases hi₂ : i₂ = i
      · rw [hi₂, hself] at h₂
        exact absurd h₁ ((h.claim h₂).2 i₁ hi₁)
      · rw [hother hi₂] at h₂
        exact hk.alone h₁ h₂
  case claimed =>
    intro i' t job rest waiting keepalive hw
    by_cases hi : i' = i
    · rw [hi, hself] at hw
      exact (h.claimed hw).1
    · rw [hother hi] at hw
      exact h.later.claimed (hk.claimed hw)
  case runs =>
    intro i' t job rest waiting keepalive hw
    rw [h.journal]
    by_cases hi : i' = i
    · rw [hi, hself] at hw
      exact (h.claimed hw).2
    · rw [hother hi] at hw
      exact Runs.later h.later (hk.runs hw)
  -- a journal without a worker stays without one
  case owned =>
    intro id hid
    rw [h.journal] at hid
    obtain ⟨t, job, hclaimed, hjob, hallowed, hno⟩ := hk.owned hid
    refine ⟨t, job, h.later.claimed hclaimed, hjob, by rwa [h.journal], fun i' hi' => ?_⟩
    by_cases hi : i' = i
    · rw [hi, hself] at hi'
      rcases h.fresh hi' with hold | hnone
      · exact hno i hold
      · exact hnone job (h.later.claimed hclaimed)
    · rw [hother hi] at hi'
      exact hno i' hi'
  case asked =>
    intro t id token c ht
    rw [h.journal]
    exact hk.asked (h.asked ht)

/-! ## Moves that enter into the journal of the job -/

/-- The execution of `job` by worker `i` goes on to `rest'`, with a new entry `e`.

A checkpoint that is asked for stands in the journal as a call, so the journal of a job knows all of
the checkpoints that its worker has ever asked for. -/
structure Enters (w w' : World py) (i t : ℕ) (job : ClaimedJob)
    (e : Event (@Call.Result py) Exc) (rest' : Exec py Unit) (waiting' : Waiting) : Prop where
  later : Later w.queue w'.queue
  executing : ∃ rest waiting keepalive, w.workers i = .executing t job rest waiting keepalive
  workers : ∃ keepalive, w'.workers =
    Function.update w.workers i (.executing t job rest' waiting' keepalive)
  journal : w'.journal = Function.update w.journal job.id (e :: w.journal job.id)
  asked : ∀ {t ref c}, (w'.queue.txns t).op? = some (.checkpoint ref c) →
    (w.queue.txns t).op? = some (.checkpoint ref c) ∨
      (ref.id = job.id ∧ e = .called (.db (.checkpoint ref c)))
  runs : Runs w'.queue job (e :: w.journal job.id) rest' waiting'
  allowed : Allowed (Guard job) (w.journal job.id) →
    Allowed (Guard job) (e :: w.journal job.id)

theorem Kept.enters (hk : w.Kept) (hq : w.queue.Reachable P) {i t : ℕ} {job : ClaimedJob}
    {e : Event (@Call.Result py) Exc} {rest' : Exec py Unit} {waiting' : Waiting}
    (h : Enters w w' i t job e rest' waiting') : w'.Kept := by
  obtain ⟨rest, waiting, keepalive, hw⟩ := h.executing
  obtain ⟨keepalive', hworkers⟩ := h.workers
  have hself : w'.workers i = .executing t job rest' waiting' keepalive' := by
    rw [hworkers, Function.update_self]
  have hother : ∀ {i'}, i' ≠ i → w'.workers i' = w.workers i' := fun hne => by
    rw [hworkers, Function.update_of_ne hne]
  have hclaim : ∀ i', (w'.workers i').claim? = (w.workers i').claim? := by
    intro i'
    by_cases hi : i' = i
    · rw [hi, hself, hw]
      rfl
    · rw [hother hi]
  have hjournal : w'.journal job.id = e :: w.journal job.id := by
    rw [h.journal, Function.update_self]
  have hjournal' : ∀ {id}, id ≠ job.id → w'.journal id = w.journal id := fun hne => by
    rw [h.journal, Function.update_of_ne hne]
  constructor
  case claim =>
    intro i' t' ht
    rw [hclaim] at ht
    exact h.later.op (hk.claim ht)
  case alone =>
    intro i₁ i₂ t' h₁ h₂
    rw [hclaim] at h₁ h₂
    exact hk.alone h₁ h₂
  case claimed =>
    intro i' t' job' rest₁ waiting₁ keepalive₁ hw'
    by_cases hi : i' = i
    · rw [hi, hself] at hw'
      cases hw'
      exact h.later.claimed (hk.claimed hw)
    · rw [hother hi] at hw'
      exact h.later.claimed (hk.claimed hw')
  case runs =>
    intro i' t' job' rest₁ waiting₁ keepalive₁ hw'
    by_cases hi : i' = i
    · rw [hi, hself] at hw'
      cases hw'
      rw [hjournal]
      exact h.runs
    · rw [hother hi] at hw'
      -- no other worker executes this job
      rw [hjournal' fun hid => hi (hk.one hq hw' hw hid)]
      exact Runs.later h.later (hk.runs hw')
  case owned =>
    intro id hid
    by_cases hjob : id = job.id
    · subst hjob
      refine ⟨t, job, h.later.claimed (hk.claimed hw), rfl, ?_, fun i' hi' => ?_⟩
      · rw [hjournal]
        exact h.allowed (hk.allowed hq hw)
      · have hi : i' = i := by
          refine hk.alone (t := t) ?_ (by rw [hw]; rfl)
          rw [← hclaim, hi']
          rfl
        rw [hi, hself] at hi'
        cases hi'
    · rw [hjournal' hjob] at hid
      obtain ⟨t', job', hclaimed, hid', hallowed, hno⟩ := hk.owned hid
      refine ⟨t', job', h.later.claimed hclaimed, hid', by rwa [hjournal' hjob], fun i' hi' => ?_⟩
      by_cases hi : i' = i
      · rw [hi, hself] at hi'
        cases hi'
      · rw [hother hi] at hi'
        exact hno i' hi'
  case asked =>
    intro t' id token c ht
    rcases h.asked ht with hold | ⟨hid, he⟩
    · have hm := hk.asked hold
      by_cases hjob : id = job.id
      · subst hjob
        rw [hjournal]
        exact .tail _ hm
      · rwa [hjournal' hjob]
    · have hid : id = job.id := hid
      subst hid
      rw [hjournal, he]
      exact .head _

/-! ## Every move -/

/-- What the store asks of nobody's executor adds no checkpoint. -/
theorem asked_of_request {s s' : Queue} {t₀ : ℕ} {op : Op}
    (hs : s.step (body P) (.request t₀ op) = some s') (hop : ∀ ref c, op ≠ .checkpoint ref c)
    {t : ℕ} {ref : JobRef} {c : Checkpoint} (ht : (s'.txns t).op? = some (.checkpoint ref c)) :
    (s.txns t).op? = some (.checkpoint ref c) := by
  rcases Sys.step_op_back hs ht with hold | heq
  · exact hold
  · cases heq
    exact absurd rfl (hop ref c)

/-- A reply that has come back is that of the commit. -/
theorem committed_of_outcome {s : Queue} {t : ℕ} {op : Op} {reply : Reply}
    (hop : (s.txns t).op? = some op) (ht : outcome? s t = some (.ok reply)) :
    ∃ now, s.txns t = .committed op now reply := by
  unfold outcome? at ht
  split at ht
  · next op' now r hcommitted =>
      cases ht
      rw [hcommitted] at hop
      cases hop
      exact ⟨now, hcommitted⟩
  all_goals cases ht

/-- A claim that a worker hears of has committed. -/
theorem Kept.heard_claim (hk : w.Kept) {i t : ℕ} {job : ClaimedJob}
    (hw : w.workers i = .looping (.claiming t))
    (ht : outcome? w.queue t = some (.ok (.claimed (some job)))) : w.queue.ClaimedBy t job := by
  have hop : (w.queue.txns t).op? = some .claim := hk.claim (i := i) (by rw [hw]; rfl)
  exact committed_of_outcome hop ht

/-- **The step lemma.**

A step of a worker is checked against the books of all others, and what makes that short is that it
concerns one journal: the journals of other jobs, and the workers that execute them, stay as they
are. -/
theorem Kept.step (hk : w.Kept) (hq : w.queue.Reachable P) (h : Moved P w w') : w'.Kept := by
  have hlater : Later w.queue w'.queue := .of_steps hq h.queue
  have hsame : w'.queue = w.queue → ∀ {t ref c},
      (w'.queue.txns t).op? = some (.checkpoint ref c) →
        (w.queue.txns t).op? = some (.checkpoint ref c) := fun heq _ _ _ ht => heq ▸ ht
  -- the claim of a worker is its own
  have hown : ∀ {i t}, (w.workers i).claim? = some t →
      ∀ i', i' ≠ i → (w.workers i').claim? ≠ some t :=
    fun h₁ i' hne h₂ => hne (hk.alone h₂ h₁)
  cases h with
  | store a hqueue hclient hworkers hjournal =>
      -- nobody moves: worker 0 stays where it is
      refine hk.quiets (i := 0) (u := w.workers 0) ⟨hlater, ?_, hjournal, fun ht => ?_,
        fun ht => ⟨hlater.op (hk.claim ht), hown ht⟩, fun hw => ?_, fun hw => .inl hw⟩
      · rw [hworkers, Function.update_eq_self]
      · rcases Sys.step_op_back hqueue ht with hold | heq
        · exact hold
        · have := hclient _ _ heq
          cases this
      · exact ⟨hlater.claimed (hk.claimed hw), Runs.later hlater (hk.runs hw)⟩
  | halts i raised hqueue hworkers hjournal =>
      exact hk.quiets ⟨hlater, hworkers, hjournal, hsame hqueue, nofun, nofun, nofun⟩
  | loops i stage hqueue hworkers hjournal hstage =>
      have hclaim : ∀ {t}, (Worker.looping stage : Worker py).claim? = some t → False := by
        intro t ht
        cases stage with
        | claiming t' => exact hstage t' rfl
        | _ => cases ht
      refine hk.quiets ⟨hlater, hworkers, hjournal, fun ht => ?_, fun ht => (hclaim ht).elim,
        nofun, fun hw => (hclaim (by rw [hw]; rfl)).elim⟩
      rcases hqueue with heq | ⟨t, hreq⟩
      · exact hsame heq ht
      · exact asked_of_request hreq (by simp) ht
  | claims i t hqueue hworkers hjournal =>
      obtain ⟨habsent, heq⟩ := Sys.step_request hqueue
      have hrequested : w'.queue.txns t = .requested .claim := by
        rw [heq, Sys.set_txns, Function.update_self]
      refine hk.quiets ⟨hlater, hworkers, hjournal, asked_of_request hqueue (by simp),
        fun ht => ?_, nofun, fun ht => .inr fun job => ?_⟩
      · cases ht
        refine ⟨by rw [hrequested]; rfl, fun i' _ hi' => ?_⟩
        have hop := hk.claim hi'
        rw [habsent] at hop
        cases hop
      · cases ht
        rintro ⟨now, hcommitted⟩
        rw [hrequested] at hcommitted
        cases hcommitted
  | begins i t job hqueue hw houtcome hworkers hjournal =>
      have hclaimed := hk.heard_claim hw houtcome
      have hclaim : (w.workers i).claim? = some t := by rw [hw]; rfl
      refine hk.quiets ⟨hlater, hworkers, hjournal, hsame hqueue, fun ht => ?_, fun heq => ?_,
        nofun⟩
      · cases ht
        exact ⟨hlater.op (hk.claim hclaim), hown hclaim⟩
      · cases heq
        refine ⟨hlater.claimed hclaimed, ?_⟩
        -- whoever wrote the journal before would have heard of this claim
        have hnil : w.journal job.id = [] := by
          by_contra hne
          obtain ⟨t', job', hclaimed', hid, -, hno⟩ := hk.owned hne
          have ht := hq.claimed_once hclaimed' hclaimed hid
          exact hno i (ht ▸ hw)
        rw [hnil]
        exact execute_safe job
  | beats i claim job rest waiting keepalive keepalive' hw hqueue hworkers hjournal =>
      have hclaim : (w.workers i).claim? = some claim := by rw [hw]; rfl
      refine hk.quiets ⟨hlater, hworkers, hjournal, fun ht => ?_, fun ht => ?_, fun heq => ?_,
        nofun⟩
      · rcases hqueue with heq | ⟨t, hreq⟩
        · exact hsame heq ht
        · exact asked_of_request hreq (by simp) ht
      · cases ht
        exact ⟨hlater.op (hk.claim hclaim), hown hclaim⟩
      · cases heq
        exact ⟨hlater.claimed (hk.claimed hw), Runs.later hlater (hk.runs hw)⟩
  | asks i t claim job op k keepalive hw hqueue hworkers hjournal =>
      obtain ⟨hguard, hnext⟩ := hk.runs hw
      obtain ⟨-, heq⟩ := Sys.step_request hqueue
      have hrequested : w'.queue.txns t = .requested op := by
        rw [heq, Sys.set_txns, Function.update_self]
      refine hk.enters hq ⟨hlater, ⟨_, _, _, hw⟩, ⟨_, hworkers⟩, hjournal, fun ht => ?_,
        ⟨⟨op, rfl, by rw [hrequested]; rfl⟩, .head _, hnext⟩, fun ha => ⟨hguard, ha⟩⟩
      rcases Sys.step_op_back hqueue ht with hold | heq
      · exact .inl hold
      · cases heq
        rcases hguard with hload | ⟨c', hc', -⟩
        · cases hload
        · cases hc'
          exact .inr ⟨rfl, rfl⟩
  | enters i claim job q k keepalive keepalive' hw hq' hqueue hworkers hkeepalive hjournal =>
      obtain ⟨hguard, hnext⟩ := hk.runs hw
      exact hk.enters hq ⟨hlater, ⟨_, _, _, hw⟩, ⟨_, hworkers⟩, hjournal,
        fun ht => .inl (hsame hqueue ht), ⟨.head _, hnext⟩, fun ha => ⟨hguard, ha⟩⟩
  | hears i claim job op k t keepalive r hw hr hqueue hworkers hjournal =>
      obtain ⟨-, -, hnext⟩ := hk.runs hw
      exact hk.enters hq ⟨hlater, ⟨_, _, _, hw⟩, ⟨_, hworkers⟩, hjournal,
        fun ht => .inl (hsame hqueue ht), hnext r, fun ha => ha⟩
  | returns i claim job q k keepalive r₀ r hw hr hqueue hworkers hjournal =>
      obtain ⟨-, hnext⟩ := hk.runs hw
      exact hk.enters hq ⟨hlater, ⟨_, _, _, hw⟩, ⟨_, hworkers⟩, hjournal,
        fun ht => .inl (hsame hqueue ht), hnext r, fun ha => ha⟩

end Preserved

/-- **The run lemma.** -/
theorem Reachable.kept {P : Platform} {w : World py} (h : w.Reachable P) : w.Kept := by
  induction h with
  | refl => exact .start
  | tail hrun hstep ih =>
      obtain ⟨a, ha⟩ := hstep
      exact ih.step (Reachable.queue hrun) (step_moved ha)

/-! ## Reading the books -/

/-- What an executor at the call `q` enters into its journal next.

What comes back from a transaction is its outcome, or some exception: the connection may be lost
behind a commit. -/
inductive Writes (s : Queue) : Call py → Waiting → Event (@Call.Result py) Exc → Prop
  | called (q : Call py) : Writes s q .nothing (.called q)
  | heard (op : Op) (t : ℕ) (r : Except Exc Reply)
      (hr : ∀ reply, r = .ok reply → outcome? s t = some (.ok reply)) :
      Writes s (.db op) (.transaction t) (.returned (.db op) r)
  | returned (q : Call py) (r : Except Exc q.Result) (hq : ∀ op, q ≠ .db op) :
      Writes s q .device (.returned q r)

section Entries

variable {P : Platform} {w w' : World py}

/-- **A new entry** is made by the one who executes the job. -/
theorem Moved.entry (h : Moved P w w') {id : Id} {e : Event (@Call.Result py) Exc}
    (hm : e ∈ w'.journal id) : e ∈ w.journal id ∨
      ∃ i t job q k waiting keepalive,
        w.workers i = .executing t job (.call q k) waiting keepalive ∧ job.id = id ∧
          Writes w.queue q waiting e := by
  have hsame : w'.journal = w.journal → e ∈ w.journal id := fun heq => heq ▸ hm
  have hmore : ∀ {i e'}, w'.journal = Function.update w.journal i (e' :: w.journal i) →
      e ∈ w.journal id ∨ (e = e' ∧ i = id) := by
    intro i e' heq
    rw [heq] at hm
    by_cases hid : id = i
    · subst hid
      rw [Function.update_self] at hm
      exact (List.mem_cons.mp hm).elim (fun h => .inr ⟨h, rfl⟩) .inl
    · rw [Function.update_of_ne hid] at hm
      exact .inl hm
  cases h with
  | store _ _ _ _ hjournal => exact .inl (hsame hjournal)
  | halts _ _ _ _ hjournal => exact .inl (hsame hjournal)
  | loops _ _ _ _ hjournal => exact .inl (hsame hjournal)
  | claims _ _ _ _ hjournal => exact .inl (hsame hjournal)
  | begins _ _ _ _ _ _ _ hjournal => exact .inl (hsame hjournal)
  | beats _ _ _ _ _ _ _ _ _ _ hjournal => exact .inl (hsame hjournal)
  | asks i t claim job op k keepalive hw _ _ hjournal =>
      refine (hmore hjournal).imp_right ?_
      rintro ⟨rfl, hid⟩
      exact ⟨i, claim, job, .db op, k, _, keepalive, hw, hid, .called _⟩
  | enters i claim job q k keepalive keepalive' hw _ _ _ _ hjournal =>
      refine (hmore hjournal).imp_right ?_
      rintro ⟨rfl, hid⟩
      exact ⟨i, claim, job, q, k, _, keepalive, hw, hid, .called q⟩
  | hears i claim job op k t keepalive r hw hr _ _ hjournal =>
      refine (hmore hjournal).imp_right ?_
      rintro ⟨rfl, hid⟩
      exact ⟨i, claim, job, .db op, k, _, keepalive, hw, hid, .heard op t r hr⟩
  | returns i claim job q k keepalive r₀ r hw hr _ _ hjournal =>
      refine (hmore hjournal).imp_right ?_
      rintro ⟨rfl, hid⟩
      refine ⟨i, claim, job, q, k, _, keepalive, hw, hid, .returned q r fun op heq => ?_⟩
      subst heq
      cases hr

/-- A call is made under its guard. -/
theorem Moved.called (h : Moved P w w') (hk : w.Kept) {id : Id} {q : Call py}
    (hm : .called q ∈ w'.journal id) : .called q ∈ w.journal id ∨
      ∃ t job, w.queue.ClaimedBy t job ∧ job.id = id ∧ Guard job (w.journal id) q := by
  refine (h.entry hm).imp_right ?_
  rintro ⟨i, t, job, q', k, waiting, keepalive, hw, rfl, hwrites⟩
  cases hwrites
  exact ⟨t, job, hk.claimed hw, rfl, (hk.runs hw).1⟩

/-- A transaction an executor starts to wait for is a new one. -/
theorem Moved.waits (h : Moved P w w') {i claim t : ℕ} {job : ClaimedJob} {q : Call py}
    {k : Except Exc q.Result → Exec py Unit} {keepalive : Keepalive}
    (hw : w'.workers i = .executing claim job (.call q k) (.transaction t) keepalive) :
    (∃ keepalive', w.workers i = .executing claim job (.call q k) (.transaction t) keepalive') ∨
      w.queue.txns t = .absent := by
  have hmore : ∀ {i' wk}, w'.workers = Function.update w.workers i' wk →
      w.workers i = .executing claim job (.call q k) (.transaction t) keepalive ∨
        (i = i' ∧ wk = .executing claim job (.call q k) (.transaction t) keepalive) := by
    intro i' wk heq
    rw [heq] at hw
    by_cases hi : i = i'
    · subst hi
      rw [Function.update_self] at hw
      exact .inr ⟨rfl, hw⟩
    · rw [Function.update_of_ne hi] at hw
      exact .inl hw
  have hkept : w.workers i = .executing claim job (.call q k) (.transaction t) keepalive →
      (∃ keepalive', w.workers i =
        .executing claim job (.call q k) (.transaction t) keepalive') ∨
        w.queue.txns t = .absent := fun h => .inl ⟨keepalive, h⟩
  cases h with
  | store _ _ _ hworkers => exact hkept (hworkers ▸ hw)
  | halts _ _ _ hworkers => exact (hmore hworkers).elim hkept fun h => by cases h.2
  | loops _ _ _ hworkers => exact (hmore hworkers).elim hkept fun h => by cases h.2
  | claims _ _ _ hworkers => exact (hmore hworkers).elim hkept fun h => by cases h.2
  | begins _ _ _ _ _ _ hworkers => exact (hmore hworkers).elim hkept fun h => by cases h.2
  | enters _ _ _ _ _ _ _ _ _ _ hworkers =>
      exact (hmore hworkers).elim hkept fun h => by cases h.2
  | hears _ _ _ _ _ _ _ _ _ _ _ hworkers =>
      exact (hmore hworkers).elim hkept fun h => by simp at h
  | returns _ _ _ _ _ _ _ _ _ _ _ hworkers =>
      exact (hmore hworkers).elim hkept fun h => by simp at h
  | beats i' claim' job' rest waiting keepalive₁ keepalive₂ hw' _ hworkers =>
      refine (hmore hworkers).elim hkept ?_
      rintro ⟨rfl, heq⟩
      cases heq
      exact .inl ⟨keepalive₁, hw'⟩
  | asks i' t' claim' job' op k' keepalive' _ hqueue hworkers =>
      refine (hmore hworkers).elim hkept ?_
      rintro ⟨rfl, heq⟩
      cases heq
      exact .inr (Sys.step_request hqueue).1

/-- **What a journal has heard of the store** has committed, and was asked for after every
state in which the journal was empty.

The times matter here.  A reply that stands in a journal was asked for by the execution, and so
after everything that had happened when the journal was still empty. -/
theorem Steps.heard_since {w₁ : World py} (h : w₁.Reachable P) (hs : Steps P w₁ w) {id : Id}
    (hnil : w₁.journal id = []) {op : Op} {reply : Reply}
    (hm : .returned (Call.db op) (.ok reply) ∈ w.journal id) :
    ∃ t now, w.queue.txns t = .committed op now reply ∧ w₁.queue.txns t = .absent := by
  -- along the run, whoever waits for the job waits for a transaction asked for since
  suffices hall : (∀ {i claim job t q k keepalive}, w.workers i =
        .executing claim job (.call q k) (.transaction t) keepalive → job.id = id →
          w₁.queue.txns t = .absent) ∧
      (.returned (Call.db op) (.ok reply) ∈ w.journal id →
        ∃ t now, w.queue.txns t = .committed op now reply ∧ w₁.queue.txns t = .absent) from
    hall.2 hm
  clear hm
  induction hs with
  | refl =>
      refine ⟨fun hw hid => ?_, fun hm => ?_⟩
      · subst hid
        have hcalled := (h.kept.runs hw).2.1
        rw [hnil] at hcalled
        cases hcalled
      · rw [hnil] at hm
        cases hm
  | @tail w₂ w₃ hrun hstep ih =>
      obtain ⟨a, ha⟩ := hstep
      have hmoved := step_moved ha
      have hreach : w₂.Reachable P := h.trans hrun
      obtain ⟨ihw, ihm⟩ := ih
      refine ⟨fun {i claim job t q k keepalive} hw hid => ?_, fun hm => ?_⟩
      · rcases hmoved.waits hw with ⟨keepalive', hw'⟩ | habsent
        · exact ihw hw' hid
        · cases hop : (w₁.queue.txns t).op? with
          | none => exact Fate.op?_eq_none.mp hop
          | some op' =>
              have := Sys.Steps.op (Steps.queue hrun) hop
              rw [habsent] at this
              cases this
      · rcases hmoved.entry hm with hm | ⟨i, claim, job, q, k, waiting, keepalive, hw, hid, hwr⟩
        · obtain ⟨t, now, ht, habsent⟩ := ihm hm
          exact ⟨t, now, hreach.queue.committed hmoved.queue ht, habsent⟩
        · cases hwr with
          | returned _ _ hq => exact absurd rfl (hq op)
          | heard _ t _ hr =>
            obtain ⟨⟨op', hq, hop⟩, -⟩ := hreach.kept.runs hw
            cases hq
            obtain ⟨now, ht⟩ := committed_of_outcome hop (hr reply rfl)
            exact ⟨t, now, hreach.queue.committed hmoved.queue ht, ihw hw hid⟩

/-- A reply in a journal is that of a committed transaction. -/
theorem Reachable.heard (h : w.Reachable P) {id : Id} {op : Op} {reply : Reply}
    (hm : .returned (Call.db op) (.ok reply) ∈ w.journal id) :
    ∃ t now, w.queue.txns t = .committed op now reply := by
  obtain ⟨t, now, ht, -⟩ := Steps.heard_since .refl h rfl hm
  exact ⟨t, now, ht⟩

end Entries

end World

end BindPlane
