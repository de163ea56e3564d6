import BindPlane.Legacy.Discipline

/-!
# What a commit of the legacy application may do

`Commit` is the contract: what an operation does to the rows and to its process, and what it holds
while it does.  Every row goes on as `ReleaseJob.Follows` says: a status that is not active is
never left for one that is, and what a row refers to never changes.  `Db.Valid` is what every
commit keeps (`Commit.valid`); of an execution it says that the job it has claimed is its own
alone.
-/

namespace BindPlane.Legacy

open ReadCommitted Coroutine Journal

/-! ## Rows -/

/-- **How a row goes on.** -/
structure ReleaseJob.Follows (row row' : ReleaseJob) : Prop where
  kind : row'.kind = row.kind
  retryOfId : row'.retryOfId = row.retryOfId
  operatorId : row'.operatorId = row.operatorId
  preparationJobId : row'.preparationJobId = row.preparationJobId
  status : row'.status = row.status ∨ row'.status.active = false ∨
    row.status = .queued ∧ row'.status = .running
  started : row.startedAt.isSome = true → row'.startedAt.isSome = true
  running : row'.status = .running → row.status = .running ∨ row'.startedAt.isSome = true

theorem ReleaseJob.Follows.refl (row : ReleaseJob) : row.Follows row :=
  ⟨rfl, rfl, rfl, rfl, Or.inl rfl, id, Or.inl⟩

theorem ReleaseJob.Follows.trans {a b c : ReleaseJob} (h : a.Follows b) (h' : b.Follows c) :
    a.Follows c where
  kind := h'.kind.trans h.kind
  retryOfId := h'.retryOfId.trans h.retryOfId
  operatorId := h'.operatorId.trans h.operatorId
  preparationJobId := h'.preparationJobId.trans h.preparationJobId
  status := by
    rcases h'.status with heq | hno | ⟨hqueued, hrunning⟩
    · rw [heq]
      exact h.status
    · exact Or.inr (Or.inl hno)
    · rcases h.status with heq | hno | ⟨-, hb⟩
      · exact Or.inr (Or.inr ⟨heq ▸ hqueued, hrunning⟩)
      · rw [hqueued] at hno
        cases hno
      · rw [hqueued] at hb
        cases hb
  started hs := h'.started (h.started hs)
  running hc := by
    rcases h'.running hc with hb | hs
    · exact (h.running hb).imp_right h'.started
    · exact Or.inr hs

theorem ReleaseJob.Follows.retries {row row' : ReleaseJob} (h : row.Follows row') {original : ℕ}
    (hr : row'.retries original = true) : row.retries original = true := by
  unfold ReleaseJob.retries at *
  simp only [Bool.and_eq_true, decide_eq_true_eq] at *
  obtain ⟨⟨hkind, hof⟩, hactive⟩ := hr
  refine ⟨⟨h.kind ▸ hkind, h.retryOfId ▸ hof⟩, ?_⟩
  rcases h.status with heq | hno | ⟨hqueued, -⟩
  · exact heq ▸ hactive
  · rw [hactive] at hno
    cases hno
  · rw [hqueued]
    rfl

theorem ReleaseJob.Follows.visible {row row' : ReleaseJob} (h : row.Follows row') (user : User) :
    row'.visible user = row.visible user := by
  unfold ReleaseJob.visible
  rw [h.operatorId]

theorem ReleaseJob.Follows.unqueued {row row' : ReleaseJob} (h : row.Follows row')
    (hq : row.status ≠ .queued) : row'.status ≠ .queued := by
  intro hc
  rcases h.status with heq | hno | ⟨hqueued, -⟩
  · exact hq (heq ▸ hc)
  · rw [hc] at hno
    cases hno
  · exact hq hqueued

/-- A flush that does not make a row active. -/
theorem ReleaseJob.flush_follows {old new : ReleaseJob} (row : ReleaseJob)
    (hstatus : new.status = old.status ∨ new.status.active = false)
    (hstarted : new.startedAt = old.startedAt) : row.Follows (flush old new row) := by
  have hrow : (flush old new row).status = row.status ∨
      (flush old new row).status.active = false := by
    show written old.status new.status row.status = _ ∨
      (written old.status new.status row.status).active = false
    rcases hstatus with heq | hno
    · rw [written, if_pos heq]
      exact Or.inl rfl
    · unfold written
      split
      · exact Or.inl rfl
      · exact Or.inr hno
  refine ⟨rfl, rfl, rfl, rfl, hrow.imp_right Or.inl, fun hs => ?_, fun hc => ?_⟩
  · show (written old.startedAt new.startedAt row.startedAt).isSome = true
    rwa [written, if_pos hstarted]
  · rcases hrow with heq | hno
    · exact Or.inl (heq ▸ hc)
    · rw [hc] at hno
      cases hno

/-- The flush of a claim. -/
theorem ReleaseJob.flush_claimed {row : ReleaseJob} (hq : row.status = .queued) (now : Instant) :
    (flush row (row.claimed now) row).status = .running ∧
      (flush row (row.claimed now) row).startedAt.isSome = true ∧
      row.Follows (flush row (row.claimed now) row) := by
  have hstatus : (flush row (row.claimed now) row).status = .running := by
    show written row.status .running row.status = .running
    rw [hq]
    rfl
  have hstarted : (flush row (row.claimed now) row).startedAt.isSome = true := by
    show (written row.startedAt (row.startedAt.or (some now)) row.startedAt).isSome = true
    unfold written
    cases row.startedAt with
    | none => rfl
    | some t => rw [Option.some_or, if_pos rfl, Option.isSome_some]
  exact ⟨hstatus, hstarted, rfl, rfl, rfl, rfl, Or.inr (Or.inr ⟨hq, hstatus⟩),
    fun _ => hstarted, fun _ => Or.inr hstarted⟩

/-! ## The contract -/

/-- The object that a commit writes. -/
def Call.object : Call → ReleaseJob → ReleaseJob
  | .updateJobPhase phase, copy => { copy with phase := phase, status := .running }
  | _, copy => copy

/-- What the commit of the object is about. -/
def Call.committed (jobId : ℕ) : Call → Option Reply
  | .updateJobPhase _ | .commitJobCheckpoint => some .quiet
  | .finish _ => some (.finished jobId)
  | _ => none

/-- A new row. -/
structure Db.Inserts (d : Db) (K : Set (Resource Key)) (id : ℕ) (row : ReleaseJob) : Prop where
  serial : .serial id ∈ K
  fresh : d.jobs.get? id = none
  queued : row.status = .queued

/-- **What a call does to the rows.** -/
inductive Effect (K : Set (Resource Key)) (d : Db) : Call → Option Memory → Db → Reply → Prop
  | quiet {q : Call} {memory : Option Memory} {d₁ : Db} (hjobs : d₁.jobs = d.jobs) :
      Effect K d q memory d₁ .quiet
  | sent {d₁ : Db} (m : Memory) (hjobs : d₁.jobs = d.jobs) :
      Effect K d .release (some m) d₁ (.sent m.jobId)
  | prepared {q : Call} {memory : Option Memory} {d₁ : Db} (id : ℕ) (row : ReleaseJob)
      (hnew : d.Inserts K id row) (hretry : row.retryOfId = none)
      (hpreparation : row.preparationJobId = none) (hjobs : d₁.jobs = d.jobs.insert id row) :
      Effect K d q memory d₁ (.created id)
  | confirmed {q : Call} {memory : Option Memory} {d₁ : Db} (id preparationId : ℕ)
      (row old new : ReleaseJob) (hnew : d.Inserts K id row) (hretry : row.retryOfId = none)
      (hpreparation : row.preparationJobId = some preparationId)
      (hentry : .key (.preparation preparationId) ∈ K)
      (hfree : ∀ i other, d.jobs.get? i = some other →
        other.preparationJobId ≠ some preparationId)
      (hkey : .key (.job preparationId) ∈ K) (hold : d.jobs.get? preparationId = some old)
      (hinactive : old.status.active = false) (hsettled : new.status.active = false)
      (hstarted : new.startedAt = old.startedAt)
      (hjobs : d₁.jobs = (d.jobs.insert id row).modify preparationId (ReleaseJob.flush old new)) :
      Effect K d q memory d₁ (.created id)
  | retried {memory : Option Memory} {d₁ : Db} (user : User) (id originalId : ℕ)
      (row original : ReleaseJob) (hnew : d.Inserts K id row) (hkind : row.kind = .release)
      (hretry : row.retryOfId = some originalId) (hoperator : row.operatorId = user.id)
      (hpreparation : row.preparationJobId = none) (hkey : .key (.job originalId) ∈ K)
      (horiginal : d.jobs.get? originalId = some original)
      (hretryable : original.status.retryable = true)
      (hnone : ∀ i other, d.jobs.get? i = some other → other.retries originalId = true →
        other.visible user = false)
      (hjobs : d₁.jobs = d.jobs.insert id row) :
      Effect K d (.retryReleaseJob user originalId) memory d₁ (.retried user originalId)
  | marked {q : Call} {memory : Option Memory} {d₁ : Db} (id : ℕ) (row job : ReleaseJob)
      (now : Instant) (hkey : .key (.job id) ∈ K) (hrow : d.jobs.get? id = some row)
      (hqueued : job.status = .queued)
      (hjobs : d₁.jobs = d.jobs.modify id (ReleaseJob.flush job (job.enqueueFailed now))) :
      Effect K d q memory d₁ (.marked id)
  | claimed {memory : Option Memory} {d₁ : Db} (kind : ReleaseJobKind) (id : ℕ) (row : ReleaseJob)
      (now : Instant) (hkey : .key (.job id) ∈ K) (hrow : d.jobs.get? id = some row)
      (hqueued : row.status = .queued)
      (hjobs : d₁.jobs = d.jobs.modify id (ReleaseJob.flush row (row.claimed now))) :
      Effect K d (.claimJob kind id) memory d₁ (.claimed id)
  | flushed {q : Call} {d₁ : Db} {reply : Reply} (m : Memory)
      (hreply : q.committed m.jobId = some reply)
      (hjobs : d₁.jobs = d.jobs ∨ .key (.job m.jobId) ∈ K ∧
        d₁.jobs = d.jobs.modify m.jobId (ReleaseJob.flush m.base (q.object m.job))) :
      Effect K d q (some m) d₁ reply

/-- What a process remembers behind a call. -/
def Call.Remembers (d : Db) (memory memory' : Option Memory) (reply : Reply) :
    (q : Call) → q.Result → Prop
  | .claimJob kind jobId, claim =>
      memory' = some ⟨jobId, claim.1, claim.1, false⟩ ∧
        (∃ row, d.jobs.get? jobId = some row ∧ claim.1.kind = row.kind) ∧
        (claim.2 = true → claim.1.kind = kind →
          reply = .claimed jobId ∧ claim.1.status = .running)
  | .assign a, _ => ∃ now, memory' = memory.map fun m => { m with job := a.set now m.job }
  | .settle a, _ => ∃ now, memory' = memory.map fun m => { m with job := a.set now m.job }
  | .updateJobPhase phase, _ => ∃ m, memory = some m ∧
      memory' = some { m with
        base := (Call.updateJobPhase phase).object m.job
        job := (Call.updateJobPhase phase).object m.job }
  | .commitJobCheckpoint, _ => ∃ m, memory = some m ∧ memory' = some { m with base := m.job }
  | .finish _, _ => ∃ m, memory = some m ∧ memory' = some { m with base := m.job }
  | .openSession, _ => memory' = memory.map fun m => { m with opened := true }
  | _, _ => memory' = memory

/-- A delivered job has the kind its program expects. -/
def Db.Delivers (d : Db) (program : Exec Answer) : Prop :=
  ∀ kind jobId k, program = .call (.claimJob kind jobId) k →
    ∃ row, d.jobs.get? jobId = some row ∧ row.kind = kind

/-- **What a commit does.** -/
inductive Commit : Op → Unit → Set (Resource Key) → Db → Db → Reply → Prop
  | elapsed {K : Set (Resource Key)} {d : Db} (time : ℕ) :
      Commit (.elapse time) () K d { d with clock := d.clock + time } .quiet
  | started {K : Set (Resource Key)} {d : Db} (op : Op) (p : ℕ) (program : Exec Answer)
      (hkey : .key (.process p) ∈ K) (hnone : d.processes.get? p = none)
      (hsafe : program.Safe Guard (fun _ _ => True) []) (hdelivers : d.Delivers program) :
      Commit op () K d (d.putProcess p ⟨program, none, []⟩) .quiet
  | moved {K : Set (Resource Key)} {d : Db} (p : ℕ) (answer : String) (raises : Option Exc)
      (proc : Process) (q : Call) (k : Except Exc q.Result → Exec Answer) (result : q.Result)
      (memory : Option Memory) (reply : Reply) (d₁ : Db) (hkey : .key (.process p) ∈ K)
      (hproc : d.processes.get? p = some proc) (hrest : proc.rest = .call q k)
      (heffect : Effect K d q proc.memory d₁ reply) (hprocesses : d₁.processes = d.processes)
      (hremembers : q.Remembers d proc.memory memory reply result) :
      Commit (.move p answer raises) () K d
        (d₁.putProcess p (proc.hear q k memory (.ok result))) reply
  | raised {K : Set (Resource Key)} {d : Db} (p : ℕ) (e : Exc) (proc : Process) (q : Call)
      (k : Except Exc q.Result → Exec Answer) (hkey : .key (.process p) ∈ K)
      (hproc : d.processes.get? p = some proc) (hrest : proc.rest = .call q k) :
      Commit (.raise p e) () K d (d.putProcess p (proc.hear q k proc.memory (.error e)))
        (q.raised proc.memory)

/-! ## The invariant -/

/-- The object of an execution: its status is running until it is assigned, and so it has been
written until the last commit. -/
structure Memory.Keeps (m : Memory) (h : Journal) (jobId : ℕ) : Prop where
  jobId : m.jobId = jobId
  status : m.job.status = .running ∨ m.job.status.active = false
  base : ¬ Over h → m.base.status = .running
  job : ¬ Settled h → m.job.status = .running

/-- **An execution**, of a row that is no longer queued. -/
structure Process.Executes (d : Db) (proc : Process) (jobId : ℕ) : Prop where
  row : ∃ row, d.jobs.get? jobId = some row ∧ row.status ≠ .queued ∧ row.startedAt.isSome = true
  memory : ∃ m, proc.memory = some m ∧ m.Keeps proc.journal jobId

/-- What holds of every process. -/
structure Process.Sound (d : Db) (proc : Process) : Prop where
  safe : proc.rest.Safe Guard (fun _ _ => True) proc.journal
  delivered : proc.journal = [] → d.Delivers proc.rest
  kinds : ∀ kind jobId job taken,
    .returned (Call.claimJob kind jobId) (.ok (job, taken)) ∈ proc.journal → job.kind = kind
  started : ∀ m, proc.memory = some m → m.job.startedAt = m.base.startedAt
  claimed : ∀ jobId, Claimed proc.journal jobId → proc.Executes d jobId

/-- **What every commit keeps.**

An execution is known by its journal: the job that it has claimed, and whether it has finished.  A
claim takes the row out of the statuses that can be claimed, in the transaction that has found it
there, and so there is no second one. -/
structure Db.Valid (d : Db) (n : ℕ) : Prop where
  numbered : ∀ id row, d.jobs.get? id = some row → id < n
  started : ∀ id row, d.jobs.get? id = some row → row.status = .running →
    row.startedAt.isSome = true
  retries : ∀ id row originalId, d.jobs.get? id = some row → row.retryOfId = some originalId →
    row.kind = .release
  preparations : ∀ id id' row row' preparationId, d.jobs.get? id = some row →
    d.jobs.get? id' = some row' → row.preparationJobId = some preparationId →
    row'.preparationJobId = some preparationId → id = id'
  sound : ∀ p proc, d.processes.get? p = some proc → proc.Sound d
  alone : ∀ p p' proc proc' jobId, d.processes.get? p = some proc →
    d.processes.get? p' = some proc' → Claimed proc.journal jobId → Claimed proc'.journal jobId →
    p = p'

/-! ## What happens to a row -/

section Rows

variable {P : Platform} {op : Op} {u : Unit} {K : Set (Resource Key)} {d d₁ d' : Db} {r : Reply}
  {n : ℕ} {q : Call} {memory : Option Memory} {id : ℕ} {row : ReleaseJob}

theorem Process.Sound.guard {proc : Process} (hs : proc.Sound d)
    {k : Except Exc q.Result → Exec Answer} (hrest : proc.rest = .call q k) :
    Guard proc.journal q ∧
      ∀ r, (k r).Safe Guard (fun _ _ => True) (.returned q r :: .called q :: proc.journal) := by
  have hsafe := hs.safe
  rw [hrest] at hsafe
  exact hsafe

/-- A process that takes its job has claimed it. -/
theorem Process.Sound.claimed_of_taken {proc : Process} (hs : proc.Sound d)
    (h : Taken proc.journal) : ∃ jobId, Claimed proc.journal jobId := by
  obtain ⟨kind, jobId, job, hmem⟩ := h
  exact ⟨jobId, kind, job, hmem, hs.kinds kind jobId job true hmem⟩

/-- The object of an execution is flushed without making its row active. -/
theorem Process.Sound.flushes {proc : Process} (hs : proc.Sound d)
    {k : Except Exc q.Result → Exec Answer} (hrest : proc.rest = .call q k) {m : Memory}
    (hm : proc.memory = some m) {reply : Reply} (hreply : q.committed m.jobId = some reply) :
    Claimed proc.journal m.jobId ∧ m.base.status = .running ∧
      ((q.object m.job).status = m.base.status ∨ (q.object m.job).status.active = false) ∧
      (q.object m.job).startedAt = m.base.startedAt := by
  obtain ⟨⟨hgo, hq⟩, -⟩ := hs.guard hrest
  have hclaimed : ∃ jobId, Claimed proc.journal jobId := by
    cases q with
    | updateJobPhase phase => exact hq.1
    | commitJobCheckpoint => exact hq.1
    | finish message => exact hs.claimed_of_taken hq
    | _ => cases hreply
  obtain ⟨jobId, hclaimed⟩ := hclaimed
  obtain ⟨m', hm', rfl, hstatus, hbase, -⟩ := (hs.claimed jobId hclaimed).memory
  cases hm.symm.trans hm'
  have hbase := hbase hgo
  have hstarted := hs.started m hm
  refine ⟨hclaimed, hbase, ?_, ?_⟩
  · rw [hbase]
    cases q with
    | updateJobPhase phase => exact Or.inl rfl
    | commitJobCheckpoint => exact hstatus
    | finish message => exact hstatus
    | _ => cases hreply
  · cases q with
    | updateJobPhase phase => exact hstarted
    | commitJobCheckpoint => exact hstarted
    | finish message => exact hstarted
    | _ => cases hreply

/-- A row that one statement modifies, and no other. -/
theorem modify_follows {f : ReleaseJob → ReleaseJob} {i : ℕ} (hrow : d.jobs.get? id = some row)
    (hf : id = i → row.Follows (f row)) (hkey : .key (.job i) ∈ K) :
    ∃ row', (d.jobs.modify i f).get? id = some row' ∧ row.Follows row' ∧
      (row' = row ∨ .key (.job id) ∈ K) := by
  by_cases hid : id = i
  · subst hid
    exact ⟨f row, by rw [Table.get?_modify_self, hrow]; rfl, hf rfl, Or.inr hkey⟩
  · exact ⟨row, by rw [Table.get?_modify_of_ne _ hid, hrow], .refl row, Or.inl rfl⟩

theorem Db.Inserts.ne {i : ℕ} {new : ReleaseJob} (h : d.Inserts K i new)
    (hrow : d.jobs.get? id = some row) : id ≠ i := by
  rintro rfl
  rw [h.fresh] at hrow
  cases hrow

/-- **A row goes on**, and moves under its lock. -/
theorem Effect.follows {proc : Process} (h : Effect K d q proc.memory d₁ r) (hs : proc.Sound d)
    {k : Except Exc q.Result → Exec Answer} (hrest : proc.rest = .call q k)
    (hrow : d.jobs.get? id = some row) :
    ∃ row', d₁.jobs.get? id = some row' ∧ row.Follows row' ∧
      (row' = row ∨ .key (.job id) ∈ K) := by
  have hsame : d₁.jobs = d.jobs → ∃ row', d₁.jobs.get? id = some row' ∧ row.Follows row' ∧
      (row' = row ∨ .key (.job id) ∈ K) := fun hjobs =>
    ⟨row, by rw [hjobs, hrow], .refl row, Or.inl rfl⟩
  have hinsert : ∀ {i new}, d.Inserts K i new → d₁.jobs = d.jobs.insert i new →
      ∃ row', d₁.jobs.get? id = some row' ∧ row.Follows row' ∧
        (row' = row ∨ .key (.job id) ∈ K) := fun hnew hjobs =>
    ⟨row, by rw [hjobs, Table.get?_insert_of_ne _ (hnew.ne hrow), hrow], .refl row, Or.inl rfl⟩
  generalize hmemory : proc.memory = memory at h
  cases h with
  | quiet hjobs => exact hsame hjobs
  | sent m hjobs => exact hsame hjobs
  | prepared i new hnew hretry hpreparation hjobs => exact hinsert hnew hjobs
  | retried user i originalId new original hnew hkind hretry hoperator hpreparation hkey horiginal
      hretryable hnone hjobs => exact hinsert hnew hjobs
  | confirmed i preparationId new old old' hnew hretry hpreparation hentry hfree hkey hold hinactive
      hsettled hstarted hjobs =>
      have hinserted : ({ d with jobs := d.jobs.insert i new } : Db).jobs.get? id = some row := by
        show (d.jobs.insert i new).get? id = some row
        rw [Table.get?_insert_of_ne _ (hnew.ne hrow), hrow]
      rw [hjobs]
      exact modify_follows hinserted
        (fun _ => ReleaseJob.flush_follows row (Or.inr hsettled) hstarted) hkey
  | marked i other job now hkey hother hqueued hjobs =>
      rw [hjobs]
      exact modify_follows hrow (fun _ => ReleaseJob.flush_follows row (Or.inr rfl) rfl) hkey
  | claimed kind i other now hkey hother hqueued hjobs =>
      rw [hjobs]
      refine modify_follows hrow (fun hid => ?_) hkey
      subst hid
      cases hrow.symm.trans hother
      exact (ReleaseJob.flush_claimed hqueued now).2.2
  | flushed m hreply hjobs =>
      rcases hjobs with hjobs | ⟨hkey, hjobs⟩
      · exact hsame hjobs
      · rw [hjobs]
        obtain ⟨-, -, hstatus, hstarted⟩ := hs.flushes hrest hmemory hreply
        exact modify_follows hrow (fun _ => ReleaseJob.flush_follows row hstatus hstarted) hkey

/-- **What a new row is.**

A retry and a release come with the reason why there is no other: the lock of the original, or the
entry of the unique index. -/
structure Arrives (K : Set (Resource Key)) (d d' : Db) (r : Reply) (id : ℕ) (row : ReleaseJob) :
    Prop where
  inserts : d.Inserts K id row
  only : ∀ i, d.jobs.get? i = none → (d'.jobs.get? i).isSome = true → i = id
  retry : ∀ originalId, row.retryOfId = some originalId → .key (.job originalId) ∈ K ∧
    row.kind = .release ∧ ∃ user, r = .retried user originalId ∧ row.operatorId = user.id ∧
      ∀ i other, d.jobs.get? i = some other → other.retries originalId = true →
        other.visible user = false
  preparation : ∀ preparationId, row.preparationJobId = some preparationId →
    .key (.preparation preparationId) ∈ K ∧ ∀ i other, d.jobs.get? i = some other →
      other.preparationJobId ≠ some preparationId

/-- A row that was not there is new. -/
theorem Effect.arrives (h : Effect K d q memory d₁ r) (hnone : d.jobs.get? id = none)
    (hrow : d₁.jobs.get? id = some row) : Arrives K d d₁ r id row := by
  -- most effects make no row
  have hsame : d₁.jobs = d.jobs → Arrives K d d₁ r id row := fun hjobs => by
    rw [hjobs, hnone] at hrow
    cases hrow
  have hmodify : ∀ {i f}, d₁.jobs = d.jobs.modify i f → Arrives K d d₁ r id row := fun hjobs => by
    rw [hjobs, Table.get?_modify, hnone] at hrow
    split at hrow <;> cases hrow
  have hinsert : ∀ {j i new row}, d.jobs.get? j = none →
      (d.jobs.insert i new).get? j = some row → j = i ∧ row = new := by
    intro j i new row hnone hget
    rw [Table.get?_insert] at hget
    split at hget
    · next hid => exact ⟨hid, (Option.some.inj hget).symm⟩
    · rw [hnone] at hget
      cases hget
  -- an insertion makes one
  have honly : ∀ {i new}, d₁.jobs = d.jobs.insert i new → ∀ j, d.jobs.get? j = none →
      (d₁.jobs.get? j).isSome = true → j = i := by
    intro i new hjobs j hj hsome
    obtain ⟨row', hget⟩ := Option.isSome_iff_exists.mp hsome
    rw [hjobs] at hget
    exact (hinsert hj hget).1
  cases h with
  | quiet hjobs => exact hsame hjobs
  | sent m hjobs => exact hsame hjobs
  | prepared i new hnew hretry hpreparation hjobs =>
      obtain ⟨rfl, rfl⟩ := hinsert hnone (hjobs ▸ hrow)
      exact ⟨hnew, honly hjobs, by simp [hretry], by simp [hpreparation]⟩
  | confirmed i preparationId new old old' hnew hretry hpreparation hentry hfree hkey hold hinactive
      hsettled hstarted hjobs =>
      have hget : ∀ j, d.jobs.get? j = none →
          d₁.jobs.get? j = (d.jobs.insert i new).get? j := by
        intro j hj
        have hne : j ≠ preparationId := by
          rintro rfl
          rw [hj] at hold
          cases hold
        rw [hjobs, Table.get?_modify_of_ne _ hne]
      obtain ⟨rfl, rfl⟩ := hinsert hnone ((hget id hnone).symm.trans hrow)
      refine ⟨hnew, fun j hj hsome => ?_, by simp [hretry], fun p hp => ?_⟩
      · obtain ⟨row', hrow'⟩ := Option.isSome_iff_exists.mp hsome
        exact (hinsert hj ((hget j hj).symm.trans hrow')).1
      · cases hpreparation.symm.trans hp
        exact ⟨hentry, hfree⟩
  | retried user i originalId new original hnew hkind hretry hoperator hpreparation hkey horiginal
      hretryable hnone' hjobs =>
      obtain ⟨rfl, rfl⟩ := hinsert hnone (hjobs ▸ hrow)
      refine ⟨hnew, honly hjobs, fun o ho => ?_, by simp [hpreparation]⟩
      cases hretry.symm.trans ho
      exact ⟨hkey, hkind, user, rfl, hoperator, hnone'⟩
  | marked i other job now hkey hother hqueued hjobs => exact hmodify hjobs
  | claimed kind i other now hkey hother hqueued hjobs => exact hmodify hjobs
  | flushed m hreply hjobs =>
      rcases hjobs with hjobs | ⟨-, hjobs⟩
      · exact hsame hjobs
      · exact hmodify hjobs

theorem Commit.follows (h : Commit op u K d d' r) (hv : d.Valid n)
    (hrow : d.jobs.get? id = some row) :
    ∃ row', d'.jobs.get? id = some row' ∧ row.Follows row' ∧
      (row' = row ∨ .key (.job id) ∈ K) := by
  cases h with
  | moved p answer raises proc q k result memory reply d₁ hkey hproc hrest heffect =>
      exact heffect.follows (hv.sound p proc hproc) hrest hrow
  | _ => exact ⟨row, hrow, .refl row, Or.inl rfl⟩

theorem Commit.arrives (h : Commit op u K d d' r) (hnone : d.jobs.get? id = none)
    (hrow : d'.jobs.get? id = some row) : Arrives K d d' r id row := by
  cases h with
  | moved p answer raises proc q k result memory reply d₁ hkey hproc hrest heffect =>
      obtain ⟨hinserts, honly, hretry, hpreparation⟩ := heffect.arrives hnone hrow
      exact ⟨hinserts, honly, hretry, hpreparation⟩
  | _ =>
      have h : d.jobs.get? id = some row := hrow
      rw [hnone] at h
      cases h

/-- What a commit is about, its call has done, unless a command was sent. -/
theorem Commit.effect (h : Commit op u K d d' r) (hquiet : r ≠ .quiet) (hsent : ∀ i, r ≠ .sent i) :
    ∃ p answer raises proc q k d₁, op = .move p answer raises ∧
      d.processes.get? p = some proc ∧ proc.rest = .call q k ∧
      Effect K d q proc.memory d₁ r ∧ d'.jobs = d₁.jobs := by
  cases h with
  | elapsed time => exact absurd rfl hquiet
  | started op p program => exact absurd rfl hquiet
  | moved p answer raises proc q k result memory reply d₁ hkey hproc hrest heffect =>
      exact ⟨p, answer, raises, proc, q, k, d₁, rfl, hproc, hrest, heffect, rfl⟩
  | raised p e proc q k =>
      cases q with
      | release =>
          cases hm : proc.memory with
          | none => exact absurd (by rw [hm]; rfl) hquiet
          | some m => exact absurd (by rw [hm]; rfl) (hsent m.jobId)
      | _ => exact absurd rfl hquiet

/-- A process moves under its lock. -/
theorem Commit.process (h : Commit op u K d d' r) (p : ℕ) :
    d'.processes.get? p = d.processes.get? p ∨ .key (.process p) ∈ K := by
  have hput : ∀ {d₁ : Db} {i proc}, d₁.processes = d.processes → .key (.process i) ∈ K →
      (d₁.putProcess i proc).processes.get? p = d.processes.get? p ∨ .key (.process p) ∈ K := by
    intro d₁ i proc hsame hkey
    by_cases hp : p = i
    · exact Or.inr (hp ▸ hkey)
    · refine Or.inl ?_
      show (d₁.processes.insert i proc).get? p = _
      rw [Table.get?_insert_of_ne _ hp, hsame]
  cases h with
  | elapsed time => exact Or.inl rfl
  | started op i program hkey => exact hput rfl hkey
  | moved i answer raises proc q k result memory reply d₁ hkey hproc hrest heffect hprocesses =>
      exact hput hprocesses hkey
  | raised i e proc q k hkey => exact hput rfl hkey

end Rows

/-! ## The invariant is kept -/

section Valid

variable {op : Op} {u : Unit} {K : Set (Resource Key)} {d d₁ d' : Db} {r : Reply} {n : ℕ}
  {q : Call} {proc : Process} {memory : Option Memory} {jobId : ℕ}

/-- What a process is told does not unmake its claims. -/
theorem Journal.claimed_cons {h : Journal} {r : Except Exc q.Result}
    (hc : Claimed (.returned q r :: .called q :: h) jobId) :
    Claimed h jobId ∨ ∃ kind job, (⟨q, r⟩ : (q : Call) × Except Exc q.Result) =
      ⟨.claimJob kind jobId, .ok (job, true)⟩ ∧ job.kind = kind := by
  obtain ⟨kind, job, hmem, hkind⟩ := hc
  rcases returned_cons hmem with heq | hmem
  · exact Or.inr ⟨kind, job, heq.symm, hkind⟩
  · exact Or.inl ⟨kind, job, hmem, hkind⟩

/-- Rows go on, so what a process relies on stays. -/
theorem Db.Delivers.follows {program : Exec Answer} (h : d.Delivers program)
    (hrows : ∀ id row, d.jobs.get? id = some row →
      ∃ row', d'.jobs.get? id = some row' ∧ row.Follows row') : d'.Delivers program := by
  intro kind id k hk
  obtain ⟨row, hrow, hkind⟩ := h kind id k hk
  obtain ⟨row', hrow', hf⟩ := hrows id row hrow
  exact ⟨row', hrow', hf.kind.trans hkind⟩

theorem Process.Executes.follows (h : proc.Executes d jobId)
    (hrows : ∀ id row, d.jobs.get? id = some row →
      ∃ row', d'.jobs.get? id = some row' ∧ row.Follows row') : proc.Executes d' jobId := by
  obtain ⟨⟨row, hrow, hq, hstarted⟩, hmemory⟩ := h
  obtain ⟨row', hrow', hf⟩ := hrows jobId row hrow
  exact ⟨⟨row', hrow', hf.unqueued hq, hf.started hstarted⟩, hmemory⟩

theorem Process.Sound.follows (h : proc.Sound d)
    (hrows : ∀ id row, d.jobs.get? id = some row →
      ∃ row', d'.jobs.get? id = some row' ∧ row.Follows row') : proc.Sound d' :=
  { h with
    delivered := fun hj => (h.delivered hj).follows hrows
    claimed := fun id hc => (h.claimed id hc).follows hrows }

/-- What a process remembers behind any call but a claim. -/
theorem Call.Remembers.kept {h : Journal} {memory' : Option Memory} {reply : Reply}
    {result : q.Result} (hr : q.Remembers d memory memory' reply result) (hq : Guard h q)
    (hclaim : ∀ kind id, q ≠ .claimJob kind id) {m : Memory} (hm : memory = some m) :
    ∃ m', memory' = some m' ∧
      (m.job.startedAt = m.base.startedAt → m'.job.startedAt = m'.base.startedAt) ∧
      ∀ jobId, m.Keeps h jobId → m'.Keeps (.returned q (.ok result) :: .called q :: h) jobId := by
  subst hm
  have hover : ¬ Over (.returned q (.ok result) :: .called q :: h) → ¬ Over h :=
    fun hno ho => hno ho.cons
  have hsettled : ¬ Settled (.returned q (.ok result) :: .called q :: h) → ¬ Settled h :=
    fun hno hs => hno hs.cons
  cases q with
  | claimJob kind id => exact absurd rfl (hclaim kind id)
  | assign a =>
      obtain ⟨now, rfl⟩ := hr
      have hstatus : (a.set now m.job).status = m.job.status := a.status now m.job
      refine ⟨_, rfl, (a.startedAt now m.job).trans, fun _ hk => ⟨hk.jobId, ?_, ?_, ?_⟩⟩
      · exact hstatus ▸ hk.status
      · exact fun hno => hk.base (hover hno)
      · exact fun hno => hstatus.trans (hk.job (hsettled hno))
  | settle a =>
      obtain ⟨now, rfl⟩ := hr
      refine ⟨_, rfl, (a.startedAt now m.job).trans, fun _ hk => ⟨hk.jobId, ?_, ?_, ?_⟩⟩
      · exact Or.inr (a.settled now m.job)
      · exact fun hno => hk.base (hover hno)
      · exact fun hno => absurd ⟨a, List.mem_cons_of_mem _ List.mem_cons_self⟩ hno
  | updateJobPhase phase =>
      obtain ⟨_, ⟨⟩, rfl⟩ := hr
      exact ⟨_, rfl, fun _ => rfl, fun _ hk => ⟨hk.jobId, Or.inl rfl, fun _ => rfl, fun _ => rfl⟩⟩
  | commitJobCheckpoint =>
      obtain ⟨_, ⟨⟩, rfl⟩ := hr
      refine ⟨_, rfl, fun _ => rfl, fun _ hk => ⟨hk.jobId, hk.status, ?_, ?_⟩⟩
      · exact fun _ => hk.job hq.2.2
      · exact fun _ => hk.job hq.2.2
  | finish message =>
      obtain ⟨_, ⟨⟩, rfl⟩ := hr
      refine ⟨_, rfl, fun _ => rfl, fun _ hk => ⟨hk.jobId, hk.status, ?_, ?_⟩⟩
      · exact fun hno => absurd ⟨message, List.mem_cons_of_mem _ List.mem_cons_self⟩ hno
      · exact fun hno => hk.job (hsettled hno)
  | openSession =>
      refine ⟨_, hr, id, fun _ hk => ⟨hk.jobId, hk.status, ?_, ?_⟩⟩
      · exact fun hno => hk.base (hover hno)
      · exact fun hno => hk.job (hsettled hno)
  | _ =>
      refine ⟨m, hr, id, fun _ hk => ⟨hk.jobId, hk.status, ?_, ?_⟩⟩
      · exact fun hno => hk.base (hover hno)
      · exact fun hno => hk.job (hsettled hno)

theorem Call.Remembers.none {memory' : Option Memory} {reply : Reply} {result : q.Result}
    (hr : q.Remembers d none memory' reply result) (hclaim : ∀ kind id, q ≠ .claimJob kind id) :
    memory' = none := by
  cases q with
  | claimJob kind id => exact absurd rfl (hclaim kind id)
  | assign a => exact hr.choose_spec
  | settle a => exact hr.choose_spec
  | updateJobPhase phase => cases hr.choose_spec.1
  | commitJobCheckpoint => cases hr.choose_spec.1
  | finish message => cases hr.choose_spec.1
  | _ => exact hr

theorem Process.Sound.first {program : Exec Answer}
    (hsafe : program.Safe Guard (fun _ _ => True) []) (hdelivers : d.Delivers program) :
    (⟨program, .none, []⟩ : Process).Sound d where
  safe := hsafe
  delivered _ := hdelivers
  kinds _ _ _ _ hmem := absurd hmem List.not_mem_nil
  started m hm := by cases hm
  claimed _ hc := by
    obtain ⟨_, _, hmem, -⟩ := hc
    cases hmem

/-- A call that fails leaves the object as it was. -/
theorem Process.Sound.raised {k : Except Exc q.Result → Exec Answer} (hs : proc.Sound d)
    (hrest : proc.rest = .call q k) (e : Exc) :
    (proc.hear q k proc.memory (.error e)).Sound d where
  safe := (hs.guard hrest).2 (.error e)
  delivered hj := by cases hj
  kinds kind id job taken hmem := by
    rcases returned_cons hmem with heq | hmem
    · cases heq
    · exact hs.kinds kind id job taken hmem
  started := hs.started
  claimed id hc := by
    rcases Journal.claimed_cons hc with hc | ⟨kind, job, heq, -⟩
    · obtain ⟨hrow, m, hm, hk⟩ := hs.claimed id hc
      exact ⟨hrow, m, hm, hk.jobId, hk.status, fun hno => hk.base fun ho => hno ho.cons,
        fun hno => hk.job fun hs => hno hs.cons⟩
    · cases heq

/-- What is claimed was queued, and is running. -/
theorem Effect.claims (h : Effect K d q memory d₁ (.claimed jobId)) :
    ∃ row row', d.jobs.get? jobId = some row ∧ row.status = .queued ∧
      d₁.jobs.get? jobId = some row' ∧ row'.status = .running ∧ row'.startedAt.isSome = true := by
  cases h with
  | claimed kind id row now hkey hrow hqueued hjobs =>
      obtain ⟨hstatus, hstarted, -⟩ := ReleaseJob.flush_claimed hqueued now
      exact ⟨row, _, hrow, hqueued, by rw [hjobs, Table.get?_modify_self, hrow]; rfl, hstatus,
        hstarted⟩
  | flushed m hreply hjobs => cases q <;> cases hreply

/-- **A process stays sound** with its call. -/
theorem Process.Sound.moved {k : Except Exc q.Result → Exec Answer} {reply : Reply}
    {result : q.Result} (hs : proc.Sound d) (hrest : proc.rest = .call q k)
    (heffect : Effect K d q proc.memory d₁ reply)
    (hremembers : q.Remembers d proc.memory memory reply result) :
    (proc.hear q k memory (.ok result)).Sound d₁ := by
  obtain ⟨hguard, hsafe⟩ := hs.guard hrest
  have hrows : ∀ id row, d.jobs.get? id = some row →
      ∃ row', d₁.jobs.get? id = some row' ∧ row.Follows row' := by
    intro id row hrow
    obtain ⟨row', hrow', hf, -⟩ := heffect.follows hs hrest hrow
    exact ⟨row', hrow', hf⟩
  -- the claim is the first call, and what it returns is all that the process knows
  by_cases hclaim : ∃ kind id, q = .claimJob kind id
  · obtain ⟨kind, id, rfl⟩ := hclaim
    obtain ⟨rfl, ⟨row, hrow, hkind⟩, htaken⟩ := hremembers
    obtain ⟨row', hrow', hdelivered⟩ := hs.delivered hguard.2 kind id k hrest
    cases hrow.symm.trans hrow'
    refine ⟨hsafe _, fun hj => (by cases hj), ?_, ?_, ?_⟩
    · intro kind' id' job taken hmem
      rcases returned_cons hmem with heq | hmem
      · cases heq
        exact hkind.trans hdelivered
      · rw [hguard.2] at hmem
        cases hmem
    · rintro m ⟨⟩
      rfl
    · intro id' hc
      rcases Journal.claimed_cons hc with ⟨_, _, hmem, -⟩ | ⟨kind', job, heq, -⟩
      · rw [hguard.2] at hmem
        cases hmem
      · cases heq
        obtain ⟨rfl, hrunning⟩ := htaken rfl (hkind.trans hdelivered)
        obtain ⟨_, row', -, -, hrow', hstatus, hstarted⟩ := heffect.claims
        refine ⟨⟨row', hrow', ?_, hstarted⟩, _, rfl, rfl, Or.inl hrunning, fun _ => hrunning,
          fun _ => hrunning⟩
        rw [hstatus]
        nofun
  · -- any other call keeps what the claim has told
    have hclaim : ∀ kind id, q ≠ .claimJob kind id := fun kind id hq => hclaim ⟨kind, id, hq⟩
    refine ⟨hsafe _, fun hj => (by cases hj), ?_, ?_, ?_⟩
    · intro kind id job taken hmem
      rcases returned_cons hmem with heq | hmem
      · cases heq
        exact absurd rfl (hclaim kind id)
      · exact hs.kinds kind id job taken hmem
    · intro m' hm'
      cases hm : proc.memory with
      | none =>
          rw [hm] at hremembers
          cases (hremembers.none hclaim).symm.trans hm'
      | some m =>
          obtain ⟨m'', hm'', hstarted, -⟩ := hremembers.kept hguard hclaim hm
          cases hm'.symm.trans hm''
          exact hstarted (hs.started m hm)
    · intro id hc
      rcases Journal.claimed_cons hc with hc | ⟨kind, job, heq, -⟩
      · obtain ⟨hrow, m, hm, hk⟩ := (hs.claimed id hc).follows hrows
        obtain ⟨m', hm', -, hkeeps⟩ := hremembers.kept hguard hclaim hm
        exact ⟨hrow, m', hm', hkeeps id hk⟩
      · cases heq
        exact absurd rfl (hclaim kind id)

/-- The process that moves, and the others. -/
theorem get?_putProcess {p i : ℕ} {new proc' : Process} (hprocesses : d₁.processes = d.processes)
    (h : (d₁.putProcess i new).processes.get? p = some proc') :
    p = i ∧ proc' = new ∨ d.processes.get? p = some proc' := by
  change (d₁.processes.insert i new).get? p = some proc' at h
  rw [Table.get?_insert, hprocesses] at h
  split at h
  · next hp => exact Or.inl ⟨hp, (Option.some.inj h).symm⟩
  · exact Or.inr h

theorem Commit.sound (h : Commit op u K d d' r) (hv : d.Valid n) {p : ℕ} {proc' : Process}
    (hproc' : d'.processes.get? p = some proc') : proc'.Sound d' := by
  have hrows : ∀ id row, d.jobs.get? id = some row →
      ∃ row', d'.jobs.get? id = some row' ∧ row.Follows row' := by
    intro id row hrow
    obtain ⟨row', hrow', hf, -⟩ := h.follows hv hrow
    exact ⟨row', hrow', hf⟩
  have hother : d.processes.get? p = some proc' → proc'.Sound d' :=
    fun hproc => (hv.sound p proc' hproc).follows hrows
  cases h with
  | elapsed time => exact hother hproc'
  | started op i program hkey hnone hsafe hdelivers =>
      rcases get?_putProcess rfl hproc' with ⟨rfl, rfl⟩ | hproc
      · exact .first hsafe (hdelivers.follows hrows)
      · exact hother hproc
  | moved i answer raises proc q k result memory reply d₁ hkey hproc hrest heffect hprocesses
      hremembers =>
      rcases get?_putProcess hprocesses hproc' with ⟨rfl, rfl⟩ | hproc
      · refine ((hv.sound p proc hproc).moved hrest heffect hremembers).follows ?_
        exact fun id row hrow => ⟨row, hrow, .refl row⟩
      · exact hother hproc
  | raised i e proc q k hkey hproc hrest =>
      rcases get?_putProcess rfl hproc' with ⟨rfl, rfl⟩ | hproc
      · exact ((hv.sound p proc hproc).raised hrest e).follows hrows
      · exact hother hproc

/-- A claim is one that was there, or it is the one of this commit. -/
theorem Commit.claims (h : Commit op u K d d' r) {p : ℕ} {proc' : Process}
    (hproc' : d'.processes.get? p = some proc') (hc : Claimed proc'.journal jobId) :
    (∃ proc, d.processes.get? p = some proc ∧ Claimed proc.journal jobId) ∨
      (∃ answer raises, op = .move p answer raises) ∧ r = .claimed jobId ∧
        ∃ row, d.jobs.get? jobId = some row ∧ row.status = .queued := by
  have hother : d.processes.get? p = some proc' →
      ∃ proc, d.processes.get? p = some proc ∧ Claimed proc.journal jobId :=
    fun hproc => ⟨proc', hproc, hc⟩
  cases h with
  | elapsed time => exact Or.inl (hother hproc')
  | started op i program =>
      rcases get?_putProcess rfl hproc' with ⟨rfl, rfl⟩ | hproc
      · obtain ⟨_, _, hmem, -⟩ := hc
        cases hmem
      · exact Or.inl (hother hproc)
  | raised i e proc q k hkey hproc hrest =>
      rcases get?_putProcess rfl hproc' with ⟨rfl, rfl⟩ | hproc
      · rcases Journal.claimed_cons hc with hc | ⟨kind, job, heq, -⟩
        · exact Or.inl ⟨proc, hproc, hc⟩
        · cases heq
      · exact Or.inl (hother hproc)
  | moved i answer raises proc q k result memory reply d₁ hkey hproc hrest heffect hprocesses
      hremembers =>
      rcases get?_putProcess hprocesses hproc' with ⟨rfl, rfl⟩ | hproc
      · rcases Journal.claimed_cons hc with hc | ⟨kind, job, heq, hkind⟩
        · exact Or.inl ⟨proc, hproc, hc⟩
        · cases heq
          obtain ⟨rfl, -⟩ := hremembers.2.2 rfl hkind
          obtain ⟨row, -, hrow, hqueued, -⟩ := heffect.claims
          exact Or.inr ⟨⟨answer, raises, rfl⟩, rfl, row, hrow, hqueued⟩
      · exact Or.inl (hother hproc)

/-- A job that is queued has not been claimed. -/
theorem Db.Valid.unclaimed (hv : d.Valid n) {p : ℕ} (hproc : d.processes.get? p = some proc)
    {row : ReleaseJob} (hrow : d.jobs.get? jobId = some row) (hqueued : row.status = .queued) :
    ¬ Claimed proc.journal jobId := by
  intro hc
  obtain ⟨row', hrow', hno, -⟩ := ((hv.sound p proc hproc).claimed jobId hc).row
  cases hrow.symm.trans hrow'
  exact hno hqueued

/-- **What every commit keeps.**

There are three kinds of commits: of a request, which inserts rows; of an execution, which moves the
row that it has claimed; and of a mark.  Only the claim makes an execution, and it finds the row in
a status in which nobody executes it. -/
theorem Commit.valid (h : Commit op u K d d' r) (hv : d.Valid n)
    (hserial : ∀ i, .serial i ∈ K → i < n) : d'.Valid n := by
  have hrows : ∀ id row, d.jobs.get? id = some row →
      ∃ row', d'.jobs.get? id = some row' ∧ row.Follows row' := by
    intro id row hrow
    obtain ⟨row', hrow', hf, -⟩ := h.follows hv hrow
    exact ⟨row', hrow', hf⟩
  -- a row of the new state goes on from one of the old, or is new
  have hcases : ∀ id row', d'.jobs.get? id = some row' →
      (∃ row, d.jobs.get? id = some row ∧ row.Follows row') ∨
        d.jobs.get? id = none ∧ Arrives K d d' r id row' := by
    intro id row' hrow'
    cases hrow : d.jobs.get? id with
    | none => exact Or.inr ⟨rfl, h.arrives hrow hrow'⟩
    | some row =>
        obtain ⟨row'', hrow'', hf⟩ := hrows id row hrow
        cases hrow'.symm.trans hrow''
        exact Or.inl ⟨row, rfl, hf⟩
  refine ⟨?_, ?_, ?_, ?_, ?_, ?_⟩
  · intro id row' hrow'
    rcases hcases id row' hrow' with ⟨row, hrow, -⟩ | ⟨-, hnew⟩
    · exact hv.numbered id row hrow
    · exact hserial id hnew.inserts.serial
  · intro id row' hrow' hrunning
    rcases hcases id row' hrow' with ⟨row, hrow, hf⟩ | ⟨-, hnew⟩
    · rcases hf.running hrunning with hold | hstarted
      · exact hf.started (hv.started id row hrow hold)
      · exact hstarted
    · rw [hnew.inserts.queued] at hrunning
      cases hrunning
  · intro id row' o hrow' ho
    rcases hcases id row' hrow' with ⟨row, hrow, hf⟩ | ⟨-, hnew⟩
    · exact hf.kind.trans (hv.retries id row o hrow (hf.retryOfId.symm.trans ho))
    · exact (hnew.retry o ho).2.1
  · intro id id' row row' p hrow hrow' hp hp'
    rcases hcases id row hrow with ⟨row₀, hrow₀, hf⟩ | ⟨hnone, hnew⟩
    · rcases hcases id' row' hrow' with ⟨row₁, hrow₁, hf'⟩ | ⟨hnone', hnew'⟩
      · exact hv.preparations id id' row₀ row₁ p hrow₀ hrow₁ (hf.preparationJobId.symm.trans hp)
          (hf'.preparationJobId.symm.trans hp')
      · exact absurd (hf.preparationJobId.symm.trans hp)
          ((hnew'.preparation p hp').2 id row₀ hrow₀)
    · rcases hcases id' row' hrow' with ⟨row₁, hrow₁, hf'⟩ | ⟨hnone', hnew'⟩
      · exact absurd (hf'.preparationJobId.symm.trans hp')
          ((hnew.preparation p hp).2 id' row₁ hrow₁)
      · exact (hnew.only id' hnone' (Option.isSome_of_eq_some hrow')).symm
  · exact fun p proc hproc => h.sound hv hproc
  · intro p p' proc proc' id hproc hproc' hc hc'
    rcases h.claims hproc hc with ⟨proc₀, hproc₀, hc₀⟩ | ⟨⟨_, _, rfl⟩, -, row, hrow, hqueued⟩
    · rcases h.claims hproc' hc' with ⟨proc₁, hproc₁, hc₁⟩ | ⟨-, -, row, hrow, hqueued⟩
      · exact hv.alone p p' proc₀ proc₁ id hproc₀ hproc₁ hc₀ hc₁
      · exact absurd hc₀ (hv.unclaimed hproc₀ hrow hqueued)
    · rcases h.claims hproc' hc' with ⟨proc₁, hproc₁, hc₁⟩ | ⟨⟨_, _, hop⟩, -⟩
      · exact absurd hc₁ (hv.unclaimed hproc₁ hrow hqueued)
      · cases hop
        rfl

end Valid

/-- **The contract.** -/
def contract : Contract Db Key Op Unit Reply where
  inv := Db.Valid
  inv_mono hv hle :=
    { hv with numbered := fun id row hrow => (hv.numbered id row hrow).trans_le hle }
  commits := Commit

end BindPlane.Legacy
