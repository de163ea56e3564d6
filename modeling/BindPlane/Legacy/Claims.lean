import BindPlane.Legacy.Retries

/-!
# The executions of the legacy application

**Who executes.**  A process that has claimed a job executes it until it calls for its last commit.
No other process can claim the job (`Db.Valid.alone`), so its command is sent by one process at most.

**Who interferes.**  `_mark_enqueue_failed` writes the status whatever the row has become.  `Belated`
is the commit that goes wrong: of such a mark, where the job is executed or its command was sent.
In a run without one the row of a job that is executed is running, and is moved by its executor
alone (`PunctualSteps.executions`); with one a job whose command was sent is recorded as failed
(`overtaken_job`).
-/

namespace BindPlane.Legacy

open ReadCommitted Coroutine Journal

variable {P : Platform} {s s' : Application}

/-- The process of an operation. -/
def Op.process : Op → Option ℕ
  | .elapse _ => none
  | .request p _ | .deliver p _ | .move p _ _ | .raise p _ => some p

/-- The release command has been called for. -/
def Journal.Sends (h : Journal) : Prop := .called Call.release ∈ h

/-- A process that has claimed a job and has not finished it. -/
structure Process.Executing (proc : Process) (jobId : ℕ) : Prop where
  claimed : Claimed proc.journal jobId
  going : ¬ Over proc.journal

/-- A transaction is about to commit that the enqueue of a job has failed, while the job is
executed, or after its command was sent.

The enqueue is reported as failed while the job is on its way, because the connection to the queue
was lost behind it.  The mark is a write without a condition, of an object that was read before. -/
def Application.Belated (s : Application) (t : ℕ) : Prop :=
  ∃ op now w i p proc, s.txns t = .active op now w (.pure (.marked i)) ∧
    s.db.processes.get? p = some proc ∧ Claimed proc.journal i ∧
    (¬ Over proc.journal ∨ Sends proc.journal)

/-- Any number of steps, none of them a belated mark. -/
def PunctualSteps (P : Platform) : Application → Application → Prop :=
  Relation.ReflTransGen fun s s' => ∃ a, s.step (body P) a = some s' ∧
    ∀ t, a = .advance t → ¬ s.Belated t

theorem PunctualSteps.steps (h : PunctualSteps P s s') : Sys.Steps (body P) s s' :=
  Relation.ReflTransGen.mono (fun _ _ ⟨a, ha, _⟩ => ⟨a, ha⟩) _ _ h

/-- **What the executions are.** -/
structure Application.Exclusive (s : Application) : Prop where
  /-- The row of a job that is executed is running. -/
  running : ∀ p proc i, s.db.processes.get? p = some proc → proc.Executing i →
    ∃ row, s.db.jobs.get? i = some row ∧ row.status = .running
  /-- The command of a job is sent by one process. -/
  one : ∀ t t' op op' i, s.txns t = .committed op () (.sent i) →
    s.txns t' = .committed op' () (.sent i) → op.process = op'.process
  /-- A job whose command is sent is not recorded as one that could not be enqueued. -/
  unmarked : ∀ t t' op op' i, s.txns t = .committed op () (.sent i) →
    s.txns t' ≠ .committed op' () (.marked i)

/-- **What a step of a transaction leaves alone.** -/
structure Application.Undisturbed (s s' : Application) (t : ℕ) : Prop where
  /-- A job that is executed is moved by its executor alone. -/
  row : ∀ p proc i row, s.db.processes.get? p = some proc → proc.Executing i →
    s.db.jobs.get? i = some row → (∀ op, (s.txns t).op? = some op → op.process ≠ some p) →
    s'.db.jobs.get? i = some row
  /-- A job that is executed is not retried. -/
  retry : ∀ op user i, s'.txns t = .committed op () (.retried user i) → s'.txns t ≠ s.txns t →
    ∀ p proc, s.db.processes.get? p = some proc → ¬ proc.Executing i

/-! ## One commit -/

section Commits

variable {op : Op} {u : Unit} {K : Set (Resource Key)} {d d₁ d' : Db} {r : Reply} {n p i : ℕ}
  {q : Call} {m : Option Memory} {row : ReleaseJob} {proc proc' : Process}

/-- **What moves a row.** -/
theorem Effect.touched (h : Effect K d q m d₁ r) (hrow : d.jobs.get? i = some row) :
    d₁.jobs.get? i = some row ∨ row.status.active = false ∨ r = .marked i ∨
      row.status = .queued ∨ ∃ m₀ reply, m = some m₀ ∧ m₀.jobId = i ∧
        q.committed m₀.jobId = some reply ∧
        d₁.jobs.get? i = some (ReleaseJob.flush m₀.base (q.object m₀.job) row) := by
  have hinsert : ∀ {j new}, d.Inserts K j new → (d.jobs.insert j new).get? i = some row :=
    fun hnew => by rw [Table.get?_insert_of_ne _ (hnew.ne hrow), hrow]
  cases h with
  | quiet hjobs => exact Or.inl (hjobs ▸ hrow)
  | sent m₀ hjobs => exact Or.inl (hjobs ▸ hrow)
  | prepared j new hnew hretry hpreparation hjobs => exact Or.inl (hjobs ▸ hinsert hnew)
  | retried user j originalId new original hnew hkind hretry hoperator hpreparation hkey horiginal
      hretryable hnone hjobs => exact Or.inl (hjobs ▸ hinsert hnew)
  | confirmed j preparationId new old old' hnew hretry hpreparation hentry hfree hkey hold hinactive
      hsettled hstarted hjobs =>
      by_cases hi : i = preparationId
      · subst hi
        cases hrow.symm.trans hold
        exact Or.inr (Or.inl hinactive)
      · rw [hjobs, Table.get?_modify_of_ne _ hi]
        exact Or.inl (hinsert hnew)
  | marked j other job now hkey hother hqueued hjobs =>
      by_cases hi : i = j
      · exact Or.inr (Or.inr (Or.inl (hi ▸ rfl)))
      · rw [hjobs, Table.get?_modify_of_ne _ hi]
        exact Or.inl hrow
  | claimed kind j other now hkey hother hqueued hjobs =>
      by_cases hi : i = j
      · subst hi
        cases hrow.symm.trans hother
        exact Or.inr (Or.inr (Or.inr (Or.inl hqueued)))
      · rw [hjobs, Table.get?_modify_of_ne _ hi]
        exact Or.inl hrow
  | flushed m₀ hreply hjobs =>
      rcases hjobs with hjobs | ⟨-, hjobs⟩
      · exact Or.inl (hjobs ▸ hrow)
      · by_cases hi : i = m₀.jobId
        · refine Or.inr (Or.inr (Or.inr (Or.inr ⟨m₀, r, rfl, hi.symm, hreply, ?_⟩)))
          rw [hjobs, hi, Table.get?_modify_self, ← hi, hrow]
          rfl
        · rw [hjobs, Table.get?_modify_of_ne _ hi]
          exact Or.inl hrow

/-- **A process goes on**, by one call at a time, or it has just begun. -/
theorem Commit.advances (h : Commit op u K d d' r) (hproc' : d'.processes.get? p = some proc') :
    d.processes.get? p = some proc' ∨ proc'.journal = [] ∨
      ∃ proc q k r, d.processes.get? p = some proc ∧ proc.rest = .call q k ∧
        op.process = some p ∧ proc'.journal = .returned q r :: .called q :: proc.journal := by
  cases h with
  | elapsed time => exact Or.inl hproc'
  | started op j program =>
      rcases get?_putProcess rfl hproc' with ⟨rfl, rfl⟩ | hproc
      · exact Or.inr (Or.inl rfl)
      · exact Or.inl hproc
  | moved j answer raises proc q k result memory reply d₁ hkey hproc hrest heffect hprocesses =>
      rcases get?_putProcess hprocesses hproc' with ⟨rfl, rfl⟩ | hproc
      · exact Or.inr (Or.inr ⟨proc, q, k, .ok result, hproc, hrest, rfl, rfl⟩)
      · exact Or.inl hproc
  | raised j e proc q k hkey hproc hrest =>
      rcases get?_putProcess rfl hproc' with ⟨rfl, rfl⟩ | hproc
      · exact Or.inr (Or.inr ⟨proc, q, k, .error e, hproc, hrest, rfl, rfl⟩)
      · exact Or.inl hproc

/-- A journal grows. -/
theorem Commit.journal (h : Commit op u K d d' r) (hproc : d.processes.get? p = some proc) :
    ∃ proc', d'.processes.get? p = some proc' ∧ (proc' = proc ∨
      ∃ q k r, proc.rest = .call q k ∧
        proc'.journal = .returned q r :: .called q :: proc.journal) := by
  have hput : ∀ {d₁ : Db} {j new}, d₁.processes = d.processes → p ≠ j →
      (d₁.putProcess j new).processes.get? p = some proc := by
    intro d₁ j new hsame hne
    show (d₁.processes.insert j new).get? p = some proc
    rw [Table.get?_insert_of_ne _ hne, hsame, hproc]
  have hself : ∀ {d₁ : Db} {new}, (d₁.putProcess p new).processes.get? p = some new :=
    fun {d₁ new} => Table.get?_insert_self d₁.processes p new
  cases h with
  | elapsed time => exact ⟨proc, hproc, Or.inl rfl⟩
  | started op j program hkey hnone =>
      refine ⟨proc, hput rfl ?_, Or.inl rfl⟩
      rintro rfl
      rw [hproc] at hnone
      cases hnone
  | moved j answer raises proc₁ q k result memory reply d₁ hkey hproc₁ hrest heffect hprocesses =>
      by_cases hp : p = j
      · subst hp
        cases hproc.symm.trans hproc₁
        exact ⟨_, hself, Or.inr ⟨q, k, .ok result, hrest, rfl⟩⟩
      · exact ⟨proc, hput hprocesses hp, Or.inl rfl⟩
  | raised j e proc₁ q k hkey hproc₁ hrest =>
      by_cases hp : p = j
      · subst hp
        cases hproc.symm.trans hproc₁
        exact ⟨_, hself, Or.inr ⟨q, k, .error e, hrest, rfl⟩⟩
      · exact ⟨proc, hput rfl hp, Or.inl rfl⟩

/-- A flush that leaves the status of the object. -/
theorem ReleaseJob.flush_status {old new : ReleaseJob} (h : new.status = old.status) :
    (flush old new row).status = row.status := by
  show written old.status new.status row.status = row.status
  rw [written, if_pos h]

/-- **A job that is executed** is moved by its executor alone, and it is running until the last
commit.

The row of a job that is executed is written by commits of one process only, unless a mark comes in
that the condition excludes.  The process has kept its object since the claim, and the row is what
the object was at the last commit. -/
theorem Commit.executed (h : Commit op u K d d' r) (hv : d.Valid n)
    (hproc : d.processes.get? p = some proc) (he : proc.Executing i)
    (hrow : d.jobs.get? i = some row) (hrunning : row.status = .running) (hmark : r ≠ .marked i) :
    d'.jobs.get? i = some row ∨ op.process = some p ∧
      ((∃ proc', d'.processes.get? p = some proc' ∧ Over proc'.journal) ∨
        ∃ row', d'.jobs.get? i = some row' ∧ row'.status = .running) := by
  cases h with
  | moved j answer raises proc₁ q k result memory reply d₁ hkey hproc₁ hrest heffect hprocesses =>
      rcases heffect.touched hrow with hsame | hinactive | hmarked | hqueued |
        ⟨m₀, reply, hm, rfl, hreply, hflush⟩
      · exact Or.inl hsame
      · rw [hrunning] at hinactive
        cases hinactive
      · exact absurd hmarked hmark
      · rw [hrunning] at hqueued
        cases hqueued
      · have hs := hv.sound j proc₁ hproc₁
        obtain ⟨hclaimed, hbase, -, -⟩ := hs.flushes hrest hm hreply
        cases hv.alone p j proc proc₁ m₀.jobId hproc hproc₁ he.claimed hclaimed
        cases hproc.symm.trans hproc₁
        refine Or.inr ⟨rfl, ?_⟩
        have hgo : ∀ {new : ReleaseJob}, d₁.jobs.get? m₀.jobId =
            some (ReleaseJob.flush m₀.base new row) → new.status = .running →
            ∃ row', d₁.jobs.get? m₀.jobId = some row' ∧ row'.status = .running :=
          fun hget hnew =>
            ⟨_, hget, (ReleaseJob.flush_status (hnew.trans hbase.symm)).trans hrunning⟩
        cases q with
        | updateJobPhase phase => exact Or.inr (hgo hflush rfl)
        | commitJobCheckpoint =>
            obtain ⟨m, hm', hkeeps⟩ := (hs.claimed m₀.jobId hclaimed).memory
            cases hm.symm.trans hm'
            exact Or.inr (hgo hflush (hkeeps.job (hs.guard hrest).1.2.2))
        | finish message =>
            refine Or.inl ⟨_, Table.get?_insert_self d₁.processes p _, message, ?_⟩
            exact List.mem_cons_of_mem _ List.mem_cons_self
        | _ => cases hreply
  | _ => exact Or.inl hrow

/-- The process whose command is sent has claimed the job. -/
theorem Commit.sent (h : Commit op u K d d' (.sent i)) (hv : d.Valid n) :
    ∃ p proc', op.process = some p ∧ d'.processes.get? p = some proc' ∧
      Claimed proc'.journal i ∧ Sends proc'.journal := by
  have hsends : ∀ (d₁ : Db) (p : ℕ) {proc : Process} {k} {m₀ : Memory} (r memory),
      proc.Sound d → proc.rest = .call .release k → proc.memory = some m₀ → m₀.jobId = i →
      ∃ proc', (d₁.putProcess p (proc.hear .release k memory r)).processes.get? p = some proc' ∧
        Claimed proc'.journal i ∧ Sends proc'.journal := by
    rintro d₁ p proc k m₀ r memory hs hrest hm rfl
    obtain ⟨jobId, hclaimed⟩ := (hs.guard hrest).1.2.1
    obtain ⟨m, hm', hkeeps⟩ := (hs.claimed jobId hclaimed).memory
    cases hm.symm.trans hm'
    refine ⟨_, Table.get?_insert_self d₁.processes p _, ?_,
      List.mem_cons_of_mem _ List.mem_cons_self⟩
    rw [hkeeps.jobId]
    exact hclaimed.cons
  generalize hr : Reply.sent i = r at h
  cases h with
  | elapsed time => cases hr
  | started op p program => cases hr
  | raised p e proc q k hkey hproc hrest =>
      cases q with
      | release =>
          cases hm : proc.memory with
          | none => rw [hm] at hr; cases hr
          | some m₀ =>
              rw [hm] at hr
              cases hr
              obtain ⟨proc', hput, hrest'⟩ := hsends d p (.error e) (some m₀)
                (hv.sound p proc hproc) hrest hm rfl
              exact ⟨p, proc', rfl, hput, hrest'⟩
      | _ => cases hr
  | moved p answer raises proc q k result memory reply d₁ hkey hproc hrest heffect hprocesses =>
      subst hr
      generalize hm : proc.memory = m at heffect
      cases heffect with
      | sent m₀ hjobs =>
          obtain ⟨proc', hput, hrest'⟩ := hsends d₁ p (.ok result) memory
            (hv.sound p proc hproc) hrest hm rfl
          exact ⟨p, proc', rfl, hput, hrest'⟩
      | flushed m₀ hreply => cases q <;> cases hreply

/-- What is claimed was queued, and is running. -/
theorem Commit.claimedRow (h : Commit op u K d d' (.claimed i)) :
    ∃ row row', d.jobs.get? i = some row ∧ row.status = .queued ∧
      d'.jobs.get? i = some row' ∧ row'.status = .running := by
  obtain ⟨p, answer, raises, proc, q, k, d₁, -, -, -, heffect, hjobs⟩ := h.effect nofun nofun
  obtain ⟨row, row', hrow, hqueued, hrow', hrunning, -⟩ := heffect.claims
  exact ⟨row, row', hrow, hqueued, hjobs ▸ hrow', hrunning⟩

/-- What has been marked has failed. -/
theorem Commit.marked (h : Commit op u K d d' (.marked i)) :
    ∃ row, d'.jobs.get? i = some row ∧ row.status = .failed := by
  obtain ⟨p, answer, raises, proc, q, k, d₁, -, -, -, heffect, hjobs₁⟩ := h.effect nofun nofun
  generalize proc.memory = m at heffect
  cases heffect with
  | flushed m hreply => cases q <;> cases hreply
  | marked j other job now hkey hother hqueued hjobs =>
      refine ⟨ReleaseJob.flush job (job.enqueueFailed now) other, ?_, ?_⟩
      · rw [hjobs₁, hjobs, Table.get?_modify_self, hother]
        rfl
      · show ReleaseJob.written job.status .failed other.status = .failed
        rw [hqueued]
        rfl

/-- A job whose executions are over, and have sent nothing, stays so, unless it is claimed. -/
theorem Commit.idle (h : Commit op u K d d' r) (hv : d.Valid n)
    (hd : ∀ p proc, d.processes.get? p = some proc → Claimed proc.journal i →
      Over proc.journal ∧ ¬ Sends proc.journal) (hno : r ≠ .claimed i) :
    ∀ p proc, d'.processes.get? p = some proc → Claimed proc.journal i →
      Over proc.journal ∧ ¬ Sends proc.journal := by
  intro p proc' hproc' hc
  rcases h.claims hproc' hc with ⟨proc, hproc, hc₀⟩ | ⟨-, hr, -⟩
  · rcases h.advances hproc' with hsame | hnil | ⟨proc₁, q, k, r, hproc₁, hrest, -, -⟩
    · exact hd p proc' hsame hc
    · obtain ⟨_, _, hmem, -⟩ := hc
      rw [hnil] at hmem
      cases hmem
    · cases hproc.symm.trans hproc₁
      exact absurd (hd p proc hproc hc₀).1 ((hv.sound p proc hproc).guard hrest).1.1
  · exact absurd hr hno

/-- A retry is of a job that nobody executes. -/
theorem Commit.retryable {user : User} (h : Commit op u K d d' (.retried user i)) :
    ∃ row, d.jobs.get? i = some row ∧ row.status.retryable = true := by
  obtain ⟨p, answer, raises, proc, q, k, d₁, -, -, -, heffect, -⟩ := h.effect nofun nofun
  generalize proc.memory = m at heffect
  cases heffect with
  | flushed m hreply => cases q <;> cases hreply
  | retried user j original new row hnew hkind hretry hoperator hpreparation hkey horiginal
      hretryable => exact ⟨row, horiginal, hretryable⟩

end Commits

/-! ## Runs -/

/-- What holds in a run without belated marks. -/
structure Application.Punctual (s : Application) : Prop where
  running : ∀ p proc i, s.db.processes.get? p = some proc → proc.Executing i →
    ∃ row, s.db.jobs.get? i = some row ∧ row.status = .running
  sent : ∀ t op i, s.txns t = .committed op () (.sent i) → ∃ p proc, op.process = some p ∧
    s.db.processes.get? p = some proc ∧ Claimed proc.journal i ∧ Sends proc.journal
  marked : ∀ t op i, s.txns t = .committed op () (.marked i) →
    (∃ row, s.db.jobs.get? i = some row ∧ row.status ≠ .queued) ∧
      ∀ p proc, s.db.processes.get? p = some proc → Claimed proc.journal i →
        Over proc.journal ∧ ¬ Sends proc.journal

section Runs

variable {n : ℕ}

/-- One commit of a run without belated marks. -/
theorem Application.Punctual.commit (h : s.Punctual) (hv : s.db.Valid n) {t : ℕ} {op : Op} {r : Reply}
    {K : Set (Resource Key)} (hcommit : Commit op () K s.db s'.db r)
    (hcommitted : ∀ t' op' r', s'.txns t' = .committed op' () r' ↔
      s.txns t' = .committed op' () r' ∨ t' = t ∧ op' = op ∧ r' = r)
    (hpunctual : ∀ i, r = .marked i → ∀ p proc, s.db.processes.get? p = some proc →
      Claimed proc.journal i → Over proc.journal ∧ ¬ Sends proc.journal) : s'.Punctual := by
  refine ⟨fun p proc' i hproc' he => ?_, fun t' op' i ht => ?_, fun t' op' i ht => ?_⟩
  · rcases hcommit.claims hproc' he.claimed with ⟨proc, hproc, hc⟩ | ⟨-, rfl, -⟩
    · have hgo : ¬ Over proc.journal := by
        obtain ⟨proc₁, hproc₁, hjournal⟩ := hcommit.journal hproc
        cases hproc'.symm.trans hproc₁
        rcases hjournal with rfl | ⟨q, k, r, -, hjournal⟩
        · exact he.going
        · intro ho
          refine he.going ?_
          rw [hjournal]
          exact ho.cons
      obtain ⟨row, hrow, hrunning⟩ := h.running p proc i hproc ⟨hc, hgo⟩
      have hmark : r ≠ .marked i := by
        rintro rfl
        exact hgo (hpunctual i rfl p proc hproc hc).1
      rcases hcommit.executed hv hproc ⟨hc, hgo⟩ hrow hrunning hmark with hsame | ⟨-, hover | hrow'⟩
      · exact ⟨row, hsame, hrunning⟩
      · obtain ⟨proc₁, hproc₁, hover⟩ := hover
        cases hproc'.symm.trans hproc₁
        exact absurd hover he.going
      · exact hrow'
    · obtain ⟨row, row', -, -, hrow', hrunning⟩ := hcommit.claimedRow
      exact ⟨row', hrow', hrunning⟩
  · rcases (hcommitted ..).mp ht with hold | ⟨-, rfl, rfl⟩
    · obtain ⟨p, proc, hop, hproc, hc, hsends⟩ := h.sent t' op' i hold
      obtain ⟨proc', hproc', hjournal⟩ := hcommit.journal hproc
      refine ⟨p, proc', hop, hproc', ?_⟩
      rcases hjournal with rfl | ⟨q, k, r, -, hjournal⟩
      · exact ⟨hc, hsends⟩
      · rw [hjournal]
        exact ⟨hc.cons, List.mem_cons_of_mem _ (List.mem_cons_of_mem _ hsends)⟩
    · exact hcommit.sent hv
  · have hidle : (∀ p proc, s.db.processes.get? p = some proc → Claimed proc.journal i →
        Over proc.journal ∧ ¬ Sends proc.journal) → r ≠ .claimed i →
        ∀ p proc, s'.db.processes.get? p = some proc → Claimed proc.journal i →
          Over proc.journal ∧ ¬ Sends proc.journal := fun hd hno => hcommit.idle hv hd hno
    rcases (hcommitted ..).mp ht with hold | ⟨-, rfl, rfl⟩
    · obtain ⟨⟨row, hrow, hno⟩, hd⟩ := h.marked t' op' i hold
      obtain ⟨row', hrow', hf, -⟩ := hcommit.follows hv hrow
      refine ⟨⟨row', hrow', hf.unqueued hno⟩, hidle hd ?_⟩
      rintro rfl
      obtain ⟨row₀, -, hrow₀, hqueued, -⟩ := hcommit.claimedRow
      cases hrow.symm.trans hrow₀
      exact hno hqueued
    · obtain ⟨row, hrow, hfailed⟩ := hcommit.marked
      refine ⟨⟨row, hrow, ?_⟩, hidle (hpunctual i rfl) nofun⟩
      rw [hfailed]
      nofun

theorem PunctualSteps.punctual (h : PunctualSteps P (Sys.init Db.empty 0) s) : s.Punctual := by
  induction h with
  | refl =>
      refine ⟨fun p proc i hproc => ?_, fun t op i ht => ?_, fun t op i ht => ?_⟩
      · cases hproc
      · cases ht
      · cases ht
  | @tail s₁ s₂ hrun hstep ih =>
      obtain ⟨a, ha, hpunctual⟩ := hstep
      have hrun : PunctualSteps P (Sys.init Db.empty 0) s₁ := hrun
      have hsound : Sound contract s₁ := Application.Reachable.sound hrun.steps
      cases hsound.outcome ha with
      | quiet hdb hcommitted =>
          refine ⟨fun p proc i hproc he => ?_, fun t op i ht => ?_, fun t op i ht => ?_⟩
          · rw [hdb] at hproc ⊢
            exact ih.running p proc i hproc he
          · rw [hdb]
            exact ih.sent t op i ((hcommitted ..).mp ht)
          · rw [hdb]
            exact ih.marked t op i ((hcommitted ..).mp ht)
      | commit op now r w hactive hcommit hcommitted =>
          have hadvance : a = .advance a.txn :=
            Sys.step_commits ha ((hcommitted ..).mpr (Or.inr ⟨rfl, rfl, rfl, rfl⟩))
              (by rw [hactive]; nofun)
          refine ih.commit hsound.inv (t := a.txn) hcommit (fun t' op' r' => ?_) ?_
          · rw [hcommitted]
            exact or_congr_right ⟨fun ⟨h, h', _, h''⟩ => ⟨h, h', h''⟩,
              fun ⟨h, h', h''⟩ => ⟨h, h', rfl, h''⟩⟩
          · rintro i rfl p proc hproc hc
            have hno := hpunctual a.txn hadvance
            refine ⟨?_, fun hsends => hno ⟨op, now, w, i, p, proc, hactive, hproc, hc, Or.inr hsends⟩⟩
            by_contra hgo
            exact hno ⟨op, now, w, i, p, proc, hactive, hproc, hc, Or.inl hgo⟩

theorem Application.Punctual.exclusive (h : s.Punctual) (hv : s.db.Valid n) : s.Exclusive := by
  refine ⟨h.running, fun t t' op op' i ht ht' => ?_, fun t t' op op' i ht ht' => ?_⟩
  · obtain ⟨p, proc, hop, hproc, hc, -⟩ := h.sent t op i ht
    obtain ⟨p', proc', hop', hproc', hc', -⟩ := h.sent t' op' i ht'
    rw [hop, hop', hv.alone p p' proc proc' i hproc hproc' hc hc']
  · obtain ⟨p, proc, -, hproc, hc, hsends⟩ := h.sent t op i ht
    exact ((h.marked t' op' i ht').2 p proc hproc hc).2 hsends

theorem Application.Punctual.undisturbed (h : s.Punctual) (hsound : Sound contract s)
    {a : Action ℕ Op Unit} (ha : s.step (body P) a = some s')
    (hpunctual : ∀ t, a = .advance t → ¬ s.Belated t) : s.Undisturbed s' a.txn := by
  cases hsound.outcome ha with
  | quiet hdb hcommitted =>
      refine ⟨fun p proc i row hproc he hrow _ => hdb ▸ hrow, fun op user i ht hne => ?_⟩
      exact absurd (ht.trans ((hcommitted ..).mp ht).symm) hne
  | commit op now r w hactive hcommit hcommitted =>
      have hadvance : a = .advance a.txn :=
        Sys.step_commits ha ((hcommitted ..).mpr (Or.inr ⟨rfl, rfl, rfl, rfl⟩))
          (by rw [hactive]; nofun)
      refine ⟨fun p proc i row hproc he hrow hother => ?_, fun op' user i ht hne p proc hproc he => ?_⟩
      · obtain ⟨row₁, hrow₁, hrunning⟩ := h.running p proc i hproc he
        cases hrow.symm.trans hrow₁
        have hmark : r ≠ .marked i := by
          rintro rfl
          exact hpunctual a.txn hadvance ⟨op, now, w, i, p, proc, hactive, hproc, he.claimed,
            Or.inl he.going⟩
        rcases Commit.executed hcommit hsound.inv hproc he hrow hrunning hmark with hsame | ⟨hop, -⟩
        · exact hsame
        · exact absurd hop (hother op (by rw [hactive]; rfl))
      · rcases (hcommitted ..).mp ht with hold | ⟨-, rfl, -, rfl⟩
        · exact absurd (ht.trans hold.symm) hne
        · obtain ⟨row, hrow, hretryable⟩ := Commit.retryable hcommit
          obtain ⟨row', hrow', hrunning⟩ := h.running p proc i hproc he
          cases hrow.symm.trans hrow'
          rw [hrunning] at hretryable
          cases hretryable

/-- **The executions of a job.**  In every state that a run without belated marks reaches, and by
every next step that is not one: a job that is executed is running and is moved by its executor
alone, its command is sent by one process at most, it is not recorded as one that could not be
enqueued, and it is not retried meanwhile.

A job is executed by the process whose claim has committed, and it is the status of the row that
keeps others out: a claim asks for a queued row, and nothing but a belated mark takes a running row
out of the hands of its executor.  `Belated` is a condition on the commit of the mark, in terms of
the row and of the processes; `exclusive` is the invariant of runs without one, and `undisturbed`
says of the next step what an invariant of states cannot say. -/
theorem PunctualSteps.executions (h : PunctualSteps P (Sys.init Db.empty 0) s) :
    s.Exclusive ∧ ∀ a s', s.step (body P) a = some s' → (∀ t, a = .advance t → ¬ s.Belated t) →
      s.Undisturbed s' a.txn := by
  have hsound : Sound contract s := Application.Reachable.sound h.steps
  exact ⟨h.punctual.exclusive hsound.inv, fun a s' ha hno => h.punctual.undisturbed hsound ha hno⟩

end Runs

/-! ## A run, and one that goes wrong -/

namespace Journal

variable {h : Journal} {i : ℕ}

def claims (h : Journal) (i : ℕ) : Bool :=
  h.any fun e => match e with
    | .returned (.claimJob kind jobId) (.ok (job, true)) => jobId = i && job.kind = kind
    | _ => false

def isOver (h : Journal) : Bool :=
  h.any fun e => match e with
    | .called (.finish _) => true
    | _ => false

def sends (h : Journal) : Bool :=
  h.any fun e => match e with
    | .called .release => true
    | _ => false

theorem Claimed.claims (hc : Claimed h i) : h.claims i = true := by
  obtain ⟨kind, job, hmem, hkind⟩ := hc
  exact List.any_eq_true.mpr ⟨_, hmem, by simp [hkind]⟩

theorem over_of_isOver (hover : h.isOver = true) : Over h := by
  obtain ⟨e, hmem, he⟩ := List.any_eq_true.mp hover
  split at he
  · exact ⟨_, hmem⟩
  · cases he

theorem Sends.sends (hs : Sends h) : h.sends = true := List.any_eq_true.mpr ⟨_, hs, rfl⟩

end Journal

/-- An action that is not the commit of a belated mark. -/
def Application.punctual (s : Application) : Action ℕ Op Unit → Bool
  | .advance t => match s.txns t with
      | .active _ _ _ (.pure (.marked i)) => !s.db.processes.any fun _ proc =>
          proc.journal.claims i && (!proc.journal.isOver || proc.journal.sends)
      | _ => true
  | _ => true

theorem Application.not_belated {a : Action ℕ Op Unit} (h : s.punctual a = true) (t : ℕ)
    (ha : a = .advance t) : ¬ s.Belated t := by
  subst ha
  rintro ⟨op, now, w, i, p, proc, hactive, hproc, hc, hor⟩
  simp only [Application.punctual, hactive, Bool.not_eq_true'] at h
  have hno := Table.any_eq_false.mp h p proc hproc
  simp only [hc.claims, Bool.true_and, Bool.or_eq_false_iff, Bool.not_eq_false'] at hno
  rcases hor with hgo | hsends
  · exact hgo (Journal.over_of_isOver hno.1)
  · rw [hsends.sends] at hno
    cases hno.2

theorem PunctualSteps.of_where
    (h : Relation.ReflTransGen (fun s s' => ∃ a, s.step (body P) a = some s' ∧
      Application.punctual s a = true) s s') : PunctualSteps P s s' :=
  Relation.ReflTransGen.mono
    (fun _ _ ⟨a, ha, hok⟩ => ⟨a, ha, fun t => Application.not_belated hok t⟩) _ _ h

/-- What a transaction has replied. -/
def Application.reply (s : Application) (t : ℕ) : Option Reply :=
  match s.txns t with
  | .committed _ _ r => some r
  | _ => none

theorem Application.reply_eq_some {t : ℕ} {r : Reply} (h : s.reply t = some r) :
    ∃ op, s.txns t = .committed op () r := by
  unfold Application.reply at h
  split at h
  · next op now r' ht => exact ⟨op, by rw [ht, Option.some.inj h]⟩
  · cases h

namespace Demo

/-- Alice prepares a release and confirms it.  The job is delivered before her request goes on, and
executed as far as the release command. -/
def released : List (Op × ℕ) :=
  [(.request 0 (.prepare alice (some ⟨"10.0.0.1", "moved", false, 1, 1⟩)), 4),
    (.move 0 "" none, 8), (.move 0 "" none, 4), (.move 0 "" none, 5),
    (.deliver 1 0, 5), (.move 1 "static" none, 11), (.move 1 "static" none, 4),
    (.move 1 "static" none, 4), (.move 1 "static" none, 8), (.move 1 "static" none, 4),
    (.move 1 "static" none, 5), (.move 1 "static" none, 5), (.move 1 "static" none, 8),
    (.move 1 "static" none, 4), (.move 1 "static" none, 5), (.move 1 "static" none, 4),
    (.move 1 "static" none, 8),
    (.request 2 (.createReleaseJob alice ⟨0, "10.0.0.1", "moved", none, false, true⟩), 4),
    (.move 2 "" none, 16),
    (.deliver 3 1, 5), (.move 3 "static" none, 11), (.move 3 "static" none, 4),
    (.move 3 "static" none, 4), (.move 3 "static" none, 8), (.move 3 "static" none, 4),
    (.move 3 "static" none, 5), (.move 3 "static" none, 5), (.move 3 "static" none, 5),
    (.move 3 "static" none, 4), (.move 3 "static" none, 8), (.move 3 "" none, 4)]

def sending : Application :=
  (Sys.runWhere (body platform) Application.punctual (Sys.init Db.empty 0)
    (actions released)).getD (Sys.init Db.empty 0)

theorem sending_punctual : PunctualSteps platform (Sys.init Db.empty 0) sending := by
  have hsome : (Sys.runWhere (body platform) Application.punctual (Sys.init Db.empty 0)
      (actions released)).isSome = true := by decide +kernel
  obtain ⟨s, hs⟩ := Option.isSome_iff_exists.mp hsome
  rw [sending, hs, Option.getD_some]
  exact .of_where (Sys.runWhere_steps hs)

/-- The command of the job was sent, and the row is left alone. -/
theorem sending_executions :
    sending.reply 30 = some (.sent 1) ∧ sending.Exclusive ∧
      ∀ a s', sending.step (body platform) a = some s' →
        (∀ t, a = .advance t → ¬ sending.Belated t) → sending.Undisturbed s' a.txn :=
  ⟨by decide +kernel, sending_punctual.executions.1, sending_punctual.executions.2⟩

/-- And then the enqueue raises, which had delivered the job. -/
def overtaken : Application :=
  Sys.perform (body platform) 20 101 (.move 2 "" none) ()
    (Sys.perform (body platform) 20 100 (.raise 2 lost) () sending)

/-- The job whose command was sent is recorded as one that could not be enqueued. -/
theorem overtaken_job :
    Application.Reachable platform overtaken ∧ ¬ overtaken.Exclusive ∧
      (overtaken.db.jobs.get? 1).map (fun row => (row.status, row.errorMessage)) =
        some (.failed, some "Queue enqueue failed") := by
  refine ⟨(sending_punctual.steps.trans (Sys.perform_steps ..)).trans (Sys.perform_steps ..), ?_,
    by decide +kernel⟩
  obtain ⟨op, hsent⟩ := Application.reply_eq_some
    (show overtaken.reply 30 = some (.sent 1) by decide +kernel)
  obtain ⟨op', hmarked⟩ := Application.reply_eq_some
    (show overtaken.reply 101 = some (.marked 1) by decide +kernel)
  exact fun hexclusive => hexclusive.unmarked 30 101 op op' 1 hsent hmarked

end Demo

end BindPlane.Legacy
