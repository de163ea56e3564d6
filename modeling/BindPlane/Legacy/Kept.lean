import BindPlane.Legacy.Commits

/-!
# The legacy application keeps the contract

**What the others leave alone.**  A row moves under its lock; the retries of a job come under the
lock of that job, and the release of a preparation under the entry of the index; a process is
moved by its own thread.

**What is written.**  `Writes` says what a transaction has done to the rows so far, whatever the
events it has added.  Each call then has its effect (`Call.run_kept`), and `body_kept` is all of
them.
-/

namespace BindPlane.Legacy

open ReadCommitted Coroutine Contract Journal

/-! ## What the others leave alone -/

section Stable

variable {K : Set (Resource Key)} {s s' : Db × ℕ} {id : ℕ}

/-- Rows go on. -/
theorem follows_stable (h : contract.interference.rel K s s') (hs : s.1.Valid s.2)
    {row : ReleaseJob} (hrow : s.1.jobs.get? id = some row) :
    ∃ row', s'.1.jobs.get? id = some row' ∧ row.Follows row' ∧
      (row' = row ∨ .key (.job id) ∉ K) := by
  refine Contract.interference_induct_inv (C := contract)
    (P := fun d d' => ∀ row, d.jobs.get? id = some row →
      ∃ row', d'.jobs.get? id = some row' ∧ row.Follows row' ∧ (row' = row ∨ .key (.job id) ∉ K))
    (fun _ row hrow => ⟨row, hrow, .refl row, Or.inl rfl⟩) (fun h h' row hrow => ?_)
    (fun hd hdisj hc row hrow => ?_) h hs row hrow
  · obtain ⟨row₁, hrow₁, hf₁, hsame₁⟩ := h row hrow
    obtain ⟨row₂, hrow₂, hf₂, hsame₂⟩ := h' row₁ hrow₁
    refine ⟨row₂, hrow₂, hf₁.trans hf₂, ?_⟩
    rcases hsame₁ with rfl | hno
    · exact hsame₂
    · exact Or.inr hno
  · obtain ⟨row', hrow', hf, hsame⟩ := Commit.follows hc hd hrow
    refine ⟨row', hrow', hf, hsame.imp_right fun hkey hmem => ?_⟩
    exact Set.disjoint_left.mp hdisj hmem hkey

/-- A row stays under its lock. -/
theorem row_stable (h : contract.interference.rel K s s') (hs : s.1.Valid s.2)
    {row : ReleaseJob} (hkey : .key (.job id) ∈ K) (hrow : s.1.jobs.get? id = some row) :
    s'.1.jobs.get? id = some row := by
  obtain ⟨row', hrow', -, hsame⟩ := follows_stable h hs hrow
  rcases hsame with rfl | hno
  · exact hrow'
  · exact absurd hkey hno

theorem fresh_stable (h : contract.interference.rel K s s') (hserial : .serial id ∈ K)
    (hnone : s.1.jobs.get? id = none) : s'.1.jobs.get? id = none := by
  refine Contract.interference_keeps (C := contract) (P := fun d => d.jobs.get? id = none) h
    (fun {_ _ _ _ d' _} hdisj hc hnone => ?_) hnone
  cases hrow : d'.jobs.get? id with
  | none => rfl
  | some row =>
      have hmem := (Commit.arrives hc hnone hrow).inserts.serial
      exact absurd hmem (Set.disjoint_left.mp hdisj hserial)

/-- A row that may be new: what holds of no row, and is not acquired, holds of none. -/
theorem none_stable {p : ReleaseJob → Prop} (h : contract.interference.rel K s s')
    (hs : s.1.Valid s.2) (hp : ∀ {row row' : ReleaseJob}, row.Follows row' → p row' → p row)
    (hnew : ∀ {K' d d' r i row}, Arrives K' d d' r i row → p row → ¬ Disjoint K K')
    (hnone : ∀ i row, s.1.jobs.get? i = some row → ¬ p row) :
    ∀ i row, s'.1.jobs.get? i = some row → ¬ p row := by
  refine Contract.interference_induct_inv (C := contract)
    (P := fun d d' => (∀ i row, d.jobs.get? i = some row → ¬ p row) →
      ∀ i row, d'.jobs.get? i = some row → ¬ p row)
    (fun _ h => h) (fun h h' hd => h' (h hd)) (fun {_ _ _ d _ _ _} hd hdisj hc hnone i row' hrow' => ?_)
    h hs hnone
  cases hrow : d.jobs.get? i with
  | none => exact fun hrow => hnew (Commit.arrives hc ‹_› hrow') hrow hdisj
  | some row =>
      obtain ⟨row'', hrow'', hf, -⟩ := Commit.follows hc hd hrow
      cases hrow'.symm.trans hrow''
      exact fun hrow' => hnone i row hrow (hp hf hrow')

/-- Behind the lock of a job no retry of it appears that was not there. -/
theorem unseen_stable (h : contract.interference.rel K s s') (hs : s.1.Valid s.2) {user : User}
    (hkey : .key (.job id) ∈ K)
    (hnone : ∀ i row, s.1.jobs.get? i = some row → row.retries id = true →
      row.visible user = false) :
    ∀ i row, s'.1.jobs.get? i = some row → row.retries id = true → row.visible user = false := by
  have hall := none_stable (p := fun row => row.retries id = true ∧ row.visible user = true) h hs
    (fun hf hp => ⟨hf.retries hp.1, (hf.visible user) ▸ hp.2⟩) (fun hnew hp hdisj => ?_)
    (fun i row hrow hp => ?_)
  · intro i row hrow hretries
    exact Bool.eq_false_iff.mpr fun hvisible => hall i row hrow ⟨hretries, hvisible⟩
  · have hof := hp.1
    unfold ReleaseJob.retries at hof
    simp only [Bool.and_eq_true, decide_eq_true_eq] at hof
    exact Set.disjoint_left.mp hdisj hkey (hnew.retry id hof.1.2).1
  · rw [hnone i row hrow hp.1] at hp
    cases hp.2

/-- Behind the entry of the index no release of a preparation appears. -/
theorem free_stable (h : contract.interference.rel K s s') (hs : s.1.Valid s.2)
    (hkey : .key (.preparation id) ∈ K)
    (hnone : ∀ i row, s.1.jobs.get? i = some row → row.preparationJobId ≠ some id) :
    ∀ i row, s'.1.jobs.get? i = some row → row.preparationJobId ≠ some id :=
  none_stable (p := fun row => row.preparationJobId = some id) h hs
    (fun hf hp => hf.preparationJobId.symm.trans hp)
    (fun hnew hp hdisj => Set.disjoint_left.mp hdisj hkey (hnew.preparation id hp).1) hnone

theorem process_stable (h : contract.interference.rel K s s') {p : ℕ}
    (hkey : .key (.process p) ∈ K) : s'.1.processes.get? p = s.1.processes.get? p := by
  refine Contract.interference_induct (C := contract)
    (P := fun d d' => d'.processes.get? p = d.processes.get? p)
    (fun _ => rfl) (fun h h' => h'.trans h) (fun hdisj hc => ?_) h
  rcases Commit.process hc p with hsame | hmem
  · exact hsame
  · exact absurd hmem (Set.disjoint_left.mp hdisj hkey)

theorem delivers_stable (h : contract.interference.rel K s s') (hs : s.1.Valid s.2)
    {program : Exec Answer} (hd : s.1.Delivers program) : s'.1.Delivers program := by
  refine hd.follows fun id row hrow => ?_
  obtain ⟨row', hrow', hf, -⟩ := follows_stable h hs hrow
  exact ⟨row', hrow', hf⟩

end Stable

/-! ## What is written -/

/-- What a transaction has done to the rows, and it has moved no process. -/
def Writes (w : Db → Db) (f : Table ReleaseJob → Table ReleaseJob) : Prop :=
  ∀ d, (w d).jobs = f d.jobs ∧ (w d).processes = d.processes

section Writes

variable {w : Db → Db} {f : Table ReleaseJob → Table ReleaseJob}

theorem Writes.nothing : Writes id id := fun _ => ⟨rfl, rfl⟩

theorem Writes.addEvent (h : Writes w f) (e : ReleaseJobEvent) :
    Writes ((·.addEvent e) ∘ w) f := h

theorem Writes.addEvents (h : Writes w f) (es : List ReleaseJobEvent) :
    Writes ((fun d => es.foldl Db.addEvent d) ∘ w) f := by
  induction es generalizing w with
  | nil => exact h
  | cons e es ih => exact ih (h.addEvent e)

theorem Writes.addJob (h : Writes w f) (i : ℕ) (row : ReleaseJob) :
    Writes ((·.addJob i row) ∘ w) fun jobs => (f jobs).insert i row := by
  intro d
  refine ⟨?_, (h d).2⟩
  show (w d).jobs.insert i row = _
  rw [(h d).1]

theorem Writes.flushJob (h : Writes w f) (i : ℕ) (old new : ReleaseJob) :
    Writes ((·.flushJob i old new) ∘ w) fun jobs =>
      (f jobs).modify i (ReleaseJob.flush old new) := by
  intro d
  refine ⟨?_, (h d).2⟩
  show (w d).jobs.modify i (ReleaseJob.flush old new) = _
  rw [(h d).1]

end Writes

variable {β : Type} {v : View Db Key} {Q : Except Failure β → View Db Key → Prop}

theorem snapshot_eq (h : v.pending = id) : v.snapshot = v.db := by
  rw [View.snapshot, h]
  rfl

/-- An operation that ends in a commit under the contract. -/
theorem ended_of_commit {op : Op} {r : Reply} (hv : contract.Good v)
    (hc : Commit op () v.held v.db v.snapshot r) :
    contract.Ended (ε := Failure) op () (.ok r) v := ⟨hc.valid hv.1 hv.2, hc⟩

/-! ## Statements -/

section Statements

variable {i : ℕ} {old new row : ReleaseJob} {user : User}
  {f : Table ReleaseJob → Table ReleaseJob}

theorem flush_bind {g : Unit → Txn β} (hv : contract.Good v) (hw : Writes v.pending f)
    (he : ∀ e v', Q (.error e) v')
    (h : ∀ v', contract.Since v v' → contract.Good v' →
      (new = old ∧ Writes v'.pending f ∨ .key (.job i) ∈ v'.held ∧
        (∃ w row, contract.Since w v' ∧ contract.Good w ∧ .key (.job i) ∈ w.held ∧
          (f w.db.jobs).get? i = some row) ∧
        Writes v'.pending fun jobs => (f jobs).modify i (ReleaseJob.flush old new)) →
      (g ()).Ensures contract.interference Q v') :
    ((flush i old new).bind g).Ensures contract.interference Q v := by
  unfold flush
  split
  · next hnew => exact h v (Later.refl v).since hv (Or.inl ⟨hnew, hw⟩)
  · simp only [Tx.bind_eq, Tx.bind_assoc]
    refine hv.acquire fun v₁ h₁ hv₁ hkey => hv₁.snapshot fun v₂ h₂ hv₂ => ?_
    refine Tx.Ensures.require_bind (fun hsome => ?_) (fun _ _ _ => he _ _)
    obtain ⟨row, hrow⟩ := Option.isSome_iff_exists.mp hsome
    refine hv₂.update fun v₃ h₃ hv₃ => ?_
    have hpending : v₂.pending = v.pending := (h₁.trans h₂).pending
    refine h (v₃.queue _) ((h₁.trans h₂).trans h₃).since hv₃
      (Or.inr ⟨(h₂.trans h₃).held hkey, ⟨v₂, row, h₃.since, hv₂, h₂.held hkey, ?_⟩, ?_⟩)
    · rw [View.snapshot, hpending, (hw _).1] at hrow
      exact hrow
    · rw [View.queue_pending, h₃.pending, hpending]
      exact hw.flushJob i old new

theorem getVisibleJob_bind {g : ReleaseJob → Txn β} (hv : contract.Good v)
    (hpending : v.pending = id) (he : ∀ e v', Q (.error e) v')
    (h : ∀ row v', contract.Later v v' → contract.Good v' → .key (.job i) ∈ v'.held →
      v'.db.jobs.get? i = some row → (g row).Ensures contract.interference Q v') :
    ((getVisibleJob user i).bind g).Ensures contract.interference Q v := by
  simp only [getVisibleJob, Tx.bind_eq, Tx.bind_assoc]
  refine hv.snapshot fun v₁ h₁ hv₁ => ?_
  refine Tx.Ensures.expect_bind (fun _ _ => ?_) (fun _ _ _ => he _ _)
  refine hv₁.acquire fun v₂ h₂ hv₂ hkey => hv₂.snapshot fun v₃ h₃ hv₃ => ?_
  have hl := (h₁.trans h₂).trans h₃
  refine Tx.Ensures.expect_bind (fun row hrow => ?_) (fun _ _ _ => he _ _)
  rw [snapshot_eq (hl.pending.trans hpending)] at hrow
  exact h row v₃ hl hv₃ (h₃.held hkey) (Option.filter_eq_some_iff.mp hrow).1

end Statements

/-! ## The transactions of the requests -/

/-- Whatever the others do until the commit, the call has its effect. -/
def Brings (v : View Db Key) (q : Call) (memory : Option Memory) (reply : Reply) : Prop :=
  contract.Good v ∧ ∃ f, Writes v.pending f ∧
    ∀ v', contract.Later v v' → contract.Good v' → ∀ d₁, d₁.jobs = f v'.db.jobs →
      Effect v'.held v'.db q memory d₁ reply

section Requests

variable {q : Call} {m : Option Memory} {reply : Reply} {user : User} {i : ℕ}
  {job : ReleaseJob} {raises : Option Exc}

theorem Brings.later {v' : View Db Key} (h : Brings v q m reply) (hl : contract.Later v v')
    (hv' : contract.Good v') : Brings v' q m reply := by
  obtain ⟨-, f, hw, heffect⟩ := h
  exact ⟨hv', f, hl.pending ▸ hw, fun v'' hl' => heffect v'' (hl.trans hl')⟩

theorem Brings.quiet (hv : contract.Good v) (hw : Writes v.pending id) :
    Brings v q m .quiet :=
  ⟨hv, id, hw, fun _ _ _ _ hjobs => .quiet hjobs⟩

theorem markEnqueueFailed_bind {g : Unit → Txn β} (hv : contract.Good v)
    (hpending : v.pending = id) (hqueued : job.status = .queued) (he : ∀ e v', Q (.error e) v')
    (h : ∀ v', contract.Since v v' → Brings v' q m (.marked i) →
      (g ()).Ensures contract.interference Q v') :
    ((markEnqueueFailed i job).bind g).Ensures contract.interference Q v := by
  simp only [markEnqueueFailed, Tx.bind_eq, Tx.bind_assoc]
  refine hv.snapshot fun v₁ h₁ hv₁ => ?_
  have hw : Writes v₁.pending id := by
    rw [h₁.pending, hpending]
    exact .nothing
  refine flush_bind hv₁ hw he fun v₂ h₂ hv₂ hflush => hv₂.update fun v₃ h₃ hv₃ => ?_
  refine h (v₃.queue _) (h₁.since.trans (h₂.trans h₃.since)) ?_
  rcases hflush with ⟨hsame, -⟩ | ⟨hkey, ⟨w, row, hl, hgood, hheld, hrow⟩, hw⟩
  · have hstatus : ReleaseJobStatus.failed = job.status := congrArg ReleaseJob.status hsame
    rw [hqueued] at hstatus
    cases hstatus
  · refine ⟨hv₃, fun jobs => jobs.modify i
      (ReleaseJob.flush job (job.enqueueFailed v₁.snapshot.clock)), ?_, ?_⟩
    · rw [View.queue_pending, h₃.pending]
      exact hw.addEvent _
    · intro v' hl' _ d₁ hjobs
      have hall := hl.trans (h₃.since.trans hl'.since.of_queue)
      exact .marked i row job _ (hl'.held (h₃.held hkey))
        (row_stable hall.rel hgood.1 hheld hrow) hqueued hjobs

theorem confirmEnqueue_bind {g : Unit → Txn β} (hv : contract.Good v) (hpending : v.pending = id)
    (h : ∀ v', contract.Since v v' → Brings v' q m .quiet →
      (g ()).Ensures contract.interference Q v') :
    ((confirmEnqueue i job).bind g).Ensures contract.interference Q v := by
  refine hv.update fun v₁ h₁ hv₁ => ?_
  refine h (v₁.queue _) h₁.since (.quiet hv₁ ?_)
  rw [View.queue_pending, h₁.pending, hpending]
  exact Writes.nothing.addEvent _

theorem answerExisting_bind {g : Handled × Reply → Txn β} (hv : contract.Good v)
    (hpending : v.pending = id) (he : ∀ e v', Q (.error e) v')
    (h : ∀ handled reply v', contract.Since v v' → Brings v' q m reply →
      (g (handled, reply)).Ensures contract.interference Q v') :
    ((answerExisting i job raises).bind g).Ensures contract.interference Q v := by
  simp only [answerExisting, Tx.bind_eq, Tx.bind_assoc]
  refine hv.snapshot fun v₁ h₁ hv₁ => ?_
  have hpending₁ := h₁.pending.trans hpending
  split
  · next hqueued =>
      have hqueued : job.status = .queued :=
        of_decide_eq_true (Bool.and_eq_true_iff.mp hqueued).1
      unfold enqueueAgain
      split
      · simp only [Tx.bind_eq, Tx.bind_assoc]
        refine markEnqueueFailed_bind (q := q) (m := m) hv₁ hpending₁ hqueued he fun v₂ h₂ hb => ?_
        exact h _ _ v₂ (h₁.since.trans h₂) hb
      · simp only [Tx.bind_eq, Tx.bind_assoc]
        refine confirmEnqueue_bind (q := q) (m := m) hv₁ hpending₁ fun v₂ h₂ hb => ?_
        exact h _ _ v₂ (h₁.since.trans h₂) hb
  · exact h _ _ v₁ h₁.since (.quiet hv₁ (hpending₁ ▸ Writes.nothing))

/-- A drawn number is that of no row. -/
theorem fresh_of_valid {d : Db} (hd : d.Valid i) : d.jobs.get? i = none := by
  cases hrow : d.jobs.get? i with
  | none => rfl
  | some row => exact absurd (hd.numbered i row hrow) (lt_irrefl i)

theorem prepare_bind {plan : Plan} {g : Handled × Reply → Txn β} (hv : contract.Good v)
    (hpending : v.pending = id)
    (h : ∀ handled reply v', contract.Since v v' → Brings v' q m reply →
      (g (handled, reply)).Ensures contract.interference Q v') :
    ((prepare user plan).bind g).Ensures contract.interference Q v := by
  simp only [prepare, Tx.bind_eq, Tx.bind_assoc]
  refine hv.snapshot fun v₁ h₁ hv₁ => hv₁.nextSerial fun n v₂ h₂ hv₂ hserial _ hinv => ?_
  have hfresh : v₂.db.jobs.get? n = none := fresh_of_valid hinv
  have hpending₂ := h₂.pending.trans (h₁.pending.trans hpending)
  refine hv₂.update fun v₃ h₃ hv₃ => Good.update (v := v₃.queue _) hv₃ fun v₄ h₄ hv₄ => ?_
  have hl : contract.Since v₂ v₄ := h₃.since.trans h₄.since.of_queue
  refine h _ _ (v₄.queue _) ((h₁.trans h₂).since.trans hl) ⟨hv₄, fun jobs => jobs.insert n
    (plan.job user v₁.snapshot.clock), ?_, fun v' hl' _ d₁ hjobs => ?_⟩
  · rw [View.queue_pending, h₄.pending, View.queue_pending, h₃.pending, hpending₂]
    exact (Writes.nothing.addJob n _).addEvent _
  · have hall := hl.trans hl'.since.of_queue
    exact .prepared n _ ⟨hall.held hserial, fresh_stable hall.rel hserial hfresh, rfl⟩ rfl rfl hjobs

/-- A preparation that can be confirmed: it waits, or it has stopped without a record. -/
theorem insertRelease_bind {payload : ReleaseJobCreateRequest} {force : Bool}
    {g : Handled × Reply → Txn β} (hv : contract.Good v) (hpending : v.pending = id)
    (hkey : .key (.job payload.preparationJobId) ∈ v.held)
    (hjob : v.db.jobs.get? payload.preparationJobId = some job)
    (hinactive : job.status.active = false) (hopen : job.status ≠ .succeeded)
    (he : ∀ e v', Q (.error e) v')
    (h : ∀ handled reply v', contract.Since v v' → Brings v' q m reply →
      (g (handled, reply)).Ensures contract.interference Q v') :
    ((insertRelease user payload job force).bind g).Ensures contract.interference Q v := by
  simp only [insertRelease, Tx.bind_eq, Tx.bind_assoc]
  -- the entry of the index is held from here on
  refine hv.acquire fun v₁ h₁ hv₁ hentry => hv₁.snapshot fun v₂ h₂ hv₂ => ?_
  have hl₂ := h₁.trans h₂
  have hpending₂ := hl₂.pending.trans hpending
  split
  · -- somebody has the entry: the answer is about the release that is there
    rw [Tx.bind_assoc, getReleaseForPreparation, Tx.bind_eq, Tx.bind_assoc]
    refine hv₂.snapshot fun v₃ h₃ hv₃ => ?_
    rw [Tx.pure_eq, Tx.pure_bind, Tx.bind_assoc]
    refine Tx.Ensures.expect_bind (fun _ _ => ?_) (fun _ _ _ => he _ _)
    refine h _ _ v₃ (hl₂.trans h₃).since (.quiet hv₃ ?_)
    rw [h₃.pending, hpending₂]
    exact .nothing
  · next hfree =>
      -- nobody has it, and nobody can take it
      have hfree : ∀ j row, v₂.db.jobs.get? j = some row →
          row.preparationJobId ≠ some payload.preparationJobId := by
        intro j row hrow hp
        refine hfree (Table.any_eq_true.mpr ⟨j, row, ?_, decide_eq_true hp⟩)
        rw [snapshot_eq hpending₂]
        exact hrow
      rw [Tx.bind_assoc]
      refine hv₂.nextSerial fun n v₃ h₃ hv₃ hserial _ hinv => ?_
      have hfresh : v₃.db.jobs.get? n = none := fresh_of_valid hinv
      rw [Tx.bind_assoc]
      refine hv₃.update fun v₄ h₄ hv₄ => ?_
      rw [Tx.bind_assoc]
      -- the row is queued, and the flush of the preparation behind it
      have hw : Writes (v₄.queue (·.addJob n (job.toRelease payload.preparationJobId user payload
          force v₂.snapshot.clock))).pending fun jobs => jobs.insert n (job.toRelease
            payload.preparationJobId user payload force v₂.snapshot.clock) := by
        rw [View.queue_pending, h₄.pending, h₃.pending, hpending₂]
        exact Writes.nothing.addJob n _
      refine flush_bind (v := v₄.queue _) hv₄ hw he fun v₅ h₅ hv₅ hflush => ?_
      rw [Tx.bind_assoc]
      refine hv₅.update fun v₆ h₆ hv₆ => ?_
      rw [Tx.bind_assoc]
      refine Good.update (v := v₆.queue _) hv₆ fun v₇ h₇ hv₇ => ?_
      have hlast : contract.Since v₃ v₇ :=
        h₄.since.trans (h₅.of_queue.trans (h₆.since.trans h₇.since.of_queue))
      refine h _ _ (v₇.queue _) ((hl₂.trans h₃).since.trans hlast) ?_
      -- the flush changes the status, so it is not left out
      rcases hflush with ⟨hsame, -⟩ | ⟨-, -, hw⟩
      · exact absurd (congrArg ReleaseJob.status hsame).symm hopen
      · refine ⟨hv₇, fun jobs => (jobs.insert n (job.toRelease payload.preparationJobId user payload
          force v₂.snapshot.clock)).modify payload.preparationJobId (ReleaseJob.flush job
            (job.confirmed force n v₂.snapshot.clock)), ?_, fun v' hl' _ d₁ hjobs => ?_⟩
        · rw [View.queue_pending, h₇.pending, View.queue_pending, h₆.pending]
          exact (hw.addEvent _).addEvent _
        · have hall := hlast.trans hl'.since.of_queue
          have hall₂ := h₃.since.trans hall
          have hkey₂ := hl₂.held hkey
          have hrow₂ := row_stable hl₂.rel hv.1 hkey hjob
          exact .confirmed n payload.preparationJobId _ job
            (job.confirmed force n v₂.snapshot.clock)
            ⟨hall.held hserial, fresh_stable hall.rel hserial hfresh, rfl⟩ rfl rfl
            (hall₂.held (h₂.held hentry)) (free_stable hall₂.rel hv₂.1 (h₂.held hentry) hfree)
            (hall₂.held hkey₂) (row_stable hall₂.rel hv₂.1 hkey₂ hrow₂) hinactive rfl rfl hjobs

theorem existingReleaseResponse_bind {g : Option (Handled × Reply) → Txn β}
    (hv : contract.Good v) (hpending : v.pending = id) (he : ∀ e v', Q (.error e) v')
    (hnone : ∀ v', contract.Later v v' → contract.Good v' →
      (g none).Ensures contract.interference Q v')
    (h : ∀ handled reply v', contract.Since v v' → Brings v' q m reply →
      (g (some (handled, reply))).Ensures contract.interference Q v') :
    ((existingReleaseResponse user i job raises).bind g).Ensures contract.interference Q v := by
  unfold existingReleaseResponse
  split
  · exact hnone v (Later.refl v) hv
  · simp only [getReleaseForPreparation, Tx.bind_eq, Tx.bind_assoc]
    refine hv.snapshot fun v₁ h₁ hv₁ => ?_
    rw [Tx.pure_eq, Tx.pure_bind]
    split
    · exact hnone v₁ h₁ hv₁
    · rw [Tx.bind_assoc]
      refine answerExisting_bind (q := q) (m := m) hv₁ (h₁.pending.trans hpending) he
        fun handled reply v₂ h₂ hb => ?_
      exact h handled reply v₂ (h₁.since.trans h₂) hb

/-- What a preparation that has stopped without a record is. -/
theorem ReleaseJob.stoppedNoRecord_status {job : ReleaseJob} (h : job.stoppedNoRecord = true) :
    job.status = .cancelled := by
  unfold ReleaseJob.stoppedNoRecord at h
  simp only [Bool.and_eq_true, decide_eq_true_eq] at h
  exact h.1.1.2

theorem createReleaseJob_bind {payload : ReleaseJobCreateRequest} {g : Handled × Reply → Txn β}
    (hv : contract.Good v) (hpending : v.pending = id) (he : ∀ e v', Q (.error e) v')
    (h : ∀ handled reply v', contract.Since v v' → Brings v' q m reply →
      (g (handled, reply)).Ensures contract.interference Q v') :
    ((createReleaseJob user payload raises).bind g).Ensures contract.interference Q v := by
  simp only [createReleaseJob, Tx.bind_eq, Tx.bind_assoc]
  refine Tx.Ensures.require_bind (fun _ => ?_) (fun _ _ _ => he _ _)
  -- from here on the row of the preparation is locked
  refine getVisibleJob_bind hv hpending he fun job v₁ h₁ hv₁ hkey hjob => ?_
  have hpending₁ := h₁.pending.trans hpending
  refine Tx.Ensures.require_bind (fun _ => ?_) (fun _ _ _ => he _ _)
  refine Tx.Ensures.require_bind (fun _ => ?_) (fun _ _ _ => he _ _)
  refine Tx.Ensures.require_bind (fun _ => ?_) (fun _ _ _ => he _ _)
  refine Tx.Ensures.require_bind (fun _ => ?_) (fun _ _ _ => he _ _)
  refine Tx.Ensures.require_bind (fun _ => ?_) (fun _ _ _ => he _ _)
  split
  · next hwaiting =>
      refine insertRelease_bind (q := q) (m := m) hv₁ hpending₁ hkey hjob ?_ ?_ he
        fun handled reply v₂ h₂ hb => h handled reply v₂ (h₁.since.trans h₂) hb
      · rw [hwaiting]
        rfl
      · rw [hwaiting]
        nofun
  · -- no answer is there: the confirmation of a preparation that has stopped
    have hforced : ∀ v₂, contract.Later v₁ v₂ → contract.Good v₂ →
        ((Tx.require (payload.force && job.stoppedNoRecord)
          (.http 409 "Release preparation is not ready")).bind fun _ =>
            (insertRelease user payload job (payload.force && job.stoppedNoRecord ||
              job.force)).bind g).Ensures contract.interference Q v₂ := by
      intro v₂ h₂ hv₂
      refine Tx.Ensures.require_bind (fun hforce => ?_) (fun _ _ _ => he _ _)
      have hstatus := ReleaseJob.stoppedNoRecord_status (Bool.and_eq_true_iff.mp hforce).2
      refine insertRelease_bind (q := q) (m := m) hv₂ (h₂.pending.trans hpending₁)
        (h₂.held hkey) (row_stable h₂.rel hv₁.1 hkey hjob) ?_ ?_ he
        fun handled reply v₃ h₃ hb => h handled reply v₃ ((h₁.trans h₂).since.trans h₃) hb
      · rw [hstatus]
        rfl
      · rw [hstatus]
        nofun
    split
    · rw [Tx.bind_assoc]
      refine existingReleaseResponse_bind (q := q) (m := m) hv₁ hpending₁ he
        (fun v₂ h₂ hv₂ => ?_) fun handled reply v₂ h₂ hb => ?_
      · simp only [Tx.bind_assoc]
        exact hforced v₂ h₂ hv₂
      · exact h handled reply v₂ (h₁.since.trans h₂) hb
    · rw [Tx.pure_eq, Tx.pure_bind]
      simp only [Tx.bind_assoc]
      exact hforced v₁ (Later.refl v₁) hv₁

theorem retryReleaseJob_bind {g : Handled × Reply → Txn β} (hv : contract.Good v)
    (hpending : v.pending = id) (he : ∀ e v', Q (.error e) v')
    (h : ∀ handled reply v', contract.Since v v' → Brings v' (.retryReleaseJob user i) m reply →
      (g (handled, reply)).Ensures contract.interference Q v') :
    ((retryReleaseJob user i raises).bind g).Ensures contract.interference Q v := by
  simp only [retryReleaseJob, Tx.bind_eq, Tx.bind_assoc]
  refine getVisibleJob_bind hv hpending he fun original v₁ h₁ hv₁ hkey horiginal => ?_
  have hpending₁ := h₁.pending.trans hpending
  refine Tx.Ensures.require_bind (fun _ => ?_) (fun _ _ _ => he _ _)
  refine Tx.Ensures.require_bind (fun hretryable => ?_) (fun _ _ _ => he _ _)
  refine Tx.Ensures.require_bind (fun _ => ?_) (fun _ _ _ => he _ _)
  rw [getActiveRetry, Tx.bind_eq, Tx.bind_assoc]
  refine hv₁.snapshot fun v₂ h₂ hv₂ => ?_
  have hpending₂ := h₂.pending.trans hpending₁
  rw [Tx.pure_eq, Tx.pure_bind, snapshot_eq hpending₂]
  split
  · exact answerExisting_bind (q := .retryReleaseJob user i) (m := m) hv₂ hpending₂ he
      fun handled reply v₃ h₃ hb =>
      h handled reply v₃ ((h₁.trans h₂).since.trans h₃) hb
  · next hnone =>
      have hunseen : ∀ j row, v₂.db.jobs.get? j = some row → row.retries i = true →
          row.visible user = false := by
        intro j row hrow hretries
        refine Bool.eq_false_iff.mpr fun hvisible => ?_
        have hmem : (j, row) ∈ (v₂.db.jobs.rows.filter fun r =>
            r.2.retries i && r.2.visible user).insertionSort createdEarlier := by
          rw [List.mem_insertionSort, List.mem_filter, Table.mem_rows]
          exact ⟨hrow, Bool.and_eq_true_iff.mpr ⟨hretries, hvisible⟩⟩
        rw [List.head?_eq_none_iff.mp hnone] at hmem
        cases hmem
      simp only [Tx.bind_assoc]
      refine hv₂.snapshot fun v₃ h₃ hv₃ => hv₃.nextSerial fun n v₄ h₄ hv₄ hserial _ hinv => ?_
      have hfresh : v₄.db.jobs.get? n = none := fresh_of_valid hinv
      have hpending₄ := h₄.pending.trans (h₃.pending.trans hpending₂)
      refine hv₄.update fun v₅ h₅ hv₅ => Good.update (v := v₅.queue _) hv₅ fun v₆ h₆ hv₆ => ?_
      have hl : contract.Since v₄ v₆ := h₅.since.trans h₆.since.of_queue
      have hl₂ : contract.Since v₂ v₆ := (h₃.trans h₄).since.trans hl
      refine h _ _ (v₆.queue _) ((h₁.trans h₂).since.trans hl₂) ⟨hv₆, fun jobs => jobs.insert n
        (original.retry i user v₃.snapshot.clock), ?_, fun v' hl' _ d₁ hjobs => ?_⟩
      · rw [View.queue_pending, h₆.pending, View.queue_pending, h₅.pending, hpending₄]
        exact (Writes.nothing.addJob n _).addEvent _
      · have hall := hl.trans hl'.since.of_queue
        have hall₂ := hl₂.trans hl'.since.of_queue
        have hkey₂ := h₂.held hkey
        have hrow₂ := row_stable h₂.rel hv₁.1 hkey horiginal
        exact .retried user n i _ original
          ⟨hall.held hserial, fresh_stable hall.rel hserial hfresh, rfl⟩ rfl rfl rfl rfl
          (hall₂.held hkey₂) (row_stable hall₂.rel hv₂.1 hkey₂ hrow₂) hretryable
          (unseen_stable hall₂.rel hv₂.1 hkey₂ hunseen) hjobs

end Requests

/-! ## The calls -/

section Calls

variable {i p : ℕ} {m : Option Memory}

theorem claimJobForExecution_bind {kind : ReleaseJobKind}
    {g : (ReleaseJob × Bool) × Reply → Txn β} (hv : contract.Good v) (hpending : v.pending = id)
    (he : ∀ e v', Q (.error e) v')
    (h : ∀ claim reply v', contract.Since v v' → Brings v' (.claimJob kind i) m reply →
      (∀ v'', contract.Later v' v'' → (∃ row, v''.db.jobs.get? i = some row ∧
        claim.1.kind = row.kind) ∧ (claim.2 = true → claim.1.kind = kind →
          reply = .claimed i ∧ claim.1.status = .running)) →
      (g (claim, reply)).Ensures contract.interference Q v') :
    ((claimJobForExecution kind i).bind g).Ensures contract.interference Q v := by
  simp only [claimJobForExecution, Tx.bind_eq, Tx.bind_assoc]
  refine hv.snapshot fun v₁ h₁ hv₁ => ?_
  refine Tx.Ensures.expect_bind (fun _ _ => ?_) (fun _ _ _ => he _ _)
  refine hv₁.acquire fun v₂ h₂ hv₂ hkey => hv₂.snapshot fun v₃ h₃ hv₃ => ?_
  have hl := (h₁.trans h₂).trans h₃
  have hpending₃ := hl.pending.trans hpending
  refine Tx.Ensures.expect_bind (fun job hjob => ?_) (fun _ _ _ => he _ _)
  rw [snapshot_eq hpending₃] at hjob
  have hkey₃ := h₃.held hkey
  have hw : Writes v₃.pending id := by
    rw [hpending₃]
    exact .nothing
  split
  · next hkind =>
      refine h _ _ v₃ hl.since (.quiet hv₃ hw) fun v' hl' => ?_
      exact ⟨⟨job, row_stable hl'.rel hv₃.1 hkey₃ hjob, rfl⟩, fun _ heq => absurd heq hkind⟩
  · split
    · refine h _ _ v₃ hl.since (.quiet hv₃ hw) fun v' hl' => ?_
      exact ⟨⟨job, row_stable hl'.rel hv₃.1 hkey₃ hjob, rfl⟩, nofun⟩
    · next hqueued =>
        have hqueued : job.status = .queued := not_not.mp hqueued
        simp only [Tx.bind_assoc]
        refine flush_bind hv₃ hw he fun v₄ h₄ hv₄ hflush => hv₄.update fun v₅ h₅ hv₅ => ?_
        have hlast := h₄.trans h₅.since
        refine h _ _ (v₅.queue _) (hl.since.trans hlast) ?_ fun v' hl' => ?_
        · rcases hflush with ⟨hsame, -⟩ | ⟨-, -, hw⟩
          · have hstatus : ReleaseJobStatus.running = job.status :=
              congrArg ReleaseJob.status hsame
            rw [hqueued] at hstatus
            cases hstatus
          · refine ⟨hv₅, fun jobs => jobs.modify i
              (ReleaseJob.flush job (job.claimed v₃.snapshot.clock)), ?_, ?_⟩
            · rw [View.queue_pending, h₅.pending]
              exact hw.addEvent _
            · intro v' hl' _ d₁ hjobs
              have hall := hlast.trans hl'.since.of_queue
              exact .claimed kind i job _ (hall.held hkey₃)
                (row_stable hall.rel hv₃.1 hkey₃ hjob) hqueued hjobs
        · have hall := hlast.trans hl'.since.of_queue
          exact ⟨⟨job, row_stable hall.rel hv₃.1 hkey₃ hjob, rfl⟩, fun _ _ => ⟨rfl, rfl⟩⟩

theorem commitObject_bind {q : Call} {set : ReleaseJob → ReleaseJob}
    {events : ReleaseJob → List ReleaseJobEvent} {g : Memory → Txn β} (hv : contract.Good v)
    (hpending : v.pending = id) (he : ∀ e v', Q (.error e) v')
    (hset : ∀ copy, q.object copy = set copy)
    (h : ∀ m₀ v', m = some m₀ → contract.Since v v' →
      (∀ reply, q.committed m₀.jobId = some reply → Brings v' q m reply) →
      (g { m₀ with base := set m₀.job, job := set m₀.job }).Ensures contract.interference Q v') :
    ((commitObject m set events).bind g).Ensures contract.interference Q v := by
  simp only [commitObject, Tx.bind_eq, Tx.bind_assoc]
  refine Tx.Ensures.expect_bind (fun m₀ hm => ?_) (fun _ _ _ => he _ _)
  have hw : Writes v.pending id := by
    rw [hpending]
    exact .nothing
  refine flush_bind hv hw he fun v₁ h₁ hv₁ hflush => hv₁.update fun v₂ h₂ hv₂ => ?_
  refine h m₀ (v₂.queue _) hm (h₁.trans h₂.since) fun reply hreply => ?_
  subst hm
  rcases hflush with ⟨-, hw⟩ | ⟨hkey, -, hw⟩
  · refine ⟨hv₂, id, ?_, fun v' _ _ d₁ hjobs => .flushed m₀ hreply (Or.inl hjobs)⟩
    rw [View.queue_pending, h₂.pending]
    exact hw.addEvents _
  · refine ⟨hv₂, fun jobs => jobs.modify m₀.jobId (ReleaseJob.flush m₀.base (set m₀.job)), ?_, ?_⟩
    · rw [View.queue_pending, h₂.pending]
      exact hw.addEvents _
    · intro v' hl' _ d₁ hjobs
      rw [← hset] at hjobs
      exact .flushed m₀ hreply (Or.inr ⟨hl'.held (h₂.held hkey), hjobs⟩)

theorem remember_bind {set : Instant → ReleaseJob → ReleaseJob} {g : Option Memory → Txn β}
    (hv : contract.Good v)
    (h : ∀ now v', contract.Later v v' → contract.Good v' →
      (g (m.map fun m => { m with job := set now m.job })).Ensures contract.interference Q v') :
    ((remember m set).bind g).Ensures contract.interference Q v := by
  simp only [remember, Tx.bind_eq, Tx.bind_assoc]
  exact hv.snapshot fun v₁ h₁ hv₁ => h _ v₁ h₁ hv₁

/-- **A call**: its effect, and what the process remembers. -/
theorem Call.run_bind {q : Call} {answer : String} {raises : Option Exc}
    {g : q.Result × Option Memory × Reply → Txn β} (hv : contract.Good v)
    (hpending : v.pending = id) (he : ∀ e v', Q (.error e) v')
    (h : ∀ result memory reply v', contract.Since v v' → Brings v' q m reply →
      (∀ v'', contract.Later v' v'' → q.Remembers v''.db m memory reply result) →
      (g (result, memory, reply)).Ensures contract.interference Q v') :
    ((q.run m answer raises).bind g).Ensures contract.interference Q v := by
  have hw : ∀ {v'}, contract.Later v v' → Writes v'.pending id := by
    intro v' hl
    rw [hl.pending, hpending]
    exact .nothing
  -- a call that does nothing to the store
  have hquiet : ∀ result memory, (∀ d, q.Remembers d m memory .quiet result) →
      (g (result, memory, .quiet)).Ensures contract.interference Q v := fun result memory hr =>
    h result memory .quiet v (Later.refl v).since (.quiet hv (hw (Later.refl v))) fun _ _ => hr _
  cases q with
  | prepare user plan =>
      simp only [Call.run, Tx.bind_eq, Tx.bind_assoc]
      exact prepare_bind hv hpending fun handled reply v' hl hb =>
        h handled m reply v' hl hb fun _ _ => rfl
  | createReleaseJob user payload =>
      simp only [Call.run, Tx.bind_eq, Tx.bind_assoc]
      exact createReleaseJob_bind hv hpending he fun handled reply v' hl hb =>
        h handled m reply v' hl hb fun _ _ => rfl
  | retryReleaseJob user jobId =>
      simp only [Call.run, Tx.bind_eq, Tx.bind_assoc]
      exact retryReleaseJob_bind hv hpending he fun handled reply v' hl hb =>
        h handled m reply v' hl hb fun _ _ => rfl
  | enqueue kind jobId => exact hquiet () m fun _ => rfl
  | markEnqueueFailed jobId copy hqueued =>
      simp only [Call.run, Tx.bind_eq, Tx.bind_assoc]
      exact markEnqueueFailed_bind hv hpending hqueued he fun v' hl hb =>
        h () m _ v' hl hb fun _ _ => rfl
  | confirmEnqueue jobId copy =>
      simp only [Call.run, Tx.bind_eq, Tx.bind_assoc]
      exact confirmEnqueue_bind hv hpending fun v' hl hb => h () m _ v' hl hb fun _ _ => rfl
  | claimJob kind jobId =>
      simp only [Call.run, Tx.bind_eq, Tx.bind_assoc]
      refine claimJobForExecution_bind (m := m) hv hpending he fun claim reply v' hl hb hclaim => ?_
      exact h claim _ reply v' hl hb fun v'' hl' => ⟨rfl, hclaim v'' hl'⟩
  | assign a =>
      simp only [Call.run, Tx.bind_eq, Tx.bind_assoc]
      refine remember_bind hv fun now v' hl hv' => ?_
      exact h () _ _ v' hl.since (.quiet hv' (hw hl)) fun _ _ => ⟨now, rfl⟩
  | settle a =>
      simp only [Call.run, Tx.bind_eq, Tx.bind_assoc]
      refine remember_bind hv fun now v' hl hv' => ?_
      exact h () _ _ v' hl.since (.quiet hv' (hw hl)) fun _ _ => ⟨now, rfl⟩
  | job =>
      simp only [Call.run, Tx.bind_eq, Tx.bind_assoc]
      exact Tx.Ensures.expect_bind (fun m₀ _ => hquiet m₀.job m fun _ => rfl)
        (fun _ _ _ => he _ _)
  | updateJobPhase phase =>
      simp only [Call.run, Tx.bind_eq, Tx.bind_assoc]
      refine commitObject_bind (q := .updateJobPhase phase) hv hpending he (fun _ => rfl)
        fun m₀ v' hm hl hb => ?_
      exact h () _ _ v' hl (hb _ rfl) fun _ _ => ⟨m₀, hm, rfl⟩
  | commitJobCheckpoint =>
      simp only [Call.run, Tx.bind_eq, Tx.bind_assoc]
      refine commitObject_bind (q := .commitJobCheckpoint) hv hpending he (fun _ => rfl)
        fun m₀ v' hm hl hb => ?_
      exact h () _ _ v' hl (hb _ rfl) fun _ _ => ⟨m₀, hm, rfl⟩
  | finish message =>
      simp only [Call.run, Tx.bind_eq, Tx.bind_assoc]
      refine commitObject_bind (q := .finish message) hv hpending he (fun _ => rfl)
        fun m₀ v' hm hl hb => ?_
      exact h () _ _ v' hl (hb _ rfl) fun _ _ => ⟨m₀, hm, rfl⟩
  | openSession => exact hquiet () _ fun _ => rfl
  | connect => exact hquiet () m fun _ => rfl
  | queryBefore => exact hquiet answer m fun _ => rfl
  | release =>
      simp only [Call.run, Tx.bind_eq, Tx.bind_assoc]
      refine Tx.Ensures.expect_bind (fun m₀ hm => ?_) (fun _ _ _ => he _ _)
      subst hm
      refine h answer _ _ v (Later.refl v).since ?_ fun _ _ => rfl
      exact ⟨hv, id, hw (Later.refl v), fun _ _ _ _ hjobs => .sent m₀ hjobs⟩
  | queryAfter => exact hquiet answer m fun _ => rfl
  | close => exact hquiet () m fun _ => rfl

end Calls

/-! ## The operations -/

section Operations

variable {p : ℕ}

theorem start_kept {op : Op} {program : Exec Answer} (hv : contract.Good v)
    (hpending : v.pending = id) (hsafe : program.Safe Guard (fun _ _ => True) [])
    (hdelivers : v.db.Delivers program) :
    (start p program).Ensures contract.interference (contract.Ended op ()) v := by
  simp only [start, Tx.bind_eq]
  refine hv.acquire fun v₁ h₁ hv₁ hkey => hv₁.snapshot fun v₂ h₂ hv₂ => ?_
  have hl := h₁.trans h₂
  have hpending₂ := hl.pending.trans hpending
  refine Tx.Ensures.require_bind (fun hnone => ?_) (fun _ _ _ => trivial)
  rw [snapshot_eq hpending₂, Option.isNone_iff_eq_none] at hnone
  refine hv₂.update fun v₃ h₃ hv₃ => ?_
  refine Good.pure (v := v₃.queue _) hv₃ fun v₄ h₄ hv₄ => ended_of_commit hv₄ ?_
  have hlast := h₃.since.trans h₄.since.of_queue
  have hkey₂ := h₂.held hkey
  rw [View.snapshot, h₄.pending, View.queue_pending, h₃.pending, hpending₂]
  refine .started op p program (hlast.held hkey₂) ?_ hsafe ?_
  · rw [process_stable hlast.rel hkey₂, hnone]
  · exact delivers_stable (hl.since.trans hlast).rel hv.1 hdelivers

/-- The program of a request does not begin with a claim. -/
theorem Request.program_delivers (r : Request) (d : Db) : d.Delivers r.program := by
  intro kind jobId k hk
  cases r with
  | prepare user plan => cases plan <;> cases hk
  | createReleaseJob user payload => cases hk
  | retryReleaseJob user jobId => cases hk

theorem deliver_kept (P : Platform) {jobId : ℕ} (hv : contract.Good v) (hpending : v.pending = id) :
    (deliver P p jobId).Ensures contract.interference (contract.Ended (.deliver p jobId) ()) v := by
  simp only [deliver, Tx.bind_eq]
  refine hv.snapshot fun v₁ h₁ hv₁ => ?_
  refine Tx.Ensures.expect_bind (fun job hjob => ?_) (fun _ _ _ => trivial)
  have hpending₁ := h₁.pending.trans hpending
  rw [snapshot_eq hpending₁] at hjob
  refine start_kept hv₁ hpending₁ (deliveredProgram_safe _ _) fun kind id k hk => ?_
  have hcall : kind = job.kind ∧ id = jobId := by
    revert hk
    cases job.kind with
    | preReleaseQuery => rintro ⟨⟩; exact ⟨rfl, rfl⟩
    | release => rintro ⟨⟩; exact ⟨rfl, rfl⟩
  obtain ⟨rfl, rfl⟩ := hcall
  exact ⟨job, hjob, rfl⟩

theorem move_kept {answer : String} {raises : Option Exc} (hv : contract.Good v)
    (hpending : v.pending = id) :
    (move p answer raises).Ensures contract.interference
      (contract.Ended (.move p answer raises) ()) v := by
  simp only [move, Tx.bind_eq]
  refine hv.acquire fun v₁ h₁ hv₁ hkey => hv₁.snapshot fun v₂ h₂ hv₂ => ?_
  have hpending₂ := (h₁.trans h₂).pending.trans hpending
  refine Tx.Ensures.expect_bind (fun proc hproc => ?_) (fun _ _ _ => trivial)
  rw [snapshot_eq hpending₂] at hproc
  split
  · next q k hrest =>
      refine Call.run_bind hv₂ hpending₂ (fun _ _ => trivial)
        fun result memory reply v₃ h₃ hb hremembers => ?_
      refine hb.1.update fun v₄ h₄ hv₄ => ?_
      refine Good.pure (v := v₄.queue _) hv₄ fun v₅ h₅ hv₅ => ended_of_commit hv₅ ?_
      have hlast := h₄.since.trans h₅.since.of_queue
      have hall := h₃.trans hlast
      have hkey₂ := h₂.held hkey
      obtain ⟨-, f, hw, heffect⟩ := hb
      have hwrites : v₅.snapshot =
          (v₃.pending v₅.db).putProcess p (proc.hear q k memory (.ok result)) := by
        rw [View.snapshot, h₅.pending, View.queue_pending, h₄.pending]
        rfl
      obtain ⟨hjobs, hprocesses⟩ := hw v₅.db
      -- the store may have moved since the call, but not what the call has read
      have hl : contract.Later v₃ { v₅ with pending := v₃.pending } := ⟨hlast, rfl⟩
      rw [hwrites]
      refine .moved p answer raises proc q k result memory reply _ (hall.held hkey₂) ?_ hrest ?_
        hprocesses ?_
      · rw [process_stable hall.rel hkey₂, hproc]
      · exact heffect _ hl hv₅ _ hjobs
      · exact hremembers { v₅ with pending := v₃.pending } hl
  · exact fun _ _ => trivial

theorem raise_kept {e : Exc} (hv : contract.Good v) (hpending : v.pending = id) :
    (raise p e).Ensures contract.interference (contract.Ended (.raise p e) ()) v := by
  simp only [raise, Tx.bind_eq]
  refine hv.acquire fun v₁ h₁ hv₁ hkey => hv₁.snapshot fun v₂ h₂ hv₂ => ?_
  have hpending₂ := (h₁.trans h₂).pending.trans hpending
  refine Tx.Ensures.expect_bind (fun proc hproc => ?_) (fun _ _ _ => trivial)
  rw [snapshot_eq hpending₂] at hproc
  split
  · next q k hrest =>
      refine Tx.Ensures.require_bind (fun _ => ?_) (fun _ _ _ => trivial)
      refine hv₂.update fun v₃ h₃ hv₃ => ?_
      refine Good.pure (v := v₃.queue _) hv₃ fun v₄ h₄ hv₄ => ended_of_commit hv₄ ?_
      have hlast := h₃.since.trans h₄.since.of_queue
      have hkey₂ := h₂.held hkey
      rw [View.snapshot, h₄.pending, View.queue_pending, h₃.pending, hpending₂]
      refine .raised p e proc q k (hlast.held hkey₂) ?_ hrest
      rw [process_stable hlast.rel hkey₂, hproc]
  · exact fun _ _ => trivial

/-- **Every operation keeps the contract.** -/
theorem body_kept (P : Platform) : contract.Kept (body P) := by
  intro op now v hinv hpending hheld
  have hv : contract.Good v := ⟨hinv, by simp [hheld]⟩
  cases op with
  | elapse time =>
      refine hv.update fun v₁ h₁ hv₁ => ?_
      refine Good.pure (v := v₁.queue _) hv₁ fun v₂ h₂ hv₂ => ended_of_commit hv₂ ?_
      rw [View.snapshot, h₂.pending, View.queue_pending, h₁.pending, hpending]
      exact .elapsed time
  | request p r => exact start_kept hv hpending r.program_safe (r.program_delivers _)
  | deliver p jobId => exact deliver_kept P hv hpending
  | move p answer raises => exact move_kept hv hpending
  | raise p e => exact raise_kept hv hpending

end Operations

section Runs

variable {P : Platform} {s : Application}

theorem Db.empty_valid : Db.empty.Valid 0 where
  numbered _ _ h := by cases h
  started _ _ h := by cases h
  retries _ _ _ h := by cases h
  preparations _ _ _ _ _ h := by cases h
  sound _ _ h := by cases h
  alone _ _ _ _ _ h := by cases h

theorem Application.Reachable.sound (h : Application.Reachable P s) : Sound contract s :=
  Sound.steps (body_kept P) (Sound.init Db.empty_valid) h

end Runs

end BindPlane.Legacy
