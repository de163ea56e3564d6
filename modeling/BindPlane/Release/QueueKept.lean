import BindPlane.Release.Interference

/-!
# The queue keeps the contract

The worker's transactions, statement by statement: for every shared statement one rule
that says what holds behind it, and for every operation the commit it ends in.

The rules are used forward.  `C.Later v v'` accumulates what the others may have done
since `v`, and the stability lemmas carry a fact about a locked row from the statement
that read it to the commit.
-/

namespace BindPlane

open ReadCommitted Contract

variable {P : Platform} {β : Type} {v : View Db Key}
  {Q : Except Failure β → View Db Key → Prop}

/-- `Newest` speaks of the job's own events only. -/
theorem newest_iff {e : JobEvent} {d : Db} :
    e.Newest d ↔ ∀ e' ∈ d.eventsOf e.jobId, e'.id < e.id := by
  simp [JobEvent.Newest, Db.eventsOf]

/-- An event that is the newest of a locked job stays it. -/
theorem newest_stable {K : Set (Resource Key)} {s s' : Db × ℕ}
    (h : (contract P).interference.rel K s s') {e : JobEvent} {j : Job}
    (hrow : .key (.job e.jobId) ∈ K) (hj : s.1.job? e.jobId = some j)
    (he : e.Newest s.1) : e.Newest s'.1 := by
  rw [newest_iff] at he ⊢
  rw [(job_stable h hrow hj).2]
  exact he

/-- An operation that ends in a commit under the contract. -/
theorem ended_of_commit {op : Op} {now : Instant} {r : Reply} (hv : (contract P).Good v)
    (hc : Commit P op now v.held v.db v.snapshot r)
    (hevents : ∀ e ∈ v.snapshot.events, e ∈ v.db.events ∨ (e.id < v.seq ∧ e.jobId < v.seq)) :
    (contract P).Ended (ε := Failure) op now (.ok r) v :=
  ⟨hc.bounded hv.1 hv.2 hevents, hc⟩

/-- An operation that ends without having written anything. -/
theorem ended_unchanged {op : Op} {now : Instant} {r : Reply} (hv : (contract P).Good v)
    (hpending : v.pending = id) (hc : Commit P op now v.held v.db v.db r) :
    (contract P).Ended (ε := Failure) op now (.ok r) v := by
  have hsame : v.snapshot = v.db := by rw [View.snapshot, hpending]; rfl
  refine ended_of_commit hv (hsame.symm ▸ hc) fun e he => .inl ?_
  rwa [hsame] at he

theorem snapshot_eq (h : v.pending = id) : v.snapshot = v.db := by
  rw [View.snapshot, h]
  rfl

/-! ## Statements -/

/-- The rows an `UPDATE` is about to write: locked, and satisfying its condition. -/
def Matching (v : View Db Key) (p : Job → Bool) (ids : List Id) : Prop :=
  ∀ id ∈ ids, .key (.job id) ∈ v.held ∧ ∃ j, v.db.job? id = some j ∧ p j

theorem Matching.later {v v' : View Db Key} {p : Job → Bool} {ids : List Id}
    (h : Matching v p ids) (hl : (contract P).Later v v') : Matching v' p ids := by
  intro id hid
  obtain ⟨hkey, j, hj, hp⟩ := h id hid
  exact ⟨hl.held hkey, j, (job_stable hl.rel hkey hj).1, hp⟩

theorem lockMatching_bind {p : Job → Bool} {rows : List Id} {g : List Id → Txn β}
    (hv : (contract P).Good v) (hpending : v.pending = id)
    (h : ∀ ids v', (contract P).Later v v' → (contract P).Good v' → ids.Sublist rows →
      Matching v' p ids → (g ids).Ensures (contract P).interference Q v') :
    ((lockMatching p rows).bind g).Ensures (contract P).interference Q v := by
  induction rows generalizing v g with
  | nil => exact h [] v (.refl v) hv (List.Sublist.refl _) (by simp [Matching])
  | cons id rows ih =>
      simp only [lockMatching, Tx.bind_eq, Tx.bind_assoc, Tx.pure_eq, Tx.pure_bind]
      refine hv.acquire fun v₁ h₁ hv₁ hkey => hv₁.snapshot fun v₂ h₂ hv₂ => ?_
      have hpending₂ := h₂.pending.trans (h₁.pending.trans hpending)
      refine ih hv₂ hpending₂ fun ids v' hl hv' hsub hmatch => ?_
      refine h _ v' (h₁.trans (h₂.trans hl)) hv' ?_ ?_
      · split
        · exact hsub.cons_cons id
        · exact hsub.cons id
      · rw [snapshot_eq hpending₂]
        split
        · next hp =>
            rw [Option.any_eq_true] at hp
            obtain ⟨j, hj, hp⟩ := hp
            have hkey₂ := h₂.held hkey
            intro i hi
            rcases List.mem_cons.mp hi with rfl | hi
            · exact ⟨hl.held hkey₂, j, (job_stable hl.rel hkey₂ hj).1, hp⟩
            · exact hmatch i hi
        · exact hmatch

theorem updateJobs_bind {rows : Db → List Id} {p : Job → Bool} {f : Job → Job}
    {g : List Id → Txn β} (hv : (contract P).Good v) (hpending : v.pending = id)
    (h : ∀ d ids v', (contract P).Later v v' → (contract P).Good v' →
      ids.Sublist (rows d) → Matching v' p ids →
      (g ids).Ensures (contract P).interference Q (v'.queue (·.modifyJobs ids f))) :
    ((updateJobs rows p f).bind g).Ensures (contract P).interference Q v := by
  simp only [updateJobs, Tx.bind_eq, Tx.bind_assoc, Tx.pure_eq, Tx.pure_bind]
  refine hv.snapshot fun v₁ h₁ hv₁ => ?_
  refine lockMatching_bind hv₁ (h₁.pending.trans hpending) fun ids v₂ h₂ hv₂ hsub hmatch => ?_
  refine hv₂.update fun v₃ h₃ hv₃ => ?_
  exact h _ ids v₃ (h₁.trans (h₂.trans h₃)) hv₃
    (hsub.trans List.filter_sublist) (hmatch.later h₃)

/-- An event appended to a log nobody else appends to is the newest of its job. -/
theorem insertEvent_bind {now : Instant} {jobId : Id} {phase : Phase} {status : Status}
    {message : Option String} {retryOfId : Option Id} {g : PUnit → Txn β}
    (hv : (contract P).Good v)
    (hown : ∀ v', (contract P).Later v v' → v'.db.eventsOf jobId = v.db.eventsOf jobId)
    (h : ∀ e v', (contract P).Later v v' → (contract P).Good v' → .serial e.id ∈ v'.held →
      e.Newest v'.db → e.jobId = jobId → e.phase = phase → e.status = status →
      (g ⟨⟩).Ensures (contract P).interference Q (v'.queue (·.addEvent e))) :
    ((insertEvent now jobId phase status message retryOfId).bind g).Ensures
      (contract P).interference Q v := by
  simp only [insertEvent, Tx.bind_eq, Tx.bind_assoc]
  refine hv.nextSerial fun n v₁ h₁ hv₁ hkey _ hbound => ?_
  refine hv₁.update fun v₂ h₂ hv₂ => ?_
  refine h _ v₂ (h₁.trans h₂) hv₂ (h₂.held hkey) ?_ rfl rfl rfl
  rw [newest_iff]
  intro e' he'
  rw [hown v₂ (h₁.trans h₂), ← hown v₁ h₁] at he'
  exact (hbound.event e' (List.mem_filter.mp he').1).1

/-- The log of a locked job is nobody else's. -/
theorem own_events {id : Id} {j : Job} (hkey : .key (.job id) ∈ v.held)
    (hj : v.db.job? id = some j) (v' : View Db Key) (hl : (contract P).Later v v') :
    v'.db.eventsOf id = v.db.eventsOf id := (job_stable hl.rel hkey hj).2

/-! ## checkpoint and heartbeat -/

private theorem sublist_singleton {α : Type} {l : List α} {a : α} (h : l.Sublist [a])
    (hne : l ≠ []) : l = [a] := by
  cases h with
  | cons _ h => exact absurd (List.sublist_nil.mp h) hne
  | cons_cons _ h => rw [List.sublist_nil.mp h]

theorem checkpoint_kept {now : Instant} {job : JobRef} {c : Checkpoint}
    (hv : (contract P).Good v) (hpending : v.pending = id) :
    (body P (.checkpoint job c) now).Ensures (contract P).interference
      ((contract P).Ended (.checkpoint job c) now) v := by
  refine wrap ?_
  simp only [checkpoint, Tx.bind_eq]
  refine updateJobs_bind hv hpending fun d ids v₁ h₁ hv₁ hsub hmatch => ?_
  refine Tx.Ensures.require_bind (fun hsome => ?_) (fun _ _ _ => trivial)
  have hids : ids = [job.id] := sublist_singleton hsub (by simpa using hsome)
  subst hids
  obtain ⟨hkey, j, hj, hlease⟩ := hmatch job.id (List.mem_singleton.mpr rfl)
  rw [← Tx.bind_pure (insertEvent ..)]
  refine insertEvent_bind hv₁ (own_events hkey hj) ?_
  intro e v₂ h₂ hv₂ hserial hnewest hjob hphase hstatus
  refine Good.finish (v := v₂.queue _) hv₂ fun v₃ h₃ hv₃ => ?_
  -- the row is the one the update locked, and the queue of writes is the two statements'
  have hj₃ : v₃.db.job? job.id = some j :=
    (job_stable h₃.rel (h₂.held hkey) (job_stable h₂.rel hkey hj).1).1
  have hnewest₃ : e.Newest v₃.db :=
    newest_stable h₃.rel (hjob ▸ h₂.held hkey) (hjob ▸ (job_stable h₂.rel hkey hj).1) hnewest
  have hsnap : v₃.snapshot =
      (v₃.db.modifyJob job.id (Job.checkpointed now c)).addEvent e := by
    rw [View.snapshot, h₃.pending, View.queue_pending, h₂.pending, View.queue_pending,
      h₁.pending, hpending]
    rfl
  have hcommit := Commit.saved (P := P) job c j e hj₃ hlease (h₃.held (h₂.held hkey))
    (h₃.held hserial) hnewest₃ ⟨hjob, hphase, hstatus⟩
  refine ended_of_commit hv₃ (hsnap ▸ hcommit) fun e' he' => ?_
  rw [hsnap, Db.events_addEvent, Db.events_modifyJob, List.mem_cons] at he'
  rcases he' with rfl | he'
  · exact .inr ⟨hv₃.2 _ (h₃.held hserial), hjob ▸ hv₃.1.job _ _ hj₃⟩
  · exact .inl he'

theorem heartbeat_kept {now : Instant} {job : JobRef}
    (hv : (contract P).Good v) (hpending : v.pending = id) :
    (body P (.heartbeat job) now).Ensures (contract P).interference
      ((contract P).Ended (.heartbeat job) now) v := by
  refine wrap ?_
  simp only [heartbeat, Tx.bind_eq, Tx.pure_eq]
  refine updateJobs_bind hv hpending fun d ids v₁ h₁ hv₁ hsub hmatch => ?_
  refine Good.finish (v := v₁.queue _) hv₁ fun v₂ h₂ hv₂ => ?_
  have hpending₂ : v₂.pending = fun d => d.modifyJobs ids (Job.extended now) := by
    rw [h₂.pending, View.queue_pending, h₁.pending, hpending]
    rfl
  by_cases hids : ids = []
  · subst hids
    exact ended_unchanged hv₂ hpending₂ (.missed job)
  · have hids := sublist_singleton hsub hids
    subst hids
    obtain ⟨hkey, j, hj, hlease⟩ := hmatch job.id (List.mem_singleton.mpr rfl)
    have hj₂ : v₂.db.job? job.id = some j := (job_stable h₂.rel hkey hj).1
    have hsnap : v₂.snapshot = v₂.db.modifyJob job.id (Job.extended now) := by
      rw [View.snapshot, hpending₂]
      rfl
    have hcommit := Commit.beat (P := P) job j hj₂ hlease (h₂.held hkey)
    refine ended_of_commit hv₂ (hsnap ▸ hcommit) fun e he => .inl ?_
    rwa [hsnap, Db.events_modifyJob] at he

/-! ## sweep_expired -/

/-- The events of a sweep, newest first: one for every row, each the newest of its job. -/
structure SweepLog (v : View Db Key) (ids : List Id) (es : List JobEvent) : Prop where
  jobs : es.map JobEvent.jobId = ids.reverse
  events : ∀ e ∈ es, e.Newest v.db ∧ .serial e.id ∈ v.held ∧ e.phase = .finished ∧
    e.status = .needsManualConfirmation

theorem sweepEvents_bind {now : Instant} {ids : List Id} {g : PUnit → Txn β}
    (hv : (contract P).Good v) {p : Job → Bool} (hmatch : Matching v p ids)
    (h : ∀ es v', (contract P).Later v v' → (contract P).Good v' → SweepLog v' ids es →
      (g ⟨⟩).Ensures (contract P).interference Q (v'.queue (·.addEvents es))) :
    ((sweepEvents now ids).bind g).Ensures (contract P).interference Q v := by
  induction ids generalizing v g with
  | nil =>
      have hlog : SweepLog v [] [] := ⟨rfl, by simp⟩
      exact h [] v (.refl v) hv hlog
  | cons id ids ih =>
      obtain ⟨hkey, j, hj, -⟩ := hmatch id List.mem_cons_self
      simp only [sweepEvents, Tx.bind_eq, Tx.bind_assoc]
      refine insertEvent_bind hv (own_events hkey hj) ?_
      intro e v₁ h₁ hv₁ hserial hnewest hjob hphase hstatus
      have hmatch₁ : Matching (v₁.queue (·.addEvent e)) p ids :=
        fun i hi => hmatch.later h₁ i (List.mem_cons_of_mem _ hi)
      refine ih (v := v₁.queue (·.addEvent e)) hv₁ hmatch₁ fun es v₂ h₂ hv₂ hlog => ?_
      have hnewest₂ : e.Newest v₂.db :=
        newest_stable h₂.rel (hjob ▸ h₁.held hkey) (hjob ▸ (job_stable h₁.rel hkey hj).1)
          hnewest
      -- the same queue of writes, with the first event under the later ones
      have hview : v₂.queue (·.addEvents es) =
          View.queue { v₂ with pending := v₁.pending } (·.addEvents (es ++ [e])) := by
        simp only [View.queue, h₂.pending, View.mk.injEq, true_and, and_true]
        funext d
        simp [Db.addEvents, Db.addEvent]
      rw [hview]
      refine h (es ++ [e]) { v₂ with pending := v₁.pending }
        ⟨h₁.since.trans h₂.since, h₁.pending⟩ hv₂ ⟨?_, fun e' he' => ?_⟩
      · simp [hlog.jobs, hjob]
      · rcases List.mem_append.mp he' with he' | he'
        · exact hlog.events e' he'
        · rw [List.mem_singleton] at he'
          subst he'
          exact ⟨hnewest₂, h₂.held hserial, hphase, hstatus⟩

theorem sweepExpired_kept {now : Instant} (hv : (contract P).Good v)
    (hpending : v.pending = id) :
    (body P .sweepExpired now).Ensures (contract P).interference
      ((contract P).Ended .sweepExpired now) v := by
  refine wrap ?_
  simp only [sweepExpired, Tx.bind_eq, Tx.pure_eq]
  refine updateJobs_bind hv hpending fun d ids v₁ h₁ hv₁ hsub hmatch => ?_
  refine sweepEvents_bind (v := v₁.queue _) hv₁ hmatch fun es v₂ h₂ hv₂ hlog => ?_
  refine Good.finish (v := v₂.queue _) hv₂ fun v₃ h₃ hv₃ => ?_
  have hmatch₂ : Matching v₂ (Job.expired now) ids := by
    intro id hid
    obtain ⟨hkey, j, hj, hexpired⟩ := hmatch id hid
    exact ⟨h₂.held hkey, j, (job_stable h₂.rel hkey hj).1, hexpired⟩
  have hsnap : v₃.snapshot = (v₃.db.modifyJobs ids (Job.swept now)).addEvents es := by
    rw [View.snapshot, h₃.pending, View.queue_pending, h₂.pending, View.queue_pending,
      h₁.pending, hpending]
    rfl
  -- every event is of a swept row, so it stays the newest of its job until the commit
  have hevents : ∀ e ∈ es, e.Newest v₃.db ∧ .serial e.id ∈ v₃.held ∧ e.phase = .finished ∧
      e.status = .needsManualConfirmation := by
    intro e he
    obtain ⟨hnewest, hserial, hphase, hstatus⟩ := hlog.events e he
    have hid : e.jobId ∈ ids := by
      rw [← List.mem_reverse, ← hlog.jobs]
      exact List.mem_map_of_mem he
    obtain ⟨hkey, j, hj, -⟩ := hmatch₂ e.jobId hid
    exact ⟨newest_stable h₃.rel hkey hj hnewest, h₃.held hserial, hphase, hstatus⟩
  have hrows : ∀ id ∈ ids, .key (.job id) ∈ v₃.held ∧
      ∃ j, v₃.db.job? id = some j ∧ j.expired now := by
    intro id hid
    obtain ⟨hkey, j, hj, hexpired⟩ := hmatch₂ id hid
    exact ⟨h₃.held hkey, j, (job_stable h₃.rel hkey hj).1, hexpired⟩
  have hcommit := Commit.swept (P := P) ids es (hsub.nodup d.jobs.keys_nodup) hrows hlog.jobs
    hevents
  refine ended_of_commit hv₃ (hsnap ▸ hcommit) fun e he => ?_
  rw [hsnap, Db.events_addEvents, Db.modifyJobs_events, List.mem_append] at he
  rcases he with he | he
  · have hid : e.jobId ∈ ids := by
      rw [← List.mem_reverse, ← hlog.jobs]
      exact List.mem_map_of_mem he
    obtain ⟨-, j, hj, -⟩ := hrows e.jobId hid
    exact .inr ⟨hv₃.2 _ (hevents e he).2.1, hv₃.1.job _ _ hj⟩
  · exact .inl he

/-! ## claim -/

theorem pickQueued_bind {s : Db} {queue : List Id} {g : Option (Id × Job) → Txn β}
    (hv : (contract P).Good v) (hpending : v.pending = id)
    (hnone : ∀ v', (contract P).Later v v' → (contract P).Good v' →
      (g none).Ensures (contract P).interference Q v')
    (hsome : ∀ i j v', (contract P).Later v v' → (contract P).Good v' →
      .key (.job i) ∈ v'.held → v'.db.job? i = some j → s.claimable i j →
      (g (some (i, j))).Ensures (contract P).interference Q v') :
    ((pickQueued s queue).bind g).Ensures (contract P).interference Q v := by
  induction queue generalizing v with
  | nil => exact hnone v (.refl v) hv
  | cons i queue ih =>
      simp only [pickQueued, Tx.bind_eq, Tx.bind_assoc, Tx.pure_eq]
      have hrest : ∀ v', (contract P).Later v v' → (contract P).Good v' →
          ((pickQueued s queue).bind g).Ensures (contract P).interference Q v' := by
        intro v' hl hv'
        exact ih hv' (hl.pending.trans hpending)
          (fun v'' hl' => hnone v'' (hl.trans hl'))
          (fun i j v'' hl' => hsome i j v'' (hl.trans hl'))
      refine hv.tryAcquire (fun v₁ h₁ hv₁ hkey => ?_) (fun v₁ h₁ hv₁ => ?_)
      · refine hv₁.snapshot fun v₂ h₂ hv₂ => ?_
        rw [snapshot_eq (h₂.pending.trans (h₁.pending.trans hpending))]
        split
        · next j hj =>
            simp only [Bool.true_and, Option.filter_eq_some_iff] at hj
            exact hsome i j v₂ (h₁.trans h₂) hv₂ (h₂.held hkey) hj.1 hj.2
        · exact hrest v₂ (h₁.trans h₂) hv₂
      · refine hv₁.snapshot fun v₂ h₂ hv₂ => ?_
        split
        · next j hj => simp at hj
        · exact hrest v₂ (h₁.trans h₂) hv₂

/-- The update of `claim`, behind its checks. -/
theorem startJob_kept {now : Instant} {i : Id} {j : Job} (hv : (contract P).Good v)
    (hpending : v.pending = id) (hkey : .key (.job i) ∈ v.held) (hj : v.db.job? i = some j)
    (hqueued : j.status = .queued)
    (hbarrier : j.kind = .release →
      .key (.address (P.hashtextextended j.targetIp)) ∈ v.held ∧
        v.db.blockedBy j.targetIp (some i) = false) :
    (startJob now i j).Ensures (contract P).interference
      ((contract P).Finishes .claim now Reply.claimed) v := by
  simp only [startJob, Tx.bind_eq, Tx.pure_eq]
  -- the index entry only adds a lock, or raises
  have hindex : ∀ {g : PUnit → Txn (Option ClaimedJob)} {Q},
      (∀ e v', Q (Except.error e) v') →
      (∀ v', (contract P).Later v v' → (contract P).Good v' →
        (g ⟨⟩).Ensures (contract P).interference Q v') →
      ((enterRunningIndex i j).bind g).Ensures (contract P).interference Q v := by
    intro g Q hQ h
    unfold enterRunningIndex
    split
    · simp only [Tx.bind_eq, Tx.bind_assoc]
      refine hv.acquire fun v₁ h₁ hv₁ _ => hv₁.snapshot fun v₂ h₂ hv₂ => ?_
      exact Tx.Ensures.require_bind (fun _ => h v₂ (h₁.trans h₂) hv₂) (fun _ _ _ => hQ _ _)
    · exact h v (.refl v) hv
  refine hindex (fun _ _ => trivial) fun v₁ h₁ hv₁ => ?_
  refine hv₁.nextSerial fun token v₂ h₂ hv₂ htoken _ _ => ?_
  refine hv₂.update fun v₃ h₃ hv₃ => Good.finish hv₃ fun v₄ h₄ hv₄ => ?_
  have hl : (contract P).Since v v₄ :=
    h₁.since.trans (h₂.since.trans (h₃.since.trans h₄.since))
  have hj₄ : v₄.db.job? i = some j := (job_stable hl.rel hkey hj).1
  have hsnap : v₄.snapshot = v₄.db.modifyJob i (Job.started now token) := by
    rw [View.snapshot, h₄.pending, View.queue_pending, h₃.pending, h₂.pending, h₁.pending,
      hpending]
    rfl
  have hbarrier₄ : j.kind = .release → .key (.address (P.hashtextextended j.targetIp)) ∈ v₄.held ∧
      v₄.db.blockedBy j.targetIp (some i) = false := by
    intro hkind
    obtain ⟨haddress, hfree⟩ := hbarrier hkind
    exact ⟨hl.held haddress, barrier_stable hl.rel haddress hfree⟩
  have hcommit : Commit P .claim now v₄.held v₄.db (v₄.db.modifyJob i (Job.started now token))
      (.claimed (some (j.claimed i token))) :=
    .started i j token hj₄ hqueued (hl.held hkey) (h₄.held (h₃.held htoken)) hbarrier₄
  refine ended_of_commit hv₄ (hsnap ▸ hcommit) fun e he => .inl ?_
  rwa [hsnap, Db.events_modifyJob] at he

theorem claim_kept {now : Instant} (hv : (contract P).Good v) (hpending : v.pending = id) :
    (body P .claim now).Ensures (contract P).interference ((contract P).Ended .claim now) v := by
  refine wrap ?_
  simp only [claim, Tx.bind_eq, Tx.pure_eq]
  have hidle : ∀ v', (contract P).Later v v' → (contract P).Good v' →
      (Tx.pure none : Txn (Option ClaimedJob)).Ensures (contract P).interference
        ((contract P).Finishes .claim now Reply.claimed) v' := by
    intro v' hl hv'
    refine Good.finish hv' fun v'' hl' hv'' => ?_
    exact ended_unchanged hv'' (hl'.pending.trans (hl.pending.trans hpending)) .idle
  refine hv.snapshot fun v₁ h₁ hv₁ => ?_
  refine pickQueued_bind hv₁ (h₁.pending.trans hpending)
    (fun v' hl hv' => hidle v' (h₁.trans hl) hv') ?_
  intro i j v₂ h₂ hv₂ hkey hj hclaimable
  have hpending₂ := h₂.pending.trans (h₁.pending.trans hpending)
  have hqueued : j.status = .queued := by
    simp only [Db.claimable, Bool.and_eq_true, decide_eq_true_eq] at hclaimable
    exact hclaimable.1
  show Tx.Ensures _ _ (if j.kind = .release then _ else _) v₂
  split
  · next hkind =>
      refine hv₂.acquire fun v₃ h₃ hv₃ haddress => hv₃.snapshot fun v₄ h₄ hv₄ => ?_
      have hpending₄ := h₄.pending.trans (h₃.pending.trans hpending₂)
      rw [snapshot_eq hpending₄]
      split
      · exact hidle v₄ (h₁.trans (h₂.trans (h₃.trans h₄))) hv₄
      · next hfree =>
          have hl := h₃.trans h₄
          exact startJob_kept hv₄ hpending₄ (hl.held hkey) (job_stable hl.rel hkey hj).1
            hqueued fun _ => ⟨h₄.held haddress, by simpa using hfree⟩
  · next hkind =>
      exact startJob_kept hv₂ hpending₂ hkey hj hqueued fun h => absurd h hkind

/-! ## load_dependencies -/

theorem loadDependencies_kept {now : Instant} {switchId profileId : Id}
    (hv : (contract P).Good v) (hpending : v.pending = id) :
    (body P (.loadDependencies switchId profileId) now).Ensures (contract P).interference
      ((contract P).Ended (.loadDependencies switchId profileId) now) v := by
  refine wrap ?_
  simp only [loadDependencies, Tx.bind_eq, Tx.pure_eq]
  refine hv.snapshot fun v₁ h₁ hv₁ => Good.finish hv₁ fun v₂ h₂ hv₂ => ?_
  rw [snapshot_eq (h₁.pending.trans hpending)]
  refine ended_unchanged hv₂ (h₂.pending.trans (h₁.pending.trans hpending)) ?_
  refine Commit.loaded switchId profileId _ fun r hr => ?_
  simp only [Option.mem_def, Option.filter_eq_some_iff, decide_eq_true_eq] at hr
  obtain ⟨hid, hseen⟩ := Db.seenJoined_of_usableSwitch hr.1
  exact ⟨hid, hr.2, hseen.grows (grows_stable h₂.rel)⟩

end BindPlane
