import BindPlane.Release.Claims

/-!
# The next sweep

What `sweep_expired` does once it begins: it gives up on every running job whose lease has
expired, as long as nobody else holds a row it has to lock.  `Sys.Advances` runs its
statements; the locks of all other rows do not matter to it.

This is the only result here that promises something to happen, and not only that nothing bad does.
The sweep is run with the rows that it locks free.  Where somebody holds one of them it waits, and
tests the condition of the row once more when it gets the lock; what is still expired then is given
up as well.
-/

namespace BindPlane

open ReadCommitted

section Solo

variable {free : Key → Bool} {d : Db} {now : Instant} {β : Type}

/-- Alone, the rows are locked one by one and those that still satisfy the condition kept. -/
theorem lockMatching_solo {p : Job → Bool} {ids : List Id}
    (hfree : ∀ i ∈ ids, free (.job i) = true) {w : Db → Db} {n : ℕ} (g : List Id → Txn β) :
    ((lockMatching p ids).bind g).solo free d w n =
      (g (ids.filter fun i => ((w d).job? i).any p)).solo free d w n := by
  induction ids generalizing g with
  | nil => rfl
  | cons i ids ih =>
      have hi : free (.job i) = true := hfree i (.head _)
      have hrest : ∀ i' ∈ ids, free (.job i') = true := fun i' hi' => hfree i' (.tail _ hi')
      simp only [lockMatching, Tx.bind_eq, Tx.pure_eq, Tx.bind_assoc, Tx.pure_bind]
      simp only [Tx.acquire, Tx.snapshot, Tx.bind, Tx.solo, hi, if_true]
      rw [ih hrest, List.filter_cons]

/-- Alone, one event after the other is written, and no job row with them. -/
theorem sweepEvents_solo (ids : List Id) (w : Db → Db) (n : ℕ) (g : PUnit → Txn β) :
    ∃ w' n', ((sweepEvents now ids).bind g).solo free d w n = (g ⟨⟩).solo free d w' n' ∧
      ∀ i, (w' d).job? i = (w d).job? i := by
  induction ids generalizing w n with
  | nil => exact ⟨w, n, rfl, fun _ => rfl⟩
  | cons i ids ih =>
      let e : JobEvent := ⟨n, i, .finished, .needsManualConfirmation,
        some "Worker lease expired", none, now⟩
      obtain ⟨w', n', hsolo, hjob⟩ := ih ((·.addEvent e) ∘ w) (n + 1)
      exact ⟨w', n', hsolo, fun i' => hjob i'⟩

/-- **Alone, a sweep gives up on every expired job.** -/
theorem sweepExpired_solo {P : Platform} {id : Id} {j : Job} (hj : d.job? id = some j)
    (hexpired : j.expired now)
    (hfree : ∀ i j, d.job? i = some j → j.expired now → free (.job i) = true) (n : ℕ) :
    ∃ ids d' n', (body P .sweepExpired now).solo free d (fun d => d) n =
        some (.ok (.swept ids, d', n')) ∧ d'.job? id = some (j.swept now) := by
  let rows : List Id := d.jobs.keys.filter fun i => (d.job? i).any (Job.expired now)
  have hrow : ∀ {i}, i ∈ rows ↔ ∃ j, d.job? i = some j ∧ j.expired now := by
    intro i
    simp only [rows, List.mem_filter, Option.any_eq_true]
    refine and_iff_right_of_imp ?_
    rintro ⟨j, hj, -⟩
    exact AList.mem_keys.mpr (AList.lookup_isSome.mp (by rw [Db.job?] at hj; rw [hj]; rfl))
  have hkept : rows.filter (fun i => (d.job? i).any (Job.expired now)) = rows := by
    rw [List.filter_filter]
    simp only [Bool.and_self, rows]
  have hnodup : rows.Nodup := d.jobs.keys_nodup.filter _
  let done : PUnit → Txn Reply := fun _ => .pure (.swept rows)
  obtain ⟨w', n', hevents, hjob⟩ :
      ∃ w' n', ((sweepEvents now rows).bind done).solo free d
          ((·.modifyJobs rows (Job.swept now)) ∘ fun d => d) n = (done ⟨⟩).solo free d w' n' ∧
        ∀ i, (w' d).job? i = (d.modifyJobs rows (Job.swept now)).job? i :=
    sweepEvents_solo rows _ n done
  refine ⟨rows, w' d, n', ?_, ?_⟩
  · simp only [body, sweepExpired, updateJobs, Tx.bind_eq, Tx.pure_eq, Tx.bind_assoc,
      Tx.pure_bind]
    rw [Tx.snapshot, Tx.bind, Tx.solo, Tx.pure_bind, lockMatching_solo]
    · rw [hkept]
      simp only [Tx.update, Tx.bind, Tx.solo]
      rw [hevents, Tx.solo]
    · intro i hi
      obtain ⟨j, hj, he⟩ := hrow.mp hi
      exact hfree i j hj he
  · rw [hjob, Db.job?_modifyJobs d hnodup, if_pos (hrow.mpr ⟨j, hj, hexpired⟩), hj]
    rfl

end Solo

/-- A running job has a lease. -/
def Db.Leased (d : Db) : Prop :=
  ∀ id j, d.job? id = some j → j.status = .running → ∃ u, j.leaseUntil = some u

theorem Commit.leased {P : Platform} {op : Op} {now : Instant} {K : Set (Resource Key)}
    {d d' : Db} {r : Reply} (h : Commit P op now K d d' r) (hd : d.Leased) : d'.Leased := by
  intro id j hj hrunning
  cases h.jobStep id with
  | same hjob => exact hd id j (hjob ▸ hj) hrunning
  | queued j₀ e he =>
      rw [he.job?, if_pos rfl] at hj
      cases hj
      rw [he.status.1] at hrunning
      cases hrunning
  | started j₀ token _ _ _ _ hjob =>
      rw [hjob] at hj
      cases hj
      exact ⟨_, rfl⟩
  | checkpointed j₀ token c e _ _ _ hjob =>
      rw [hjob] at hj
      cases hj
      exact ⟨_, if_pos hrunning⟩
  | extended j₀ token _ _ _ hjob =>
      rw [hjob] at hj
      cases hj
      exact ⟨_, rfl⟩
  | swept j₀ e _ _ _ hjob =>
      rw [hjob] at hj
      cases hj
      cases hrunning

theorem Queue.Reachable.leased {P : Platform} {s : Queue} (h : s.Reachable P) : s.db.Leased :=
  h.induct (by intro id j hj; simp [Db.empty, Db.job?] at hj) fun hc hd => hc.leased hd

/-- **The next sweep.**  A sweep that begins when a job's lease has expired, and finds no
expired row locked by somebody else, ends with the job uncertain.

The statements of the sweep are executed one after the other: the rows are locked, their conditions
tested again, and the update and the events are written.  Nothing in this needs the executor of the
job, which may be dead. -/
theorem Queue.next_sweep {P : Platform} {s : Queue} {t : ℕ} {now : Instant} {id : Id} {j : Job}
    (ht : s.txns t = .requested .sweepExpired) (hj : s.db.job? id = some j)
    (hexpired : j.expired now)
    (hfree : ∀ i j, s.db.job? i = some j → j.expired now → s.locks (.key (.job i)) = none) :
    ∃ s₀ s', s.step (body P) (.begin t now) = some s₀ ∧ Sys.Advances (body P) t s₀ s' ∧
      (∃ ids, s'.txns t = .committed .sweepExpired now (.swept ids)) ∧
      s'.db.job? id = some (j.swept now) := by
  classical
  let free : Key → Bool := fun key => ∀ t', s.locks (.key key) = some t' → t' = t
  let s₀ : Queue := s.set t (.active .sweepExpired now (fun d => d) (body P .sweepExpired now))
  have hbegin : s.step (body P) (.begin t now) = some s₀ := by
    simp only [Sys.step, ht]
    rfl
  have hrows : ∀ i j, s.db.job? i = some j → j.expired now → free (.job i) = true :=
    fun i j hj he => by simp [free, hfree i j hj he]
  obtain ⟨ids, d', n', hsolo, hswept⟩ : ∃ ids d' n',
      (body P .sweepExpired now).solo free s.db (fun d => d) s.seq =
        some (.ok (.swept ids, d', n')) ∧ d'.job? id = some (j.swept now) :=
    sweepExpired_solo hj hexpired hrows s.seq
  obtain ⟨s', hs', htx, hdb, -⟩ : ∃ s', Sys.Advances (body P) t s₀ s' ∧
      s'.txns t = .committed .sweepExpired now (.swept ids) ∧ s'.db = d' ∧ s'.seq = n' :=
    solo_steps (s := s₀) _ (Function.update_self ..) (fun key => by simp [free, s₀]) hsolo
  exact ⟨s₀, s', hbegin, hs', ⟨ids, htx⟩, hdb ▸ hswept⟩

end BindPlane
