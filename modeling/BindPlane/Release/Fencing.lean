import BindPlane.Release.Exclusion

/-!
# The fence

A job is started once, and what its executor may still write is decided by the row
alone: a row that has left `running` never changes again, a checkpoint whose token is
not the row's writes nothing, and the event log follows the row.

All of it is read off `JobStep`: the status of a row only moves on, from queued to
running to its last one, and every write but a claim and a heartbeat comes with the
event that says it.

**Order.**  The status of a row has an order, and every step keeps it.  From this follow that a job
is started once, that a settled row stays as it is, and that the token in a running row is that of
its claim.  The event log is a second account of the same: it is compared with the row in every
reachable state, so that a reader of the log is never told anything that the row did not have.
-/

namespace BindPlane

open ReadCommitted

section Row

variable {P : Platform} {op : Op} {now : Instant} {K : Set (Resource Key)} {d d' : Db}
  {r : Reply} {id : Id}

/-- A row that has left `running` does not change. -/
theorem JobStep.settled (h : JobStep P op now K d d' r id) {j : Job} (hj : d.job? id = some j)
    (hq : j.status ≠ .queued) (hr : j.status ≠ .running) : d'.job? id = some j := by
  cases h with
  | same hjob => exact hjob.trans hj
  | queued j₀ e hd => rw [hd.fresh] at hj; cases hj
  | started j₀ token _ _ hj₀ hqueued =>
      rw [hj] at hj₀
      cases hj₀
      exact absurd hqueued hq
  | checkpointed j₀ token c e _ hj₀ hlease =>
      rw [hj] at hj₀
      cases hj₀
      exact absurd (Job.holds_iff.mp hlease).2.1 hr
  | extended j₀ token _ hj₀ hlease =>
      rw [hj] at hj₀
      cases hj₀
      exact absurd (Job.holds_iff.mp hlease).2.1 hr
  | swept j₀ e _ hj₀ hexpired =>
      rw [hj] at hj₀
      cases hj₀
      exact absurd (Job.expired_iff.mp hexpired).1 hr

/-- Nothing queues a row again. -/
theorem JobStep.not_requeued (h : JobStep P op now K d d' r id) {j j' : Job}
    (hj : d.job? id = some j) (hq : j.status ≠ .queued) (hj' : d'.job? id = some j') :
    j'.status ≠ .queued := by
  cases h with
  | same hjob => rw [hjob, hj] at hj'; cases hj'; exact hq
  | queued j₀ e hd => rw [hd.fresh] at hj; cases hj
  | started j₀ token _ _ _ _ hjob => rw [hjob] at hj'; cases hj'; simp [Job.started]
  | checkpointed j₀ token c e _ _ _ hjob => rw [hjob] at hj'; cases hj'; exact c.status_ne
  | extended j₀ token _ hj₀ _ hjob =>
      rw [hj] at hj₀
      cases hj₀
      rw [hjob] at hj'
      cases hj'
      exact hq
  | swept j₀ e _ _ _ hjob => rw [hjob] at hj'; cases hj'; simp [Job.swept]

/-- The executor with this token may no longer write to a row: the row was claimed, and
it is not running or carries another token. -/
def Job.Revoked (token : Id) (j : Job) : Prop :=
  j.status ≠ .queued ∧ (j.status ≠ .running ∨ j.leaseToken ≠ some token)

/-- A revoked token stays revoked. -/
theorem JobStep.revoked (h : JobStep P op now K d d' r id) {token : Id} {j j' : Job}
    (hj : d.job? id = some j) (hrev : j.Revoked token) (hj' : d'.job? id = some j') :
    j'.Revoked token := by
  refine ⟨h.not_requeued hj hrev.1 hj', ?_⟩
  cases h with
  | same hjob => rw [hjob, hj] at hj'; cases hj'; exact hrev.2
  | queued j₀ e hd => rw [hd.fresh] at hj; cases hj
  | started j₀ token _ _ hj₀ hqueued =>
      rw [hj] at hj₀
      cases hj₀
      exact absurd hqueued hrev.1
  | checkpointed j₀ token' c e _ hj₀ hlease hjob =>
      rw [hj] at hj₀
      cases hj₀
      rw [hjob] at hj'
      cases hj'
      have htoken := hrev.2.resolve_left (not_not.mpr (Job.holds_iff.mp hlease).2.1)
      by_cases hc : c.status = .running
      · exact .inr (by simpa [Job.checkpointed, hc] using htoken)
      · exact .inl hc
  | extended j₀ token' _ hj₀ _ hjob =>
      rw [hj] at hj₀
      cases hj₀
      rw [hjob] at hj'
      cases hj'
      exact hrev.2
  | swept j₀ e _ _ _ hjob =>
      rw [hjob] at hj'
      cases hj'
      exact .inl (by simp [Job.swept])

end Row

/-! ## Runs -/

/-- What a run does to one row: as `JobStep`, for any number of commits. -/
theorem Queue.Reachable.steps_row {P : Platform} {s s' : Queue} (h : s.Reachable P)
    (hs : Queue.Steps P s s') {id : Id} {I : Option Job → Prop}
    (hstep : ∀ {op now K d d' r}, JobStep P op now K d d' r id → I (d.job? id) → I (d'.job? id))
    (h₀ : I (s.db.job? id)) : I (s'.db.job? id) :=
  Sound.steps_db (service_kept P) (P := fun d => I (d.job? id))
    (fun {_ _ _ _ _ _} (hc : Commit P _ _ _ _ _ _) hd => hstep (hc.jobStep id) hd) h.sound hs h₀

/-- A row that has left `running` is the same in every later state. -/
theorem Queue.Reachable.settled {P : Platform} {s s' : Queue} (h : s.Reachable P)
    (hs : Queue.Steps P s s') {id : Id} {j : Job} (hj : s.db.job? id = some j)
    (hq : j.status ≠ .queued) (hr : j.status ≠ .running) : s'.db.job? id = some j :=
  h.steps_row hs (I := (· = some j)) (fun hc hd => hc.settled hd hq hr) hj

/-- A row that is not queued is not queued in any later state. -/
theorem Queue.Reachable.not_requeued {P : Platform} {s s' : Queue} (h : s.Reachable P)
    (hs : Queue.Steps P s s') {id : Id} {j : Job} (hj : s.db.job? id = some j)
    (hq : j.status ≠ .queued) : ∃ j', s'.db.job? id = some j' ∧ j'.status ≠ .queued :=
  h.steps_row hs (I := fun o => ∃ j, o = some j ∧ j.status ≠ .queued)
    (fun hc ⟨j, hj, hq⟩ => by
      obtain ⟨j', hj', -⟩ := hc.kept hj
      exact ⟨j', hj', hc.not_requeued hj hq hj'⟩) ⟨j, hj, hq⟩

/-- A revoked token is revoked in every later state. -/
theorem Queue.Reachable.revoked {P : Platform} {s s' : Queue} (h : s.Reachable P)
    (hs : Queue.Steps P s s') {id token : Id} {j : Job} (hj : s.db.job? id = some j)
    (hrev : j.Revoked token) : ∃ j', s'.db.job? id = some j' ∧ j'.Revoked token :=
  h.steps_row hs (I := fun o => ∃ j, o = some j ∧ j.Revoked token)
    (fun hc ⟨j, hj, hrev⟩ => by
      obtain ⟨j', hj', -⟩ := hc.kept hj
      exact ⟨j', hj', hc.revoked hj hrev hj'⟩) ⟨j, hj, hrev⟩

/-- How often job `id` goes from queued to running along a list of actions. -/
def Queue.starts (P : Platform) (id : Id) : Queue → List QueueAction → ℕ
  | _, [] => 0
  | s, a :: as =>
      match s.step (body P) a with
      | none => Queue.starts P id s as
      | some s' =>
          (if (s.db.job? id).any (·.status = .queued) ∧
              (s'.db.job? id).any (·.status = .running) then 1 else 0) +
            Queue.starts P id s' as

theorem Queue.starts_le_one {P : Platform} {id : Id} (as : List QueueAction) :
    ∀ {s : Queue}, s.Reachable P → s.starts P id as ≤ 1 ∧
      ((∃ j, s.db.job? id = some j ∧ j.status ≠ .queued) → s.starts P id as = 0) := by
  induction as with
  | nil => exact fun _ => ⟨Nat.zero_le _, fun _ => rfl⟩
  | cons a as ih =>
      intro s h
      rw [Queue.starts]
      split
      · exact ih h
      · next s' hs =>
          have hstep : Queue.Steps P s s' := .single ⟨a, hs⟩
          obtain ⟨hle, hzero⟩ := ih (h.trans hstep)
          constructor
          · split
            · next hstart =>
                have hrunning : ∃ j, s'.db.job? id = some j ∧ j.status ≠ .queued := by
                  obtain ⟨j, hj, hr⟩ := (Option.any_eq_true _ _).mp hstart.2
                  exact ⟨j, hj, by simp [of_decide_eq_true hr]⟩
                rw [hzero hrunning]
            · rw [Nat.zero_add]
              exact hle
          · rintro ⟨j, hj, hq⟩
            rw [if_neg (by simp [hj, hq]), hzero (h.not_requeued hstep hj hq)]

/-- From here on, no step of transaction `t` changes the store.

This is about the future as well: the transaction may have been begun and wait for a lock, and the
row may be written by others before it goes on.  Whatever happens, its commit finds the condition of
its update false. -/
def Queue.Silent (P : Platform) (s : Queue) (t : ℕ) : Prop :=
  ∀ s' s'' a, Queue.Steps P s s' → s'.step (body P) a = some s'' → a.txn = t → s''.db = s'.db

/-- A transaction that can only end in an exception is silent. -/
theorem Queue.silent_of_tracked {P : Platform} {s : Queue} {t : ℕ} (h : s.Reachable P)
    (htracked : Tracked (contract P) (body P) (fun r => ∃ e, r = .error e) s t) :
    s.Silent P t := by
  intro s' s'' a hs ha ht
  have hrun : Queue.Steps P s s'' := .tail hs ⟨a, ha⟩
  cases Sys.step_moved ha with
  | quiet hdb => exact hdb
  | commit op now r w hrun' _ htxns =>
      have hend := Tracked.steps (service_kept P) h.sound htracked hrun
      subst ht
      simp only [Tracked, htxns, Function.update_self] at hend
      obtain ⟨e, he⟩ := hend
      cases he

/-- What a committed checkpoint found: the row it wrote carried its token. -/
theorem Commit.checkpoint_holds {P : Platform} {now : Instant} {K : Set (Resource Key)}
    {d d' : Db} {r : Reply} {job : JobRef} {c : Checkpoint}
    (h : Commit P (.checkpoint job c) now K d d' r) :
    ∃ j, d.job? job.id = some j ∧ j.holds job.leaseToken now := by
  cases h with
  | saved job c j e hj hlease => exact ⟨j, hj, hlease⟩

/-- A checkpoint whose token has been revoked or replaced changes nothing, wherever it
stands. -/
theorem Queue.Reachable.revoked_silent {P : Platform} {s : Queue} (h : s.Reachable P) {t : ℕ}
    {job : JobRef} {c : Checkpoint} (hop : (s.txns t).op? = some (.checkpoint job c)) {j : Job}
    (hj : s.db.job? job.id = some j) (hrev : j.Revoked job.leaseToken) : s.Silent P t := by
  intro s' s'' a hs ha ht
  subst ht
  cases Sys.step_moved ha with
  | quiet hdb => exact hdb
  | commit op now r w hrun hdb htxns =>
      have hop' := Sys.Steps.op hs hop
      rw [hrun] at hop'
      cases hop'
      obtain ⟨j₁, hj₁, hlease⟩ :=
        Commit.checkpoint_holds (Sound.commits (Queue.Reachable.sound (h.trans hs)) hrun).2
      obtain ⟨j₂, hj₂, hrev₂⟩ := h.revoked hs hj hrev
      rw [hj₁] at hj₂
      cases hj₂
      obtain ⟨htoken, hrunning, -⟩ := Job.holds_iff.mp hlease
      rcases hrev₂.2 with hne | hne
      · exact absurd hrunning hne
      · exact absurd htoken hne

/-- A checkpoint that finds its lease expired, or its token gone, when its `UPDATE` takes
its snapshot changes nothing. -/
theorem Queue.Reachable.stale_silent {P : Platform} {s s' : Queue} (h : s.Reachable P) {t : ℕ}
    {job : JobRef} {c : Checkpoint} {now : Instant}
    (hrun : s.txns t = .active (.checkpoint job c) now id (body P (.checkpoint job c) now))
    (hstale : ∀ j, s.db.job? job.id = some j → j.holds job.leaseToken now = false)
    (hs : s.step (body P) (.advance t) = some s') : s'.Silent P t := by
  have hfilter : [job.id].filter
      (fun i => (s.db.job? i).any (Job.holds job.leaseToken now)) = [] := by
    rw [List.filter_cons_of_neg, List.filter_nil]
    intro hany
    obtain ⟨j, hj, hholds⟩ := (Option.any_eq_true _ _).mp hany
    rw [hstale j hj] at hholds
    cases hholds
  -- behind the snapshot the update has no row to write, and the executor raises
  obtain ⟨k, hbody, hk⟩ : ∃ k, body P (.checkpoint job c) now = .read k ∧
      k s.db = .write (·.modifyJobs [] (Job.checkpointed now c)) (.throw .leaseLost) := by
    refine ⟨_, rfl, ?_⟩
    show Tx.bind (Tx.bind (Tx.bind (lockMatching _ (List.filter _ _)) _) _) _ = _
    rw [hfilter]
    rfl
  rw [hbody] at hrun
  simp only [Sys.step, hrun, Sys.advance, Option.some.injEq] at hs
  subst hs
  refine Queue.silent_of_tracked (h.tail ⟨.advance t, ?_⟩) ?_
  · simp only [Sys.step, hrun, Sys.advance]
  · simp only [Tracked, Sys.set_txns, Function.update_self, id_eq, hk]
    exact fun _ _ _ _ => ⟨_, rfl⟩

/-! ## The event log -/

/-- The newest event of job `id` carries the phase and the status of its row `j`. -/
def Db.LogMatches (d : Db) (id : Id) (j : Job) : Prop :=
  ∃ e ∈ d.eventsOf id, (∀ e' ∈ d.eventsOf id, e' = e ∨ e'.id < e.id) ∧
    e.phase = j.phase ∧ e.status = j.status

/-- A claim of the job has committed. -/
def Queue.Claimed (s : Queue) (id : Id) : Prop :=
  ∃ t now job, s.txns t = .committed .claim now (.claimed (some job)) ∧ job.id = id

/-- A checkpoint of the job has committed. -/
def Queue.Checkpointed (s : Queue) (id : Id) : Prop :=
  ∃ t token c now r, s.txns t = .committed (.checkpoint ⟨id, token⟩ c) now r

/-- An event newer than all others, just appended, is the one the log ends in. -/
theorem Db.logMatches_cons {d d' : Db} {id : Id} {e : JobEvent} {j : Job}
    (hevents : d'.eventsOf id = e :: d.eventsOf id) (hnewest : e.Newest d) (hjob : e.jobId = id)
    (hphase : e.phase = j.phase) (hstatus : e.status = j.status) : d'.LogMatches id j := by
  refine ⟨e, by simp [hevents], fun e' he' => ?_, hphase, hstatus⟩
  rw [hevents, List.mem_cons] at he'
  rcases he' with rfl | he'
  · exact .inl rfl
  · exact .inr (newest_iff.mp hnewest e' (hjob ▸ he'))

/-- How the log of a row stands: in step with it, or behind a claim that no checkpoint
has followed.

The exception is narrow: a claim writes the row and no event, and the first checkpoint of the new
executor writes one.  In between the newest event still says that the job is queued.  A sweep may
come first, and then it is the sweep that writes the event. -/
structure Queue.LogKept (s : Queue) (id : Id) : Prop where
  absent : s.db.job? id = none → ¬s.Checkpointed id
  queued : ∀ j, s.db.job? id = some j → j.status = .queued → ¬s.Checkpointed id
  log : ∀ j, s.db.job? id = some j →
    s.db.LogMatches id j ∨ (j.status = .running ∧ s.Claimed id ∧ ¬s.Checkpointed id)

/-- A step that commits nothing keeps the log. -/
theorem Queue.LogKept.quiet {s s' : Queue} {id : Id} (h : s.LogKept id) (hdb : s'.db = s.db)
    (hcommitted : ∀ t op now r,
      s'.txns t = .committed op now r ↔ s.txns t = .committed op now r) : s'.LogKept id := by
  have hcheckpointed : s'.Checkpointed id ↔ s.Checkpointed id := by
    simp only [Checkpointed, hcommitted]
  have hclaimed : s'.Claimed id ↔ s.Claimed id := by simp only [Claimed, hcommitted]
  refine ⟨?_, ?_, ?_⟩
  · rw [hdb, hcheckpointed]
    exact h.absent
  · rw [hdb, hcheckpointed]
    exact h.queued
  · rw [hdb, hcheckpointed, hclaimed]
    exact h.log

/-- A commit keeps the log. -/
theorem Queue.LogKept.commit {P : Platform} {s s' : Queue} {id : Id} (h : s.LogKept id) {t : ℕ}
    {op : Op} {now : Instant} {K : Set (Resource Key)} {r : Reply}
    (hcommit : Commit P op now K s.db s'.db r)
    (hcommitted : ∀ t' op' now' r', s'.txns t' = .committed op' now' r' ↔
      s.txns t' = .committed op' now' r' ∨ (t' = t ∧ op' = op ∧ now' = now ∧ r' = r)) :
    s'.LogKept id := by
  -- a claim stays committed, and a new checkpoint of the job is this very commit
  have hclaimed : s.Claimed id → s'.Claimed id := by
    rintro ⟨t', now', job, ht, hid⟩
    exact ⟨t', now', job, (hcommitted _ _ _ _).mpr (.inl ht), hid⟩
  have hno : (∀ token c, op ≠ .checkpoint ⟨id, token⟩ c) → ¬s.Checkpointed id →
      ¬s'.Checkpointed id := by
    rintro hop hno ⟨t', token, c, now', r', ht⟩
    rcases (hcommitted _ _ _ _).mp ht with ht | ⟨-, heq, -⟩
    · exact hno ⟨t', token, c, now', r', ht⟩
    · exact hop token c heq.symm
  cases hcommit.jobStep id with
  | same hjob hevents hop =>
      refine ⟨fun hnone => ?_, fun j hj hq => ?_, fun j hj => ?_⟩
      · exact hno hop (h.absent (hjob ▸ hnone))
      · exact hno hop (h.queued j (hjob ▸ hj) hq)
      · rcases h.log j (hjob ▸ hj) with hlog | ⟨hr, hcl, hcp⟩
        · left
          simpa only [Db.LogMatches, hevents] using hlog
        · exact .inr ⟨hr, hclaimed hcl, hno hop hcp⟩
  | queued j₀ e hd =>
      have hop : ∀ token c, op ≠ .checkpoint ⟨id, token⟩ c := by
        rintro token c rfl
        obtain ⟨j, hj, -⟩ := hcommit.checkpoint_holds
        rw [hd.fresh] at hj
        cases hj
      have hcp := hno hop (h.absent hd.fresh)
      refine ⟨fun _ => hcp, fun _ _ _ => hcp, fun j hj => .inl ?_⟩
      rw [hd.job?, if_pos rfl] at hj
      cases hj
      refine ⟨e, by simp [hd.eventsOf], fun e' he' => ?_, ?_, ?_⟩
      · rw [hd.eventsOf, if_pos rfl, List.mem_singleton] at he'
        exact .inl he'
      · rw [hd.status.2.2.2, hd.status.2.1]
      · rw [hd.status.2.2.1, hd.status.1]
  | started j₀ token hop hreply hj₀ hqueued hjob hevents =>
      have hcp := hno (by simp [hop]) (h.queued j₀ hj₀ hqueued)
      refine ⟨fun _ => hcp, fun _ _ _ => hcp, fun j hj => .inr ?_⟩
      rw [hjob] at hj
      cases hj
      subst hop hreply
      exact ⟨rfl, ⟨t, now, _, (hcommitted _ _ _ _).mpr (.inr ⟨rfl, rfl, rfl, rfl⟩), rfl⟩, hcp⟩
  | checkpointed j₀ token c e hop hj₀ hlease hjob hevents hnewest hevent =>
      refine ⟨fun hnone => ?_, fun j hj hq => ?_, fun j hj => .inl ?_⟩
      · rw [hjob] at hnone
        cases hnone
      · rw [hjob] at hj
        cases hj
        exact absurd hq c.status_ne
      · rw [hjob] at hj
        cases hj
        exact Db.logMatches_cons hevents hnewest hevent.1 hevent.2.1 hevent.2.2
  | extended j₀ token hop hj₀ hlease hjob hevents =>
      refine ⟨fun hnone => ?_, fun j hj hq => ?_, fun j hj => ?_⟩
      · rw [hjob] at hnone
        cases hnone
      · rw [hjob] at hj
        cases hj
        rw [Job.extended, (Job.holds_iff.mp hlease).2.1] at hq
        cases hq
      · rw [hjob] at hj
        cases hj
        rcases h.log j₀ hj₀ with hlog | ⟨hr, hcl, hcp⟩
        · left
          simpa only [Db.LogMatches, hevents, Job.extended] using hlog
        · exact .inr ⟨hr, hclaimed hcl, hno (by simp [hop]) hcp⟩
  | swept j₀ e hop hj₀ hexpired hjob hevents hnewest hevent =>
      refine ⟨fun hnone => ?_, fun j hj hq => ?_, fun j hj => .inl ?_⟩
      · rw [hjob] at hnone
        cases hnone
      · rw [hjob] at hj
        cases hj
        cases hq
      · rw [hjob] at hj
        cases hj
        exact Db.logMatches_cons hevents hnewest hevent.1 hevent.2.1 hevent.2.2

theorem Queue.Reachable.logKept {P : Platform} {s : Queue} (h : s.Reachable P) (id : Id) :
    s.LogKept id := by
  induction h with
  | refl =>
      refine ⟨?_, ?_, ?_⟩
      · rintro - ⟨t, token, c, now, r, ht⟩
        cases ht
      · intro j hj
        simp [start, Sys.init, Db.empty, Db.job?] at hj
      · intro j hj
        simp [start, Sys.init, Db.empty, Db.job?] at hj
  | tail hrun hstep ih =>
      obtain ⟨a, ha⟩ := hstep
      cases Sound.outcome (Queue.Reachable.sound hrun) ha with
      | quiet hdb hcommitted => exact ih.quiet hdb hcommitted
      | commit op now r w _ hcommit hcommitted => exact ih.commit hcommit hcommitted

/-- **The fence.**

* Along every run a job is started at most once.
* A row that has left `running` never changes.
* A checkpoint whose token was revoked or replaced, or whose lease its `UPDATE` finds expired,
  changes nothing, neither at once nor later.
* Unless a job is running, has been claimed and has not been checkpointed yet, the newest event of
  its log carries its phase and its status.  A job that the sweep has ended before its first
  checkpoint is among those whose log is in step.

A token is fenced by the row it was written to: a claim replaces the token, a sweep removes it, and
every write of an executor names its own.  That a stale write is silent, also later, needs that a
token never comes back, and that a row that has left `running` is never written again.  The log is
in step because every write but a claim and a heartbeat comes with its event in the same
transaction; a claim has written its row and not its event, and that is the one exception. -/
theorem Queue.Reachable.fenced {P : Platform} {s : Queue} (h : s.Reachable P) :
    (∀ id as, s.starts P id as ≤ 1) ∧
    (∀ id j s', s.db.job? id = some j → j.status ≠ .queued → j.status ≠ .running →
      Queue.Steps P s s' → s'.db.job? id = some j) ∧
    (∀ t job c j, (s.txns t).op? = some (.checkpoint job c) → s.db.job? job.id = some j →
      j.Revoked job.leaseToken → s.Silent P t) ∧
    (∀ t job c now s',
      s.txns t = .active (.checkpoint job c) now id (body P (.checkpoint job c) now) →
      (∀ j, s.db.job? job.id = some j → j.holds job.leaseToken now = false) →
      s.step (body P) (.advance t) = some s' → s'.db = s.db ∧ Queue.Silent P s' t) ∧
    (∀ id j, s.db.job? id = some j →
      ¬(j.status = .running ∧ s.Claimed id ∧ ¬s.Checkpointed id) → s.db.LogMatches id j) := by
  refine ⟨fun id as => (Queue.starts_le_one as h).1,
    fun id j s' hj hq hr hs => h.settled hs hj hq hr,
    fun t job c j hop hj hrev => h.revoked_silent hop hj hrev,
    fun t job c now s' hrun hstale hs => ⟨?_, h.stale_silent hrun hstale hs⟩,
    fun id j hj hbetween => ?_⟩
  · simp only [Sys.step, hrun] at hs
    change Sys.advance s t _ _ _ (.read _) = some s' at hs
    cases hs
    rfl
  · rcases (h.logKept id).log j hj with hlog | hrunning
    · exact hlog
    · exact absurd hrunning hbetween

/-- In the concrete run the pre-query's log is in step with its row, and its settled row is
kept by every continuation. -/
theorem Demo.waiting_fenced :
    ∃ j, Demo.waiting.db.job? 4 = some j ∧ j.status = .waitingConfirmation ∧
      Demo.waiting.db.LogMatches 4 j ∧
      ∀ s', Queue.Steps Demo.platform Demo.waiting s' → s'.db.job? 4 = some j := by
  have hwaiting : (Demo.waiting.db.job? 4).any (·.status = .waitingConfirmation) = true := by
    decide +kernel
  obtain ⟨j, hj, hstatus⟩ := (Option.any_eq_true _ _).mp hwaiting
  have hstatus : j.status = .waitingConfirmation := of_decide_eq_true hstatus
  obtain ⟨-, hsettled, -, -, hlog⟩ := Demo.waiting_reachable.fenced
  refine ⟨j, hj, hstatus, hlog 4 j hj fun h => ?_, fun s' => hsettled 4 j s' hj ?_ ?_⟩
  · cases hstatus.symm.trans h.1
  · rw [hstatus]
    simp
  · rw [hstatus]
    simp

end BindPlane
