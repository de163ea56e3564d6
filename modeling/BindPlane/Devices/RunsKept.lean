import BindPlane.Devices.Enqueuing
import BindPlane.Devices.ItemsKept

/-!
# Runs and ticks keep the contract

`runTask`, `runSchedule` and the scheduler's tick.  Each ends in the writes of a batch that
fits, of which every task covers its scope; `Enqueuing` is that ending for any of them, in
the runs within a set of stores, and the commits of the contract are the same endings in all
runs (`Contract.within_true`).
-/

namespace BindPlane.Devices

open ReadCommitted Contract

variable {P : Platform} {W : Db → Prop} {β : Type} {v : View Db Key} {b : Batch}
  {Q : Except Failure β → View Db Key → Prop}

/-! ## Runs on request -/

/-- The end of `runTask` and `runSchedule`: the task is queued and recorded. -/
private theorem enqueue_ends {kind : TaskKind} {scheduleId actorId : Option Id}
    {email : Option String} {scope : Scope} {start : Instant} {ev : Enqueued → AuditEvent}
    {Q : Except Failure Reply → View Db Key → Prop} (hv : ((contract P).within W).Good v)
    (hpending : v.pending = id) (he : ∀ e v, Q (.error e) v)
    (h : ∀ e b t ev v', ((contract P).within W).Good v' → b.Fits v'.held v'.db →
      v'.snapshot = (v'.db.apply b).addEvent ev → b.tasks = [(e.task, t)] → b.runs = [] →
      t.scheduleId = scheduleId → e.kind = kind → e.scope = scope → e.Covers W b →
      Q (.ok (.run e)) v') :
    ((enqueueDeviceTask kind scheduleId actorId email scope start).bind fun task =>
      (Tx.expect task .notFound).bind fun task =>
        (Tx.update (·.addEvent (ev task))).bind fun _ => Tx.pure task).Ensures
      ((contract P).within W).interference (((contract P).within W).Yields Q Reply.run) v := by
  refine enqueueDeviceTask_bind (b := {}) hv .empty hpending
    (fun k v₁ h₁ hv₁ _ _ => Tx.Ensures.expect_bind nofun fun _ _ _ => he _ _)
    fun e t new v₁ hs₁ hv₁ hb₁ hpending₁ hkind hscope hsched _ _ hcovers => ?_
  refine Tx.Ensures.expect_bind (fun a ha => ?_) nofun
  obtain rfl := Option.some.inj ha
  refine hv₁.update fun v₂ h₂ hv₂ => ?_
  refine Good.yield (v := v₂.queue _) hv₂ fun v₃ h₃ hv₃ => ?_
  have hs : ((contract P).within W).Since v₁ v₃ := Since.trans (w := v₂) h₂.since h₃.since
  have hsnap : v₃.snapshot =
      (v₃.db.apply ((Batch.addTask {} e.task t).addItems new)).addEvent (ev e) := by
    rw [View.snapshot, h₃.pending, View.queue_pending, h₂.pending, hpending₁]
    rfl
  refine h e _ t (ev e) v₃ hv₃ (hb₁.since hv₁.of_within ?_) hsnap rfl rfl hsched
    hkind hscope hcovers
  exact ⟨within_rel hs.rel, hs.held⟩

theorem runTask_ends {actor : Principal} {input : RunInput}
    {Q : Except Failure Reply → View Db Key → Prop} (hv : ((contract P).within W).Good v)
    (hpending : v.pending = id) (he : ∀ e v, Q (.error e) v)
    (h : ∀ e b t ev v', ((contract P).within W).Good v' → b.Fits v'.held v'.db →
      v'.snapshot = (v'.db.apply b).addEvent ev → b.tasks = [(e.task, t)] → b.runs = [] →
      t.scheduleId = none → input.checked = some (e.kind, e.scope) → e.Covers W b →
      Q (.ok (.run e)) v') :
    (body P (.runTask actor input) ()).Ensures ((contract P).within W).interference Q v := by
  refine yields ?_
  simp only [runTask, authorize, now, Tx.bind_eq, Tx.bind_assoc, Tx.pure_eq, Tx.pure_bind]
  refine Tx.Ensures.require_bind (fun _ => ?_) (fun _ _ _ => he _ _)
  refine Tx.Ensures.require_bind (fun _ => ?_) (fun _ _ _ => he _ _)
  refine Tx.Ensures.expect_bind (fun run hrun => ?_) (fun _ _ _ => he _ _)
  refine hv.snapshot fun v₁ h₁ hv₁ => enqueue_ends hv₁ (h₁.pending.trans hpending) he ?_
  intro e b t ev v' hv' hb hsnap htasks hruns hsched hkind hscope hcovers
  exact h e b t ev v' hv' hb hsnap htasks hruns hsched (by rw [hrun, hkind, hscope]) hcovers

theorem runSchedule_ends {actor : Principal} {uid : UuidText}
    {Q : Except Failure Reply → View Db Key → Prop} (hv : ((contract P).within W).Good v)
    (hpending : v.pending = id) (he : ∀ e v, Q (.error e) v)
    (h : ∀ e b t ev v', ((contract P).within W).Good v' → b.Fits v'.held v'.db →
      v'.snapshot = (v'.db.apply b).addEvent ev → b.tasks = [(e.task, t)] → b.runs = [] →
      t.scheduleId = uid.id? → (∃ d sid sc, W d ∧ uid.id? = some sid ∧
        d.schedules.get? sid = some sc ∧ e.kind = sc.kind ∧ e.scope = sc.scope.toScope) →
      e.Covers W b → Q (.ok (.run e)) v') :
    (body P (.runSchedule actor uid) ()).Ensures ((contract P).within W).interference Q v := by
  refine yields ?_
  simp only [runSchedule, authorize, now, Tx.bind_eq, Tx.bind_assoc, Tx.pure_eq, Tx.pure_bind]
  refine Tx.Ensures.require_bind (fun _ => ?_) (fun _ _ _ => he _ _)
  refine Tx.Ensures.require_bind (fun _ => ?_) (fun _ _ _ => he _ _)
  refine Tx.Ensures.expect_bind (fun sid hsid => ?_) (fun _ _ _ => he _ _)
  refine hv.snapshot fun v₁ h₁ hv₁ => hv₁.snapshot fun v₂ h₂ hv₂ => ?_
  have hpending₂ := h₂.pending.trans (h₁.pending.trans hpending)
  refine Tx.Ensures.expect_bind (fun sc hsc => ?_) (fun _ _ _ => he _ _)
  rw [snapshot_eq hpending₂] at hsc
  refine enqueue_ends hv₂ hpending₂ he ?_
  intro e b t ev v' hv' hb hsnap htasks hruns hsched hkind hscope hcovers
  exact h e b t ev v' hv' hb hsnap htasks hruns (hsched.trans hsid.symm)
    ⟨v₂.db, sid, sc, hv₂.within, hsid, hsc, hkind, hscope⟩ hcovers

/-! ## The tick -/

/-- Schedules that are due behind their locks. -/
def Dues (v : View Db Key) (t : Instant) (rows : List (Id × Schedule)) : Prop :=
  ∀ r ∈ rows, .key (.schedule r.1) ∈ v.held ∧ v.db.schedules.get? r.1 = some r.2 ∧
    r.2.due t = true

theorem Dues.since {v' : View Db Key} {t : Instant} {rows : List (Id × Schedule)}
    (h : Dues v t rows) (hs : (contract P).Since v v') : Dues v' t rows := by
  intro r hr
  obtain ⟨hkey, hrow, hdue⟩ := h r hr
  exact ⟨hs.held hkey, schedule_stable hs.rel hkey hrow, hdue⟩

theorem lockDue_bind {t : Instant} {ids : List Id} {n : ℕ} {g : List (Id × Schedule) → Txn β}
    (hv : ((contract P).within W).Good v) (hpending : v.pending = id)
    (h : ∀ dues v', ((contract P).within W).Later v v' → ((contract P).within W).Good v' →
      (dues.map Prod.fst).Sublist ids → Dues v' t dues →
      (g dues).Ensures ((contract P).within W).interference Q v') :
    ((lockDue t ids n).bind g).Ensures ((contract P).within W).interference Q v := by
  induction ids generalizing v n g with
  | nil => cases n <;> exact h [] v (.refl v) hv (List.Sublist.refl _) nofun
  | cons id ids ih =>
      cases n with
      | zero => exact h [] v (.refl v) hv (List.nil_sublist _) nofun
      | succ n =>
          simp only [lockDue, Tx.bind_eq, Tx.bind_assoc, Tx.pure_eq]
          refine hv.tryAcquire (fun v₁ h₁ hv₁ hkey => hv₁.snapshot fun v₂ h₂ hv₂ => ?_)
            (fun v₁ h₁ hv₁ => hv₁.snapshot fun v₂ h₂ hv₂ => ?_)
          · have hl := h₁.trans h₂
            have hpending₂ := hl.pending.trans hpending
            rw [snapshot_eq hpending₂]
            cases hfound : (v₂.db.schedules.get? id).filter fun sc => true && sc.due t with
            | none =>
                refine ih hv₂ hpending₂ fun dues v' h' hv' hsub hdues => ?_
                exact h dues v' (hl.trans h') hv' (hsub.cons _) hdues
            | some sc =>
                obtain ⟨hsc, hdue⟩ := Option.filter_eq_some_iff.mp hfound
                simp only [Tx.bind_assoc, Tx.pure_bind]
                refine ih hv₂ hpending₂ fun dues v' h' hv' hsub hdues => ?_
                refine h _ v' (hl.trans h') hv' (hsub.cons_cons _) fun r hr => ?_
                rcases List.mem_cons.mp hr with rfl | hr
                · exact ⟨h'.held (h₂.held hkey),
                    schedule_stable h'.of_within.rel (h₂.held hkey) hsc, by simpa using hdue⟩
                · exact hdues r hr
          · have hnone : (v₂.snapshot.schedules.get? id).filter
                (fun sc => false && sc.due t) = none := by
              cases v₂.snapshot.schedules.get? id <;> rfl
            rw [hnone]
            have hl := h₁.trans h₂
            refine ih hv₂ (hl.pending.trans hpending) fun dues v' h' hv' hsub hdues => ?_
            exact h dues v' (hl.trans h') hv' (hsub.cons _) hdues

theorem tickNextRun_bind {cron : String} {t : Instant} {g : Option Instant → Txn β}
    {R : Interference Db Key} (he : ∀ e v, Q (.error e) v)
    (h : ∀ next, P.Ticks cron t next → (g next).Ensures R Q v) :
    ((tickNextRun P cron t).bind g).Ensures R Q v := by
  unfold tickNextRun
  cases hrun : P.nextRun cron t with
  | ok next => exact h _ (.run next hrun)
  | error e =>
      by_cases hrunning : e = .running
      · subst hrunning
        exact fun _ _ => he _ _
      · have hnone := h none (.fails e hrunning hrun)
        cases e <;> first | exact hnone | exact absurd rfl hrunning

/-- What the loop of a tick over the due schedules does: the batch `b` has become `b'`.

The loop is not atomic in its effects: the rows of an earlier schedule are among the queued writes
when the next one is looked at, so that two schedules of one kind do not queue the same switch
twice.  The structure follows the batch through the loop, and says of each schedule what it has
added. -/
structure FiredAll (P : Platform) (W : Db → Prop) (t : Instant) (dues : List (Id × Schedule))
    (b b' : Batch) (fired : List Fired) : Prop where
  rows : fired.map (fun f => (f.schedule, f.row)) = dues
  runs : b'.runs.map (fun r => (r.1, r.2.1)) =
    b.runs.map (fun r => (r.1, r.2.1)) ++ fired.map fun f => (f.schedule, t)
  runs_kept : ∀ r ∈ b.runs, r ∈ b'.runs
  next : ∀ f ∈ fired, ∃ next, (f.schedule, t, next) ∈ b'.runs ∧ P.Ticks f.row.cron t next
  tasks : b'.tasks.map (·.2.scheduleId) =
    b.tasks.map (·.2.scheduleId) ++ fired.map (some ·.schedule)
  tasks_of : ∀ x ∈ b'.tasks, x ∈ b.tasks ∨ ∃ f ∈ fired, ∃ e, f.task = some e ∧ e.task = x.1 ∧
    x.2.scheduleId = some f.schedule
  covers : ∀ f ∈ fired, ∃ e, f.task = some e ∧ e.kind = f.row.kind ∧
    e.scope = f.row.scope.toScope ∧ e.Covers W b'
  covers_kept : ∀ e : Enqueued, e.Covers W b → e.Covers W b'

theorem FiredAll.nil {t : Instant} : FiredAll P W t [] b b [] where
  rows := rfl
  runs := (List.append_nil _).symm
  runs_kept _ hr := hr
  next _ hf := absurd hf List.not_mem_nil
  tasks := (List.append_nil _).symm
  tasks_of _ hx := .inl hx
  covers _ hf := absurd hf List.not_mem_nil
  covers_kept _ h := h

theorem Enqueued.Covers.addRun {e : Enqueued} (h : e.Covers W b) (id : Id) (now : Instant)
    (next : Option Instant) : e.Covers W (b.addRun id now next) := { h with }

/-- One round of the loop and the rest of it. -/
theorem FiredAll.cons {t : Instant} {sid : Id} {sc : Schedule} {dues : List (Id × Schedule)}
    {b' : Batch} {fired : List Fired} {e : Enqueued} {task : Task} {new : List (ℕ × Item)}
    {next : Option Instant} (hkind : e.kind = sc.kind) (hscope : e.scope = sc.scope.toScope)
    (hsched : task.scheduleId = some sid)
    (hfresh : e.task ∉ b.tasks.map Prod.fst) (hnew : ∀ x ∈ new, x.2.taskId = e.task)
    (hcovers : e.Covers W ((b.addTask e.task task).addItems new))
    (hticks : P.Ticks sc.cron t next)
    (h : FiredAll P W t dues (((b.addTask e.task task).addItems new).addRun sid t next) b'
      fired) :
    FiredAll P W t ((sid, sc) :: dues) b b' (⟨sid, sc, some e⟩ :: fired) where
  rows := by rw [List.map_cons, h.rows]
  runs := by
    rw [h.runs]
    simp
  runs_kept r hr := h.runs_kept r (List.mem_append_left _ hr)
  next f hf := by
    rcases List.mem_cons.mp hf with rfl | hf
    · exact ⟨next, h.runs_kept _ (List.mem_append_right _ (List.mem_singleton.mpr rfl)), hticks⟩
    · exact h.next f hf
  tasks := by
    rw [h.tasks]
    simp [hsched]
  tasks_of x hx := by
    rcases h.tasks_of x hx with hx | ⟨f, hf, hrest⟩
    · rcases List.mem_append.mp hx with hx | hx
      · exact .inl hx
      · obtain rfl := List.mem_singleton.mp hx
        exact .inr ⟨_, List.mem_cons_self, e, rfl, rfl, hsched⟩
    · exact .inr ⟨f, List.mem_cons_of_mem _ hf, hrest⟩
  covers f hf := by
    rcases List.mem_cons.mp hf with rfl | hf
    · exact ⟨e, rfl, hkind, hscope, h.covers_kept e (hcovers.addRun sid t next)⟩
    · exact h.covers f hf
  covers_kept e₀ h₀ := by
    refine h.covers_kept e₀ (Enqueued.Covers.addRun (h₀.grow fun x hx heq => ?_) sid t next)
    obtain ⟨y, hy, hid, -⟩ := h₀.task
    refine hfresh ?_
    rw [← hnew x hx, heq, ← hid]
    exact List.mem_map_of_mem hy

theorem fireAll_bind {t start : Instant} {dues : List (Id × Schedule)}
    {g : List Fired → Txn β} (hv : ((contract P).within W).Good v) (hb : b.Fits v.held v.db)
    (hpending : v.pending = (·.apply b)) (hgroups : ∀ r ∈ dues, v.db.hasGroup r.2.scope = true)
    (he : ∀ e v, Q (.error e) v)
    (h : ∀ fired b' v', ((contract P).within W).Since v v' → ((contract P).within W).Good v' →
      b'.Fits v'.held v'.db → v'.pending = (·.apply b') → FiredAll P W t dues b b' fired →
      (g fired).Ensures ((contract P).within W).interference Q v') :
    ((fireAll P t start dues).bind g).Ensures ((contract P).within W).interference Q v := by
  induction dues generalizing v b g with
  | nil => exact h [] b v (Later.refl v).since hv hb hpending .nil
  | cons due dues ih =>
      obtain ⟨sid, sc⟩ := due
      simp only [fireAll, Tx.bind_eq, Tx.bind_assoc, Tx.pure_eq, Tx.pure_bind]
      refine tickNextRun_bind he fun next hticks => ?_
      refine enqueueDeviceTask_bind hv hb hpending (fun k v₁ h₁ hv₁ hscope hno => ?_)
        fun e task new v₁ hs₁ hv₁ hb₁ hpending₁ hkind hscope hsched hfresh hnew hcovers => ?_
      · -- the group of a stored schedule is there
        have hgroup := hasGroup_stable h₁.of_within.rel (hgroups _ List.mem_cons_self)
        cases hsc : sc.scope with
        | all => rw [hsc] at hscope; cases hscope
        | group k' =>
            rw [hsc] at hscope hgroup
            cases hscope
            rw [Db.hasGroup, hno] at hgroup
            cases hgroup
      · refine hv₁.update fun v₂ h₂ hv₂ => ?_
        have hb₂ := (hb₁.since hv₁.of_within h₂.of_within.since).addRun sid t next
        have hpending₂ : (v₂.queue (·.modifySchedule sid (Schedule.ran t next))).pending =
            (·.apply (((b.addTask e.task task).addItems new).addRun sid t next)) := by
          rw [View.queue_pending, h₂.pending, hpending₁]
          exact funext fun d => Batch.apply_addRun d _ sid t next
        have hs₂ : ((contract P).within W).Since v
            (v₂.queue (·.modifySchedule sid (Schedule.ran t next))) := hs₁.trans h₂.since
        refine ih (v := v₂.queue _) hv₂ hb₂ hpending₂ (fun r hr => ?_)
          fun fired b' v₃ hs₃ hv₃ hb₃ hpending₃ hall => ?_
        · exact hasGroup_stable (within_rel hs₂.rel) (hgroups r (List.mem_cons_of_mem _ hr))
        · exact h _ b' v₃ (hs₂.trans hs₃) hv₃ hb₃ hpending₃
            (.cons hkind hscope hsched hfresh hnew hcovers hticks hall)

theorem runDueSchedules_ends {Q : Except Failure Reply → View Db Key → Prop}
    (hv : ((contract P).within W).Good v) (hpending : v.pending = id)
    (he : ∀ e v, Q (.error e) v)
    (h : ∀ t b dues v', ((contract P).within W).Good v' → b.Fits v'.held v'.db →
      v'.snapshot = v'.db.apply b → t.time ≤ v'.db.wall → (dues.map Prod.fst).Nodup →
      Dues v' t.time dues → FiredAll P W t.time dues {} b t.fired → Q (.ok (.ticked t)) v') :
    (body P .runDueSchedules ()).Ensures ((contract P).within W).interference Q v := by
  refine yields ?_
  simp only [runDueSchedules, timeNow, now, Tx.bind_eq, Tx.bind_assoc, Tx.pure_eq, Tx.pure_bind]
  refine hv.snapshot fun v₁ h₁ hv₁ => hv₁.snapshot fun v₂ h₂ hv₂ => hv₂.snapshot fun v₃ h₃ hv₃ => ?_
  have hpending₁ := h₁.pending.trans hpending
  have hpending₃ := h₃.pending.trans (h₂.pending.trans hpending₁)
  refine lockDue_bind hv₃ hpending₃ fun dues v₄ h₄ hv₄ hsub hdues => ?_
  refine fireAll_bind (b := {}) hv₄ .empty (h₄.pending.trans hpending₃)
    (fun r hr => hv₄.of_within.1.schedule_group r.1 r.2 (hdues r hr).2.1) he
    fun fired b v₅ hs₅ hv₅ hb₅ hpending₅ hall => ?_
  refine hv₅.yield fun v₆ h₆ hv₆ => ?_
  have hs₆ := hs₅.trans h₆.since
  refine h ⟨v₁.snapshot.wall, fired⟩ b dues v₆ hv₆ (hb₅.since hv₅.of_within h₆.of_within.since)
    (by rw [View.snapshot, h₆.pending, hpending₅]) ?_ ?_
    (hdues.since ⟨within_rel hs₆.rel, hs₆.held⟩) hall
  · have hs : ((contract P).within W).Since v₁ v₆ :=
      h₂.since.trans (h₃.since.trans (h₄.since.trans hs₆))
    rw [snapshot_eq hpending₁]
    exact (wall_stable (within_rel hs.rel)).2
  · refine hsub.nodup ?_
    exact (List.Perm.map _ (List.perm_insertionSort _ _)).nodup_iff.mpr
      (v₃.snapshot.schedules.nodup.sublist (List.filter_sublist.map _))

/-! ## The contract -/

/-- An ending in all runs. -/
private theorem ends_everywhere {p : Txn β} (hv : (contract P).Good v)
    (h : ((contract P).within fun _ => True).Good v →
      p.Ensures ((contract P).within fun _ => True).interference Q v) :
    p.Ensures (contract P).interference Q v := by
  rw [within_true] at h
  exact h hv

theorem runTask_kept {actor : Principal} {input : RunInput} (hv : (contract P).Good v)
    (hpending : v.pending = id) :
    (body P (.runTask actor input) ()).Ensures (contract P).interference
      ((contract P).Ended (.runTask actor input) ()) v := by
  refine ends_everywhere hv fun hv => runTask_ends hv hpending (fun _ _ => trivial) ?_
  intro e b t ev v' hv' hb hsnap htasks hruns hsched _ _
  refine ended_of_commit hv'.of_within ?_
  rw [hsnap]
  exact .taskRun actor input b t e ev hb htasks hruns hsched

theorem runSchedule_kept {actor : Principal} {uid : UuidText} (hv : (contract P).Good v)
    (hpending : v.pending = id) :
    (body P (.runSchedule actor uid) ()).Ensures (contract P).interference
      ((contract P).Ended (.runSchedule actor uid) ()) v := by
  refine ends_everywhere hv fun hv => runSchedule_ends hv hpending (fun _ _ => trivial) ?_
  intro e b t ev v' hv' hb hsnap htasks hruns hsched _ _
  refine ended_of_commit hv'.of_within ?_
  rw [hsnap]
  exact .scheduleRun actor uid b t e ev hb htasks hruns hsched

/-- What a tick did for a schedule, as the commit states it. -/
theorem FiredAll.moves {t : Instant} {dues : List (Id × Schedule)} {b' : Batch}
    {fired : List Fired} (h : FiredAll P W t dues b b' fired) (hdues : Dues v t dues)
    {f : Fired} (hf : f ∈ fired) :
    ∃ next, (f.schedule, t, next) ∈ b'.runs ∧ f.Moves P t v.held v.db next := by
  obtain ⟨next, hrun, hticks⟩ := h.next f hf
  obtain ⟨e, he, -, -, -⟩ := h.covers f hf
  have hm : (f.schedule, f.row) ∈ dues := by
    rw [← h.rows]
    exact List.mem_map_of_mem hf
  obtain ⟨hkey, hrow, hdue⟩ := hdues _ hm
  exact ⟨next, hrun, hkey, hrow, hdue, hticks, e, he⟩

theorem runDueSchedules_kept (hv : (contract P).Good v) (hpending : v.pending = id) :
    (body P .runDueSchedules ()).Ensures (contract P).interference
      ((contract P).Ended .runDueSchedules ()) v := by
  refine ends_everywhere hv fun hv => runDueSchedules_ends hv hpending (fun _ _ => trivial) ?_
  intro t b dues v' hv' hb hsnap htime hnodup hdues hall
  refine ended_of_commit hv'.of_within ?_
  rw [hsnap]
  refine .ticked b t hb htime ?_ hall.runs (fun f hf => hall.moves hdues hf) hall.tasks
  rw [← hall.rows, List.map_map] at hnodup
  exact hnodup

end BindPlane.Devices
