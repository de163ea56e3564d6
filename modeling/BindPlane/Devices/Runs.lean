import BindPlane.Devices.Alerts

/-!
# Runs cover their scope

What holds of the items of a run.  In every reachable state an entry of the pending index has
one item at most, and a task one item for each switch (`Db.OneEach`).  And of every
transaction that queues a task, followed from before it begins to its commit, through stores
that all satisfy `W`: a switch in the scope throughout has exactly one item of the task, a
switch outside it throughout has none, and an item is skipped only where the entry of its
switch was taken by another task (`Plane.Reachable.runs_cover`).
-/

namespace BindPlane.Devices

open ReadCommitted Contract

variable {P : Platform} {op : Op} {u : Unit} {K : Set (Resource Key)} {d d' : Db} {r : Reply}
  {W : Db → Prop} {b : Batch} {v : View Db Key}

/-! ## One item for each switch of a task -/

/-- A task has one item for each switch at most. -/
def Db.OneEach (d : Db) : Prop :=
  ∀ id id' i i', d.items.get? id = some i → d.items.get? id' = some i' →
    i.taskId = i'.taskId → i.switchId = i'.switchId → id = id'

/-- An entry of the pending index has one item at most. -/
def Db.OnePending (d : Db) : Prop :=
  ∀ s kind id id' i i', d.items.get? id = some i → d.items.get? id' = some i' →
    i.pendingFor s kind = true → i'.pendingFor s kind = true → id = id'

/-- An item was there for its task and switch when the commit began, or is new and alone. -/
private theorem Commit.each_back (h : Commit P op u K d d' r) {n : ℕ} (hd : d.Valid n) {id : Id}
    {i : Item} (hi : d'.items.get? id = some i) :
    (∃ i₀, d.items.get? id = some i₀ ∧ i₀.taskId = i.taskId ∧ i₀.switchId = i.switchId) ∨
    ∀ id' i', d'.items.get? id' = some i' → i'.taskId = i.taskId → i'.switchId = i.switchId →
      id' = id := by
  cases h.item hd id with
  | same h' => exact .inl ⟨i, h' ▸ hi, rfl, rfl⟩
  | created i' hserial hfresh hnew hlease hbackup htask hone heach h' =>
      rw [h'] at hi
      cases hi
      exact .inr heach
  | started i₀ start token hi₀ hqueued hkey h' =>
      rw [h'] at hi
      cases hi
      exact .inl ⟨i₀, hi₀, rfl, rfl⟩
  | ended i₀ i' hi₀ hrunning hkey h' hsame hended =>
      rw [h'] at hi
      cases hi
      exact .inl ⟨i₀, hi₀, hsame.1.symm, hsame.2.1.symm⟩
  | pruned i₀ hi₀ hdone h' =>
      rw [h'] at hi
      cases hi

theorem Commit.oneEach (h : Commit P op u K d d' r) {n : ℕ} (hv : d.Valid n) (hd : d.OneEach) :
    d'.OneEach := by
  intro id id' i i' hi hi' htask hswitch
  rcases h.each_back hv hi with ⟨i₀, hi₀, ht₀, hs₀⟩ | halone
  · rcases h.each_back hv hi' with ⟨i₁, hi₁, ht₁, hs₁⟩ | halone
    · exact hd id id' i₀ i₁ hi₀ hi₁ (by rw [ht₀, ht₁, htask]) (by rw [hs₀, hs₁, hswitch])
    · exact halone id i hi htask hswitch
  · exact (halone id' i' hi' htask.symm hswitch.symm).symm

/-! ## What a transaction that queues a task has asked for -/

/-- The operation asks for a run of this kind in this scope, for this schedule or for none.  A
run on request names its own scope.  Where a schedule is run, by its row's button or by the
tick, kind and scope are those of the row of that very schedule, read in one of the stores
passed through: the task keeps the schedule's number, so that the two can be compared. -/
inductive Op.Asks (W : Db → Prop) : Op → TaskKind → Scope → Option Id → Prop
  | runTask (actor : Principal) (input : RunInput) (kind : TaskKind) (scope : Scope)
      (h : input.checked = some (kind, scope)) : Asks W (.runTask actor input) kind scope none
  | runSchedule (actor : Principal) (uid : UuidText) (sid : Id) (sc : Schedule) (d : Db)
      (hd : W d) (huid : uid.id? = some sid) (hsc : d.schedules.get? sid = some sc) :
      Asks W (.runSchedule actor uid) sc.kind sc.scope.toScope (some sid)
  | tick (sid : Id) (sc : Schedule) (d : Db) (hd : W d) (hsc : d.schedules.get? sid = some sc) :
      Asks W .runDueSchedules sc.kind sc.scope.toScope (some sid)

/-- The transactions that queue tasks. -/
def Op.Enqueues : Op → Prop
  | .runTask .. | .runSchedule .. | .runDueSchedules => True
  | _ => False

/-- How a transaction that queues tasks ends: in the writes of a batch whose tasks cover what
was asked for. -/
def Enqueuing (W : Db → Prop) (op : Op) (_ : Unit) : Except Failure Reply → View Db Key → Prop
  | .ok _, v => op.Enqueues → v.db.Valid v.seq ∧ ∃ b : Batch, b.Fits v.held v.db ∧
      v.snapshot.items = (v.db.apply b).items ∧ v.snapshot.tasks = (v.db.apply b).tasks ∧
      ∀ x ∈ b.tasks, ∃ e : Enqueued, e.task = x.1 ∧
        op.Asks W e.kind e.scope x.2.scheduleId ∧ e.Covers W b
  | .error _, _ => True

/-- The end of `runTask` and `runSchedule`. -/
private theorem enqueuing_single {e : Enqueued} {t : Task} {ev : AuditEvent}
    (hv : ((contract P).within W).Good v) (hb : b.Fits v.held v.db)
    (hsnap : v.snapshot = (v.db.apply b).addEvent ev) (htasks : b.tasks = [(e.task, t)])
    (hasks : op.Asks W e.kind e.scope t.scheduleId) (hcovers : e.Covers W b) :
    Enqueuing W op () (.ok r) v := by
  refine fun _ => ⟨hv.of_within.1, b, hb, by rw [hsnap]; rfl, by rw [hsnap]; rfl, fun x hx => ?_⟩
  rw [htasks, List.mem_singleton] at hx
  subst hx
  exact ⟨e, rfl, hasks, hcovers⟩

private theorem enqueuing_of_not (h : ¬ op.Enqueues) :
    ∀ (r : Except Failure Reply) (v : View Db Key), Enqueuing W op () r v
  | .ok _, _ => fun ho => absurd ho h
  | .error _, _ => trivial

theorem enqueuing_kept : (contract P).KeptWithin W (body P) (Enqueuing W) := by
  intro op _ v hinv hW hpending hheld
  have hv : ((contract P).within W).Good v :=
    ⟨⟨hinv, hW⟩, fun n hn => by rw [hheld] at hn; cases hn⟩
  cases op with
  | runTask actor input =>
      refine runTask_ends hv hpending (fun _ _ => trivial) ?_
      intro e b t ev v' hv' hb hsnap htasks _ hsched hchecked hcovers
      refine enqueuing_single hv' hb hsnap htasks ?_ hcovers
      rw [hsched]
      exact .runTask actor input _ _ hchecked
  | runSchedule actor uid =>
      refine runSchedule_ends hv hpending (fun _ _ => trivial) ?_
      rintro e b t ev v' hv' hb hsnap htasks _ hsched ⟨d, sid, sc, hd, hsid, hsc, hkind, hscope⟩
        hcovers
      refine enqueuing_single hv' hb hsnap htasks ?_ hcovers
      rw [hkind, hscope, hsched, hsid]
      exact .runSchedule actor uid sid sc d hd hsid hsc
  | runDueSchedules =>
      refine runDueSchedules_ends hv hpending (fun _ _ => trivial) ?_
      intro t b dues v' hv' hb hsnap _ _ hdues hall
      refine fun _ => ⟨hv'.of_within.1, b, hb, by rw [hsnap], by rw [hsnap], fun x hx => ?_⟩
      rcases hall.tasks_of x hx with hx | ⟨f, hf, e, he, hid, hsched⟩
      · cases hx
      · obtain ⟨e', he', hkind, hscope, hcovers⟩ := hall.covers f hf
        rw [he] at he'
        cases he'
        refine ⟨e, hid, ?_, hcovers⟩
        have hm : (f.schedule, f.row) ∈ dues := by
          rw [← hall.rows]
          exact List.mem_map_of_mem hf
        rw [hkind, hscope, hsched]
        exact .tick f.schedule f.row v'.db hv'.within (hdues _ hm).2.1
  | _ =>
      refine Tx.Ensures.trivial (enqueuing_of_not ?_) _
      exact not_false

/-- Only a transaction that queues tasks adds one. -/
theorem Commit.enqueues (h : Commit P op u K d d' r) {id : Id} {t : Task}
    (ht : d'.tasks.get? id = some t) (hnew : d.tasks.get? id = none) : op.Enqueues := by
  cases h with
  | taskRun => trivial
  | scheduleRun => trivial
  | ticked => trivial
  | tasksPruned ids n =>
      have hget : (d.deleteTasks ids).tasks.get? id = some t := ht
      simp [Db.deleteTasks, Table.get?_deleteWhere, hnew] at hget
  | _ => exact absurd (ht.symm.trans hnew) (by simp)

/-! ## The runs -/

/-- **The items of a task cover its scope**: `W` holds of the stores its transaction passed
through, and `d'` is the store it left. -/
structure Db.CoversScope (d' : Db) (W : Db → Prop) (task : Id) (kind : TaskKind) (scope : Scope) :
    Prop where
  kind_of : ∀ id i, d'.items.get? id = some i → i.taskId = task → i.kind = kind
  outside : ∀ s, (∀ d, W d → s ∉ d.targets scope) →
    ∀ id i, d'.items.get? id = some i → i.taskId = task → i.switchId ≠ s
  inside : ∀ s, (∀ d, W d → s ∈ d.targets scope) →
    ∃! id, ∃ i, d'.items.get? id = some i ∧ i.taskId = task ∧ i.switchId = s
  skipped : ∀ id i, d'.items.get? id = some i → i.taskId = task → i.status = .skipped →
    (∀ d, W d → i.switchId ∈ d.targets scope) →
    ∃ d, (W d ∨ d = d') ∧ ∃ id' j, d.items.get? id' = some j ∧
      j.pendingFor i.switchId kind = true ∧ j.taskId ≠ task

theorem Enqueued.Covers.coversScope {e : Enqueued} {n : ℕ} (h : e.Covers W b)
    (hb : b.Fits K d) (hd : d.Valid n) (hitems : d'.items = (d.apply b).items) :
    d'.CoversScope W e.task e.kind e.scope := by
  have hread : ∀ {id i}, d'.items.get? id = some i ↔
      (id, i) ∈ b.items ∨ d.items.get? id = some i := fun {id i} => by rw [hitems, hb.item_iff]
  -- the old items are of other tasks
  have hmem : ∀ {id i}, d'.items.get? id = some i → i.taskId = e.task → (id, i) ∈ b.items := by
    intro id i hi htask
    rcases hread.mp hi with hm | hold
    · exact hm
    · obtain ⟨t, ht, hid, -⟩ := h.task
      obtain ⟨t', ht'⟩ := hd.item_task id i hold
      rw [htask, ← hid, (hb.task t ht).2.task] at ht'
      cases ht'
  constructor
  · exact fun id i hi htask => (h.inside _ (hmem hi htask) htask).1
  · rintro s hout id i hi htask rfl
    obtain ⟨-, d₀, hd₀, hin⟩ := h.inside _ (hmem hi htask) htask
    exact hout d₀ hd₀ hin
  · intro s hin
    obtain ⟨x, hx, htask, hswitch⟩ := h.covered s hin
    refine ⟨x.1, ⟨x.2, hread.mpr (.inl hx), htask, hswitch⟩, ?_⟩
    rintro id ⟨i, hi, htask', hswitch'⟩
    exact congrArg Prod.fst (hb.one_each _ (hmem hi htask') x hx (htask'.trans htask.symm)
      (hswitch'.trans hswitch.symm))
  · intro id i hi htask hstatus hin
    rcases h.skipped _ (hmem hi htask) htask hstatus hin with hbusy | ⟨x, hx, hpending, hother⟩
    · obtain ⟨d₀, hd₀, hrest⟩ := hbusy
      exact ⟨d₀, .inl hd₀, hrest⟩
    · exact ⟨d', .inr rfl, x.1, x.2, hread.mpr (.inl hx), hpending, hother⟩

/-- **Runs leave no device out**: at most one pending item for each switch and kind, at most one
item for each task and switch; and every task a transaction queues is one it asks for and
covers its scope.

The scope of a run is a question about the store, and the store changes while the transaction
runs: a switch may join a group, be disabled or lose its group between the two inserts.  So
the statement follows the transaction from a state `s₀` in which nothing runs, through stores
that all satisfy a predicate `W` of the reader's choice, up to its commit in `s`.  What holds
of the scope throughout `W` is what the items must answer for: with
`W := fun d => s ∈ d.targets scope` the switch `s` has its item whatever the others do, as long
as they leave it in scope. -/
theorem Plane.Reachable.runs_cover {s₀ : Plane} (h₀ : Plane.Reachable P s₀) :
    s₀.db.OnePending ∧ s₀.db.OneEach ∧
    ∀ (W : Db → Prop) (s : Plane) (t : ℕ) (op : Op) (w : Db → Db) (r : Reply), W s₀.db →
      (∀ op u w p, s₀.txns t ≠ .active op u w p) → Sys.StepsWithin (body P) W s₀ s →
      s.txns t = .active op () w (.pure r) →
      ∀ id task, (w s.db).tasks.get? id = some task → s.db.tasks.get? id = none →
        ∃ kind scope, op.Asks W kind scope task.scheduleId ∧ task.kind = kind ∧
          (w s.db).CoversScope W id kind scope := by
  refine ⟨fun sw kind id id' i i' hi hi' hp hp' => ?_, ?_, ?_⟩
  · obtain ⟨hs, hk, hpending⟩ := Item.pendingFor_eq_true.mp hp
    obtain ⟨hs', hk', hpending'⟩ := Item.pendingFor_eq_true.mp hp'
    exact h₀.sound.inv.pending_unique id id' i i' hi hi' hpending hpending'
      (hs.trans hs'.symm) (hk.trans hk'.symm)
  · exact h₀.induct (fun _ _ _ _ hi => by simp [Db.empty] at hi)
      fun hv _ hc hd => hc.oneEach hv hd
  · intro W s t op w r hW ht hrun hend id task htask hnew
    have hs : Plane.Reachable P s := h₀.trans (Sys.StepsWithin.steps hrun)
    obtain ⟨hvalid, hc⟩ := hs.commit hend
    have hends := h₀.sound.follow device_kept enqueuing_kept hW ht hrun hend
    obtain ⟨hvalid, b, hb, hitems, htasks, hall⟩ := hends (hc.enqueues htask hnew)
    have hget : (s.db.apply b).tasks.get? id = some task := by
      rw [← show (w s.db).tasks = (s.db.apply b).tasks from htasks]
      exact htask
    rcases hb.task_iff.mp hget with hm | hold
    · obtain ⟨e, hid, hasks, hcovers⟩ := hall _ hm
      obtain ⟨y, hy, hyid, hykind⟩ := hcovers.task
      have hsame : y = (id, task) :=
        List.inj_on_of_nodup_map hb.nodup_tasks hy hm (hyid.trans hid)
      subst hsame
      have hscope := hcovers.coversScope hb hvalid hitems
      rw [hid] at hscope
      exact ⟨e.kind, e.scope, hasks, hykind, hscope⟩
    · have hnone : s.db.tasks.get? id = some task := hold
      rw [hnew] at hnone
      cases hnone

namespace Demo

/-- The switch `0` is enabled. -/
def enabled (d : Db) : Bool := (d.switches.get? 0).any (·.isEnabled)

/-- A reachability run of all switches, up to its commit. -/
def queueing : Option Plane :=
  equipped.runWithin (body platform) enabled
    (.request 1 (.runTask admin ⟨"reachability", "all", .empty, []⟩) :: .begin 1 () ::
      List.replicate 9 (.advance 1))

theorem equipped_reachable : equipped.Reachable platform := act_reachable .refl ..

/-- The run covers the scope it was asked for. -/
theorem queued_covering : ∃ d' kind scope, (queueing.bind (·.left 1)) = some d' ∧
    (d'.items.get? 2).any (·.taskId = 1) ∧
    d'.CoversScope (fun d => enabled d = true) 1 kind scope := by
  have hleft : ((queueing.bind (·.left 1)).any fun d => (d.tasks.get? 1).isSome &&
      (d.items.get? 2).any (·.taskId = 1)) = true := by decide +kernel
  have hnew : (queueing.any fun s => (s.db.tasks.get? 1).isNone) = true := by decide +kernel
  obtain ⟨d', hd', hd⟩ := (Option.any_eq_true _ _).mp hleft
  obtain ⟨s, hs, hend⟩ := Option.bind_eq_some_iff.mp hd'
  rw [hs, Option.any_some, Option.isNone_iff_eq_none] at hnew
  rw [Bool.and_eq_true, Option.isSome_iff_exists] at hd
  obtain ⟨⟨task, htask⟩, hitem⟩ := hd
  obtain ⟨op, u, w, r, ht, rfl⟩ := Sys.left_eq_some hend
  obtain ⟨kind, scope, -, -, hcovers⟩ := equipped_reachable.runs_cover.2.2
    (fun d => enabled d = true) s 1 op w r (by decide +kernel)
    (by
      have habsent : equipped.txns 1 = .absent := rfl
      simp [habsent])
    (Sys.runWithin_steps hs) ht 1 task htask hnew
  exact ⟨w s.db, kind, scope, hd', hitem, hcovers⟩

end Demo

end BindPlane.Devices
