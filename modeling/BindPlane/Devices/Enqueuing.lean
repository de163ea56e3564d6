import BindPlane.Devices.Interference

/-!
# Enqueuing transactions

How the batch of an enqueuing transaction grows, statement by statement, and what
`enqueueDeviceTask` guarantees about the items it adds.

The rules are stated in the runs whose stores all satisfy `W`
(`Contract.within`), so that they say at once that the transaction keeps the contract and
what the stores it passed through have to do with the rows it inserts: `Enqueued.Covers`.
An item is there because its switch was in scope at one of the two snapshots; a switch in
scope at both has an item; and it is skipped only where an item of another task had the
entry of the pending index when the first insert came to it.

**Two snapshots.**  The inserts of an enqueuing transaction are two statements, and a switch may be
created, disabled or moved to another group between them.  So what a task covers cannot be said with
one set of switches: a switch in scope at both snapshots has an item, and a switch in scope at
neither has none.  `W` carries this from the statements to whole runs, as a set of stores that all
have the switch in scope, or all have not.
-/

namespace BindPlane.Devices

open ReadCommitted Contract

variable {P : Platform} {W : Db → Prop} {β : Type} {v : View Db Key} {b : Batch}
  {Q : Except Failure β → View Db Key → Prop} {K : Set (Resource Key)} {d : Db}

/-! ## Growing batches -/

namespace Batch

/-- One more task. -/
def addTask (b : Batch) (id : Id) (t : Task) : Batch := { b with tasks := b.tasks ++ [(id, t)] }

/-- One more item. -/
def addItem (b : Batch) (id : Id) (i : Item) : Batch := { b with items := b.items ++ [(id, i)] }

/-- More items. -/
def addItems (b : Batch) (new : List (ℕ × Item)) : Batch := { b with items := b.items ++ new }

/-- One more schedule moved on. -/
def addRun (b : Batch) (id : Id) (now : Instant) (next : Option Instant) : Batch :=
  { b with runs := b.runs ++ [(id, now, next)] }

@[simp] theorem addTask_tasks (b : Batch) (id : Id) (t : Task) :
    (b.addTask id t).tasks = b.tasks ++ [(id, t)] := rfl
@[simp] theorem addTask_items (b : Batch) (id : Id) (t : Task) :
    (b.addTask id t).items = b.items := rfl
@[simp] theorem addTask_runs (b : Batch) (id : Id) (t : Task) :
    (b.addTask id t).runs = b.runs := rfl
@[simp] theorem addItem_tasks (b : Batch) (id : Id) (i : Item) :
    (b.addItem id i).tasks = b.tasks := rfl
@[simp] theorem addItem_items (b : Batch) (id : Id) (i : Item) :
    (b.addItem id i).items = b.items ++ [(id, i)] := rfl
@[simp] theorem addItem_runs (b : Batch) (id : Id) (i : Item) :
    (b.addItem id i).runs = b.runs := rfl
@[simp] theorem addItems_tasks (b : Batch) (new : List (ℕ × Item)) :
    (b.addItems new).tasks = b.tasks := rfl
@[simp] theorem addItems_items (b : Batch) (new : List (ℕ × Item)) :
    (b.addItems new).items = b.items ++ new := rfl
@[simp] theorem addItems_runs (b : Batch) (new : List (ℕ × Item)) :
    (b.addItems new).runs = b.runs := rfl
@[simp] theorem addRun_tasks (b : Batch) (id : Id) (now : Instant) (next : Option Instant) :
    (b.addRun id now next).tasks = b.tasks := rfl
@[simp] theorem addRun_items (b : Batch) (id : Id) (now : Instant) (next : Option Instant) :
    (b.addRun id now next).items = b.items := rfl
@[simp] theorem addRun_runs (b : Batch) (id : Id) (now : Instant) (next : Option Instant) :
    (b.addRun id now next).runs = b.runs ++ [(id, now, next)] := rfl

@[simp] theorem addItems_nil (b : Batch) : b.addItems [] = b := by simp [addItems]

theorem addItem_addItems (b : Batch) (id : Id) (i : Item) (new : List (ℕ × Item)) :
    (b.addItem id i).addItems new = b.addItems ((id, i) :: new) := by
  simp [addItem, addItems]

theorem addItems_addItems (b : Batch) (new more : List (ℕ × Item)) :
    (b.addItems new).addItems more = b.addItems (new ++ more) := by
  simp [addItems]

theorem apply_addTask (d : Db) (b : Batch) (id : Id) (t : Task) :
    (d.apply b).addTask id t = d.apply (b.addTask id t) := by
  simp [Db.apply, Db.addTask, addTask, Table.insertAll_concat]

theorem apply_addItem (d : Db) (b : Batch) (id : Id) (i : Item) :
    (d.apply b).addItem id i = d.apply (b.addItem id i) := by
  simp [Db.apply, Db.addItem, addItem, Table.insertAll_concat]

theorem apply_addRun (d : Db) (b : Batch) (id : Id) (now : Instant) (next : Option Instant) :
    (d.apply b).modifySchedule id (Schedule.ran now next) = d.apply (b.addRun id now next) := by
  simp [Db.apply, Db.modifySchedule, addRun, Table.modifyAll_concat]

end Batch

/-- A new item stays new: its entry stays free behind its lock. -/
theorem Item.New.since {i : Item} {v' : View Db Key} (h : i.New v.held v.db)
    (hv : (contract P).Good v) (hs : (contract P).Since v v') : i.New v'.held v'.db := by
  cases h with
  | queued hstatus hkey hidle =>
      exact .queued hstatus (hs.held hkey) (idle_stable hs.rel hv.1 hkey hidle)
  | skipped hstatus => exact .skipped hstatus

namespace Batch.Fits

theorem empty : Batch.Fits {} K d := by
  constructor <;> simp

/-- What fits goes on fitting: its numbers stay unused and its entries free. -/
theorem since {v' : View Db Key} (h : b.Fits v.held v.db) (hv : (contract P).Good v)
    (hs : (contract P).Since v v') : b.Fits v'.held v'.db where
  task t ht := ⟨hs.held (h.task t ht).1, unused_stable hs.rel hv.1 (h.task t ht).1 (h.task t ht).2⟩
  item i hi := ⟨hs.held (h.item i hi).1, unused_stable hs.rel hv.1 (h.item i hi).1 (h.item i hi).2⟩
  nodup_tasks := h.nodup_tasks
  nodup_items := h.nodup_items
  new i hi := ⟨(h.new i hi).1.since hv hs, (h.new i hi).2⟩
  task_of := h.task_of
  one_queued := h.one_queued
  one_each := h.one_each

theorem addTask (h : b.Fits K d) {id : Id} {t : Task} (hserial : .serial id ∈ K)
    (hfresh : d.Unused id) (hnew : id ∉ b.tasks.map Prod.fst) : (b.addTask id t).Fits K d where
  task x hx := by
    rcases List.mem_append.mp hx with hx | hx
    · exact h.task x hx
    · obtain rfl := List.mem_singleton.mp hx
      exact ⟨hserial, hfresh⟩
  item := h.item
  nodup_tasks := by
    rw [Batch.addTask_tasks, List.map_append]
    exact h.nodup_tasks.append (List.nodup_singleton _) (by simpa using hnew)
  nodup_items := h.nodup_items
  new := h.new
  task_of i hi := by
    obtain ⟨x, hx, hrest⟩ := h.task_of i hi
    exact ⟨x, List.mem_append_left _ hx, hrest⟩
  one_queued := h.one_queued
  one_each := h.one_each

theorem addRun (h : b.Fits K d) (id : Id) (now : Instant) (next : Option Instant) :
    (b.addRun id now next).Fits K d := { h with }

/-- An item of a task of the batch may join it where its entry is free and its task has no
other item for its switch. -/
theorem addItem (h : b.Fits K d) {id : Id} {i : Item} (hserial : .serial id ∈ K)
    (hfresh : d.Unused id) (hid : id ∉ b.items.map Prod.fst)
    (hnew : i.New K d ∧ i.leaseToken = none ∧ i.backupId = none)
    (htask : ∃ t ∈ b.tasks, t.1 = i.taskId ∧ t.2.kind = i.kind)
    (hqueued : i.status = .queued → ∀ x ∈ b.items, x.2.status = .queued →
      x.2.switchId = i.switchId → x.2.kind ≠ i.kind)
    (heach : ∀ x ∈ b.items, x.2.taskId = i.taskId → x.2.switchId ≠ i.switchId) :
    (b.addItem id i).Fits K d where
  task := h.task
  item x hx := by
    rcases List.mem_append.mp hx with hx | hx
    · exact h.item x hx
    · obtain rfl := List.mem_singleton.mp hx
      exact ⟨hserial, hfresh⟩
  nodup_tasks := h.nodup_tasks
  nodup_items := by
    rw [Batch.addItem_items, List.map_append]
    exact h.nodup_items.append (List.nodup_singleton _) (by simpa using hid)
  new x hx := by
    rcases List.mem_append.mp hx with hx | hx
    · exact h.new x hx
    · obtain rfl := List.mem_singleton.mp hx
      exact hnew
  task_of x hx := by
    rcases List.mem_append.mp hx with hx | hx
    · exact h.task_of x hx
    · obtain rfl := List.mem_singleton.mp hx
      exact htask
  one_queued x hx y hy hxq hyq hswitch hkind := by
    rcases List.mem_append.mp hx with hx | hx <;> rcases List.mem_append.mp hy with hy | hy
    · exact h.one_queued x hx y hy hxq hyq hswitch hkind
    · obtain rfl := List.mem_singleton.mp hy
      exact absurd hkind (hqueued hyq x hx hxq hswitch)
    · obtain rfl := List.mem_singleton.mp hx
      exact absurd hkind.symm (hqueued hxq y hy hyq hswitch.symm)
    · obtain rfl := List.mem_singleton.mp hx
      exact (List.mem_singleton.mp hy).symm
  one_each x hx y hy htask hswitch := by
    rcases List.mem_append.mp hx with hx | hx <;> rcases List.mem_append.mp hy with hy | hy
    · exact h.one_each x hx y hy htask hswitch
    · obtain rfl := List.mem_singleton.mp hy
      exact absurd hswitch (heach x hx htask)
    · obtain rfl := List.mem_singleton.mp hx
      exact absurd hswitch.symm (heach y hy htask.symm)
    · obtain rfl := List.mem_singleton.mp hx
      exact (List.mem_singleton.mp hy).symm

/-- A number just drawn is new to the batch. -/
theorem new_task (h : b.Fits K d) {id : Id} (hid : .serial id ∉ K) :
    id ∉ b.tasks.map Prod.fst := by
  intro hm
  obtain ⟨x, hx, rfl⟩ := List.mem_map.mp hm
  exact hid (h.task x hx).1

theorem new_item (h : b.Fits K d) {id : Id} (hid : .serial id ∉ K) :
    id ∉ b.items.map Prod.fst := by
  intro hm
  obtain ⟨x, hx, rfl⟩ := List.mem_map.mp hm
  exact hid (h.item x hx).1

end Batch.Fits

/-! ## One statement -/

/-- `INSERT INTO bp_device_task_items`, of one row. -/
theorem addItem_bind {i : Item} {g : Id → Txn β} (hv : ((contract P).within W).Good v)
    (hb : b.Fits v.held v.db) (hpending : v.pending = (·.apply b))
    (hnew : i.New v.held v.db ∧ i.leaseToken = none ∧ i.backupId = none)
    (htask : ∃ t ∈ b.tasks, t.1 = i.taskId ∧ t.2.kind = i.kind)
    (hqueued : i.status = .queued → ∀ x ∈ b.items, x.2.status = .queued →
      x.2.switchId = i.switchId → x.2.kind ≠ i.kind)
    (heach : ∀ x ∈ b.items, x.2.taskId = i.taskId → x.2.switchId ≠ i.switchId)
    (h : ∀ id v', ((contract P).within W).Since v v' → ((contract P).within W).Good v' →
      (b.addItem id i).Fits v'.held v'.db → v'.pending = (·.apply (b.addItem id i)) →
      (g id).Ensures ((contract P).within W).interference Q v') :
    (Tx.nextSerial.bind fun id => (Tx.update (·.addItem id i)).bind fun _ => g id).Ensures
      ((contract P).within W).interference Q v := by
  refine hv.nextSerial fun id v₁ h₁ hv₁ hserial hunheld hinv => ?_
  refine hv₁.update fun v₂ h₂ hv₂ => ?_
  have hb₁ := hb.since hv.of_within h₁.of_within.since
  have hnew₁ := hnew.1.since hv.of_within h₁.of_within.since
  have hfits : (b.addItem id i).Fits v₁.held v₁.db :=
    hb₁.addItem hserial (hinv.1.unused id le_rfl) (hb.new_item hunheld) ⟨hnew₁, hnew.2⟩
      htask hqueued heach
  refine h id (v₂.queue _) (h₁.since.trans h₂.since) hv₂
    (hfits.since hv₁.of_within h₂.of_within.since) ?_
  rw [View.queue_pending, h₂.pending, h₁.pending, hpending]
  exact funext fun d => Batch.apply_addItem d b id i

/-! ## The two inserts -/

/-- An item of another task has the entry of the pending index. -/
def Batch.Busy (W : Db → Prop) (b : Batch) (task : Id) (kind : TaskKind) (s : Id) : Prop :=
  (∃ d, W d ∧ ∃ id i, d.items.get? id = some i ∧ i.pendingFor s kind = true ∧
    i.taskId ≠ task) ∨
  ∃ x ∈ b.items, x.2.pendingFor s kind = true ∧ x.2.taskId ≠ task

theorem Batch.Busy.addItems {task s : Id} {kind : TaskKind} (h : b.Busy W task kind s)
    (new : List (ℕ × Item)) : (b.addItems new).Busy W task kind s :=
  h.imp_right fun ⟨x, hx, hrest⟩ => ⟨x, List.mem_append_left _ hx, hrest⟩

/-- The rows one of the inserts adds. -/
structure Inserted (task : Id) (kind : TaskKind) (status : ItemStatus) (ss : List Id)
    (new : List (ℕ × Item)) : Prop where
  row : ∀ x ∈ new, x.2.taskId = task ∧ x.2.kind = kind ∧ x.2.status = status
  switch : ∀ x ∈ new, x.2.switchId ∈ ss

theorem Inserted.cons {task s id : Id} {kind : TaskKind} {status : ItemStatus} {ss : List Id}
    {new : List (ℕ × Item)} {i : Item} (h : Inserted task kind status ss new)
    (hrow : i.taskId = task ∧ i.kind = kind ∧ i.status = status) (hs : i.switchId = s) :
    Inserted task kind status (s :: ss) ((id, i) :: new) where
  row x hx := by
    rcases List.mem_cons.mp hx with rfl | hx
    · exact hrow
    · exact h.row x hx
  switch x hx := by
    rcases List.mem_cons.mp hx with rfl | hx
    · exact List.mem_cons.mpr (.inl hs)
    · exact List.mem_cons_of_mem _ (h.switch x hx)

/-- The switches still to come have no item yet. -/
theorem Batch.none_left {task s id : Id} {ss : List Id} {i : Item}
    (hnone : ∀ s' ∈ s :: ss, ∀ x ∈ b.items, x.2.taskId = task → x.2.switchId ≠ s')
    (hs : s ∉ ss) (hi : i.switchId = s) :
    ∀ s' ∈ ss, ∀ x ∈ (b.addItem id i).items, x.2.taskId = task → x.2.switchId ≠ s' := by
  intro s' hs' x hx htask
  rcases List.mem_append.mp hx with hx | hx
  · exact hnone s' (List.mem_cons_of_mem _ hs') x hx htask
  · obtain rfl := List.mem_singleton.mp hx
    rintro rfl
    exact hs (hi ▸ hs')

theorem insertQueued_bind {task : Id} {kind : TaskKind} {start : Instant} {ss : List Id}
    {g : ℕ → Txn β} (hv : ((contract P).within W).Good v) (hb : b.Fits v.held v.db)
    (hpending : v.pending = (·.apply b)) (htask : ∃ t ∈ b.tasks, t.1 = task ∧ t.2.kind = kind)
    (hss : ss.Nodup) (hnone : ∀ s ∈ ss, ∀ x ∈ b.items, x.2.taskId = task → x.2.switchId ≠ s)
    (h : ∀ new n v', ((contract P).within W).Since v v' → ((contract P).within W).Good v' →
      (b.addItems new).Fits v'.held v'.db → v'.pending = (·.apply (b.addItems new)) →
      Inserted task kind .queued ss new →
      (∀ s ∈ ss, (∃ x ∈ new, x.2.switchId = s) ∨ (b.addItems new).Busy W task kind s) →
      (g n).Ensures ((contract P).within W).interference Q v') :
    ((insertQueued task kind start ss).bind g).Ensures
      ((contract P).within W).interference Q v := by
  induction ss generalizing v b g with
  | nil =>
      exact h [] 0 v (Later.refl v).since hv (by simpa using hb) (by simpa using hpending)
        ⟨by simp, by simp⟩ (by simp)
  | cons s ss ih =>
      obtain ⟨hs, hss⟩ := List.nodup_cons.mp hss
      simp only [insertQueued, Tx.bind_eq, Tx.bind_assoc]
      refine hv.acquireIf (fun v₁ h₁ hv₁ hkey hfree => ?_) (fun v₁ h₁ hv₁ hbusy => ?_)
      all_goals
        have hb₁ := hb.since hv.of_within h₁.of_within.since
        have hpending₁ := h₁.pending.trans hpending
        have hsnap : v₁.snapshot = v₁.db.apply b := by rw [View.snapshot, hpending₁]
      · -- nobody has the entry, neither in the store nor in the batch
        have hidle : (v₁.db.apply b).Idle s kind := by
          rw [← hsnap]
          exact Db.hasPending_eq_false.mp (by simpa using hfree)
        let i := Item.queuedFor task kind s start
        have hnew : i.New v₁.held v₁.db :=
          .queued rfl hkey fun id j hj => hidle id j (hb₁.item_iff.mpr (.inr hj))
        have hqueued : ∀ x ∈ b.items, x.2.status = .queued → x.2.switchId = s →
            x.2.kind ≠ kind := by
          intro x hx hstatus hswitch hkind
          have hno := hidle x.1 x.2 (hb₁.item_iff.mpr (.inl hx))
          simp [Item.pendingFor, Item.pending, hstatus, hswitch, hkind] at hno
        simp only [if_true, Tx.bind_assoc, Tx.pure_eq, Tx.pure_bind]
        refine addItem_bind (i := i) hv₁ hb₁ hpending₁ ⟨hnew, rfl, rfl⟩ htask
          (fun _ => hqueued) (hnone s List.mem_cons_self) fun id v₂ hs₂ hv₂ hb₂ hpending₂ => ?_
        refine ih hv₂ hb₂ hpending₂ htask hss (Batch.none_left hnone hs rfl)
          fun new n v₃ hs₃ hv₃ hb₃ hpending₃ hins hcov => ?_
        rw [Batch.addItem_addItems] at hb₃ hpending₃ hcov
        refine h _ _ v₃ (h₁.since.trans (hs₂.trans hs₃)) hv₃ hb₃ hpending₃
          (hins.cons ⟨rfl, rfl, rfl⟩ rfl) fun s' hs' => ?_
        rcases List.mem_cons.mp hs' with rfl | hs'
        · exact .inl ⟨_, List.mem_cons_self, rfl⟩
        · refine (hcov s' hs').imp_left ?_
          rintro ⟨x, hx, heq⟩
          exact ⟨x, List.mem_cons_of_mem _ hx, heq⟩
      · -- somebody has it, and not this task
        have hbusy₁ : b.Busy W task kind s := by
          rw [hsnap, Bool.not_eq_false', Db.hasPending, Table.any_eq_true] at hbusy
          obtain ⟨id, i, hi, hp⟩ := hbusy
          rcases hb₁.item_iff.mp hi with hi | hi
          · refine .inr ⟨_, hi, hp, fun htid => ?_⟩
            exact hnone s List.mem_cons_self _ hi htid (Item.pendingFor_eq_true.mp hp).1
          · refine .inl ⟨v₁.db, hv₁.within, id, i, hi, hp, fun htid => ?_⟩
            obtain ⟨t, ht, hid, -⟩ := htask
            obtain ⟨t', ht'⟩ := hv₁.of_within.1.item_task id i hi
            rw [htid, ← hid, (hb₁.task t ht).2.task] at ht'
            cases ht'
        simp only [Bool.false_eq_true, if_false]
        refine ih hv₁ hb₁ hpending₁ htask hss
          (fun s' hs' => hnone s' (List.mem_cons_of_mem _ hs'))
          fun new n v₂ hs₂ hv₂ hb₂ hpending₂ hins hcov => ?_
        refine h new n v₂ (h₁.since.trans hs₂) hv₂ hb₂ hpending₂
          ⟨hins.row, fun x hx => List.mem_cons_of_mem _ (hins.switch x hx)⟩ fun s' hs' => ?_
        rcases List.mem_cons.mp hs' with rfl | hs'
        · exact .inr (hbusy₁.addItems new)
        · exact hcov s' hs'

theorem insertSkipped_bind {task : Id} {kind : TaskKind} {start : Instant} {ss : List Id}
    {g : ℕ → Txn β} (hv : ((contract P).within W).Good v) (hb : b.Fits v.held v.db)
    (hpending : v.pending = (·.apply b)) (htask : ∃ t ∈ b.tasks, t.1 = task ∧ t.2.kind = kind)
    (hss : ss.Nodup) (hnone : ∀ s ∈ ss, ∀ x ∈ b.items, x.2.taskId = task → x.2.switchId ≠ s)
    (h : ∀ new n v', ((contract P).within W).Since v v' → ((contract P).within W).Good v' →
      (b.addItems new).Fits v'.held v'.db → v'.pending = (·.apply (b.addItems new)) →
      Inserted task kind .skipped ss new → (∀ s ∈ ss, ∃ x ∈ new, x.2.switchId = s) →
      (g n).Ensures ((contract P).within W).interference Q v') :
    ((insertSkipped task kind start ss).bind g).Ensures
      ((contract P).within W).interference Q v := by
  induction ss generalizing v b g with
  | nil =>
      exact h [] 0 v (Later.refl v).since hv (by simpa using hb) (by simpa using hpending)
        ⟨fun _ hx => absurd hx List.not_mem_nil, fun _ hx => absurd hx List.not_mem_nil⟩
        fun _ hs => absurd hs List.not_mem_nil
  | cons s ss ih =>
      obtain ⟨hs, hss⟩ := List.nodup_cons.mp hss
      simp only [insertSkipped, Tx.bind_eq, Tx.bind_assoc, Tx.pure_eq, Tx.pure_bind]
      refine addItem_bind (i := Item.skippedFor task kind s start) hv hb hpending
        ⟨.skipped rfl, rfl, rfl⟩ htask nofun (hnone s List.mem_cons_self)
        fun id v₁ hs₁ hv₁ hb₁ hpending₁ => ?_
      refine ih hv₁ hb₁ hpending₁ htask hss (Batch.none_left hnone hs rfl)
        fun new n v₂ hs₂ hv₂ hb₂ hpending₂ hins hcov => ?_
      rw [Batch.addItem_addItems] at hb₂ hpending₂
      refine h _ _ v₂ (hs₁.trans hs₂) hv₂ hb₂ hpending₂
        (hins.cons ⟨rfl, rfl, rfl⟩ rfl) fun s' hs' => ?_
      rcases List.mem_cons.mp hs' with rfl | hs'
      · exact ⟨_, List.mem_cons_self, rfl⟩
      · obtain ⟨x, hx, heq⟩ := hcov s' hs'
        exact ⟨x, List.mem_cons_of_mem _ hx, heq⟩

/-! ## enqueueDeviceTask -/

/-- **What an enqueued task covers**: the items of the batch that are its own, against the
scope in the stores the transaction passed through. -/
structure Enqueued.Covers (e : Enqueued) (W : Db → Prop) (b : Batch) : Prop where
  task : ∃ t ∈ b.tasks, t.1 = e.task ∧ t.2.kind = e.kind
  inside : ∀ x ∈ b.items, x.2.taskId = e.task →
    x.2.kind = e.kind ∧ ∃ d, W d ∧ x.2.switchId ∈ d.targets e.scope
  covered : ∀ s, (∀ d, W d → s ∈ d.targets e.scope) →
    ∃ x ∈ b.items, x.2.taskId = e.task ∧ x.2.switchId = s
  skipped : ∀ x ∈ b.items, x.2.taskId = e.task → x.2.status = .skipped →
    (∀ d, W d → x.2.switchId ∈ d.targets e.scope) → b.Busy W e.task e.kind x.2.switchId

/-- A batch that grows by other tasks covers what it covered. -/
theorem Enqueued.Covers.grow {e : Enqueued} (h : e.Covers W b) {id : Id} {t : Task}
    {new : List (ℕ × Item)} (hnew : ∀ x ∈ new, x.2.taskId ≠ e.task) :
    e.Covers W ((b.addTask id t).addItems new) where
  task := by
    obtain ⟨x, hx, hrest⟩ := h.task
    exact ⟨x, List.mem_append_left _ hx, hrest⟩
  inside x hx htask := by
    rcases List.mem_append.mp hx with hx | hx
    · exact h.inside x hx htask
    · exact absurd htask (hnew x hx)
  covered s hs := by
    obtain ⟨x, hx, hrest⟩ := h.covered s hs
    exact ⟨x, List.mem_append_left _ hx, hrest⟩
  skipped x hx htask hstatus hs := by
    rcases List.mem_append.mp hx with hx | hx
    · exact (h.skipped x hx htask hstatus hs).addItems new
    · exact absurd htask (hnew x hx)

theorem scopeLabel_bind {scope : Scope} {g : Option String → Txn β}
    (hv : ((contract P).within W).Good v) (hpending : v.pending = (·.apply b))
    (h : ∀ label v', ((contract P).within W).Later v v' → ((contract P).within W).Good v' →
      (g (some label)).Ensures ((contract P).within W).interference Q v')
    (hnone : ∀ k v', ((contract P).within W).Later v v' → ((contract P).within W).Good v' →
      scope = .group k → v'.db.groups.get? k = none →
      (g none).Ensures ((contract P).within W).interference Q v') :
    ((scopeLabel scope).bind g).Ensures ((contract P).within W).interference Q v := by
  cases scope with
  | all => exact h _ v (.refl v) hv
  | group k =>
      simp only [scopeLabel, Tx.bind_eq, Tx.bind_assoc, Tx.pure_eq, Tx.pure_bind]
      refine hv.snapshot fun v₁ h₁ hv₁ => ?_
      have hgroups : v₁.snapshot.groups = v₁.db.groups := by
        rw [View.snapshot, h₁.pending, hpending]
        rfl
      rw [hgroups]
      cases hk : v₁.db.groups.get? k with
      | none => exact hnone k v₁ h₁ hv₁ rfl hk
      | some row => exact h _ v₁ h₁ hv₁
  | switches ids =>
      cases ids with
      | nil => exact h _ v (.refl v) hv
      | cons id rest =>
          cases rest with
          | nil =>
              simp only [scopeLabel, Tx.bind_eq, Tx.bind_assoc, Tx.pure_eq, Tx.pure_bind]
              exact hv.snapshot fun v₁ h₁ hv₁ => h _ v₁ h₁ hv₁
          | cons id' rest => exact h _ v (.refl v) hv

theorem without_eq_true {task s : Id} : d.without task s = true ↔
    ∀ id i, d.items.get? id = some i → i.taskId = task → i.switchId ≠ s := by
  rw [Db.without, Bool.not_eq_true', Table.any_eq_false]
  simp

/-- The two inserts together cover the scope: the second takes the switches the first has
left without an item. -/
private theorem covers_of_inserts {e : Enqueued} {d₁ d₂ : Db} {new₁ new₂ : List (ℕ × Item)}
    {ss : List Id} (hd₁ : W d₁) (hd₂ : W d₂)
    (htask : ∃ t ∈ b.tasks, t.1 = e.task ∧ t.2.kind = e.kind)
    (hother : ∀ x ∈ b.items, x.2.taskId ≠ e.task)
    (hins₁ : Inserted e.task e.kind .queued (d₁.targets e.scope) new₁)
    (hcov₁ : ∀ s ∈ d₁.targets e.scope,
      (∃ x ∈ new₁, x.2.switchId = s) ∨ (b.addItems new₁).Busy W e.task e.kind s)
    (hss : ∀ s, s ∈ ss ↔ s ∈ d₂.targets e.scope ∧
      ∀ x ∈ (b.addItems new₁).items, x.2.taskId = e.task → x.2.switchId ≠ s)
    (hins₂ : Inserted e.task e.kind .skipped ss new₂)
    (hcov₂ : ∀ s ∈ ss, ∃ x ∈ new₂, x.2.switchId = s) :
    e.Covers W (b.addItems (new₁ ++ new₂)) := by
  have hmem : ∀ {x}, x ∈ (b.addItems (new₁ ++ new₂)).items → x.2.taskId = e.task →
      x ∈ new₁ ∨ x ∈ new₂ := by
    intro x hx htid
    rcases List.mem_append.mp hx with hx | hx
    · exact absurd htid (hother x hx)
    · exact List.mem_append.mp hx
  refine ⟨htask, fun x hx htid => ?_, fun s hs => ?_, fun x hx htid hstatus hs => ?_⟩
  · rcases hmem hx htid with hx | hx
    · exact ⟨(hins₁.row x hx).2.1, d₁, hd₁, hins₁.switch x hx⟩
    · exact ⟨(hins₂.row x hx).2.1, d₂, hd₂, ((hss _).mp (hins₂.switch x hx)).1⟩
  · by_cases hno : s ∈ ss
    · obtain ⟨x, hx, heq⟩ := hcov₂ s hno
      exact ⟨x, List.mem_append_right _ (List.mem_append_right _ hx), (hins₂.row x hx).1, heq⟩
    · rw [hss] at hno
      push Not at hno
      obtain ⟨x, hx, htid, heq⟩ := hno (hs d₂ hd₂)
      rw [← Batch.addItems_addItems]
      exact ⟨x, List.mem_append_left _ hx, htid, heq⟩
  · rw [← Batch.addItems_addItems]
    rcases hmem hx htid with hx | hx
    · rw [(hins₁.row x hx).2.2] at hstatus
      cases hstatus
    · rcases hcov₁ _ (hs d₁ hd₁) with ⟨y, hy, heq⟩ | hbusy
      · have hleft := ((hss _).mp (hins₂.switch x hx)).2 y (List.mem_append_right _ hy)
        exact absurd heq (hleft (hins₁.row y hy).1)
      · exact hbusy.addItems new₂

/-- **enqueueDeviceTask** adds one task to the batch, with the items that cover its scope.

The rule is used by the two handlers and by the loop of a tick.  It is stated for a batch that is
already there, so that the loop can apply it to one schedule after the other. -/
theorem enqueueDeviceTask_bind {kind : TaskKind} {scheduleId actorId : Option Id}
    {actorEmail : Option String} {scope : Scope} {start : Instant}
    {g : Option Enqueued → Txn β} (hv : ((contract P).within W).Good v)
    (hb : b.Fits v.held v.db) (hpending : v.pending = (·.apply b))
    (hnone : ∀ k v', ((contract P).within W).Later v v' → ((contract P).within W).Good v' →
      scope = .group k → v'.db.groups.get? k = none →
      (g none).Ensures ((contract P).within W).interference Q v')
    (h : ∀ e t new v', ((contract P).within W).Since v v' → ((contract P).within W).Good v' →
      ((b.addTask e.task t).addItems new).Fits v'.held v'.db →
      v'.pending = (·.apply ((b.addTask e.task t).addItems new)) →
      e.kind = kind → e.scope = scope → t.scheduleId = scheduleId →
      e.task ∉ b.tasks.map Prod.fst → (∀ x ∈ new, x.2.taskId = e.task) →
      e.Covers W ((b.addTask e.task t).addItems new) →
      (g (some e)).Ensures ((contract P).within W).interference Q v') :
    ((enqueueDeviceTask kind scheduleId actorId actorEmail scope start).bind g).Ensures
      ((contract P).within W).interference Q v := by
  simp only [enqueueDeviceTask, Tx.bind_eq, Tx.bind_assoc]
  refine scopeLabel_bind hv hpending (fun label v₁ h₁ hv₁ => ?_) hnone
  simp only [Tx.bind_assoc, Tx.pure_eq, Tx.pure_bind]
  refine hv₁.nextSerial fun task v₂ h₂ hv₂ hserial hunheld hinv => ?_
  have hb₁ := hb.since hv.of_within h₁.of_within.since
  have hnew := hb₁.new_task hunheld
  let t : Task := ⟨kind, scheduleId, actorId, actorEmail, label, start⟩
  have hb₂ : (b.addTask task t).Fits v₂.held v₂.db :=
    (hb₁.since hv₁.of_within h₂.of_within.since).addTask hserial (hinv.1.unused task le_rfl) hnew
  refine hv₂.update fun v₃ h₃ hv₃ => ?_
  have hpending₃ : (v₃.queue (·.addTask task t)).pending = (·.apply (b.addTask task t)) := by
    rw [View.queue_pending, h₃.pending, h₂.pending, h₁.pending, hpending]
    exact funext fun d => Batch.apply_addTask d b task t
  refine Good.snapshot (v := v₃.queue _) hv₃ fun v₄ h₄ hv₄ => ?_
  have hpending₄ := h₄.pending.trans hpending₃
  have hb₄ : (b.addTask task t).Fits v₄.held v₄.db :=
    (hb₂.since hv₂.of_within h₃.of_within.since).since (v := v₃.queue _) hv₃.of_within
      h₄.of_within.since
  -- no item of the batch is of the new task
  have hother : ∀ x ∈ b.items, x.2.taskId ≠ task := by
    intro x hx htid
    obtain ⟨y, hy, hid, -⟩ := hb₁.task_of x hx
    exact hnew (htid ▸ hid ▸ List.mem_map_of_mem hy)
  have htask : ∃ y ∈ (b.addTask task t).tasks, y.1 = task ∧ y.2.kind = kind :=
    ⟨(task, t), by simp, rfl, rfl⟩
  have hsnap₄ : v₄.snapshot = v₄.db.apply (b.addTask task t) := by rw [View.snapshot, hpending₄]
  rw [hsnap₄]
  refine insertQueued_bind hv₄ hb₄ hpending₄ htask (Table.nodup_keysWhere _ _)
    (fun _ _ x hx htid => absurd htid (hother x hx))
    fun new₁ n v₅ hs₅ hv₅ hb₅ hpending₅ hins₁ hcov₁ => ?_
  refine hv₅.snapshot fun v₆ h₆ hv₆ => ?_
  have hpending₆ := h₆.pending.trans hpending₅
  have hb₆ := hb₅.since hv₅.of_within h₆.of_within.since
  have hsnap₆ : v₆.snapshot = v₆.db.apply ((b.addTask task t).addItems new₁) := by
    rw [View.snapshot, hpending₆]
  rw [hsnap₆]
  -- the switches without an item are those the first insert left out
  have hwithout : ∀ s, (v₆.db.apply ((b.addTask task t).addItems new₁)).without task s = true ↔
      ∀ x ∈ ((b.addTask task t).addItems new₁).items, x.2.taskId = task → x.2.switchId ≠ s := by
    intro s
    rw [without_eq_true]
    refine ⟨fun hs x hx => hs x.1 x.2 (hb₆.item_iff.mpr (.inl hx)), fun hs id i hi htid => ?_⟩
    rcases hb₆.item_iff.mp hi with hi | hi
    · exact hs _ hi htid
    · obtain ⟨t', ht'⟩ := hv₆.of_within.1.item_task id i hi
      rw [htid, (hb₆.task (task, t) (by simp)).2.task] at ht'
      cases ht'
  refine insertSkipped_bind hv₆ hb₆ hpending₆ htask
    ((Table.nodup_keysWhere _ _).filter _)
    (fun s hs => (hwithout s).mp (List.mem_filter.mp hs).2)
    fun new₂ m v₇ hs₇ hv₇ hb₇ hpending₇ hins₂ hcov₂ => ?_
  rw [Batch.addItems_addItems] at hb₇ hpending₇
  refine h ⟨task, kind, scope, label, n, m⟩ t (new₁ ++ new₂) v₇ ?_ hv₇ hb₇ hpending₇ rfl
    rfl rfl hnew (fun x hx => ?_) ?_
  · have hs₃ : ((contract P).within W).Since v₂ v₄ := Since.trans (w := v₃) h₃.since h₄.since
    exact h₁.since.trans (h₂.since.trans (hs₃.trans (hs₅.trans (h₆.since.trans hs₇))))
  · rcases List.mem_append.mp hx with hx | hx
    · exact (hins₁.row x hx).1
    · exact (hins₂.row x hx).1
  · refine covers_of_inserts hv₄.within hv₆.within htask hother hins₁ hcov₁ (fun s => ?_)
      hins₂ hcov₂
    rw [List.mem_filter, hwithout]
    rfl

end BindPlane.Devices
