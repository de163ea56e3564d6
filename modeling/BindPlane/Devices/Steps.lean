import BindPlane.Devices.Commits

/-!
# What a commit does to one table

One inversion lemma for each table, and `Db.Valid`, the invariant every commit keeps.

The life of an item is `ItemStep`: it is created queued or skipped, started, ended and
pruned, each under its entry of the pending index; the entry therefore has one item at most
(`Db.Valid.pending_unique`), and an item that has left it never changes again.
-/

namespace BindPlane.Devices

open ReadCommitted

variable {P : Platform} {op : Op} {u : Unit} {K : Set (Resource Key)} {d d' : Db} {r : Reply}

/-! ## Reading a batch back -/

section Batch

variable {b : Batch}

theorem Batch.Fits.task_iff (h : b.Fits K d) {id : Id} {t : Task} :
    (d.apply b).tasks.get? id = some t ↔ (id, t) ∈ b.tasks ∨ d.tasks.get? id = some t :=
  Table.get?_insertAll_eq_some _ h.nodup_tasks fun x hx => (h.task x hx).2.task

theorem Batch.Fits.item_iff (h : b.Fits K d) {id : Id} {i : Item} :
    (d.apply b).items.get? id = some i ↔ (id, i) ∈ b.items ∨ d.items.get? id = some i :=
  Table.get?_insertAll_eq_some _ h.nodup_items fun x hx => (h.item x hx).2.item

theorem Batch.Fits.task_kept (h : b.Fits K d) {id : Id} (hid : .serial id ∉ K) :
    (d.apply b).tasks.get? id = d.tasks.get? id := by
  refine Option.ext fun t => ?_
  rw [h.task_iff]
  exact or_iff_right fun hm => hid (h.task _ hm).1

theorem Batch.Fits.item_kept (h : b.Fits K d) {id : Id} (hid : .serial id ∉ K) :
    (d.apply b).items.get? id = d.items.get? id := by
  refine Option.ext fun i => ?_
  rw [h.item_iff]
  exact or_iff_right fun hm => hid (h.item _ hm).1

end Batch

/-! ## Clocks, groups and claims -/

theorem Commit.clock (h : Commit P op u K d d' r) : d.clock ≤ d'.clock ∧ d.wall ≤ d'.wall := by
  cases h with
  | elapsed c w => exact ⟨Nat.le_add_right _ _, Nat.le_add_right _ _⟩
  | _ => exact ⟨le_rfl, le_rfl⟩

/-- A group stays. -/
theorem Commit.group (h : Commit P op u K d d' r) {id : Id} {g : Group}
    (hg : d.groups.get? id = some g) : d'.groups.get? id = some g := by
  cases h with
  | groupMade actor name i g' e hkey hfresh =>
      have hne : id ≠ i := fun heq => by simp [heq, hfresh.group] at hg
      exact (Table.get?_insert_of_ne _ hne _).trans hg
  | _ => exact hg

theorem Commit.hasGroup (h : Commit P op u K d d' r) {scope : ScheduleScope}
    (hs : d.hasGroup scope = true) : d'.hasGroup scope = true := by
  cases scope with
  | all => rfl
  | group g =>
      obtain ⟨row, hrow⟩ := Option.isSome_iff_exists.mp hs
      exact Option.isSome_iff_exists.mpr ⟨row, h.group hrow⟩

/-- What has been handed out stays so. -/
theorem Commit.handed (h : Commit P op u K d d' r) {c : ClaimedItem} (hc : c ∈ d.handed) :
    c ∈ d'.handed := by
  cases h with
  | claimed limit claims start => exact List.mem_append_left _ hc
  | _ => exact hc

/-- A claim hands out rows it starts. -/
theorem Commit.handed_new (h : Commit P op u K d d' r) {c : ClaimedItem} (hc : c ∈ d'.handed) :
    c ∈ d.handed ∨ ∃ i start, d.items.get? c.id = some i ∧ i.status = .queued ∧
      i.switchId = c.switchId ∧ i.kind = c.kind ∧
      d'.items.get? c.id = some (i.started start c.leaseToken) := by
  cases h with
  | claimed limit claims start hnodup hrows =>
      rcases List.mem_append.mp hc with hc | hc
      · exact .inl hc
      · obtain ⟨-, i, hi, hqueued, hswitch, hkind⟩ := hrows c hc
        refine .inr ⟨i, start, hi, hqueued, hswitch, hkind, ?_⟩
        have hget := Table.get?_modifyAll (f := fun c : ClaimedItem => Item.started start c.leaseToken)
          d.items hnodup hc
        rw [hi] at hget
        exact hget
  | _ => exact .inl hc

/-! ## Items -/

/-- The item has ended with a new version. -/
def Item.Refers (i : Item) (K : Set (Resource Key)) (d d' : Db) : Prop :=
  i.status = .succeeded ∧ i.changed = some true ∧ ∃ id b, i.backupId = some id ∧
    d.Unused id ∧ .serial id ∈ K ∧ d'.backups = d.backups.insert id b ∧ b.switchId = i.switchId

/-- **What a commit does to one item.**

The invariants about items are proved by these cases.  An item is the only row here that several
parties write: an enqueuing transaction creates it, a claim starts it, an executor or the sweep ends
it, and the retention deletes it with its task. -/
inductive ItemStep (K : Set (Resource Key)) (d d' : Db) (id : Id) : Prop
  | same (h : d'.items.get? id = d.items.get? id)
  | created (i : Item) (hserial : .serial id ∈ K) (hfresh : d.Unused id)
      (hnew : i.New K d) (hlease : i.leaseToken = none) (hbackup : i.backupId = none)
      (htask : d.Unused i.taskId ∧ .serial i.taskId ∈ K ∧
        ∃ t, d'.tasks.get? i.taskId = some t ∧ t.kind = i.kind)
      (hone : ∀ id' i', d'.items.get? id' = some i' → i'.pending = true →
        i'.switchId = i.switchId → i'.kind = i.kind → i.pending = true → id' = id)
      (heach : ∀ id' i', d'.items.get? id' = some i' → i'.taskId = i.taskId →
        i'.switchId = i.switchId → id' = id)
      (h' : d'.items.get? id = some i)
  | started (i : Item) (start : Instant) (token : Id) (h : d.items.get? id = some i)
      (hqueued : i.status = .queued) (hkey : .key (.pending i.switchId i.kind) ∈ K)
      (h' : d'.items.get? id = some (i.started start token))
  | ended (i i' : Item) (h : d.items.get? id = some i) (hrunning : i.status = .running)
      (hkey : .key (.pending i.switchId i.kind) ∈ K) (h' : d'.items.get? id = some i')
      (hsame : i'.taskId = i.taskId ∧ i'.switchId = i.switchId ∧ i'.kind = i.kind)
      (hended : i'.pending = false)
      (hbackup : i'.backupId = i.backupId ∨ i'.backupId = none ∨ i'.Refers K d d')
  | pruned (i : Item) (h : d.items.get? id = some i) (hdone : i.pending = false)
      (h' : d'.items.get? id = none) (hgone : d'.tasks.get? i.taskId = none)

/-- The invariant every commit keeps, while the numbers below `n` have been drawn.

Some of these fields are unique indexes, which the store enforces by itself, and the others are what
the statements make of them.  All of them are facts about the tables, so that a transaction may use
them at any of its statements, whatever it has written and not yet committed. -/
structure Db.Valid (d : Db) (n : ℕ) : Prop where
  unused : ∀ id, n ≤ id → d.Unused id
  item_task : ∀ id i, d.items.get? id = some i → ∃ t, d.tasks.get? i.taskId = some t
  pending_unique : ∀ id id' i i', d.items.get? id = some i → d.items.get? id' = some i' →
    i.pending = true → i'.pending = true → i.switchId = i'.switchId → i.kind = i'.kind → id = id'
  handed_item : ∀ c ∈ d.handed, ∀ i, d.items.get? c.id = some i →
    i.switchId = c.switchId ∧ i.kind = c.kind ∧ i.status ≠ .queued ∧
      (i.status = .running → i.leaseToken = some c.leaseToken)
  schedule_group : ∀ id sc, d.schedules.get? id = some sc → d.hasGroup sc.scope = true
  captured_le : ∀ id b, d.backups.get? id = some b → b.capturedAt ≤ d.clock
  ran_le : ∀ id sc x, d.schedules.get? id = some sc → sc.lastRunAt = some x → x ≤ d.wall

theorem Db.Valid.mono {n m : ℕ} (h : d.Valid n) (hnm : n ≤ m) : d.Valid m :=
  { h with unused := fun id hid => h.unused id (hnm.trans hid) }

/-- The row of an executor's item, with what the claim knew of it. -/
theorem ClaimedItem.Runs.row {item : ClaimedItem} {n : ℕ} (h : item.Runs K d) (hd : d.Valid n) :
    ∃ i, d.items.get? item.id = some i ∧ i.status = .running ∧ i.switchId = item.switchId ∧
      i.kind = item.kind ∧ .key (.pending i.switchId i.kind) ∈ K := by
  obtain ⟨i, hi, -, hrunning⟩ := Db.held_eq_true.mp h.held
  obtain ⟨hswitch, hkind, -, -⟩ := hd.handed_item item h.handed i hi
  refine ⟨i, hi, hrunning, hswitch, hkind, ?_⟩
  rw [hswitch, hkind]
  exact h.key

/-- An enqueuing transaction creates the items of its batch. -/
private theorem Batch.Fits.itemStep {b : Batch} (hb : b.Fits K d) (hd : ∃ n, d.Valid n)
    (hitems : d'.items = (d.apply b).items) (htasks : d'.tasks = (d.apply b).tasks) (id : Id) :
    ItemStep K d d' id := by
  obtain ⟨n, hd⟩ := hd
  have hread : ∀ {id i}, d'.items.get? id = some i ↔
      (id, i) ∈ b.items ∨ d.items.get? id = some i := fun {id i} => by rw [hitems, hb.item_iff]
  by_cases hid : id ∈ b.items.map Prod.fst
  · obtain ⟨x, hx, rfl⟩ := List.mem_map.mp hid
    obtain ⟨hserial, hfresh⟩ := hb.item x hx
    obtain ⟨hnew, hlease, hbackup⟩ := hb.new x hx
    obtain ⟨t, ht, htid, htkind⟩ := hb.task_of x hx
    obtain ⟨htserial, htfresh⟩ := hb.task t ht
    rw [htid] at htserial htfresh
    refine .created x.2 hserial hfresh hnew hlease hbackup
      ⟨htfresh, htserial, t.2, ?_, htkind⟩ ?_ ?_ (hread.mpr (.inl hx))
    · rw [htasks, hb.task_iff, ← htid]
      exact .inl ht
    · intro id' i' hi' hpending' hswitch hkind hpending
      -- a new pending item is queued: its entry was free, and the batch has one for it
      cases hnew with
      | skipped hstatus => simp [Item.pending, hstatus] at hpending
      | queued hstatus hkey hidle =>
          rcases hread.mp hi' with hm | hold
          · have hstatus' : i'.status = .queued := by
              obtain ⟨hnew', -, -⟩ := hb.new _ hm
              cases hnew' with
              | queued hstatus' => exact hstatus'
              | skipped hstatus' =>
                  change i'.status = .skipped at hstatus'
                  simp [Item.pending, hstatus'] at hpending'
            exact congrArg Prod.fst (hb.one_queued _ hm x hx hstatus' hstatus hswitch hkind)
          · have hno := hidle id' i' hold
            rw [Item.pendingFor_eq_true.mpr ⟨hswitch, hkind, hpending'⟩] at hno
            cases hno
    · intro id' i' hi' htask hswitch
      rcases hread.mp hi' with hm | hold
      · exact congrArg Prod.fst (hb.one_each _ hm x hx htask hswitch)
      · obtain ⟨t', ht'⟩ := hd.item_task id' i' hold
        rw [htask, htfresh.task] at ht'
        cases ht'
  · refine .same (Option.ext fun i => hread.trans (or_iff_right fun hm => hid ?_))
    exact List.mem_map_of_mem hm

private theorem ended_step {item : ClaimedItem} {f : Item → Item} {n : ℕ}
    (hruns : item.Runs K d) (hd : d.Valid n) (hf : ∀ i, (f i).pending = false ∧
      (f i).taskId = i.taskId ∧ (f i).switchId = i.switchId ∧ (f i).kind = i.kind)
    (hbackup : ∀ i, i.switchId = item.switchId →
      (f i).backupId = none ∨ (f i).Refers K d d')
    (hitems : d'.items = d.items.modify item.id f) (id : Id) : ItemStep K d d' id := by
  by_cases hid : id = item.id
  · subst hid
    obtain ⟨i, hi, hrunning, hswitch, -, hkey⟩ := hruns.row hd
    refine .ended i (f i) hi hrunning hkey ?_ (hf i).2 (hf i).1 (.inr (hbackup i hswitch))
    rw [hitems, Table.get?_modify_self, hi]
    rfl
  · exact .same (by rw [hitems, Table.get?_modify_of_ne _ hid])

private theorem finished_ends (start : Instant) {f : Finish} (hf : f.status ≠ .queued)
    (hf' : f.status ≠ .running) (i : Item) : (i.finished start f).pending = false ∧
      (i.finished start f).taskId = i.taskId ∧ (i.finished start f).switchId = i.switchId ∧
      (i.finished start f).kind = i.kind := by
  refine ⟨?_, rfl, rfl, rfl⟩
  simp [Item.pending, Item.finished, hf, hf']

theorem Commit.item (h : Commit P op u K d d' r) {n : ℕ} (hd : d.Valid n) (id : Id) :
    ItemStep K d d' id := by
  cases h with
  | taskRun actor input b t e ev hb => exact hb.itemStep ⟨n, hd⟩ (by rfl) (by rfl) id
  | scheduleRun actor uid b t e ev hb => exact hb.itemStep ⟨n, hd⟩ (by rfl) (by rfl) id
  | ticked b t hb => exact hb.itemStep ⟨n, hd⟩ (by rfl) (by rfl) id
  -- each row that is claimed is updated once
  | claimed limit claims start hnodup hrows =>
      by_cases hid : id ∈ claims.map ClaimedItem.id
      · obtain ⟨c, hc, rfl⟩ := List.mem_map.mp hid
        obtain ⟨hkey, i, hi, hqueued, hswitch, hkind⟩ := hrows c hc
        refine .started i start c.leaseToken hi hqueued (hswitch ▸ hkind ▸ hkey) ?_
        have hget := Table.get?_modifyAll
          (f := fun c : ClaimedItem => Item.started start c.leaseToken) d.items hnodup hc
        rw [hi] at hget
        exact hget
      · exact .same (Table.get?_modifyAll_of_notMem _ hid)
  | swept rows start n' hnodup hrows =>
      by_cases hid : id ∈ rows.map Prod.fst
      · obtain ⟨x, hx, rfl⟩ := List.mem_map.mp hid
        obtain ⟨hkey, hi, hrunning⟩ := hrows x hx
        refine .ended x.2 (x.2.swept start) hi hrunning hkey ?_ ⟨rfl, rfl, rfl⟩ rfl (.inl rfl)
        have hget := Table.get?_modifyAll (f := fun _ => Item.swept start) d.items hnodup hx
        rw [hi] at hget
        exact hget
      · exact .same (Table.get?_modifyAll_of_notMem _ hid)
  | ended item start f hop hbackup hruns =>
      refine ended_step hruns hd (fun i => finished_ends start ?_ ?_ i)
        (fun _ _ => .inl hbackup) rfl id
      · rcases hop with ⟨-, hf⟩ | ⟨-, hf⟩ <;> simp [hf]
      · rcases hop with ⟨-, hf⟩ | ⟨-, hf⟩ <;> simp [hf]
  | checked item p start alerts hkind hruns =>
      exact ended_step hruns hd (finished_ends start (by simp) (by simp))
        (fun _ _ => .inl rfl) rfl id
  | backupFailed item m start alerts hkind hruns =>
      exact ended_step hruns hd (finished_ends start (by simp) (by simp))
        (fun _ _ => .inl rfl) rfl id
  | unchanged item c start alerts m hkind hruns =>
      exact ended_step hruns hd (finished_ends start (by simp) (by simp))
        (fun _ _ => .inl rfl) rfl id
  -- an item that ends with a backup names the one that its transaction has made
  | backedUp item c start alerts m bid hkind hruns hres hserial hfresh =>
      exact ended_step hruns hd (finished_ends start (by simp) (by simp))
        (fun i hswitch => .inr ⟨rfl, rfl, bid, _, rfl, hfresh, hserial, rfl, hswitch.symm⟩) rfl id
  | tasksPruned ids n' =>
      cases hi : d.items.get? id with
      | none => exact .same (by simp [Db.deleteTasks, Table.get?_deleteWhere, hi])
      | some i =>
          -- an item goes only with its task, and the task has no item that is not done
          by_cases hm : i.taskId ∈ ids ∧ d.unfinished i.taskId = false
          · have hdone := Table.any_eq_false.mp hm.2 id i hi
            refine .pruned i hi (by simpa using hdone) ?_ ?_
            · simp [Db.deleteTasks, Table.get?_deleteWhere, hi, hm, Option.filter]
            · simp only [Db.deleteTasks, Table.get?_deleteWhere, Option.filter_eq_none_iff]
              simp [hm]
          · refine .same ?_
            simp only [Db.deleteTasks, Table.get?_deleteWhere, hi, Option.filter]
            simp only [not_and, Bool.not_eq_false] at hm
            simpa using hm
  | _ => exact .same rfl

/-- A task stays until it is pruned with its items. -/
theorem Commit.task (h : Commit P op u K d d' r) {id : Id} {t : Task}
    (ht : d.tasks.get? id = some t) : d'.tasks.get? id = some t ∨
      ∀ i j, d'.items.get? i = some j → j.taskId ≠ id := by
  cases h with
  | taskRun actor input b t' e ev hb => exact .inl (hb.task_iff.mpr (.inr ht))
  | scheduleRun actor uid b t' e ev hb => exact .inl (hb.task_iff.mpr (.inr ht))
  | ticked b t' hb => exact .inl (hb.task_iff.mpr (.inr ht))
  | tasksPruned ids n' =>
      by_cases hm : id ∈ ids ∧ d.unfinished id = false
      · refine .inr fun i j hj heq => ?_
        simp only [Db.deleteTasks, Table.get?_deleteWhere, Option.filter_eq_some_iff] at hj
        simp [heq, hm] at hj
      · refine .inl ?_
        simp only [Db.deleteTasks, Table.get?_deleteWhere, ht, Option.filter]
        simp only [not_and, Bool.not_eq_false] at hm
        simpa using hm
  | _ => exact .inl ht

/-- A task is new only under a number its transaction has drawn. -/
theorem Commit.task_back (h : Commit P op u K d d' r) {id : Id} {t : Task}
    (ht : d'.tasks.get? id = some t) : d.tasks.get? id = some t ∨ .serial id ∈ K := by
  have hbatch : ∀ {b : Batch}, b.Fits K d → (d.apply b).tasks.get? id = some t →
      d.tasks.get? id = some t ∨ .serial id ∈ K := by
    intro b hb ht
    rcases hb.task_iff.mp ht with hm | hold
    · exact .inr (hb.task _ hm).1
    · exact .inl hold
  cases h with
  | taskRun actor input b t' e ev hb => exact hbatch hb ht
  | scheduleRun actor uid b t' e ev hb => exact hbatch hb ht
  | ticked b t' hb => exact hbatch hb ht
  | tasksPruned ids n' =>
      have hget : (d.deleteTasks ids).tasks.get? id = some t := ht
      simp only [Db.deleteTasks, Table.get?_deleteWhere, Option.filter_eq_some_iff] at hget
      exact .inl hget.1
  | _ => exact .inl ht

/-! ## Switches -/

/-- A switch stays. -/
theorem Commit.switch (h : Commit P op u K d d' r) {id : Id} {sw : Switch}
    (hsw : d.switches.get? id = some sw) : ∃ sw', d'.switches.get? id = some sw' := by
  have hmodify : ∀ (i : Id) (f : Switch → Switch),
      ∃ sw', (d.switches.modify i f).get? id = some sw' := by
    intro i f
    rw [Table.get?_modify, hsw]
    split
    · exact ⟨f sw, rfl⟩
    · exact ⟨sw, rfl⟩
  cases h with
  | switchMade actor input i e hkey hfresh =>
      have hne : id ≠ i := fun heq => by simp [heq, hfresh.switch] at hsw
      exact ⟨sw, (Table.get?_insert_of_ne _ hne _).trans hsw⟩
  | switchEdited actor uid edit i e n => exact hmodify i _
  | checked item => exact hmodify item.switchId _
  | backupFailed item => exact hmodify item.switchId _
  | unchanged item => exact hmodify item.switchId _
  | backedUp item => exact hmodify item.switchId _
  | _ => exact ⟨sw, hsw⟩

/-! ## Alerts -/

/-- Whoever opens or resolves an alert of the key holds its guard. -/
def DedupeKey.Guarded (key : DedupeKey) (K : Set (Resource Key)) : Prop :=
  ∀ g, key.guard = some g → .key g ∈ K

/-- **What a commit does to one alert.** -/
inductive AlertStep (K : Set (Resource Key)) (d d' : Db) (id : Id) : Prop
  | same (h : d'.alerts.get? id = d.alerts.get? id)
  | opened (a : Alert) (hserial : .serial id ∈ K) (hfresh : d.Unused id)
      (hkey : .key (.alert a.dedupeKey) ∈ K) (hguard : a.dedupeKey.Guarded K)
      (hnone : activeIn d.alerts a.dedupeKey = ∅)
      (hswitch : ∃ sw, d.switches.get? a.dedupeKey.switchId = some sw)
      (hopen : a.status = .opened) (h' : d'.alerts.get? id = some a)
      (hone : ∀ i, i ≠ id → d'.alerts.get? i = d.alerts.get? i)
  | written (a a' : Alert) (h : d.alerts.get? id = some a) (hactive : a.active = true)
      (hkey : .key (.alert a.dedupeKey) ∈ K) (h' : d'.alerts.get? id = some a')
      (hsame : a'.dedupeKey = a.dedupeKey) (hstill : a'.active = true)
  | resolved (a a' : Alert) (h : d.alerts.get? id = some a) (hactive : a.active = true)
      (hkey : .key (.alert a.dedupeKey) ∈ K) (hguard : a.dedupeKey.Guarded K)
      (h' : d'.alerts.get? id = some a') (hsame : a'.dedupeKey = a.dedupeKey)
      (hdone : a'.active = false)
  | pruned (a : Alert) (h : d.alerts.get? id = some a) (hdone : a.active = false)
      (h' : d'.alerts.get? id = none)

theorem Alert.active_eq_true {a : Alert} : a.active = true ↔ a.status ≠ .resolved := by
  simp [active]

private theorem AlertStep.ofSame (h : d'.alerts = d.alerts) (id : Id) : AlertStep K d d' id :=
  .same (by rw [h])

/-- An update of an alert of the key that does not resolve it. -/
private theorem AlertStep.ofModify {key : DedupeKey} {i : Id} {f : Alert → Alert}
    (hi : i ∈ activeIn d.alerts key) (hkey : .key (.alert key) ∈ K)
    (hf : ∀ a : Alert, a.active = true → (f a).dedupeKey = a.dedupeKey ∧ (f a).active = true)
    (halerts : d'.alerts = d.alerts.modify i f) (id : Id) : AlertStep K d d' id := by
  by_cases hid : id = i
  · subst hid
    obtain ⟨a, ha, hakey, hactive⟩ := hi
    refine .written a (f a) ha hactive (hakey ▸ hkey) ?_ (hf a hactive).1 (hf a hactive).2
    rw [halerts, Table.get?_modify_self, ha]
    rfl
  · exact .same (by rw [halerts, Table.get?_modify_of_ne _ hid])

private theorem AlertStep.ofResolve {key : DedupeKey} {i : Id} {start : Instant}
    (hi : i ∈ activeIn d.alerts key) (hkey : .key (.alert key) ∈ K) (hguard : key.Guarded K)
    (halerts : d'.alerts = d.alerts.modify i (Alert.resolve start)) (id : Id) :
    AlertStep K d d' id := by
  by_cases hid : id = i
  · subst hid
    obtain ⟨a, ha, hakey, hactive⟩ := hi
    refine .resolved a (a.resolve start) ha hactive (hakey ▸ hkey) (hakey ▸ hguard) ?_ rfl rfl
    rw [halerts, Table.get?_modify_self, ha]
    rfl
  · exact .same (by rw [halerts, Table.get?_modify_of_ne _ hid])

theorem Upserts.alertStep {start : Instant} {new : NewAlert} {touch : Alert → Alert}
    {write : Table Alert → Table Alert} (h : Upserts K d start new touch write)
    (hkey : .key (.alert new.key) ∈ K) (hguard : new.key.Guarded K)
    (hswitch : new.key.switchId = new.switchId)
    (htouch : ∀ a, (touch a).dedupeKey = a.dedupeKey ∧ (touch a).status = a.status)
    (halerts : d'.alerts = write d.alerts) (id : Id) : AlertStep K d d' id := by
  cases h with
  | touched i hi =>
      refine .ofModify hi hkey (fun a ha => ⟨(htouch a).1, ?_⟩) halerts id
      rw [Alert.active_eq_true, (htouch a).2, ← Alert.active_eq_true]
      exact ha
  | opened i hnone hserial hfresh hsw =>
      by_cases hid : id = i
      · subst hid
        refine .opened (new.row start) hserial hfresh hkey hguard hnone (hswitch ▸ hsw) rfl ?_ ?_
        · rw [halerts, Table.get?_insert_self]
        · intro j hj
          rw [halerts, Table.get?_insert_of_ne _ hj]
      · exact .same (by rw [halerts, Table.get?_insert_of_ne _ hid])

theorem Resolves.alertStep {start : Instant} {key : DedupeKey}
    {write : Table Alert → Table Alert} (h : Resolves K d start key write)
    (hguard : key.Guarded K) (halerts : d'.alerts = write d.alerts) (id : Id) :
    AlertStep K d d' id := by
  cases h with
  | resolved i hi hkey => exact .ofResolve hi hkey hguard halerts id
  | nothing hnone => exact .ofSame halerts id

/-- An executor holds the guard of the alert of its kind. -/
theorem ClaimedItem.Runs.guarded {item : ClaimedItem} (h : item.Runs K d) :
    (item.kind = .reachability → (DedupeKey.deviceUnreachable item.switchId).Guarded K) ∧
      (item.kind = .configBackup → (DedupeKey.backupFailed item.switchId).Guarded K) := by
  have hkey := h.key
  constructor
  · rintro hkind g ⟨⟩
    exact hkind ▸ hkey
  · rintro hkind g ⟨⟩
    exact hkind ▸ hkey

theorem Commit.alert (h : Commit P op u K d d' r) (id : Id) : AlertStep K d d' id := by
  have hseen : ∀ (start : Instant) (new : NewAlert) (a : Alert),
      (a.seen start new).dedupeKey = a.dedupeKey ∧ (a.seen start new).status = a.status :=
    fun _ _ _ => ⟨rfl, rfl⟩
  cases h with
  | checked item p start alerts hkind hruns hok herror =>
      cases he : p.error with
      | none => exact (hok he).alertStep (hruns.guarded.1 hkind) rfl id
      | some e =>
          obtain ⟨hkey, hup⟩ := herror e he
          exact hup.alertStep hkey (hruns.guarded.1 hkind) rfl (hseen _ _) rfl id
  | backupFailed item m start alerts hkind hruns hkey hup =>
      exact hup.alertStep hkey (hruns.guarded.2 hkind) rfl (hseen _ _) rfl id
  | unchanged item c start alerts m hkind hruns hres =>
      exact hres.alertStep (hruns.guarded.2 hkind) rfl id
  | backedUp item c start alerts m i hkind hruns hres =>
      exact hres.alertStep (hruns.guarded.2 hkind) rfl id
  | acknowledged actor i a start e hkey hrow hopen =>
      have hactive : a.active = true := by simp [Alert.active, hopen]
      exact .ofModify (f := Alert.acknowledge start actor.email) ⟨a, hrow, rfl, hactive⟩ hkey
        (fun _ _ => ⟨rfl, rfl⟩) rfl id
  | alertsPruned ids n =>
      cases ha : d.alerts.get? id with
      | none => exact .same (by simp [Db.deleteAlerts, Table.get?_deleteWhere, ha])
      | some a =>
          by_cases hm : id ∈ ids ∧ a.status = .resolved
          · refine .pruned a ha (by simp [Alert.active, hm.2]) ?_
            simp [Db.deleteAlerts, Table.get?_deleteWhere, ha, hm, Option.filter]
          · refine .same ?_
            simp only [Db.deleteAlerts, Table.get?_deleteWhere, ha, Option.filter]
            simpa using hm
  | complianceRaised s rule m start alerts hkey hup =>
      exact hup.alertStep hkey nofun rfl (fun _ => ⟨rfl, rfl⟩) rfl id
  | complianceResolved s rule start i hi hkey => exact .ofResolve hi hkey nofun rfl id
  | _ => exact .same rfl

/-! ## Schedules -/

/-- **What a commit does to one schedule.** -/
inductive ScheduleStep (P : Platform) (K : Set (Resource Key)) (d d' : Db) (id : Id) : Prop
  | same (h : d'.schedules.get? id = d.schedules.get? id)
  | made (sc : Schedule) (t next : Instant) (hserial : .serial id ∈ K) (hfresh : d.Unused id)
      (htime : t ≤ d.wall) (hnext : P.nextRun sc.cron t = .ok next)
      (hrow : sc.nextRunAt = if sc.isEnabled then some next else none)
      (hlast : sc.lastRunAt = none) (hgroup : d.hasGroup sc.scope = true)
      (h' : d'.schedules.get? id = some sc)
  | edited (row sc : Schedule) (time : Option Instant) (h : d.schedules.get? id = some row)
      (hkey : .key (.schedule id) ∈ K) (hplan : P.Plans sc d time)
      (hcron : sc.cron = row.cron ∨ ∃ t n, P.nextRun sc.cron t = .ok n)
      (hlast : sc.lastRunAt = row.lastRunAt) (hgroup : d.hasGroup sc.scope = true)
      (h' : d'.schedules.get? id = some sc)
  | fired (f : Fired) (t : Instant) (next : Option Instant) (hid : f.schedule = id)
      (hmoves : f.Moves P t K d next) (htime : t ≤ d.wall)
      (h' : d'.schedules.get? id = some (f.row.ran t next))

theorem run_keys {b : Batch} {t : Ticked}
    (hruns : b.runs.map (fun r => (r.1, r.2.1)) = t.fired.map fun f => (f.schedule, t.time)) :
    b.runs.map Prod.fst = t.fired.map Fired.schedule := by
  have hfst := congrArg (List.map Prod.fst) hruns
  simpa only [List.map_map, Function.comp_def] using hfst

/-- The row of a schedule behind the batch of a tick. -/
theorem run_row {b : Batch} {t : Ticked} {f : Fired} {next : Option Instant}
    (hnodup : (t.fired.map Fired.schedule).Nodup)
    (hruns : b.runs.map (fun r => (r.1, r.2.1)) = t.fired.map fun f => (f.schedule, t.time))
    (hrun : (f.schedule, t.time, next) ∈ b.runs)
    (hrow : d.schedules.get? f.schedule = some f.row) :
    (d.apply b).schedules.get? f.schedule = some (f.row.ran t.time next) := by
  have hget := Table.get?_modifyAll (k := Prod.fst)
    (f := fun r : Id × Instant × Option Instant => Schedule.ran r.2.1 r.2.2)
    d.schedules (run_keys hruns ▸ hnodup) hrun
  rw [hrow] at hget
  exact hget

theorem Commit.schedule (h : Commit P op u K d d' r) (id : Id) : ScheduleStep P K d d' id := by
  cases h with
  | taskRun actor input b t e ev hb htasks hruns =>
      exact .same (by simp [Db.addEvent, Db.apply, hruns])
  | scheduleRun actor uid b t e ev hb htasks hruns =>
      exact .same (by simp [Db.addEvent, Db.apply, hruns])
  | scheduleMade actor input i sc e t next hkey hfresh hnext htime hrow hlast hgroup =>
      by_cases hid : id = i
      · subst hid
        exact .made sc t next hkey hfresh htime hnext hrow hlast hgroup
          (Table.get?_insert_self ..)
      · exact .same (Table.get?_insert_of_ne _ hid _)
  | scheduleEdited actor uid input c i row next e reply huid hchecked hkey hrow hreply hchanged
      hplan hcron hgroup =>
      by_cases hid : id = i
      · subst hid
        refine .edited row ((row.edited c).withNextRun next) reply.time hrow hkey hplan ?_ rfl
          hgroup ?_
        · cases hc : c.cron with
          | none => exact .inl (by simp [Schedule.withNextRun, Schedule.edited, hc])
          | some x =>
              refine .inr ?_
              simp only [Schedule.withNextRun, Schedule.edited, hc, Option.getD_some]
              exact hcron x hc
        · exact (Table.get?_modify_self ..).trans (by rw [hrow]; rfl)
      · exact .same (Table.get?_modify_of_ne _ hid _)
  | ticked b t hb htime hnodup hruns hfired =>
      by_cases hid : id ∈ t.fired.map Fired.schedule
      · obtain ⟨f, hf, rfl⟩ := List.mem_map.mp hid
        obtain ⟨next, hrun, hmoves⟩ := hfired f hf
        exact .fired f t.time next rfl hmoves htime (run_row hnodup hruns hrun hmoves.row)
      · exact .same (Table.get?_modifyAll_of_notMem _ (run_keys hruns ▸ hid))
  | _ => exact .same rfl

/-! ## Backups -/

/-- **What a commit does to the backups**: an executor may add the next version of its
switch. -/
inductive BackupStep (K : Set (Resource Key)) (d d' : Db) : Prop
  | same (h : d'.backups = d.backups)
  | added (item : ClaimedItem) (id : Id) (b : Backup) (hruns : item.Runs K d)
      (hkind : item.kind = .configBackup) (hswitch : b.switchId = item.switchId)
      (hserial : .serial id ∈ K) (hfresh : d.Unused id) (hcaptured : b.capturedAt ≤ d.clock)
      (hlatest : (d.latestBackup item.switchId).map (·.2.contentSha256) ≠
        some b.contentSha256)
      (hlast : ∀ x ∈ d.backupsOf item.switchId, x.2.capturedAt ≤ b.capturedAt ∧ x.1 < id)
      (h : d'.backups = d.backups.insert id b)
      (hitem : ∃ i, d'.items.get? item.id = some i ∧ i.status = .succeeded ∧
        i.changed = some true ∧ i.backupId = some id ∧ i.switchId = item.switchId)
      (hothers : ∀ i, i ≠ item.id → d'.items.get? i = d.items.get? i)

theorem Commit.backups (h : Commit P op u K d d' r) {n : ℕ} (hd : d.Valid n) :
    BackupStep K d d' := by
  cases h with
  | backedUp item c start alerts m id hkind hruns hres hserial hfresh hstart hlatest hlast =>
      refine .added item id _ hruns hkind rfl hserial hfresh hstart hlatest hlast rfl ?_
        fun i hi => Table.get?_modify_of_ne d.items hi _
      obtain ⟨i, hi, -, hswitch, -⟩ := hruns.row hd
      refine ⟨i.finished start ⟨.succeeded, some m, some true, some id⟩, ?_, rfl, rfl, rfl,
        hswitch⟩
      refine (Table.get?_modify_self d.items ..).trans ?_
      rw [hi]
      rfl
  | _ => exact .same rfl

/-! ## The invariant -/

/-- A number somebody else has drawn stays unused. -/
theorem Commit.unused (h : Commit P op u K d d' r) {n : ℕ} (hd : d.Valid n) {id : Id}
    (hid : .serial id ∉ K) (hfresh : d.Unused id) : d'.Unused id where
  group := by
    cases h with
    | groupMade actor name i g e hkey =>
        have hne : id ≠ i := fun heq => hid (heq ▸ hkey)
        exact (Table.get?_insert_of_ne _ hne _).trans hfresh.group
    | _ => exact hfresh.group
  switch := by
    -- an update makes no row
    have hmodify : ∀ (i : Id) (f : Switch → Switch), (d.switches.modify i f).get? id = none := by
      intro i f
      rw [Table.get?_modify, hfresh.switch]
      simp
    cases h with
    | switchMade actor input i e hkey =>
        have hne : id ≠ i := fun heq => hid (heq ▸ hkey)
        exact (Table.get?_insert_of_ne _ hne _).trans hfresh.switch
    | switchEdited actor uid edit i e n => exact hmodify i _
    | checked item => exact hmodify item.switchId _
    | backupFailed item => exact hmodify item.switchId _
    | unchanged item => exact hmodify item.switchId _
    | backedUp item => exact hmodify item.switchId _
    | _ => exact hfresh.switch
  schedule := by
    cases h.schedule id with
    | same h' => exact h'.trans hfresh.schedule
    | made sc t next hserial => exact absurd hserial hid
    | edited row sc time hrow => rw [hfresh.schedule] at hrow; cases hrow
    | fired f t next heq hmoves =>
        have hrow := hmoves.row
        rw [heq, hfresh.schedule] at hrow
        cases hrow
  task := by
    cases h with
    | taskRun actor input b t e ev hb => exact (hb.task_kept hid).trans hfresh.task
    | scheduleRun actor uid b t e ev hb => exact (hb.task_kept hid).trans hfresh.task
    | ticked b t hb => exact (hb.task_kept hid).trans hfresh.task
    | tasksPruned ids =>
        simp [Db.deleteTasks, Table.get?_deleteWhere, hfresh.task]
    | _ => exact hfresh.task
  item := by
    -- an item comes under a number that its transaction has drawn
    cases h.item hd id with
    | same h' => exact h'.trans hfresh.item
    | created i hserial => exact absurd hserial hid
    | started i start token hi => rw [hfresh.item] at hi; cases hi
    | ended i i' hi => rw [hfresh.item] at hi; cases hi
    | pruned i hi hdone h' => exact h'
  backup := by
    cases h.backups hd with
    | same h' => rw [h']; exact hfresh.backup
    | added item i b hruns hkind hswitch hserial _ _ _ _ h' =>
        have hne : id ≠ i := fun heq => hid (heq ▸ hserial)
        rw [h', Table.get?_insert_of_ne _ hne]
        exact hfresh.backup
  alert := by
    cases h.alert id with
    | same h' => exact h'.trans hfresh.alert
    | opened a hserial => exact absurd hserial hid
    | written a a' ha => rw [hfresh.alert] at ha; cases ha
    | resolved a a' ha => rw [hfresh.alert] at ha; cases ha
    | pruned a ha hdone h' => exact h'
  handed := by
    intro c hc
    -- what is handed out is an item that is there
    rcases h.handed_new hc with hold | ⟨i, start, hi, -⟩
    · exact hfresh.handed c hold
    · intro heq
      rw [heq, hfresh.item] at hi
      cases hi
  alerted := by
    intro i a ha
    -- an alert is about a switch that is there
    cases h.alert i with
    | same h' => exact hfresh.alerted i a (h' ▸ ha)
    | opened a' hserial hf hkey hguard hnone hswitch hopen h' =>
        rw [h'] at ha
        cases ha
        obtain ⟨sw, hsw⟩ := hswitch
        intro heq
        rw [heq, hfresh.switch] at hsw
        cases hsw
    | written a₀ a' ha₀ hactive hkey h' hsame =>
        rw [h'] at ha
        cases ha
        exact hsame ▸ hfresh.alerted i a₀ ha₀
    | resolved a₀ a' ha₀ hactive hkey hguard h' hsame =>
        rw [h'] at ha
        cases ha
        exact hsame ▸ hfresh.alerted i a₀ ha₀
    | pruned a₀ ha₀ hdone h' =>
        rw [h'] at ha
        cases ha

/-- An item of the store had its task when the commit began, or comes with it. -/
private theorem Commit.item_task (h : Commit P op u K d d' r) {n : ℕ} (hd : d.Valid n) {id : Id}
    {i : Item} (hi : d'.items.get? id = some i) : ∃ t, d'.tasks.get? i.taskId = some t := by
  have hkept : ∀ {i₀ : Item}, d.items.get? id = some i₀ → i₀.taskId = i.taskId →
      ∃ t, d'.tasks.get? i.taskId = some t := by
    intro i₀ hi₀ htask
    obtain ⟨t, ht⟩ := hd.item_task id i₀ hi₀
    rw [htask] at ht
    rcases h.task ht with hstays | hgone
    · exact ⟨t, hstays⟩
    · exact absurd rfl (hgone id i hi)
  cases h.item hd id with
  | same h' => exact hkept (h' ▸ hi) rfl
  | created i' hserial hfresh hnew hlease hbackup htask hone heach h' =>
      rw [h'] at hi
      cases hi
      obtain ⟨-, -, t, ht, -⟩ := htask
      exact ⟨t, ht⟩
  | started i₀ start token hi₀ hqueued hkey h' =>
      rw [h'] at hi
      cases hi
      exact hkept hi₀ rfl
  | ended i₀ i' hi₀ hrunning hkey h' hsame =>
      rw [h'] at hi
      cases hi
      exact hkept hi₀ hsame.1.symm
  | pruned i₀ hi₀ hdone h' =>
      rw [h'] at hi
      cases hi

/-- A pending item was pending when the commit began, or is new and alone. -/
private theorem Commit.pending_back (h : Commit P op u K d d' r) {n : ℕ} (hd : d.Valid n)
    {id : Id} {i : Item} (hi : d'.items.get? id = some i) (hpending : i.pending = true) :
    (∃ i₀, d.items.get? id = some i₀ ∧ i₀.pending = true ∧ i₀.switchId = i.switchId ∧
      i₀.kind = i.kind) ∨
    ∀ id' i', d'.items.get? id' = some i' → i'.pending = true → i'.switchId = i.switchId →
      i'.kind = i.kind → id' = id := by
  cases h.item hd id with
  | same h' => exact .inl ⟨i, h' ▸ hi, hpending, rfl, rfl⟩
  | created i' hserial hfresh hnew hlease hbackup htask hone heach h' =>
      rw [h'] at hi
      cases hi
      exact .inr fun id' i' hi' hp hs hk => hone id' i' hi' hp hs hk hpending
  | started i₀ start token hi₀ hqueued hkey h' =>
      rw [h'] at hi
      cases hi
      exact .inl ⟨i₀, hi₀, by simp [Item.pending, hqueued], rfl, rfl⟩
  | ended i₀ i' hi₀ hrunning hkey h' hsame hended =>
      rw [h'] at hi
      cases hi
      rw [hended] at hpending
      cases hpending
  | pruned i₀ hi₀ hdone h' =>
      rw [h'] at hi
      cases hi

/-- **Every commit keeps the invariant.** -/
theorem Commit.valid (h : Commit P op u K d d' r) {n : ℕ} (hd : d.Valid n)
    (hK : ∀ i, .serial i ∈ K → i < n) : d'.Valid n where
  unused id hid :=
    h.unused hd (fun hm => absurd (hK id hm) (not_lt.mpr hid)) (hd.unused id hid)
  item_task _ _ hi := h.item_task hd hi
  pending_unique id id' i i' hi hi' hp hp' hs hk := by
    -- both were pending before, or one of them is new and has found no other
    rcases h.pending_back hd hi hp with ⟨i₀, hi₀, hp₀, hs₀, hk₀⟩ | halone
    · rcases h.pending_back hd hi' hp' with ⟨i₁, hi₁, hp₁, hs₁, hk₁⟩ | halone
      · refine hd.pending_unique id id' i₀ i₁ hi₀ hi₁ hp₀ hp₁ ?_ ?_
        · rw [hs₀, hs₁, hs]
        · rw [hk₀, hk₁, hk]
      · exact halone id i hi hp hs hk
    · exact (halone id' i' hi' hp' hs.symm hk.symm).symm
  handed_item c hc i hi := by
    -- the row that a claim speaks of is followed through the commit
    rcases h.handed_new hc with hold | ⟨i₀, start, hi₀, hqueued, hswitch, hkind, h'⟩
    · cases h.item hd c.id with
      | same h' => exact hd.handed_item c hold i (h' ▸ hi)
      | created i' hserial hfresh => exact absurd rfl (hfresh.handed c hold)
      | started i₀ start token hi₀ hqueued =>
          exact absurd hqueued (hd.handed_item c hold i₀ hi₀).2.2.1
      | ended i₀ i' hi₀ hrunning hkey h' hsame hended =>
          rw [h'] at hi
          cases hi
          obtain ⟨hswitch, hkind, -, -⟩ := hd.handed_item c hold i₀ hi₀
          refine ⟨hsame.2.1.trans hswitch, hsame.2.2.trans hkind, fun hq => ?_, fun hr => ?_⟩
          · simp [Item.pending, hq] at hended
          · simp [Item.pending, hr] at hended
      | pruned i₀ hi₀ hdone h' =>
          rw [h'] at hi
          cases hi
    · rw [h'] at hi
      cases hi
      exact ⟨hswitch, hkind, (fun hq => by cases hq), fun _ => rfl⟩
  schedule_group id sc hsc := by
    cases h.schedule id with
    | same h' => exact h.hasGroup (hd.schedule_group id sc (h' ▸ hsc))
    | made sc' t next hserial hfresh htime hnext hrow hlast hgroup h' =>
        rw [h'] at hsc
        cases hsc
        exact h.hasGroup hgroup
    | edited row sc' time hrow hkey hplan hcron hlast hgroup h' =>
        rw [h'] at hsc
        cases hsc
        exact h.hasGroup hgroup
    | fired f t next heq hmoves htime h' =>
        rw [h'] at hsc
        cases hsc
        exact h.hasGroup (hd.schedule_group _ f.row hmoves.row)
  captured_le id b hb := by
    cases h.backups hd with
    | same h' => exact (hd.captured_le id b (h' ▸ hb)).trans h.clock.1
    | added item i b' hruns hkind hswitch hserial hfresh hcaptured hlatest hlast h' =>
        rw [h', Table.get?_insert] at hb
        split at hb
        · cases hb
          exact hcaptured.trans h.clock.1
        · exact (hd.captured_le id b hb).trans h.clock.1
  ran_le id sc x hsc hx := by
    -- a commit does not turn the clock back
    refine le_trans ?_ h.clock.2
    cases h.schedule id with
    | same h' => exact hd.ran_le id sc x (h' ▸ hsc) hx
    | made sc' t next hserial hfresh htime hnext hrow hlast hgroup h' =>
        rw [h'] at hsc
        cases hsc
        rw [hlast] at hx
        cases hx
    | edited row sc' time hrow hkey hplan hcron hlast hgroup h' =>
        rw [h'] at hsc
        cases hsc
        exact hd.ran_le id row x hrow (hlast ▸ hx)
    | fired f t next heq hmoves htime h' =>
        rw [h'] at hsc
        cases hsc
        cases hx
        exact htime

/-- The contract of the device operations. -/
def contract (P : Platform) : Contract Db Key Op Unit Reply where
  inv := Db.Valid
  inv_mono := Db.Valid.mono
  commits := Commit P

end BindPlane.Devices
