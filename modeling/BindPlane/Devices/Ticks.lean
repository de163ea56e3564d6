import BindPlane.Cron.Location
import BindPlane.Devices.Backups

/-!
# Schedules and their ticks

What holds of `next_run_at`, which a creation, an edit and a tick write.  A disabled schedule
has none; an enabled one has one, unless its expression had no match left at its last tick
(`Db.Planned`).  A tick queues exactly one task for each schedule it finds due (`Commit.fires`).

**Time.**  The next run is computed from the time that a tick or an edit reads, and has to lie
behind it.  `Next` keeps that only where the operations time zone is regular from then on: where
local time is put back over midnight, a schedule for midnight is due again at every tick of the hour
that is repeated (`Demo.stJohns_repeats`).  If the zone is regular from the time of a tick on, the
tick moves each schedule past that time, and nothing brings an earlier instant back
(`Plane.Reachable.schedules_fire`): an edit reads the clock under the row's lock, hence not before
the last tick.

**Edits.**  An edit recomputes the next run from its own time whatever it has changed.  Where that
time finds the schedule due, its run is lost, and that is the only way to lose one
(`Plane.Reachable.due_fires`, in any zone; `Plane.Reachable.due_lost`).
-/

namespace BindPlane.Devices

open ReadCommitted

variable {P : Platform} {op : Op} {u : Unit} {K : Set (Resource Key)} {d d' : Db} {r : Reply}

/-! ## Planned schedules -/

/-- The next run of a stored schedule is in order. -/
structure Schedule.Planned (P : Platform) (sc : Schedule) : Prop where
  parses : ∃ t n, P.nextRun sc.cron t = .ok n
  disabled : sc.isEnabled = false → sc.nextRunAt = none
  enabled : sc.isEnabled = true → sc.nextRunAt = none →
    ∃ t, sc.lastRunAt = some t ∧ P.nextRun sc.cron t = .error .neverMatches

/-- **Every schedule is planned.** -/
def Db.Planned (P : Platform) (d : Db) : Prop :=
  ∀ id sc, d.schedules.get? id = some sc → sc.Planned P

theorem Schedule.due_eq_true {sc : Schedule} {t : Instant} :
    sc.due t = true ↔ sc.isEnabled = true ∧ ∃ n, sc.nextRunAt = some n ∧ n ≤ t := by
  simp [due, Option.any_eq_true]

theorem Commit.planned (h : Commit P op u K d d' r) (hd : d.Planned P) : d'.Planned P := by
  intro id sc hsc
  cases h.schedule id with
  | same h' => exact hd id sc (h' ▸ hsc)
  | made sc' t next hserial hfresh htime hnext hrow hlast hgroup h' =>
      rw [h'] at hsc
      cases hsc
      refine ⟨⟨t, next, hnext⟩, fun hdis => ?_, fun hen hnone => ?_⟩
      · rw [hrow, if_neg (by simp [hdis])]
      · rw [hrow, if_pos hen] at hnone
        cases hnone
  | edited row sc' time hrow hkey hplan hcron hlast hgroup h' =>
      rw [h'] at hsc
      cases hsc
      refine ⟨?_, fun hdis => ((plans_disabled hdis).mp hplan).2, fun hen hnone => ?_⟩
      · rcases hcron with hsame | hvalid
        · rw [hsame]
          exact (hd id row hrow).parses
        · exact hvalid
      · obtain ⟨t, next, -, -, -, -, hnext⟩ := (plans_enabled hen).mp hplan
        rw [hnext] at hnone
        cases hnone
  | fired f t next heq hmoves htime h' =>
      rw [h'] at hsc
      cases hsc
      obtain ⟨t₀, n₀, hparses⟩ := (hd _ f.row hmoves.row).parses
      refine ⟨⟨t₀, n₀, hparses⟩, fun hdis => ?_, fun _ hnone => ⟨t, rfl, ?_⟩⟩
      · have hen : f.row.isEnabled = true := (Schedule.due_eq_true.mp hmoves.due).1
        exact absurd (hen.symm.trans hdis) (by simp)
      · cases hmoves.next with
        | run n hn => cases hnone
        | fails e he hn => exact nextRun_error hparses hn he ▸ hn

/-! ## One tick -/

/-- Exactly one task of the schedule is new. -/
def Db.EnqueuesOne (d d' : Db) (id : Id) : Prop :=
  ∃! tid, ∃ task, d'.tasks.get? tid = some task ∧ d.tasks.get? tid = none ∧
    task.scheduleId = some id

/-- **A tick fires**: for every schedule it reports, its row was due, exactly one task is queued,
and the next run is the one behind the time it read.

This much holds in every zone: what a tick reports as fired has its task in the same commit.
Whether the next run is any later is another question. -/
theorem Commit.fires {t : Ticked} (h : Commit P op u K d d' (.ticked t)) {f : Fired}
    (hf : f ∈ t.fired) : d.EnqueuesOne d' f.schedule ∧ ∃ next, f.Moves P t.time K d next ∧
      d'.schedules.get? f.schedule = some (f.row.ran t.time next) := by
  cases h with
  | ticked b t hb htime hnodup hruns hfired htasks =>
      have hnew : ∀ {tid task}, (d.apply b).tasks.get? tid = some task →
          d.tasks.get? tid = none → (tid, task) ∈ b.tasks := by
        intro tid task ht hnone
        rcases hb.task_iff.mp ht with hm | hold
        · exact hm
        · rw [hnone] at hold
          cases hold
      have hscheds : (b.tasks.map (·.2.scheduleId)).Nodup := by
        have hsome := hnodup.map (Option.some_injective Id)
        rw [List.map_map] at hsome
        rw [htasks]
        exact hsome
      constructor
      · have hm : some f.schedule ∈ b.tasks.map (·.2.scheduleId) := by
          rw [htasks]
          exact List.mem_map.mpr ⟨f, hf, rfl⟩
        obtain ⟨x, hx, hsched⟩ := List.mem_map.mp hm
        refine ⟨x.1, ⟨x.2, hb.task_iff.mpr (.inl hx), (hb.task x hx).2.task, hsched⟩, ?_⟩
        rintro tid ⟨task, ht, hnone, hsched'⟩
        exact congrArg Prod.fst (List.inj_on_of_nodup_map hscheds (hnew ht hnone) hx
          (hsched'.trans hsched.symm))
      · obtain ⟨next, hrun, hmoves⟩ := hfired f hf
        exact ⟨next, hmoves, run_row hnodup hruns hrun hmoves.row⟩

theorem Platform.lt_nextRun {cron : String} {t n : Instant} (hloc : P.loc.RegularFrom t)
    (h : P.nextRun cron t = .ok n) : t < n := BindPlane.lt_nextRun hloc h

theorem Platform.Ticks.lt {cron : String} {t n : Instant} (hloc : P.loc.RegularFrom t)
    (h : P.Ticks cron t (some n)) : t < n := by
  cases h with
  | run _ hn => exact P.lt_nextRun hloc hn

/-! ## Ticks over a run -/

/-- The schedule has run at `t` or later, and its next run is behind `t`. -/
def Db.Past (d : Db) (id : Id) (t : Instant) : Prop :=
  ∃ sc, d.schedules.get? id = some sc ∧ (∃ x, sc.lastRunAt = some x ∧ t ≤ x) ∧
    ∀ n, sc.nextRunAt = some n → t < n

/-- **No commit brings an instant back** that a tick has passed, in a zone that is regular since.

A creation concerns another schedule, and an edit reads the clock behind the lock of the row, so not
before the last run.  A tick has read its clock before it began, perhaps before the last tick did;
but then the schedule is not due at that time, and the tick leaves it alone. -/
theorem Commit.past {id : Id} {t : Instant} (h : Commit P op u K d d' r)
    (hloc : P.loc.RegularFrom t) (hd : d.Past id t) : d'.Past id t := by
  obtain ⟨sc, hsc, ⟨x, hx, htx⟩, hnext⟩ := hd
  cases h.schedule id with
  | same h' => exact ⟨sc, h'.trans hsc, ⟨x, hx, htx⟩, hnext⟩
  | made sc' t' next hserial hfresh => rw [hfresh.schedule] at hsc; cases hsc
  | edited row sc' time hrow hkey hplan hcron hlast hgroup h' =>
      rw [hsc] at hrow
      cases hrow
      refine ⟨sc', h', ⟨x, hlast ▸ hx, htx⟩, fun n hn => ?_⟩
      cases hen : sc'.isEnabled with
      | true =>
          -- the hook has read the clock under the lock of the row, so not before the last tick
          obtain ⟨t', next, -, -, hafter, hrun, hnext'⟩ := (plans_enabled hen).mp hplan
          rw [hnext'] at hn
          cases hn
          have hle : t ≤ t' := htx.trans (hafter x (hlast ▸ hx))
          exact hle.trans_lt (P.lt_nextRun (hloc.mono hle) hrun)
      | false =>
          rw [((plans_disabled hen).mp hplan).2] at hn
          cases hn
  | fired f t' next heq hmoves htime h' =>
      subst heq
      rw [hmoves.row] at hsc
      cases hsc
      obtain ⟨-, n, hn, hle⟩ := Schedule.due_eq_true.mp hmoves.due
      have hlt : t < t' := (hnext n hn).trans_le hle
      refine ⟨_, h', ⟨t', rfl, hlt.le⟩, fun n' hn' => ?_⟩
      have hticks := hmoves.next
      rw [show next = some n' from hn'] at hticks
      exact hlt.trans (hticks.lt (hloc.mono hlt.le))

/-- **A schedule that has fired is passed.**  Its next run lies behind the time that the tick has
read; and what a later tick finds due for it is later than what this one has found.

The two fields together exclude a schedule that fires again for the same instant: the row that the
tick leaves is due later than the time that the tick has read, and whatever finds the schedule due
afterwards finds it due for a later instant than this tick did. -/
structure Fired.Passed (P : Platform) (s : Plane) (t : ℕ) (w : Db → Db) (τ : Ticked) (f : Fired) :
    Prop where
  behind : ∃ sc, (w s.db).schedules.get? f.schedule = some sc ∧
    ∀ n, sc.nextRunAt = some n → τ.time < n
  later : ∀ s' s₂ t₂ op₂ w₂ τ₂, s.step (body P) (.advance t) = some s' → Plane.Steps P s' s₂ →
    s₂.txns t₂ = .active op₂ () w₂ (.pure (.ticked τ₂)) → ∀ f₂ ∈ τ₂.fired,
      f₂.schedule = f.schedule → ∃ n n₂, f.row.nextRunAt = some n ∧
        f₂.row.nextRunAt = some n₂ ∧ n < n₂

/-- **Schedules fire in order.**  Every schedule is planned; and of every tick that is about to
commit, each schedule it reports was due, gets exactly one task, and is passed.

A tick is looked at when it is about to commit, with the store as it will leave it.  Two of them may
run at once, and then the locks of the rows decide which of them fires what. -/
structure Plane.SchedulesFire (P : Platform) (s : Plane) : Prop where
  planned : s.db.Planned P
  fires : ∀ t op w τ, s.txns t = .active op () w (.pure (.ticked τ)) → ∀ f ∈ τ.fired,
    s.db.EnqueuesOne (w s.db) f.schedule ∧
      (∃ n, s.db.schedules.get? f.schedule = some f.row ∧ f.row.nextRunAt = some n ∧
        n ≤ τ.time) ∧
      f.Passed P s t w τ

theorem Db.planned_empty : Db.empty.Planned P := fun _ _ hsc => by simp [Db.empty] at hsc

/-- **A tick passes what it fires**, in a zone that is regular from the time of the tick on. -/
theorem Plane.Reachable.passed {s : Plane} (h : Plane.Reachable P s) {t : ℕ} {op : Op}
    {w : Db → Db} {τ : Ticked} (ht : s.txns t = .active op () w (.pure (.ticked τ)))
    (hloc : P.loc.RegularFrom τ.time) {f : Fired} (hf : f ∈ τ.fired) : f.Passed P s t w τ := by
  obtain ⟨-, next, hmoves, hrow⟩ := (h.commit ht).2.fires hf
  have hbehind : ∀ n, next = some n → τ.time < n := by
    intro n hn
    have hticks := hmoves.next
    rw [hn] at hticks
    exact hticks.lt hloc
  refine ⟨⟨_, hrow, hbehind⟩, fun s' s₂ t₂ op₂ w₂ τ₂ hstep hrun ht₂ f₂ hf₂ hsame => ?_⟩
  have h' : Plane.Reachable P s' := h.tail ⟨_, hstep⟩
  have h₂ : Plane.Reachable P s₂ := h'.trans hrun
  have hdb : s'.db = w s.db := by
    simp only [Sys.step, ht, Sys.advance, Option.some.injEq] at hstep
    rw [← hstep]
  -- the commits up to the later tick leave the schedule behind the time of this one
  have hpast : s'.db.Past f.schedule τ.time := by
    rw [hdb]
    exact ⟨_, hrow, ⟨τ.time, rfl, le_rfl⟩, hbehind⟩
  have hpast₂ : s₂.db.Past f.schedule τ.time :=
    h'.induct_from (N := ∅) (I := fun d => d.Past f.schedule τ.time) hrun (by simp) hpast
      fun _ _ hc hd => hc.past hloc hd
  obtain ⟨-, next', hmoves₂, -⟩ := (h₂.commit ht₂).2.fires hf₂
  obtain ⟨-, n, hn, hle⟩ := Schedule.due_eq_true.mp hmoves.due
  obtain ⟨-, n₂, hn₂, -⟩ := Schedule.due_eq_true.mp hmoves₂.due
  obtain ⟨sc, hsc, -, hlater⟩ := hpast₂
  rw [← hsame, hmoves₂.row] at hsc
  cases hsc
  exact ⟨n, n₂, hn, hn₂, hle.trans_lt (hlater n₂ hn₂)⟩

/-- **Schedules fire in order**, where the operations time zone is regular from the time of each tick
on: every schedule is planned; a tick queues exactly one task for each schedule it finds due and
moves it past the time it read; and no later tick finds an instant due that is not later.

Two things are at work.  That one tick fires a schedule once is a matter of locks: a tick holds the
rows that it has found due until it commits, and a second one skips them or reads them behind the
first.  That no later tick finds an earlier instant due is a matter of time: every writer of
`next_run_at` takes it from a clock that it has read under the lock of the row, and `Next` returns
an instant behind that.  The latter is the condition: in a zone whose local time is put back over
midnight it fails, and with it the statement (`Demo.stJohns_repeats`). -/
theorem Plane.Reachable.schedules_fire {s : Plane} (h : Plane.Reachable P s)
    (hloc : ∀ t op w τ, s.txns t = .active op () w (.pure (.ticked τ)) →
      P.loc.RegularFrom τ.time) : s.SchedulesFire P where
  planned := h.induct Db.planned_empty fun _ _ hc hd => hc.planned hd
  fires t op w τ ht f hf := by
    obtain ⟨hone, next, hmoves, -⟩ := (h.commit ht).2.fires hf
    obtain ⟨-, n, hn, hle⟩ := Schedule.due_eq_true.mp hmoves.due
    exact ⟨hone, ⟨n, hmoves.row, hn, hle⟩, h.passed ht (hloc t op w τ ht) hf⟩

/-! ## Due runs and edits -/

/-- The operation's current time: what a tick or the hook of an edit has read; any time, where
the operation reads none. -/
def Reply.At (now : Instant) : Reply → Prop
  | .ticked t => t.time = now
  | .edited e => e.time = none ∨ e.time = some now
  | _ => True

/-- **A due run fires once**: a commit that moves the next run of an enabled schedule away from a
due instant, and leaves expression and enablement alone, queues exactly one task for it. -/
def Db.FiresOnce (d d' : Db) (now : Instant) : Prop :=
  ∀ id sc sc' n, d.schedules.get? id = some sc → d'.schedules.get? id = some sc' →
    sc.isEnabled = true → sc.nextRunAt = some n → n ≤ now → sc'.nextRunAt ≠ some n →
    sc'.cron = sc.cron → sc'.isEnabled = sc.isEnabled → d.EnqueuesOne d' id

/-- An edit changes neither expression nor enablement of an enabled schedule, but something
else, and its hook finds the schedule due.

The edit is of a column that has nothing to do with time, such as the name.  Its hook computes the
next run all the same, and the schedule that was due a moment ago is not due any more: nobody has
queued its task, and nobody will. -/
inductive Op.SkipsDue (d : Db) : Op → Reply → Prop
  | edit (actor : Principal) (uid : UuidText) (input : ScheduleEdit) (c : ScheduleChanges)
      (id : Id) (row : Schedule) (e : ScheduleEdited) (now n : Instant)
      (huid : uid.id? = some id) (hchecked : input.checked = some c)
      (hrow : d.schedules.get? id = some row) (henabled : row.isEnabled = true)
      (hchanged : auditChanges row.fields (row.edited c).fields ≠ [])
      (htime : e.time = some now) (hnext : row.nextRunAt = some n) (hdue : n ≤ now)
      (hcron : (row.edited c).cron = row.cron)
      (hsame : (row.edited c).isEnabled = row.isEnabled) :
      SkipsDue d (.editSchedule actor uid input) (.edited e)

/-- Where the schedules stay, nothing has moved. -/
private theorem firesOnce_of_same {now : Instant}
    (h : ∀ id, d'.schedules.get? id = d.schedules.get? id) :
    d.FiresOnce d' now := by
  intro id sc sc' n hsc hsc' _ hn _ hmoved
  rw [h, hsc] at hsc'
  cases hsc'
  exact absurd hn hmoved

theorem Commit.firesOnce (h : Commit P op u K d d' r) (hno : ¬ op.SkipsDue d r) {now : Instant}
    (hnow : r.At now) : d.FiresOnce d' now := by
  have hc := h
  cases h with
  | taskRun actor input b t e ev hb htasks hruns =>
      exact firesOnce_of_same fun id => by simp [Db.addEvent, Db.apply, hruns]
  | scheduleRun actor uid b t e ev hb htasks hruns =>
      exact firesOnce_of_same fun id => by simp [Db.addEvent, Db.apply, hruns]
  -- a new schedule is not one that was there before
  | scheduleMade actor input i sc₀ e t next hkey hfresh =>
      intro id sc sc' n hsc hsc' _ hn _ hmoved
      have hne : id ≠ i := fun heq => by simp [heq, hfresh.schedule] at hsc
      have hget : (d.schedules.insert i sc₀).get? id = some sc' := hsc'
      rw [Table.get?_insert_of_ne _ hne, hsc] at hget
      cases hget
      exact absurd hn hmoved
  -- an edit that moves a due time is the one that the condition excludes
  | scheduleEdited actor uid input c i row next e reply huid hchecked hkey hrow hreply hchanged
      hplan =>
      intro id sc sc' n hsc hsc' hen hn hle hmoved hcron hsame
      have hget : (d.schedules.modify i fun sc => (sc.edited c).withNextRun next).get? id =
          some sc' := hsc'
      by_cases hid : id = i
      · subst hid
        rw [Table.get?_modify_self, hsc] at hget
        cases hget
        obtain rfl : sc = row := Option.some.inj (hsc.symm.trans hrow)
        have hen' : ((sc.edited c).withNextRun next).isEnabled = true := hsame.trans hen
        obtain ⟨t, n', htime, -⟩ := (plans_enabled hen').mp hplan
        rcases hnow with hnow | hnow
        · rw [htime] at hnow
          cases hnow
        · exact absurd (.edit actor uid input c id sc reply now n huid hchecked hsc hen
            hchanged hnow hn hle hcron hsame) hno
      · rw [Table.get?_modify_of_ne _ hid, hsc] at hget
        cases hget
        exact absurd hn hmoved
  -- a tick moves the schedules that it fires
  | ticked b t hb htime hnodup hruns hfired htasks =>
      intro id sc sc' n hsc hsc' _ hn _ hmoved
      by_cases hid : id ∈ t.fired.map Fired.schedule
      · obtain ⟨f, hf, rfl⟩ := List.mem_map.mp hid
        exact fun _ _ => (hc.fires hf).1
      · have hkeys : b.runs.map Prod.fst = t.fired.map Fired.schedule := run_keys hruns
        have hget : (d.apply b).schedules.get? id = some sc' := hsc'
        rw [Db.apply, Table.get?_modifyAll_of_notMem _ (hkeys ▸ hid), hsc] at hget
        cases hget
        exact absurd hn hmoved
  | _ => exact firesOnce_of_same fun _ => rfl

/-- An edit that skips a due run queues nothing for it, and in a regular zone moves it on. -/
theorem Commit.skips (h : Commit P op u K d d' r) (hskips : op.SkipsDue d r) :
    ∃ now, r.At now ∧ (P.loc.RegularFrom now → ¬ d.FiresOnce d' now) := by
  cases hskips with
  | edit actor uid input c id row e now n huid hchecked hrow henabled hchanged htime hnext hdue
      hcron hsame =>
      refine ⟨now, .inr htime, fun hloc hfires => ?_⟩
      cases h with
      | scheduleUnedited _ _ _ _ hnone => rw [hnone] at htime; cases htime
      | scheduleEdited _ _ _ c' i row' next ev reply huid' hchecked' hkey hrow' hreply hchanged'
          hplan =>
          rw [huid] at huid'
          cases huid'
          rw [hchecked] at hchecked'
          cases hchecked'
          rw [hrow] at hrow'
          cases hrow'
          have hen : ((row.edited c).withNextRun next).isEnabled = true := hsame.trans henabled
          obtain ⟨t, n', htime', -, -, hrun, hnext'⟩ := (plans_enabled hen).mp hplan
          rw [htime] at htime'
          cases htime'
          have hget : (d.schedules.modify id fun sc => (sc.edited c).withNextRun next).get? id =
              some ((row.edited c).withNextRun next) := by
            rw [Table.get?_modify_self, hrow]
            rfl
          have hmoved : ((row.edited c).withNextRun next).nextRunAt ≠ some n := by
            intro heq
            rw [hnext'] at heq
            cases heq
            exact absurd hdue (not_le.mpr (P.lt_nextRun hloc hrun))
          obtain ⟨tid, ⟨task, ht, hnone, -⟩, -⟩ := hfires id row _ n hrow hget henabled hnext hdue
            hmoved hcron hsame
          have hold : d.tasks.get? tid = some task := ht
          rw [hnone] at hold
          cases hold

/-- **Due runs fire**: every commit of every run fires the due runs it moves. -/
def Plane.DueRunsFire (P : Platform) : Prop :=
  ∀ s : Plane, Plane.Reachable P s → ∀ t op w r, s.txns t = .active op () w (.pure r) →
    ∀ now, r.At now → s.db.FiresOnce (w s.db) now

/-- **A due run is lost to such an edit only**: every other commit of every run fires the due runs
that it moves once, whatever the operations time zone is.

The condition is on the operation and the store that its commit begins with: `SkipsDue` is an edit
of a schedule whose next run is due at the time the edit reads.  Nothing is asked of the zone.
Where a tick moves a schedule to an instant that is not later, the run has been fired all the same,
and will be fired again.  The converse, `due_lost`, is kept apart, since there the zone comes in: an
edit that reads a new next run which is due again has lost nothing. -/
theorem Plane.Reachable.due_fires {s : Plane} (h : Plane.Reachable P s) {t : ℕ} {op : Op}
    {w : Db → Db} {r : Reply} (ht : s.txns t = .active op () w (.pure r))
    (hno : ¬ op.SkipsDue s.db r) : ∀ now, r.At now → s.db.FiresOnce (w s.db) now :=
  fun _ hnow => (h.commit ht).2.firesOnce hno hnow

/-- **Such an edit loses a due run**, unless `Next` leads back to the instant that was due: there is
an operation's current time at which it does not fire. -/
theorem Plane.Reachable.due_lost {s : Plane} (h : Plane.Reachable P s) {t : ℕ} {op : Op}
    {w : Db → Db} {r : Reply} (ht : s.txns t = .active op () w (.pure r))
    (hskips : op.SkipsDue s.db r) :
    ∃ now, r.At now ∧ (P.loc.RegularFrom now → ¬ s.db.FiresOnce (w s.db) now) :=
  (h.commit ht).2.skips hskips

/-! ## A concrete run

A nightly backup is stored, and the API is down for three days.  Either the next tick comes
first, or an edit of the schedule's name. -/

namespace Demo

/-- In January 1970 the calendar is that of UTC; its next month, day and hour are always later. -/
theorem location_regularAt (t : ℕ) : location.RegularAt t where
  month := .inl (by
    simp only [Location.nextMonth, location, day]
    show @LT.lt ℕ _ t _
    omega)
  day := .inl (by
    simp only [Location.nextDay, location, day]
    show @LT.lt ℕ _ t _
    omega)
  hour := .inl (by
    simp only [Location.nextHour, location, day]
    show @LT.lt ℕ _ t _
    omega)

/-- The schedule `1`, every night at two, and three days without a tick. -/
def overslept : Plane :=
  act 2 (.elapse 0 (3 * day)) (act 1 (.createSchedule admin
    ⟨"nightly", "config_backup", "0 2 * * *", "all", .empty, none⟩) equipped)

theorem overslept_reachable : overslept.Reachable platform :=
  act_reachable (act_reachable equipped_reachable ..) ..

/-- The next tick, up to its commit. -/
def ticking : Option Plane :=
  overslept.runWithin (body platform) (fun _ => true)
    (.request 3 .runDueSchedules :: .begin 3 () :: List.replicate 13 (.advance 3))

/-- An edit of the name, up to its commit. -/
def rename : Option Plane :=
  overslept.runWithin (body platform) (fun _ => true)
    (.request 3 (.editSchedule admin (.canonical 1)
        ⟨1, some "night", none, none, none, none, none⟩) :: .begin 3 () ::
      List.replicate 9 (.advance 3))

theorem ticking_fires : ∃ s op w τ f, ticking = some s ∧
    s.txns 3 = .active op () w (.pure (.ticked τ)) ∧ f ∈ τ.fired ∧ f.schedule = 1 := by
  have hfires : (ticking.any fun s => (s.answer 3).any fun
      | .ticked τ => τ.fired.any (·.schedule = 1)
      | _ => false) = true := by decide +kernel
  obtain ⟨s, hs, hr⟩ := (Option.any_eq_true _ _).mp hfires
  obtain ⟨r, hr, hfired⟩ := (Option.any_eq_true _ _).mp hr
  obtain ⟨op, u, w, ht, -⟩ := Sys.answer_eq_some hr
  cases r with
  | ticked τ =>
      obtain ⟨f, hf, hid⟩ := List.any_eq_true.mp hfired
      exact ⟨s, op, w, τ, f, hs, ht, hf, of_decide_eq_true hid⟩
  | _ => cases hfired

theorem ticking_reachable {s : Plane} (h : ticking = some s) : s.Reachable platform :=
  overslept_reachable.trans (Sys.runWithin_steps h).steps

/-- The missed run fires at the next tick, once, and is passed. -/
theorem ticking_enqueues : ∃ (s : Plane) (w : Db → Db) (τ : Ticked) (f : Fired), ticking = some s ∧
    f ∈ τ.fired ∧ f.schedule = 1 ∧ s.db.EnqueuesOne (w s.db) 1 ∧ f.Passed platform s 3 w τ := by
  obtain ⟨s, op, w, τ, f, hs, ht, hf, hid⟩ := ticking_fires
  have hfire := (ticking_reachable hs).schedules_fire fun _ _ _ τ _ t _ => location_regularAt t
  obtain ⟨hone, -, hpassed⟩ := hfire.fires 3 op w τ ht f hf
  exact ⟨s, w, τ, f, hs, hf, hid, hid ▸ hone, hpassed⟩

/-- The operations time zone is St. John's. -/
def newfoundland : Platform := ⟨Cron.Demo.stJohns.location, 10⟩

/-- One transaction there. -/
def actThere (t : ℕ) (op : Op) (s : Plane) : Plane := s.perform (body newfoundland) 60 t op ()

theorem actThere_reachable {s : Plane} (h : s.Reachable newfoundland) (t : ℕ) (op : Op) :
    (actThere t op s).Reachable newfoundland :=
  h.trans (Sys.perform_steps ..)

/-- A schedule for midnight, stored half an hour before it and left for an hour: it is half past
eleven again. -/
def repeating : Plane :=
  actThere 3 (.elapse 0 3600000000) (actThere 2 (.createSchedule admin
    ⟨"nightly", "config_backup", "0 0 * * *", "all", .empty, none⟩)
      (actThere 1 (.elapse 0 1289095200000000)
        (actThere 0 (.createSwitch admin ⟨"test", true, none⟩) (Sys.init Db.empty 0))))

theorem repeating_reachable : repeating.Reachable newfoundland :=
  actThere_reachable (actThere_reachable (actThere_reachable (actThere_reachable .refl ..) ..) ..) ..

/-- The next tick, up to its commit. -/
def repetition : Option Plane :=
  repeating.runWithin (body newfoundland) (fun _ => true)
    (.request 4 .runDueSchedules :: .begin 4 () :: List.replicate 13 (.advance 4))

/-- The schedule `1` fires, and its next run is the midnight that has passed. -/
def leavesMidnight (d' : Db) (τ : Ticked) : Bool :=
  τ.time = Cron.Demo.evening && τ.fired.any (·.schedule = 1) &&
    (d'.schedules.get? 1).any (·.nextRunAt = some 1289097000000000)

/-- **Where midnight comes twice**, a tick does not pass the schedule that it fires. -/
theorem stJohns_repeats :
    ¬ ∀ s : Plane, s.Reachable newfoundland → s.SchedulesFire newfoundland := by
  intro hfire
  have hrun : (repetition.any fun s => (s.left 4).any fun d' => (s.answer 4).any fun
      | .ticked τ => leavesMidnight d' τ
      | _ => false) = true := by decide +kernel
  obtain ⟨s, hs, hrun⟩ := (Option.any_eq_true _ _).mp hrun
  obtain ⟨d', hd', hrun⟩ := (Option.any_eq_true _ _).mp hrun
  obtain ⟨r, hr, hrun⟩ := (Option.any_eq_true _ _).mp hrun
  obtain ⟨op, u, w, ht, hleft⟩ := Sys.answer_eq_some hr
  rw [hleft] at hd'
  cases hd'
  have hreach : s.Reachable newfoundland := repeating_reachable.trans (Sys.runWithin_steps hs).steps
  cases r with
  | ticked τ =>
      have hleaves : leavesMidnight (w s.db) τ = true := hrun
      simp only [leavesMidnight, Bool.and_eq_true, decide_eq_true_eq] at hleaves
      obtain ⟨⟨htime, hfired⟩, hnext⟩ := hleaves
      obtain ⟨f, hf, hid⟩ := List.any_eq_true.mp hfired
      obtain ⟨sc, hsc, hnext⟩ := (Option.any_eq_true _ _).mp hnext
      obtain ⟨sc', hsc', hbehind⟩ := ((hfire s hreach).fires 4 op w τ ht f hf).2.2.behind
      rw [of_decide_eq_true hid, hsc] at hsc'
      cases hsc'
      have hlt := hbehind _ (of_decide_eq_true hnext)
      rw [htime] at hlt
      revert hlt
      decide
  | _ => cases hrun

/-- A tick loses nothing. -/
theorem ticking_lossless : ∃ s d' now, ticking = some s ∧ s.left 3 = some d' ∧
    s.db.FiresOnce d' now := by
  obtain ⟨s, op, w, τ, f, hs, ht, hf, hid⟩ := ticking_fires
  have hfires := (ticking_reachable hs).due_fires ht nofun
  exact ⟨s, w s.db, τ.time, hs, by rw [Sys.left, ht], hfires τ.time rfl⟩

/-- The instant the schedule `1` was first due is passed over, and nothing is queued. -/
def passesOver (d d' : Db) : Bool :=
  (d.schedules.get? 1).any fun sc => (d'.schedules.get? 1).any fun sc' =>
    sc.isEnabled && sc.nextRunAt = some 7200000000 && sc'.nextRunAt ≠ some 7200000000 &&
      sc'.cron = sc.cron && sc'.isEnabled = sc.isEnabled && d'.tasks.rows.isEmpty

/-- The edit of the name passes over the run that was due. -/
theorem rename_loses : ¬ Plane.DueRunsFire platform := by
  intro hfire
  have hrun : (rename.any fun s => (s.answer 3 = some (.edited ⟨1, 2, some (3 * day)⟩)) &&
      (s.left 3).any (passesOver s.db)) = true := by decide +kernel
  obtain ⟨s, hs, hend⟩ := (Option.any_eq_true _ _).mp hrun
  rw [Bool.and_eq_true, decide_eq_true_eq] at hend
  obtain ⟨op, u, w, ht, hleft⟩ := Sys.answer_eq_some hend.1
  have hreach : s.Reachable platform := overslept_reachable.trans (Sys.runWithin_steps hs).steps
  have hpasses := hend.2
  rw [hleft, Option.any_some, passesOver] at hpasses
  obtain ⟨sc, hsc, hpasses⟩ := (Option.any_eq_true _ _).mp hpasses
  obtain ⟨sc', hsc', hpasses⟩ := (Option.any_eq_true _ _).mp hpasses
  simp only [Bool.and_eq_true, decide_eq_true_eq, List.isEmpty_iff] at hpasses
  obtain ⟨⟨⟨⟨⟨hen, hnext⟩, hmoved⟩, hcron⟩, hsame⟩, hnone⟩ := hpasses
  obtain ⟨tid, ⟨task, htask, -⟩, -⟩ := hfire s hreach 3 op w _ ht (3 * day) (.inr rfl) 1 sc sc'
    7200000000 hsc hsc' hen hnext (by decide) hmoved hcron hsame
  simp [Table.get?, hnone] at htask

end Demo

end BindPlane.Devices
