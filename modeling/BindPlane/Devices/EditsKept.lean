import BindPlane.Devices.RunsKept

/-!
# Creations and edits keep the contract

Groups, switches and schedules, the passing of time, and with them the whole of the device
operations (`device_kept`): every state a run can reach is sound, and every commit is one of
the contract's.
-/

namespace BindPlane.Devices

open ReadCommitted Contract

variable {P : Platform} {β : Type} {v : View Db Key} {Q : Except Failure β → View Db Key → Prop}

theorem authorize_bind {actor : Principal} {R : Interference Db Key} {g : Unit → Txn β}
    (he : ∀ e v, Q (.error e) v) (h : (g ()).Ensures R Q v) :
    ((authorize actor).bind g).Ensures R Q v := by
  simp only [authorize, Tx.bind_eq, Tx.bind_assoc]
  refine Tx.Ensures.require_bind (fun _ => ?_) (fun _ _ _ => he _ _)
  rw [← Tx.bind_pure (Tx.require ..), Tx.bind_assoc]
  exact Tx.Ensures.require_bind (fun _ => h) (fun _ _ _ => he _ _)

theorem elapse_kept {c w : ℕ} (hv : (contract P).Good v) (hpending : v.pending = id) :
    (body P (.elapse c w) ()).Ensures (contract P).interference
      ((contract P).Ended (.elapse c w) ()) v := by
  refine wrap (f := fun _ : Unit => Reply.done) ?_
  rw [elapse, ← Tx.bind_pure (Tx.update _)]
  refine hv.update fun v₁ h₁ hv₁ => ?_
  refine Good.finish (v := v₁.queue _) hv₁ fun v₂ h₂ hv₂ => ended_of_commit hv₂ ?_
  have hsnap : v₂.snapshot =
      { v₂.db with clock := v₂.db.clock + c, wall := v₂.db.wall + w } := by
    rw [View.snapshot, h₂.pending, View.queue_pending, h₁.pending, hpending]
    rfl
  rw [hsnap]
  exact .elapsed c w

/-! ## Groups and switches -/

/-- A row under a new number, and its event. -/
private theorem create_kept {op : Op} {w : Id → Db → Db} {e : Id → AuditEvent}
    (hv : (contract P).Good v) (hpending : v.pending = id)
    (hcommit : ∀ i K d, .serial i ∈ K → d.Unused i →
      Commit P op () K d ((w i d).addEvent (e i)) (.created i)) :
    (Tx.nextSerial.bind fun i => (Tx.update (w i)).bind fun _ =>
      (Tx.update (·.addEvent (e i))).bind fun _ => (Tx.pure i : Txn Id)).Ensures
      (contract P).interference ((contract P).Finishes op () Reply.created) v := by
  refine hv.nextSerial fun i v₁ h₁ hv₁ hserial _ hinv => hv₁.update fun v₂ h₂ hv₂ => ?_
  refine Good.update (v := v₂.queue _) hv₂ fun v₃ h₃ hv₃ => ?_
  refine Good.finish (v := v₃.queue _) hv₃ fun v₄ h₄ hv₄ => ended_of_commit hv₄ ?_
  have hs : (contract P).Since v₁ v₄ :=
    h₂.since.trans (Since.trans (w := v₃) h₃.since h₄.since)
  have hsnap : v₄.snapshot = (w i v₄.db).addEvent (e i) := by
    rw [View.snapshot, h₄.pending, View.queue_pending, h₃.pending, View.queue_pending,
      h₂.pending, h₁.pending, hpending]
    rfl
  rw [hsnap]
  exact hcommit i _ _ (hs.held hserial)
    (unused_stable hs.rel hv₁.1 hserial (hinv.unused i le_rfl))

theorem createGroup_kept {actor : Principal} {name : String} (hv : (contract P).Good v)
    (hpending : v.pending = id) :
    (body P (.createGroup actor name) ()).Ensures (contract P).interference
      ((contract P).Ended (.createGroup actor name) ()) v := by
  refine wrap ?_
  simp only [createGroup, Tx.bind_eq, Tx.pure_eq]
  refine authorize_bind (fun _ _ => trivial) ?_
  refine Tx.Ensures.require_bind (fun _ => ?_) (fun _ _ _ => trivial)
  exact create_kept hv hpending fun i K d hserial hfresh =>
    .groupMade actor name i _ _ hserial hfresh

theorem createSwitch_kept {actor : Principal} {input : SwitchInput} (hv : (contract P).Good v)
    (hpending : v.pending = id) :
    (body P (.createSwitch actor input) ()).Ensures (contract P).interference
      ((contract P).Ended (.createSwitch actor input) ()) v := by
  refine wrap ?_
  simp only [createSwitch, Tx.bind_eq, Tx.pure_eq]
  refine authorize_bind (fun _ _ => trivial) ?_
  exact create_kept hv hpending fun i K d hserial hfresh =>
    .switchMade actor input i _ hserial hfresh

theorem editSwitch_kept {actor : Principal} {uid : UuidText} {edit : SwitchEdit}
    (hv : (contract P).Good v) (hpending : v.pending = id) :
    (body P (.editSwitch actor uid edit) ()).Ensures (contract P).interference
      ((contract P).Ended (.editSwitch actor uid edit) ()) v := by
  refine wrap ?_
  simp only [editSwitch, Tx.bind_eq, Tx.pure_eq]
  refine authorize_bind (fun _ _ => trivial) ?_
  refine Tx.Ensures.expect_bind (fun sid _ => ?_) (fun _ _ _ => trivial)
  refine Tx.Ensures.require_bind (fun _ => ?_) (fun _ _ _ => trivial)
  refine hv.snapshot fun v₁ h₁ hv₁ => ?_
  refine Tx.Ensures.expect_bind (fun _ _ => ?_) (fun _ _ _ => trivial)
  refine hv₁.acquire fun v₂ h₂ hv₂ _ => hv₂.snapshot fun v₃ h₃ hv₃ => ?_
  have hpending₃ := h₃.pending.trans (h₂.pending.trans (h₁.pending.trans hpending))
  refine Tx.Ensures.expect_bind (fun row _ => ?_) (fun _ _ _ => trivial)
  refine Tx.Ensures.require_bind (fun _ => ?_) (fun _ _ _ => trivial)
  split
  · refine Good.finish hv₃ fun v₄ h₄ hv₄ => ended_of_commit hv₄ ?_
    rw [snapshot_eq (h₄.pending.trans hpending₃)]
    exact .switchUnedited actor uid edit row.version
  · refine hv₃.update fun v₄ h₄ hv₄ => ?_
    refine Good.update (v := v₄.queue _) hv₄ fun v₅ h₅ hv₅ => ?_
    refine Good.finish (v := v₅.queue _) hv₅ fun v₆ h₆ hv₆ => ended_of_commit hv₆ ?_
    have hsnap : v₆.snapshot = (v₆.db.modifySwitch sid (Switch.edited edit)).addEvent
        ⟨actor.userId, actor.email, "switch.update", sid, (row.edited edit).name,
          auditChanges row.fields (row.edited edit).fields⟩ := by
      rw [View.snapshot, h₆.pending, View.queue_pending, h₅.pending, View.queue_pending,
        h₄.pending, hpending₃]
      rfl
    rw [hsnap]
    exact .switchEdited actor uid edit sid _ _

/-! ## Schedules -/

theorem checkedNextRun_bind {cron : String} {t : Instant} {g : Instant → Txn β}
    {R : Interference Db Key} (he : ∀ e v, Q (.error e) v)
    (h : ∀ next, P.nextRun cron t = .ok next → (g next).Ensures R Q v) :
    ((checkedNextRun P cron t).bind g).Ensures R Q v := by
  unfold checkedNextRun
  cases hrun : P.nextRun cron t with
  | ok next => exact h next hrun
  | error e => exact fun _ _ => he _ _

theorem createSchedule_kept {actor : Principal} {input : ScheduleInput}
    (hv : (contract P).Good v) (hpending : v.pending = id) :
    (body P (.createSchedule actor input) ()).Ensures (contract P).interference
      ((contract P).Ended (.createSchedule actor input) ()) v := by
  refine wrap ?_
  simp only [createSchedule, timeNow, Tx.bind_eq, Tx.bind_assoc, Tx.pure_eq, Tx.pure_bind]
  refine authorize_bind (fun _ _ => trivial) ?_
  refine Tx.Ensures.expect_bind (fun row _ => ?_) (fun _ _ _ => trivial)
  refine hv.snapshot fun v₁ h₁ hv₁ => ?_
  have hpending₁ := h₁.pending.trans hpending
  refine checkedNextRun_bind (fun _ _ => trivial) fun next hnext => ?_
  refine hv₁.nextSerial fun i v₂ h₂ hv₂ hserial _ hinv => hv₂.snapshot fun v₃ h₃ hv₃ => ?_
  have hpending₃ := h₃.pending.trans (h₂.pending.trans hpending₁)
  refine Tx.Ensures.require_bind (fun hgroup => ?_) (fun _ _ _ => trivial)
  rw [snapshot_eq hpending₃] at hgroup
  refine hv₃.update fun v₄ h₄ hv₄ => ?_
  refine Good.update (v := v₄.queue _) hv₄ fun v₅ h₅ hv₅ => ?_
  refine Good.finish (v := v₅.queue _) hv₅ fun v₆ h₆ hv₆ => ended_of_commit hv₆ ?_
  have hs : (contract P).Since v₃ v₆ :=
    h₄.since.trans (Since.trans (w := v₅) h₅.since h₆.since)
  have hs₂ := h₃.since.trans hs
  let sc : Schedule := ⟨row.1, row.2.1, normalizeCron input.cron, row.2.2,
    input.isEnabled.getD true, if input.isEnabled.getD true then some next else none, none, 1⟩
  have hsnap : v₆.snapshot = (v₆.db.addSchedule i sc).addEvent
      ⟨actor.userId, actor.email, "schedule.create", i, row.1, []⟩ := by
    rw [View.snapshot, h₆.pending, View.queue_pending, h₅.pending, View.queue_pending,
      h₄.pending, hpending₃]
    rfl
  rw [hsnap]
  refine .scheduleMade actor input i sc _ v₁.snapshot.wall next (hs₂.held hserial) ?_ hnext ?_
    rfl rfl (hasGroup_stable hs.rel hgroup)
  · exact unused_stable hs₂.rel hv₂.1 hserial (hinv.unused i le_rfl)
  · rw [snapshot_eq hpending₁]
    exact (wall_stable (h₂.since.trans hs₂).rel).2

theorem checkCron_bind {cron : Option String} {g : PUnit → Txn β} (hv : (contract P).Good v)
    (he : ∀ e v, Q (.error e) v)
    (h : ∀ v', (contract P).Later v v' → (contract P).Good v' →
      (∀ x, cron = some x → ∃ t n, P.nextRun x t = .ok n) →
      (g ⟨⟩).Ensures (contract P).interference Q v') :
    ((checkCron P cron).bind g).Ensures (contract P).interference Q v := by
  cases cron with
  | none => exact h v (.refl v) hv nofun
  | some x =>
      simp only [checkCron, timeNow, Tx.bind_eq, Tx.bind_assoc, Tx.pure_eq, Tx.pure_bind]
      refine hv.snapshot fun v₁ h₁ hv₁ => ?_
      refine checkedNextRun_bind he fun next hnext => h v₁ h₁ hv₁ ?_
      rintro _ ⟨⟩
      exact ⟨_, next, hnext⟩

theorem selectScheduleForUpdate_bind {sid : Id} {g : Option Schedule → Txn β}
    (hv : (contract P).Good v) (hpending : v.pending = id)
    (hnone : ∀ v', (contract P).Later v v' → (contract P).Good v' →
      (g none).Ensures (contract P).interference Q v')
    (h : ∀ row v', (contract P).Later v v' → (contract P).Good v' →
      .key (.schedule sid) ∈ v'.held → v'.db.schedules.get? sid = some row →
      (g (some row)).Ensures (contract P).interference Q v') :
    ((selectScheduleForUpdate sid).bind g).Ensures (contract P).interference Q v := by
  simp only [selectScheduleForUpdate, Tx.bind_eq, Tx.bind_assoc, Tx.pure_eq]
  refine hv.snapshot fun v₁ h₁ hv₁ => ?_
  cases v₁.snapshot.schedules.get? sid with
  | none => exact hnone v₁ h₁ hv₁
  | some _ =>
      simp only [Tx.bind_assoc, Tx.pure_bind]
      refine hv₁.acquire fun v₂ h₂ hv₂ hkey => hv₂.snapshot fun v₃ h₃ hv₃ => ?_
      have hl := h₁.trans (h₂.trans h₃)
      rw [snapshot_eq (hl.pending.trans hpending)]
      cases hrow : v₃.db.schedules.get? sid with
      | none => exact hnone v₃ hl hv₃
      | some row => exact h row v₃ hl hv₃ (h₃.held hkey) hrow

theorem plans_enabled {sc : Schedule} {d : Db} {time : Option Instant}
    (h : sc.isEnabled = true) : P.Plans sc d time ↔
      ∃ t next, time = some t ∧ t ≤ d.wall ∧ (∀ x, sc.lastRunAt = some x → x ≤ t) ∧
        P.nextRun sc.cron t = .ok next ∧ sc.nextRunAt = some next := by
  rw [Platform.Plans, if_pos h]

theorem plans_disabled {sc : Schedule} {d : Db} {time : Option Instant}
    (h : sc.isEnabled = false) : P.Plans sc d time ↔ time = none ∧ sc.nextRunAt = none := by
  rw [Platform.Plans, if_neg (by simp [h])]

theorem Platform.Plans.since {sc : Schedule} {time : Option Instant} {v' : View Db Key}
    (h : P.Plans sc v.db time) (hs : (contract P).Since v v') : P.Plans sc v'.db time := by
  cases henabled : sc.isEnabled with
  | true =>
      obtain ⟨t, next, htime, hwall, hrest⟩ := (plans_enabled henabled).mp h
      exact (plans_enabled henabled).mpr
        ⟨t, next, htime, hwall.trans (wall_stable hs.rel).2, hrest⟩
  | false => exact (plans_disabled henabled).mpr ((plans_disabled henabled).mp h)

/-- The hook of an edit, where the transaction sees the edited row `stored`. -/
theorem recomputeNextRun_bind {sid : Id} (stored : Schedule) {g : Option Instant → Txn β}
    (hv : (contract P).Good v) (he : ∀ e v, Q (.error e) v)
    (hstored : ∀ v', (contract P).Later v v' → v'.snapshot.schedules.get? sid = some stored)
    (hran : ∀ v', (contract P).Later v v' → (contract P).Good v' →
      ∀ x, stored.lastRunAt = some x → x ≤ v'.db.wall)
    (hwall : ∀ d : Db, (v.pending d).wall = d.wall)
    (h : ∀ time next v', (contract P).Later v v' → (contract P).Good v' →
      P.Plans (stored.withNextRun next) v'.db time →
      (g time).Ensures (contract P).interference Q
        (v'.queue (·.modifySchedule sid (Schedule.withNextRun next)))) :
    ((recomputeNextRun P sid).bind g).Ensures (contract P).interference Q v := by
  simp only [recomputeNextRun, timeNow, Tx.bind_eq, Tx.bind_assoc, Tx.pure_eq, Tx.pure_bind]
  refine hv.snapshot fun v₁ h₁ hv₁ => ?_
  rw [hstored v₁ h₁]
  refine Tx.Ensures.expect_bind (fun a ha => ?_) (fun h => by cases h)
  obtain rfl := Option.some.inj ha
  cases henabled : stored.isEnabled with
  | true =>
    simp only [if_true, Tx.bind_assoc, Tx.pure_bind]
    refine hv₁.snapshot fun v₂ h₂ hv₂ => ?_
    refine checkedNextRun_bind he fun next hnext => hv₂.update fun v₃ h₃ hv₃ => ?_
    have hplan : P.Plans (stored.withNextRun (some next)) v₂.db (some v₂.snapshot.wall) := by
      have hrow : (stored.withNextRun (some next)).isEnabled = true := henabled
      have htime : v₂.snapshot.wall = v₂.db.wall := by
        rw [View.snapshot, (h₁.trans h₂).pending, hwall]
      refine (plans_enabled hrow).mpr ⟨_, next, rfl, htime.le, fun x hx => ?_, hnext, rfl⟩
      rw [htime]
      exact hran v₂ (h₁.trans h₂) hv₂ x hx
    exact h _ _ v₃ (h₁.trans (h₂.trans h₃)) hv₃ (hplan.since h₃.since)
  | false =>
    simp only [Bool.false_eq_true, if_false, Tx.bind_assoc, Tx.pure_bind]
    refine hv₁.update fun v₂ h₂ hv₂ => ?_
    have hrow : (stored.withNextRun none).isEnabled = false := henabled
    exact h none none v₂ (h₁.trans h₂) hv₂ ((plans_disabled hrow).mpr ⟨rfl, rfl⟩)

theorem editSchedule_kept {actor : Principal} {uid : UuidText} {input : ScheduleEdit}
    (hv : (contract P).Good v) (hpending : v.pending = id) :
    (body P (.editSchedule actor uid input) ()).Ensures (contract P).interference
      ((contract P).Ended (.editSchedule actor uid input) ()) v := by
  refine wrap ?_
  simp only [editSchedule, Tx.bind_eq, Tx.pure_eq]
  refine authorize_bind (fun _ _ => trivial) ?_
  refine Tx.Ensures.expect_bind (fun c hchecked => ?_) (fun _ _ _ => trivial)
  refine checkCron_bind hv (fun _ _ => trivial) fun v₁ h₁ hv₁ hcron => ?_
  refine Tx.Ensures.expect_bind (fun sid huid => ?_) (fun _ _ _ => trivial)
  refine Tx.Ensures.require_bind (fun _ => ?_) (fun _ _ _ => trivial)
  have hpending₁ := h₁.pending.trans hpending
  -- from here on the row is locked
  refine selectScheduleForUpdate_bind hv₁ hpending₁
    (fun _ _ _ => Tx.Ensures.expect_bind nofun fun _ _ _ => trivial)
    fun row v₂ h₂ hv₂ hkey hrow => ?_
  have hpending₂ := h₂.pending.trans hpending₁
  refine Tx.Ensures.expect_bind (fun a ha => ?_) nofun
  obtain rfl := Option.some.inj ha
  refine Tx.Ensures.require_bind (fun _ => ?_) (fun _ _ _ => trivial)
  -- an edit that changes nothing does not come to the hook
  by_cases hchanged : auditChanges row.fields (row.edited c).fields = []
  · simp only [hchanged, if_true]
    refine Good.finish hv₂ fun v₃ h₃ hv₃ => ended_of_commit hv₃ ?_
    rw [snapshot_eq (h₃.pending.trans hpending₂)]
    exact .scheduleUnedited actor uid input _ rfl
  · simp only [hchanged, if_false]
    refine hv₂.snapshot fun v₃ h₃ hv₃ => ?_
    have hpending₃ := h₃.pending.trans hpending₂
    refine Tx.Ensures.require_bind (fun hgroup => ?_) (fun _ _ _ => trivial)
    rw [snapshot_eq hpending₃] at hgroup
    let ev : AuditEvent := ⟨actor.userId, actor.email, "schedule.update", sid,
      (row.edited c).name, auditChanges row.fields (row.edited c).fields⟩
    refine hv₃.update fun v₄ h₄ hv₄ => Good.update (v := v₄.queue _) hv₄ fun v₅ h₅ hv₅ => ?_
    have hpending₅ : (v₅.queue (·.addEvent ev)).pending =
        fun d => (d.modifySchedule sid (Schedule.edited c)).addEvent ev := by
      rw [View.queue_pending, h₅.pending, View.queue_pending, h₄.pending, hpending₃]
      rfl
    have hs₅ : (contract P).Since v₂ (v₅.queue (·.addEvent ev)) :=
      h₃.since.trans (Since.trans (w := v₄) h₄.since h₅.since)
    -- the hook reads the clock behind the lock, and the row with the edit in it
    refine recomputeNextRun_bind (v := v₅.queue _) (row.edited c) hv₅
      (fun _ _ => trivial) (fun v' h' => ?_)
      (fun v' h' hv' x hx => hv'.1.ran_le sid row x
        (schedule_stable (hs₅.trans h'.since).rel hkey hrow) hx)
      (fun d => by rw [hpending₅]; rfl) fun time next v₆ h₆ hv₆ hplan => ?_
    · have hrow' := schedule_stable (hs₅.trans h'.since).rel hkey hrow
      rw [View.snapshot, h'.pending, hpending₅]
      exact (Table.get?_modify_self ..).trans (by rw [hrow']; rfl)
    · refine Good.finish (v := v₆.queue _) hv₆ fun v₇ h₇ hv₇ => ended_of_commit hv₇ ?_
      have hs₇ : (contract P).Since v₂ v₇ :=
        hs₅.trans (Since.trans (w := v₆) h₆.since h₇.since)
      have hs₃ : (contract P).Since v₃ v₇ := Since.trans (w := v₄) h₄.since
        (Since.trans (w := v₅) h₅.since (Since.trans (w := v₆) h₆.since h₇.since))
      have hsnap : v₇.snapshot = (v₇.db.modifySchedule sid fun sc =>
          (sc.edited c).withNextRun next).addEvent ev := by
        rw [View.snapshot, h₇.pending, View.queue_pending, h₆.pending, hpending₅]
        simp only [Function.comp_apply, Db.modifySchedule, Db.addEvent, Table.modify_modify]
        rfl
      rw [hsnap]
      exact .scheduleEdited actor uid input c sid row next ev _ huid hchecked (hs₇.held hkey)
        (schedule_stable hs₇.rel hkey hrow) rfl hchanged (hplan.since (v := v₆) h₇.since) hcron
        (hasGroup_stable hs₃.rel hgroup)

/-! ## The whole -/

/-- **Every transaction keeps the contract.**

This is where the contract is discharged.  Behind it no program is mentioned: a state that is
reached is sound, and a commit is one of the constructors of `Commit`. -/
theorem device_kept : (contract P).Kept (body P) := by
  intro op _ v hinv hpending hheld
  have hv : (contract P).Good v := ⟨hinv, fun n hn => by rw [hheld] at hn; cases hn⟩
  cases op with
  | elapse c w => exact elapse_kept hv hpending
  | createGroup actor name => exact createGroup_kept hv hpending
  | createSwitch actor input => exact createSwitch_kept hv hpending
  | editSwitch actor id e => exact editSwitch_kept hv hpending
  | runTask actor input => exact runTask_kept hv hpending
  | createSchedule actor input => exact createSchedule_kept hv hpending
  | editSchedule actor id input => exact editSchedule_kept hv hpending
  | runSchedule actor id => exact runSchedule_kept hv hpending
  | runDueSchedules => exact runDueSchedules_kept hv hpending
  | claimDeviceItems limit => exact claimDeviceItems_kept hv hpending
  | sweepDeviceItems => exact sweepDeviceItems_kept hv hpending
  | skipItem item => exact skipItem_kept hv hpending
  | failItem item => exact failItem_kept hv hpending
  | recordReachability item p => exact recordReachability_kept hv hpending
  | recordBackupFailure item m => exact recordBackupFailure_kept hv hpending
  | recordBackup item c => exact recordBackup_kept hv hpending
  | acknowledge actor id => exact acknowledge_kept hv hpending
  | pruneTasks => exact pruneTasks_kept hv hpending
  | pruneAlerts => exact pruneAlerts_kept hv hpending
  | raiseCompliance s rule m => exact raiseCompliance_kept hv hpending
  | resolveCompliance s rule => exact resolveCompliance_kept hv hpending

theorem Db.valid_empty : Db.empty.Valid 0 where
  unused id _ := by constructor <;> simp [Db.empty]
  item_task _ _ hi := by simp [Db.empty] at hi
  pending_unique _ _ _ _ hi := by simp [Db.empty] at hi
  handed_item _ hc := by simp [Db.empty] at hc
  schedule_group _ _ hsc := by simp [Db.empty] at hsc
  captured_le _ _ hb := by simp [Db.empty] at hb
  ran_le _ _ _ hsc := by simp [Db.empty] at hsc

/-- Every state a run can reach is sound. -/
theorem Plane.Reachable.sound {s : Plane} (h : Plane.Reachable P s) : Sound (contract P) s :=
  (Sound.init Db.valid_empty).steps device_kept h

/-- A step of a run moves the store by a commit of the contract, if at all. -/
theorem Plane.Reachable.commit {s : Plane} (h : Plane.Reachable P s) {t : ℕ} {op : Op}
    {w : Db → Db} {r : Reply} (ht : s.txns t = .active op () w (.pure r)) :
    s.db.Valid s.seq ∧ Commit P op () (s.heldBy t) s.db (w s.db) r :=
  ⟨h.sound.inv, (h.sound.commits ht).2⟩

/-- **Induction over runs**, for a property of the store: it holds of the empty store, and
every commit keeps it.

All invariants of the tables are proved by this rule, with one lemma about commits each. -/
theorem Plane.Reachable.induct {s : Plane} (h : Plane.Reachable P s) {I : Db → Prop}
    (hempty : I Db.empty)
    (hstep : ∀ {op u K d d' r n}, d.Valid n → (∀ i, .serial i ∈ K → i < n) →
      Commit P op u K d d' r → I d → I d') : I s.db := by
  induction h with
  | refl => exact hempty
  | tail hrun hstep' ih =>
      obtain ⟨a, ha⟩ := hstep'
      have hsound := Plane.Reachable.sound hrun
      cases Sys.step_moved ha with
      | quiet hdb => rw [hdb]; exact ih
      | commit op u r w ht hdb _ =>
          rw [hdb]
          refine hstep hsound.inv (fun i hi => ?_) (hsound.commits ht).2 ih
          by_contra hle
          have hnone := hsound.undrawn i (not_lt.mp hle)
          simp [Sys.heldBy, hnone] at hi

end BindPlane.Devices
