import BindPlane.Devices.Interference

/-!
# Items and alerts keep the contract

The worker's transactions, `acknowledge`, `pruneHistory` and the alert statements of the
compliance evaluator, statement by statement: for every shared statement one rule that says
what holds behind it, and for every operation the commit it ends in.
-/

namespace BindPlane.Devices

open ReadCommitted Contract

variable {P : Platform} {β : Type} {v : View Db Key}
  {Q : Except Failure β → View Db Key → Prop}

theorem snapshot_eq (h : v.pending = id) : v.snapshot = v.db := by
  rw [View.snapshot, h]
  rfl

/-- An operation that ends in a commit under the contract. -/
theorem ended_of_commit {op : Op} {r : Reply} (hv : (contract P).Good v)
    (hc : Commit P op () v.held v.db v.snapshot r) :
    (contract P).Ended (ε := Failure) op () (.ok r) v :=
  ⟨hc.valid hv.1 hv.2, hc⟩

/-! ## Statements -/

/-- The first statement of an executor's transaction: the item came out of a claim. -/
theorem claimedAt_bind {item : ClaimedItem} {g : Instant → Txn β} (hv : (contract P).Good v)
    (hpending : v.pending = id) (he : ∀ e v', Q (.error e) v')
    (h : ∀ v', (contract P).Later v v' → (contract P).Good v' → item ∈ v'.db.handed →
      (g v'.db.clock).Ensures (contract P).interference Q v') :
    ((claimedAt item).bind g).Ensures (contract P).interference Q v := by
  simp only [claimedAt, Tx.bind_eq, Tx.bind_assoc, Tx.pure_eq, Tx.pure_bind]
  refine hv.snapshot fun v₁ h₁ hv₁ => ?_
  rw [snapshot_eq (h₁.pending.trans hpending)]
  refine Tx.Ensures.require_bind (fun hm => ?_) (fun _ _ _ => he _ _)
  exact h v₁ h₁ hv₁ (by simpa using hm)

/-- An item that runs goes on running while its entry is held. -/
theorem ClaimedItem.Runs.since {item : ClaimedItem} {v' : View Db Key}
    (h : item.Runs v.held v.db) (hv : (contract P).Good v) (hl : (contract P).Since v v') :
    item.Runs v'.held v'.db := by
  obtain ⟨i, hi, htoken, hrunning⟩ := Db.held_eq_true.mp h.held
  obtain ⟨hswitch, hkind, -, -⟩ := hv.1.handed_item item h.handed i hi
  have hkey : .key (.pending i.switchId i.kind) ∈ v.held := by
    rw [hswitch, hkind]
    exact h.key
  have hi' := item_stable hl.rel hv.1 hkey hi (by simp [Item.pending, hrunning])
  exact ⟨handed_stable hl.rel h.handed, Db.held_eq_true.mpr ⟨i, hi', htoken, hrunning⟩,
    hl.held h.key⟩

/-- `finish_item`: either the item runs under its token and is ended, or nothing happens. -/
theorem finishItem_bind {start : Instant} {item : ClaimedItem} {f : Finish} {g : Bool → Txn β}
    (hv : (contract P).Good v) (hhanded : item ∈ v.db.handed)
    (hitems : ∀ d : Db, (v.pending d).items = d.items)
    (hwon : ∀ v', (contract P).Later v v' → (contract P).Good v' → item.Runs v'.held v'.db →
      (g true).Ensures (contract P).interference Q
        (v'.queue (·.modifyItem item.id (Item.finished start f))))
    (hlost : ∀ v', (contract P).Later v v' → (contract P).Good v' →
      (g false).Ensures (contract P).interference Q v') :
    ((finishItem start item f).bind g).Ensures (contract P).interference Q v := by
  simp only [finishItem, Tx.bind_eq, Tx.bind_assoc]
  refine hv.snapshot fun v₁ h₁ hv₁ => ?_
  by_cases hheld : v₁.snapshot.held item.id item.leaseToken = true
  · simp only [hheld, if_true, Tx.bind_assoc]
    refine hv₁.acquireIf (fun v₂ h₂ hv₂ hkey hc => ?_) (fun v₂ h₂ hv₂ _ => ?_)
    · simp only [if_true, Tx.bind_assoc, Tx.pure_eq, Tx.pure_bind]
      have hruns : item.Runs v₂.held v₂.db := by
        refine ⟨handed_stable (h₁.trans h₂).rel hhanded, ?_, hkey⟩
        have hread : v₂.snapshot.items = v₂.db.items := by
          rw [View.snapshot, (h₁.trans h₂).pending]
          exact hitems v₂.db
        rw [Db.held, hread] at hc
        exact hc
      refine hv₂.update fun v₃ h₃ hv₃ => ?_
      exact hwon v₃ ((h₁.trans h₂).trans h₃) hv₃ (hruns.since hv₂ h₃.since)
    · simp only [Bool.false_eq_true, if_false, Tx.pure_eq, Tx.pure_bind]
      exact hlost v₂ (h₁.trans h₂) hv₂
  · simp only [hheld, Bool.false_eq_true, if_false, Tx.pure_eq, Tx.pure_bind]
    exact hlost v₁ h₁ hv₁

/-- What an upsert has found stays so behind the lock of its key. -/
theorem Upserts.since {start : Instant} {new : NewAlert} {touch : Alert → Alert}
    {write : Table Alert → Table Alert} {v' : View Db Key}
    (h : Upserts v.held v.db start new touch write) (hkey : .key (.alert new.key) ∈ v.held)
    (hv : (contract P).Good v) (hl : (contract P).Since v v') :
    Upserts v'.held v'.db start new touch write := by
  have hactive := active_stable hl.rel (.inl hkey)
  cases h with
  | touched id hid => exact .touched id (hactive ▸ hid)
  | opened id hnone hserial hfresh hswitch =>
      exact .opened id (hactive.trans hnone) (hl.held hserial)
        (unused_stable hl.rel hv.1 hserial hfresh) (switch_stable hl.rel hswitch)

/-- What a resolution has found stays so behind the guard of its key. -/
theorem Resolves.since {start : Instant} {key : DedupeKey}
    {write : Table Alert → Table Alert} {v' : View Db Key}
    (h : Resolves v.held v.db start key write)
    (hguard : ∃ g, key.guard = some g ∧ .key g ∈ v.held) (hl : (contract P).Since v v') :
    Resolves v'.held v'.db start key write := by
  have hactive := active_stable hl.rel (.inr hguard)
  cases h with
  | resolved id hid hkey => exact .resolved id (hactive ▸ hid) (hl.held hkey)
  | nothing hnone => exact .nothing (hactive.trans hnone)

theorem activeAlert_eq_some {d : Db} {key : DedupeKey} {id : Id} {a : Alert}
    (h : d.activeAlert key = some (id, a)) : id ∈ activeIn d.alerts key := by
  obtain ⟨ha, hp⟩ := Table.find?_eq_some h
  simp only [Bool.and_eq_true, decide_eq_true_eq] at hp
  exact ⟨a, ha, hp.1, hp.2⟩

theorem activeAlert_eq_none {d : Db} {key : DedupeKey} (h : d.activeAlert key = none) :
    activeIn d.alerts key = ∅ := by
  rw [Db.activeAlert, Table.find?_eq_none] at h
  refine Set.eq_empty_iff_forall_notMem.mpr ?_
  rintro id ⟨a, ha, hkey, hactive⟩
  simpa [hkey, hactive] using h id a ha

/-- `upsert_alert`, in a transaction that has written nothing to the alerts. -/
theorem upsertAlert_bind {start : Instant} {new : NewAlert} {touch : Alert → Alert}
    {g : PUnit → Txn β} (hv : (contract P).Good v)
    (halerts : ∀ d : Db, (v.pending d).alerts = d.alerts)
    (hswitches : ∀ d : Db, ((v.pending d).switches.get? new.switchId).isSome =
      (d.switches.get? new.switchId).isSome)
    (he : ∀ e v', Q (.error e) v')
    (h : ∀ write v', (contract P).Later v v' → (contract P).Good v' →
      .key (.alert new.key) ∈ v'.held → Upserts v'.held v'.db start new touch write →
      (g ⟨⟩).Ensures (contract P).interference Q (v'.queue (·.mapAlerts write))) :
    ((upsertAlert start new touch).bind g).Ensures (contract P).interference Q v := by
  simp only [upsertAlert, Tx.bind_eq, Tx.bind_assoc]
  refine hv.acquire fun v₁ h₁ hv₁ hkey => hv₁.snapshot fun v₂ h₂ hv₂ => ?_
  have hl := h₁.trans h₂
  have hsame : v₂.snapshot.activeAlert new.key = v₂.db.activeAlert new.key := by
    rw [Db.activeAlert, View.snapshot, hl.pending, halerts, Db.activeAlert]
  rw [hsame]
  have hkey₂ := h₂.held hkey
  cases hfound : v₂.db.activeAlert new.key with
  | some found =>
      obtain ⟨id, a⟩ := found
      have hup : Upserts v₂.held v₂.db start new touch _ :=
        .touched id (activeAlert_eq_some hfound)
      refine hv₂.update fun v₃ h₃ hv₃ => ?_
      exact h _ v₃ (hl.trans h₃) hv₃ (h₃.held hkey₂) (hup.since hkey₂ hv₂ h₃.since)
  | none =>
      simp only [Tx.bind_assoc]
      refine Tx.Ensures.require_bind (fun hswitch => ?_) (fun _ _ _ => he _ _)
      have hswitch₂ : ∃ sw, v₂.db.switches.get? new.switchId = some sw := by
        rw [View.snapshot, hl.pending, hswitches] at hswitch
        exact Option.isSome_iff_exists.mp hswitch
      refine hv₂.nextSerial fun id v₃ h₃ hv₃ hserial _ hinv => ?_
      have hup : Upserts v₃.held v₃.db start new touch _ :=
        .opened id ((active_stable h₃.rel (.inl hkey₂)).trans (activeAlert_eq_none hfound))
          hserial (hinv.unused id le_rfl) (switch_stable h₃.rel hswitch₂)
      refine hv₃.update fun v₄ h₄ hv₄ => ?_
      exact h _ v₄ (hl.trans (h₃.trans h₄)) hv₄ (h₄.held (h₃.held hkey₂))
        (hup.since (h₃.held hkey₂) hv₃ h₄.since)

/-- `resolve_alert`, in a transaction that has written nothing to the alerts and holds the
guard of the key. -/
theorem resolveAlert_bind {start : Instant} {key : DedupeKey} {g : PUnit → Txn β}
    (hv : (contract P).Good v) (halerts : ∀ d : Db, (v.pending d).alerts = d.alerts)
    (hguard : ∃ g, key.guard = some g ∧ .key g ∈ v.held)
    (h : ∀ write v', (contract P).Later v v' → (contract P).Good v' →
      Resolves v'.held v'.db start key write →
      (g ⟨⟩).Ensures (contract P).interference Q (v'.queue (·.mapAlerts write))) :
    ((resolveAlert start key).bind g).Ensures (contract P).interference Q v := by
  simp only [resolveAlert, Tx.bind_eq, Tx.bind_assoc]
  refine hv.snapshot fun v₁ h₁ hv₁ => ?_
  have hsame : ∀ {v'}, (contract P).Later v v' → v'.snapshot.alerts = v'.db.alerts := by
    intro v' hl
    rw [View.snapshot, hl.pending, halerts]
  have hguarded : ∀ {v'}, (contract P).Later v v' →
      ∃ g, key.guard = some g ∧ .key g ∈ v'.held := by
    intro v' hl
    obtain ⟨k, hk, hm⟩ := hguard
    exact ⟨k, hk, hl.held hm⟩
  cases hfound : v₁.snapshot.activeAlert key with
  | none =>
      rw [Db.activeAlert, hsame h₁, ← Db.activeAlert] at hfound
      exact h (fun t => t) v₁ h₁ hv₁ (.nothing (activeAlert_eq_none hfound))
  | some found =>
      obtain ⟨id, a⟩ := found
      rw [Db.activeAlert, hsame h₁, ← Db.activeAlert] at hfound
      have hid := activeAlert_eq_some hfound
      simp only [Tx.bind_assoc]
      refine hv₁.acquireIf (fun v₂ h₂ hv₂ hkey _ => ?_) (fun v₂ h₂ hv₂ hno => ?_)
      · have hres : Resolves v₂.held v₂.db start key _ :=
          .resolved id (active_stable h₂.rel (.inr (hguarded h₁)) ▸ hid) hkey
        refine hv₂.update fun v₃ h₃ hv₃ => ?_
        exact h _ v₃ (h₁.trans (h₂.trans h₃)) hv₃
          (hres.since (hguarded (h₁.trans h₂)) h₃.since)
      · -- the guard keeps the alert as it was
        rw [← active_stable h₂.rel (.inr (hguarded h₁))] at hid
        obtain ⟨a', ha', hakey, hactive⟩ := hid
        rw [hsame (h₁.trans h₂), ha'] at hno
        simp [hakey, hactive] at hno

/-! ## Executors -/

/-- `skipItem` and `failItem`. -/
private theorem end_kept {op : Op} {item : ClaimedItem} {f : Finish} (hv : (contract P).Good v)
    (hpending : v.pending = id) (hbackup : f.backupId = none)
    (hop : op = .skipItem item ∧ f.status = .skipped ∨ op = .failItem item ∧ f.status = .failed) :
    ((claimedAt item).bind fun start => finishItem start item f).Ensures
      (contract P).interference ((contract P).Finishes op () .won) v := by
  refine claimedAt_bind hv hpending (fun _ _ => trivial) fun v₁ h₁ hv₁ hhanded => ?_
  have hpending₁ := h₁.pending.trans hpending
  rw [← Tx.bind_pure (finishItem ..)]
  refine finishItem_bind hv₁ hhanded (fun d => by rw [hpending₁]; rfl)
    (fun v₂ h₂ hv₂ hruns => ?_) (fun v₂ h₂ hv₂ => ?_)
  · refine Good.finish (v := v₂.queue _) hv₂ fun v₃ h₃ hv₃ => ended_of_commit hv₃ ?_
    have hsnap : v₃.snapshot = v₃.db.modifyItem item.id (Item.finished v₁.db.clock f) := by
      rw [View.snapshot, h₃.pending, View.queue_pending, h₂.pending, hpending₁]
      rfl
    rw [hsnap]
    exact .ended item v₁.db.clock f hop hbackup (hruns.since hv₂ h₃.since)
  · refine Good.finish hv₂ fun v₃ h₃ hv₃ => ended_of_commit hv₃ ?_
    rw [snapshot_eq (h₃.pending.trans (h₂.pending.trans hpending₁))]
    exact .lost item (hop.elim (fun h => .inl h.1) fun h => .inr (.inl h.1))

theorem skipItem_kept {item : ClaimedItem} (hv : (contract P).Good v) (hpending : v.pending = id) :
    (body P (.skipItem item) ()).Ensures (contract P).interference
      ((contract P).Ended (.skipItem item) ()) v :=
  wrap (end_kept hv hpending rfl (.inl ⟨rfl, rfl⟩))

theorem failItem_kept {item : ClaimedItem} (hv : (contract P).Good v) (hpending : v.pending = id) :
    (body P (.failItem item) ()).Ensures (contract P).interference
      ((contract P).Ended (.failItem item) ()) v :=
  wrap (end_kept hv hpending rfl (.inr ⟨rfl, rfl⟩))

/-- The rule of an alert statement: in a transaction that has written neither alerts nor
switches, it ends behind a write that `A` says is right for the store it is made in. -/
def AlertRule (P : Platform) (item : ClaimedItem) (alert : Txn PUnit)
    (A : Set (Resource Key) → Db → (Table Alert → Table Alert) → Prop) : Prop :=
  ∀ (v : View Db Key) (g : PUnit → Txn Bool) (Q : Except Failure Bool → View Db Key → Prop),
    (contract P).Good v → item.Runs v.held v.db → (∀ d : Db, (v.pending d).alerts = d.alerts) →
    (∀ (d : Db) id, ((v.pending d).switches.get? id).isSome = (d.switches.get? id).isSome) →
    (∀ e v', Q (.error e) v') →
    (∀ write v', (contract P).Later v v' → (contract P).Good v' →
      (∀ v'', (contract P).Since v' v'' → (contract P).Good v'' → A v''.held v''.db write) →
      (g ⟨⟩).Ensures (contract P).interference Q (v'.queue (·.mapAlerts write))) →
    (alert.bind g).Ensures (contract P).interference Q v

theorem resolveAlert_rule {item : ClaimedItem} {start : Instant} {key : DedupeKey}
    (hkey : key.guard = some (.pending item.switchId item.kind)) :
    AlertRule P item (resolveAlert start key) fun K d write => Resolves K d start key write := by
  intro v g Q hv hruns halerts _ _ h
  refine resolveAlert_bind hv halerts ⟨_, hkey, hruns.key⟩ fun write v' hl hv' hres => ?_
  refine h write v' hl hv' fun v'' hs _ => ?_
  exact hres.since ⟨_, hkey, hl.held hruns.key⟩ hs

theorem upsertAlert_rule {item : ClaimedItem} {start : Instant} {new : NewAlert}
    {touch : Alert → Alert} :
    AlertRule P item (upsertAlert start new touch) fun K d write =>
      .key (.alert new.key) ∈ K ∧ Upserts K d start new touch write := by
  intro v g Q hv _ halerts hswitches he h
  refine upsertAlert_bind hv halerts (fun d => hswitches d _) he fun write v' hl hv' hkey hup => ?_
  exact h write v' hl hv' fun v'' hs _ => ⟨hs.held hkey, hup.since hkey hv' hs⟩

/-- The statements of an executor behind `finish_item`: the status columns, the alert, the
commit. -/
private theorem settle_kept {op : Op} {item : ClaimedItem} {w : Db → Db} {f : Item → Item}
    {c : Switch → Switch} {alert : Txn PUnit} {b : Bool}
    {A : Set (Resource Key) → Db → (Table Alert → Table Alert) → Prop}
    (hv : (contract P).Good v) (hruns : item.Runs v.held v.db)
    (hpending : v.pending = fun d => (w d).modifyItem item.id f)
    (hw : ∀ d, (w d).alerts = d.alerts ∧ (w d).switches = d.switches)
    (halert : AlertRule P item alert A)
    (hcommit : ∀ write v', (contract P).Since v v' → (contract P).Good v' →
      item.Runs v'.held v'.db → A v'.held v'.db write →
      Commit P op () v'.held v'.db ((w v'.db).settle item f c write) (.won b)) :
    ((Tx.acquire (.switch item.switchId)).bind fun _ =>
        (Tx.update (·.modifySwitch item.switchId c)).bind fun _ =>
          alert.bind fun _ => (Tx.pure b : Txn Bool)).Ensures (contract P).interference
      ((contract P).Finishes op () .won) v := by
  refine hv.acquire fun v₁ h₁ hv₁ _ => hv₁.update fun v₂ h₂ hv₂ => ?_
  have hl := h₁.trans h₂
  have hruns₂ := hruns.since hv hl.since
  have hpending₂ : (v₂.queue (·.modifySwitch item.switchId c)).pending =
      fun d => ((w d).modifyItem item.id f).modifySwitch item.switchId c := by
    rw [View.queue_pending, hl.pending, hpending]
    rfl
  refine halert (v₂.queue _) _ _ hv₂ hruns₂ (fun d => ?_) (fun d id => ?_)
    (fun _ _ => trivial) fun write v₃ h₃ hv₃ hwrite => ?_
  · rw [hpending₂]
    exact (hw d).1
  · rw [hpending₂]
    simp only [Db.modifySwitch, Db.modifyItem, (hw d).2, Table.get?_modify]
    split <;> simp
  · refine Good.finish (v := v₃.queue _) hv₃ fun v₄ h₄ hv₄ => ended_of_commit hv₄ ?_
    have hsnap : v₄.snapshot = (w v₄.db).settle item f c write := by
      rw [View.snapshot, h₄.pending, View.queue_pending, h₃.pending, hpending₂]
      rfl
    rw [hsnap]
    have hs : (contract P).Since v₂ v₄ := Since.trans (w := v₃) h₃.since h₄.since
    exact hcommit write v₄ (hl.since.trans hs) hv₄ (hruns₂.since hv₂ hs)
      (hwrite v₄ h₄.since hv₄)

theorem recordReachability_kept {item : ClaimedItem} {p : Probe} (hv : (contract P).Good v)
    (hpending : v.pending = id) :
    (body P (.recordReachability item p) ()).Ensures (contract P).interference
      ((contract P).Ended (.recordReachability item p) ()) v := by
  refine wrap ?_
  simp only [recordReachability, Tx.bind_eq]
  refine claimedAt_bind hv hpending (fun _ _ => trivial) fun v₁ h₁ hv₁ hhanded => ?_
  have hpending₁ := h₁.pending.trans hpending
  refine Tx.Ensures.require_bind (fun hkind => ?_) (fun _ _ _ => trivial)
  have hkind : item.kind = .reachability := of_decide_eq_true hkind
  refine finishItem_bind hv₁ hhanded (fun d => by rw [hpending₁]; rfl)
    (fun v₂ h₂ hv₂ hruns => ?_) (fun v₂ h₂ hv₂ => ?_)
  · have hpending₂ : (v₂.queue (·.modifyItem item.id (Item.finished v₁.db.clock
        ⟨.succeeded, p.error, none, none⟩))).pending = fun d => d.modifyItem item.id
          (Item.finished v₁.db.clock ⟨.succeeded, p.error, none, none⟩) := by
      rw [View.queue_pending, h₂.pending, hpending₁]
      rfl
    simp only [if_true]
    cases he : p.error with
    | none =>
        rw [he] at hpending₂
        refine settle_kept (w := fun d => d) (v := v₂.queue _) hv₂ hruns hpending₂
          (fun _ => ⟨rfl, rfl⟩) (resolveAlert_rule (by rw [hkind]; rfl))
          fun write v' hs hv' hruns' hres => ?_
        have hcommit := Commit.checked (P := P) item p v₁.db.clock write hkind hruns'
          (fun _ => hres) (fun e h => by simp [he] at h)
        rwa [he] at hcommit
    | some e =>
        rw [he] at hpending₂
        refine settle_kept (w := fun d => d) (v := v₂.queue _) hv₂ hruns hpending₂
          (fun _ => ⟨rfl, rfl⟩) upsertAlert_rule fun write v' hs hv' hruns' hup => ?_
        have hcommit := Commit.checked (P := P) item p v₁.db.clock write hkind hruns'
          (fun h => by simp [he] at h) (fun e' h => by rw [he] at h; cases h; exact hup)
        rwa [he] at hcommit
  · simp only [Bool.false_eq_true, if_false]
    refine Good.finish hv₂ fun v₃ h₃ hv₃ => ended_of_commit hv₃ ?_
    rw [snapshot_eq (h₃.pending.trans (h₂.pending.trans hpending₁))]
    exact .lost item (.inr (.inr (.inl ⟨p, rfl⟩)))

theorem recordBackupFailure_kept {item : ClaimedItem} {m : String}
    (hv : (contract P).Good v) (hpending : v.pending = id) :
    (body P (.recordBackupFailure item m) ()).Ensures (contract P).interference
      ((contract P).Ended (.recordBackupFailure item m) ()) v := by
  refine wrap ?_
  simp only [recordBackupFailure, Tx.bind_eq]
  refine claimedAt_bind hv hpending (fun _ _ => trivial) fun v₁ h₁ hv₁ hhanded => ?_
  have hpending₁ := h₁.pending.trans hpending
  refine Tx.Ensures.require_bind (fun hkind => ?_) (fun _ _ _ => trivial)
  have hkind : item.kind = .configBackup := of_decide_eq_true hkind
  refine finishItem_bind hv₁ hhanded (fun d => by rw [hpending₁]; rfl)
    (fun v₂ h₂ hv₂ hruns => ?_) (fun v₂ h₂ hv₂ => ?_)
  · simp only [if_true]
    refine settle_kept (w := fun d => d) (v := v₂.queue _)
      (f := Item.finished v₁.db.clock ⟨.failed, some m, none, none⟩) hv₂ hruns ?_
      (fun _ => ⟨rfl, rfl⟩) upsertAlert_rule fun write v' hs hv' hruns' hup => ?_
    · rw [View.queue_pending, h₂.pending, hpending₁]
      rfl
    · exact .backupFailed item m v₁.db.clock write hkind hruns' hup.1 hup.2
  · simp only [Bool.false_eq_true, if_false]
    refine Good.finish hv₂ fun v₃ h₃ hv₃ => ended_of_commit hv₃ ?_
    rw [snapshot_eq (h₃.pending.trans (h₂.pending.trans hpending₁))]
    exact .lost item (.inr (.inr (.inr ⟨m, rfl⟩)))

/-- What an executor has read of the versions of its switch, its item being held to the end. -/
private theorem backups_since {item : ClaimedItem} {v' : View Db Key} (hv : (contract P).Good v)
    (hhanded : item ∈ v.db.handed) (hkind : item.kind = .configBackup)
    (hs : (contract P).Since v v') (hheld : v'.db.held item.id item.leaseToken = true) :
    v.db.held item.id item.leaseToken = true ∧
      v'.db.backupsOf item.switchId = v.db.backupsOf item.switchId :=
  held_before hs.rel hv.1 hhanded hkind hheld

theorem recordBackup_kept {item : ClaimedItem} {c : Capture}
    (hv : (contract P).Good v) (hpending : v.pending = id) :
    (body P (.recordBackup item c) ()).Ensures (contract P).interference
      ((contract P).Ended (.recordBackup item c) ()) v := by
  refine wrap ?_
  simp only [recordBackup, Tx.bind_eq]
  refine claimedAt_bind hv hpending (fun _ _ => trivial) fun v₁ h₁ hv₁ hhanded => ?_
  have hpending₁ := h₁.pending.trans hpending
  -- the item came out of a claim, which tells its kind
  refine Tx.Ensures.require_bind (fun hkind => ?_) (fun _ _ _ => trivial)
  have hkind : item.kind = .configBackup := of_decide_eq_true hkind
  refine hv₁.snapshot fun v₂ h₂ hv₂ => ?_
  have hpending₂ := h₂.pending.trans hpending₁
  have hhanded₂ := handed_stable h₂.rel hhanded
  rw [snapshot_eq hpending₂]
  -- whether the fingerprint is a new one is read before the item is looked at
  cases hchanged : decide ((v₂.db.latestBackup item.switchId).map (·.2.contentSha256) ≠
      some c.fingerprint) with
  | false =>
      simp only [insertChanged, Bool.false_eq_true, if_false, Tx.pure_eq, Tx.pure_bind]
      refine finishItem_bind hv₂ hhanded₂ (fun d => by rw [hpending₂]; rfl)
        (fun v₃ h₃ hv₃ hruns => ?_) (fun v₃ h₃ hv₃ => ?_)
      · refine Tx.Ensures.require_bind (fun _ => ?_) (fun _ _ _ => trivial)
        refine settle_kept (w := fun d => d) (v := v₃.queue _) (f := Item.finished v₁.db.clock
          ⟨.succeeded, some "Configuration unchanged", some false, none⟩) hv₃ hruns ?_
          (fun _ => ⟨rfl, rfl⟩) (resolveAlert_rule (by rw [hkind]; rfl))
          fun write v' hs hv' hruns' hres => ?_
        · rw [View.queue_pending, h₃.pending, hpending₂]
          rfl
        · exact .unchanged item c v₁.db.clock write _ hkind hruns' hres
      · exact Tx.Ensures.require_bind (fun h => by cases h) (fun _ _ _ => trivial)
  | true =>
      have hchanged := of_decide_eq_true hchanged
      simp only [insertChanged, insertBackup, if_true, Tx.bind_eq, Tx.bind_assoc, Tx.pure_eq,
        Tx.pure_bind]
      -- a new version: it is queued first, and dropped with the rest if the item is no longer held
      refine hv₂.nextSerial fun id v₃ h₃ hv₃ hserial _ hinv => hv₃.update fun v₄ h₄ hv₄ => ?_
      let b : Backup := ⟨item.switchId, v₁.db.clock, c.fingerprint, c.sizeBytes, c.lineCount, c.sealed⟩
      have hpending₄ : (v₄.queue (·.addBackup id b)).pending = fun d => d.addBackup id b := by
        rw [View.queue_pending, h₄.pending, h₃.pending, hpending₂]
        rfl
      refine finishItem_bind (v := v₄.queue (·.addBackup id b)) hv₄
        (handed_stable (h₃.trans h₄).rel hhanded₂) (fun d => by rw [hpending₄]; rfl)
        (fun v₅ h₅ hv₅ hruns => ?_) (fun v₅ h₅ hv₅ => ?_)
      · refine Tx.Ensures.require_bind (fun _ => ?_) (fun _ _ _ => trivial)
        refine settle_kept (w := fun d => d.addBackup id b) (v := v₅.queue _)
          (f := Item.finished v₁.db.clock
            ⟨.succeeded, some "New configuration version", some true, some id⟩) hv₅ hruns ?_
          (fun _ => ⟨rfl, rfl⟩) (resolveAlert_rule (by rw [hkind]; rfl))
          fun write v' hs hv' hruns' hres => ?_
        · rw [View.queue_pending, h₅.pending, hpending₄]
          rfl
        · have hs₃ : (contract P).Since v₃ v' := h₄.since.trans (Since.trans (w := v₅) h₅.since hs)
          have hs₂ : (contract P).Since v₂ v' := h₃.since.trans hs₃
          have hfresh₃ : v₃.db.Unused id := hinv.unused id le_rfl
          obtain ⟨hheld₃, hbackups₃⟩ := backups_since hv₃ (handed_stable h₃.rel hhanded₂) hkind
            hs₃ hruns'.held
          obtain ⟨-, hbackups₁⟩ := backups_since hv₁ hhanded hkind (h₂.since.trans hs₂)
            hruns'.held
          obtain ⟨-, hbackups₂⟩ := backups_since hv₂ hhanded₂ hkind hs₂ hruns'.held
          refine .backedUp item c v₁.db.clock write _ id hkind hruns' hres (hs₃.held hserial)
            (unused_stable hs₃.rel hv₃.1 hserial hfresh₃) ?_ ?_ fun x hx => ⟨?_, ?_⟩
          · exact (wall_stable (h₂.since.trans hs₂).rel).1
          · rw [Db.latestBackup, hbackups₂]
            exact hchanged
          · rw [hbackups₁] at hx
            exact hv₁.1.captured_le x.1 x.2 (Table.mem_rows.mp (List.mem_filter.mp hx).1)
          · rw [hbackups₃] at hx
            have hget := Table.mem_rows.mp (List.mem_filter.mp hx).1
            refine not_le.mp fun hle => ?_
            rw [(hinv.unused x.1 hle).backup] at hget
            cases hget
      · exact Tx.Ensures.require_bind nofun (fun _ _ _ => trivial)

/-! ## claim_device_items and sweep_device_items -/

theorem Item.sameEntry_eq_true {i j : Item} :
    i.sameEntry j = true ↔ i.switchId = j.switchId ∧ i.kind = j.kind := by
  simp [sameEntry]

/-- Rows behind the locks of their entries, in the pending status `p`. -/
def Locked (v : View Db Key) (p : ItemStatus) (rows : List (Id × Item)) : Prop :=
  ∀ r ∈ rows, .key (.pending r.2.switchId r.2.kind) ∈ v.held ∧
    v.db.items.get? r.1 = some r.2 ∧ r.2.status = p

theorem Locked.since {v' : View Db Key} {p : ItemStatus} {rows : List (Id × Item)}
    (h : Locked v p rows) (hp : p = .queued ∨ p = .running) (hv : (contract P).Good v)
    (hs : (contract P).Since v v') : Locked v' p rows := by
  intro r hr
  obtain ⟨hkey, hi, hstatus⟩ := h r hr
  have hpending : r.2.pending = true := Item.pending_eq_true.mpr (by rwa [hstatus])
  exact ⟨hs.held hkey, item_stable hs.rel hv.1 hkey hi hpending, hstatus⟩

theorem pickQueued_bind {rows : List (ℕ × Item)} {n : ℕ} {g : List (Id × Item) → Txn β}
    (hv : (contract P).Good v) (hpending : v.pending = id)
    (h : ∀ picked v', (contract P).Later v v' → (contract P).Good v' →
      (picked.map Prod.fst).Sublist (rows.map Prod.fst) → Locked v' .queued picked →
      (g picked).Ensures (contract P).interference Q v') :
    ((pickQueued rows n).bind g).Ensures (contract P).interference Q v := by
  induction rows generalizing v n g with
  | nil => cases n <;> exact h [] v (.refl v) hv (List.Sublist.refl _) (by simp [Locked])
  | cons row rows ih =>
      obtain ⟨id, i⟩ := row
      cases n with
      | zero => exact h [] v (.refl v) hv (List.nil_sublist _) (by simp [Locked])
      | succ n =>
          simp only [pickQueued, Tx.bind_eq, Tx.bind_assoc, Tx.pure_eq]
          refine hv.tryAcquire (fun v₁ h₁ hv₁ hkey => hv₁.snapshot fun v₂ h₂ hv₂ => ?_)
            (fun v₁ h₁ hv₁ => hv₁.snapshot fun v₂ h₂ hv₂ => ?_)
          · -- the entry is locked: the item is picked if it is still queued
            have hl := h₁.trans h₂
            have hpending₂ := hl.pending.trans hpending
            rw [snapshot_eq hpending₂]
            cases hfound : (v₂.db.items.get? id).filter fun j =>
                true && j.sameEntry i && j.status = .queued with
            | none =>
                refine ih hv₂ hpending₂ fun picked v' h' hv' hsub hlocked => ?_
                exact h picked v' (hl.trans h') hv' (hsub.cons _) hlocked
            | some j =>
                obtain ⟨hj, hp⟩ := Option.filter_eq_some_iff.mp hfound
                simp only [Bool.true_and, Bool.and_eq_true, decide_eq_true_eq,
                  Item.sameEntry_eq_true] at hp
                obtain ⟨⟨hswitch, hkind⟩, hqueued⟩ := hp
                have hkey₂ : .key (.pending j.switchId j.kind) ∈ v₂.held := by
                  rw [hswitch, hkind]
                  exact h₂.held hkey
                simp only [Tx.bind_assoc, Tx.pure_bind]
                refine ih hv₂ hpending₂ fun picked v' h' hv' hsub hlocked => ?_
                refine h _ v' (hl.trans h') hv' (hsub.cons_cons _) fun r hr => ?_
                rcases List.mem_cons.mp hr with rfl | hr
                · exact ⟨h'.held hkey₂, item_stable h'.rel hv₂.1 hkey₂ hj
                    (by simp [Item.pending, hqueued]), hqueued⟩
                · exact hlocked r hr
          · -- somebody else has it: the item is passed over
            have hnone : (v₂.snapshot.items.get? id).filter
                (fun j => false && j.sameEntry i && j.status = .queued) = none := by
              cases v₂.snapshot.items.get? id <;> rfl
            rw [hnone]
            have hl := h₁.trans h₂
            refine ih hv₂ (hl.pending.trans hpending) fun picked v' h' hv' hsub hlocked => ?_
            exact h picked v' (hl.trans h') hv' (hsub.cons _) hlocked

/-- The writes of a claim. -/
def startAll (start : Instant) (claims : List ClaimedItem) (d : Db) : Db :=
  { d with
    items := d.items.modifyAll ClaimedItem.id (fun c => Item.started start c.leaseToken) claims }

theorem startItems_bind {rows : List (Id × Item)} {start : Instant} (before : List ClaimedItem)
    {g : List ClaimedItem → Txn β} (hv : (contract P).Good v)
    (hpending : v.pending = startAll start before)
    (h : ∀ claims v', (contract P).Since v v' → (contract P).Good v' →
      v'.pending = startAll start (before ++ claims) →
      claims.map (fun c => (c.id, c.switchId, c.kind)) =
        rows.map (fun r => (r.1, r.2.switchId, r.2.kind)) →
      (g claims).Ensures (contract P).interference Q v') :
    ((startItems start rows).bind g).Ensures (contract P).interference Q v := by
  induction rows generalizing v before g with
  | nil =>
      exact h [] v (Later.refl v).since hv (by rw [hpending, List.append_nil]) rfl
  | cons row rows ih =>
      obtain ⟨id, i⟩ := row
      simp only [startItems, Tx.bind_eq, Tx.bind_assoc, Tx.pure_eq, Tx.pure_bind]
      refine hv.nextSerial fun token v₁ h₁ hv₁ _ _ _ => hv₁.update fun v₂ h₂ hv₂ => ?_
      let c : ClaimedItem := ⟨id, token, i.kind, i.switchId⟩
      have hpending₂ : (v₂.queue (·.modifyItem id (Item.started start token))).pending =
          startAll start (before ++ [c]) := by
        rw [View.queue_pending, h₂.pending, h₁.pending, hpending]
        funext d
        simp only [Function.comp_apply, startAll, Db.modifyItem, Table.modifyAll_concat, c]
      refine ih (v := v₂.queue _) (before ++ [c]) hv₂ hpending₂ fun claims v' hs hv' hp hclaims => ?_
      refine h (c :: claims) v' ((h₁.trans h₂).since.trans hs) hv' ?_ ?_
      · rw [hp, List.append_assoc]
        rfl
      · rw [List.map_cons, List.map_cons, hclaims]

theorem claimDeviceItems_kept {limit : ℕ} (hv : (contract P).Good v) (hpending : v.pending = id) :
    (body P (.claimDeviceItems limit) ()).Ensures (contract P).interference
      ((contract P).Ended (.claimDeviceItems limit) ()) v := by
  refine wrap ?_
  simp only [claimDeviceItems, now, Tx.bind_eq, Tx.bind_assoc, Tx.pure_eq, Tx.pure_bind]
  refine hv.snapshot fun v₁ h₁ hv₁ => hv₁.snapshot fun v₂ h₂ hv₂ => ?_
  have hpending₂ := h₂.pending.trans (h₁.pending.trans hpending)
  refine pickQueued_bind hv₂ hpending₂ fun picked v₃ h₃ hv₃ hsub hlocked => ?_
  refine startItems_bind [] hv₃ (h₃.pending.trans hpending₂)
    fun claims v₄ hs₄ hv₄ hpending₄ hclaims => ?_
  refine hv₄.update fun v₅ h₅ hv₅ => ?_
  refine Good.finish (v := v₅.queue _) hv₅ fun v₆ h₆ hv₆ => ended_of_commit hv₆ ?_
  have hsnap : v₆.snapshot = (startAll v₁.snapshot.clock claims v₆.db).hand claims := by
    rw [View.snapshot, h₆.pending, View.queue_pending, h₅.pending, hpending₄]
    rfl
  have hlocked₆ := hlocked.since (.inl rfl) hv₃
    (hs₄.trans (h₅.since.trans (Since.trans (w := v₅) (Later.refl v₅).since h₆.since)))
  have hids : claims.map ClaimedItem.id = picked.map Prod.fst := by
    have := congrArg (List.map Prod.fst) hclaims
    simpa only [List.map_map, Function.comp_def] using this
  rw [hsnap]
  refine .claimed limit claims v₁.snapshot.clock ?_ fun c hc => ?_
  · rw [hids]
    refine hsub.nodup ?_
    exact (List.Perm.map _ (List.perm_insertionSort _ _)).nodup_iff.mpr
      (v₂.snapshot.items.nodup.sublist (List.filter_sublist.map _))
  · have hm : (c.id, c.switchId, c.kind) ∈ picked.map (fun r => (r.1, r.2.switchId, r.2.kind)) := by
      rw [← hclaims]
      exact List.mem_map_of_mem hc
    obtain ⟨r, hr, heq⟩ := List.mem_map.mp hm
    simp only [Prod.mk.injEq] at heq
    obtain ⟨hid, hswitch, hkind⟩ := heq
    obtain ⟨hkey, hi, hqueued⟩ := hlocked₆ r hr
    rw [hid] at hi
    refine ⟨?_, r.2, hi, hqueued, hswitch, hkind⟩
    rw [← hswitch, ← hkind]
    exact hkey

/-- The writes of a sweep. -/
def sweepAll (start : Instant) (rows : List (Id × Item)) (d : Db) : Db :=
  { d with items := d.items.modifyAll Prod.fst (fun _ => Item.swept start) rows }

theorem sweepItems_bind {rows : List (ℕ × Item)} {start : Instant} (before : List (Id × Item))
    {g : ℕ → Txn β} (hv : (contract P).Good v) (hpending : v.pending = sweepAll start before)
    (hlocked : Locked v .running before)
    (hnodup : (before.map Prod.fst ++ rows.map Prod.fst).Nodup)
    (h : ∀ n swept v', (contract P).Since v v' → (contract P).Good v' →
      v'.pending = sweepAll start swept → Locked v' .running swept →
      (swept.map Prod.fst).Nodup → (g n).Ensures (contract P).interference Q v') :
    ((sweepItems start rows).bind g).Ensures (contract P).interference Q v := by
  induction rows generalizing v before g with
  | nil =>
      refine h 0 before v (Later.refl v).since hv hpending hlocked ?_
      simpa using hnodup
  | cons row rows ih =>
      obtain ⟨id, i⟩ := row
      simp only [List.map_cons] at hnodup
      obtain ⟨hbefore, hrest, hdisjoint⟩ := List.nodup_append.mp hnodup
      have hskip : (before.map Prod.fst ++ rows.map Prod.fst).Nodup :=
        hnodup.sublist (List.Sublist.append_left (List.sublist_cons_self _ _) _)
      have hid : id ∉ before.map Prod.fst := fun hm => hdisjoint id hm id (.head _) rfl
      simp only [sweepItems, Tx.bind_eq, Tx.bind_assoc]
      refine hv.acquireIf (fun v₁ h₁ hv₁ hkey hc => ?_) (fun v₁ h₁ hv₁ _ => ?_)
      · simp only [if_true, Tx.bind_assoc, Tx.pure_eq, Tx.pure_bind]
        -- the row is not one of those swept already
        have hread : v₁.snapshot.items.get? id = v₁.db.items.get? id := by
          rw [View.snapshot, h₁.pending, hpending]
          exact Table.get?_modifyAll_of_notMem _ hid
        rw [hread, Option.any_eq_true] at hc
        obtain ⟨j, hj, hc⟩ := hc
        simp only [Bool.and_eq_true, Item.sameEntry_eq_true, Item.expired,
          decide_eq_true_eq] at hc
        obtain ⟨⟨hswitch, hkind⟩, hrunning, -⟩ := hc
        have hkey₁ : .key (.pending j.switchId j.kind) ∈ v₁.held := by
          rw [hswitch, hkind]
          exact hkey
        have hlocked₁ : Locked v₁ .running (before ++ [(id, j)]) := by
          intro r hr
          rcases List.mem_append.mp hr with hr | hr
          · exact hlocked.since (.inr rfl) hv h₁.since r hr
          · rw [List.mem_singleton.mp hr]
            exact ⟨hkey₁, hj, hrunning⟩
        refine hv₁.update fun v₂ h₂ hv₂ => ?_
        have hpending₂ : (v₂.queue (·.modifyItem id (Item.swept start))).pending =
            sweepAll start (before ++ [(id, j)]) := by
          rw [View.queue_pending, h₂.pending, h₁.pending, hpending]
          funext d
          simp only [Function.comp_apply, sweepAll, Db.modifyItem, Table.modifyAll_concat]
        refine ih (v := v₂.queue _) (before ++ [(id, j)]) hv₂ hpending₂
          (hlocked₁.since (.inr rfl) hv₁ h₂.since) ?_
          fun n swept v' hs hv' hp hl hn => ?_
        · simpa [List.append_assoc] using hnodup
        · exact h _ swept v' ((h₁.trans h₂).since.trans hs) hv' hp hl hn
      · simp only [Bool.false_eq_true, if_false]
        refine ih before hv₁ (h₁.pending.trans hpending) (hlocked.since (.inr rfl) hv h₁.since) hskip
          fun n swept v' hs hv' hp hl hn => ?_
        exact h _ swept v' (h₁.since.trans hs) hv' hp hl hn

theorem sweepDeviceItems_kept (hv : (contract P).Good v) (hpending : v.pending = id) :
    (body P .sweepDeviceItems ()).Ensures (contract P).interference
      ((contract P).Ended .sweepDeviceItems ()) v := by
  refine wrap ?_
  simp only [sweepDeviceItems, now, Tx.bind_eq, Tx.bind_assoc, Tx.pure_eq, Tx.pure_bind]
  refine hv.snapshot fun v₁ h₁ hv₁ => hv₁.snapshot fun v₂ h₂ hv₂ => ?_
  have hpending₂ := h₂.pending.trans (h₁.pending.trans hpending)
  rw [← Tx.bind_pure (sweepItems ..)]
  refine sweepItems_bind [] hv₂ hpending₂ (by simp [Locked]) ?_
    fun n swept v₃ hs₃ hv₃ hpending₃ hlocked hnodup => ?_
  · simp only [List.map_nil, List.nil_append]
    exact v₂.snapshot.items.nodup.sublist (List.filter_sublist.map _)
  · refine Good.finish hv₃ fun v₄ h₄ hv₄ => ended_of_commit hv₄ ?_
    have hsnap : v₄.snapshot = sweepAll v₁.snapshot.clock swept v₄.db := by
      rw [View.snapshot, h₄.pending, hpending₃]
    rw [hsnap]
    exact .swept swept v₁.snapshot.clock n hnodup (hlocked.since (.inr rfl) hv₃ h₄.since)

/-! ## Alerts -/

theorem acknowledge_kept {actor : Principal} {alertId : Id} (hv : (contract P).Good v)
    (hpending : v.pending = id) :
    (body P (.acknowledge actor alertId) ()).Ensures (contract P).interference
      ((contract P).Ended (.acknowledge actor alertId) ()) v := by
  refine wrap (f := fun _ : PUnit => Reply.done) ?_
  simp only [acknowledge, authorize, now, Tx.bind_eq, Tx.bind_assoc, Tx.pure_eq, Tx.pure_bind]
  refine Tx.Ensures.require_bind (fun _ => ?_) (fun _ _ _ => trivial)
  refine Tx.Ensures.require_bind (fun _ => ?_) (fun _ _ _ => trivial)
  refine hv.snapshot fun v₁ h₁ hv₁ => hv₁.snapshot fun v₂ h₂ hv₂ => ?_
  have hpending₂ := h₂.pending.trans (h₁.pending.trans hpending)
  refine Tx.Ensures.expect_bind (fun alert _ => ?_) (fun _ _ _ => trivial)
  refine hv₂.acquireIf (fun v₃ h₃ hv₃ hkey hc => ?_) (fun v₃ h₃ hv₃ _ => ?_)
  · refine Tx.Ensures.require_bind (fun _ => ?_) (fun _ _ _ => trivial)
    rw [snapshot_eq (h₃.pending.trans hpending₂), Option.any_eq_true] at hc
    obtain ⟨a, ha, hc⟩ := hc
    simp only [Bool.and_eq_true, decide_eq_true_eq] at hc
    obtain ⟨hsame, hopen⟩ := hc
    refine hv₃.update fun v₄ h₄ hv₄ => ?_
    rw [← Tx.bind_pure (Tx.update _)]
    refine Good.update (v := v₄.queue _) hv₄ fun v₅ h₅ hv₅ => ?_
    refine Good.finish (v := v₅.queue _) hv₅ fun v₆ h₆ hv₆ => ended_of_commit hv₆ ?_
    have hs : (contract P).Since v₃ v₆ :=
      h₄.since.trans (Since.trans (w := v₅) h₅.since h₆.since)
    have hkey₃ : .key (.alert a.dedupeKey) ∈ v₃.held := hsame ▸ hkey
    have ha₆ := alert_stable hs.rel hkey₃ ha (by simp [Alert.active, hopen])
    have hsnap : v₆.snapshot = (v₆.db.modifyAlert alertId
        (Alert.acknowledge v₁.snapshot.clock actor.email)).addEvent ⟨actor.userId, actor.email,
          "alert.acknowledge", alert.switchId, "alert " ++ toString alertId, []⟩ := by
      rw [View.snapshot, h₆.pending, View.queue_pending, h₅.pending, View.queue_pending,
        h₄.pending, h₃.pending, hpending₂]
      rfl
    rw [hsnap]
    exact .acknowledged actor alertId a v₁.snapshot.clock _ (hs.held hkey₃) ha₆ hopen
  · exact Tx.Ensures.require_bind (fun h => by cases h) (fun _ _ _ => trivial)

/-- An operation that reads a snapshot and queues one write. -/
private theorem readWrite_kept {op : Op} {w : Db → Db → Db} {α : Type} {r : Db → α}
    {f : α → Reply} (hv : (contract P).Good v) (hpending : v.pending = id)
    (hcommit : ∀ s K d, Commit P op () K d (w s d) (f (r s))) :
    (Tx.snapshot.bind fun s => (Tx.update (w s)).bind fun _ => (Tx.pure (r s) : Txn α)).Ensures
      (contract P).interference ((contract P).Finishes op () f) v := by
  refine hv.snapshot fun v₁ h₁ hv₁ => hv₁.update fun v₂ h₂ hv₂ => ?_
  refine Good.finish (v := v₂.queue _) hv₂ fun v₃ h₃ hv₃ => ended_of_commit hv₃ ?_
  have hsnap : v₃.snapshot = w v₁.snapshot v₃.db := by
    rw [View.snapshot, h₃.pending, View.queue_pending, h₂.pending, h₁.pending, hpending]
    rfl
  rw [hsnap]
  exact hcommit _ _ _

theorem pruneTasks_kept (hv : (contract P).Good v) (hpending : v.pending = id) :
    (body P .pruneTasks ()).Ensures (contract P).interference
      ((contract P).Ended .pruneTasks ()) v :=
  wrap (readWrite_kept hv hpending fun s _ _ => .tasksPruned (s.oldTasks s.clock) _)

theorem pruneAlerts_kept (hv : (contract P).Good v) (hpending : v.pending = id) :
    (body P .pruneAlerts ()).Ensures (contract P).interference
      ((contract P).Ended .pruneAlerts ()) v :=
  wrap (readWrite_kept hv hpending fun s _ _ => .alertsPruned (s.oldAlerts s.clock) _)

theorem raiseCompliance_kept {s rule : Id} {m : String} (hv : (contract P).Good v)
    (hpending : v.pending = id) :
    (body P (.raiseCompliance s rule m) ()).Ensures (contract P).interference
      ((contract P).Ended (.raiseCompliance s rule m) ()) v := by
  refine wrap (f := fun _ : PUnit => Reply.done) ?_
  simp only [raiseCompliance, now, Tx.bind_eq, Tx.bind_assoc, Tx.pure_eq, Tx.pure_bind]
  refine hv.snapshot fun v₁ h₁ hv₁ => ?_
  have hpending₁ := h₁.pending.trans hpending
  rw [← Tx.bind_pure (upsertAlert ..)]
  refine upsertAlert_bind hv₁ (fun d => by rw [hpending₁]; rfl) (fun d => by rw [hpending₁]; rfl)
    (fun _ _ => trivial) fun write v₂ h₂ hv₂ hkey hup => ?_
  refine Good.finish (v := v₂.queue _) hv₂ fun v₃ h₃ hv₃ => ended_of_commit hv₃ ?_
  have hsnap : v₃.snapshot = v₃.db.mapAlerts write := by
    rw [View.snapshot, h₃.pending, View.queue_pending, h₂.pending, hpending₁]
    rfl
  rw [hsnap]
  exact .complianceRaised s rule m v₁.snapshot.clock write (h₃.held hkey)
    (hup.since hkey hv₂ h₃.since)

theorem resolveCompliance_kept {s rule : Id} (hv : (contract P).Good v)
    (hpending : v.pending = id) :
    (body P (.resolveCompliance s rule) ()).Ensures (contract P).interference
      ((contract P).Ended (.resolveCompliance s rule) ()) v := by
  refine wrap (f := fun _ : PUnit => Reply.done) ?_
  simp only [resolveCompliance, resolveAlert, now, Tx.bind_eq, Tx.bind_assoc, Tx.pure_eq,
    Tx.pure_bind]
  refine hv.snapshot fun v₁ h₁ hv₁ => hv₁.snapshot fun v₂ h₂ hv₂ => ?_
  have hpending₂ := h₂.pending.trans (h₁.pending.trans hpending)
  have hkept : ∀ {v'}, (contract P).Later v₂ v' → (contract P).Good v' →
      (Tx.pure ⟨⟩ : Txn PUnit).Ensures (contract P).interference
        ((contract P).Finishes (.resolveCompliance s rule) () fun _ => .done) v' := by
    intro v' hl hv'
    refine Good.finish hv' fun v'' h'' hv'' => ended_of_commit hv'' ?_
    rw [snapshot_eq (h''.pending.trans (hl.pending.trans hpending₂))]
    exact .complianceKept s rule
  cases v₂.snapshot.activeAlert (.compliance s rule) with
  | none => exact hkept (.refl v₂) hv₂
  | some found =>
      obtain ⟨id, a⟩ := found
      refine hv₂.acquireIf (fun v₃ h₃ hv₃ hkey hc => ?_) (fun v₃ h₃ hv₃ _ => hkept h₃ hv₃)
      rw [snapshot_eq (h₃.pending.trans hpending₂), Option.any_eq_true] at hc
      obtain ⟨a', ha', hc⟩ := hc
      simp only [Bool.and_eq_true, decide_eq_true_eq] at hc
      simp only [if_true]
      rw [← Tx.bind_pure (Tx.update _)]
      refine hv₃.update fun v₄ h₄ hv₄ => ?_
      refine Good.finish (v := v₄.queue _) hv₄ fun v₅ h₅ hv₅ => ended_of_commit hv₅ ?_
      have hs : (contract P).Since v₃ v₅ := Since.trans (w := v₄) h₄.since h₅.since
      have hid : id ∈ activeIn v₅.db.alerts (.compliance s rule) := by
        rw [active_stable hs.rel (.inl hkey)]
        exact ⟨a', ha', hc.1, hc.2⟩
      have hsnap : v₅.snapshot = v₅.db.modifyAlert id (Alert.resolve v₁.snapshot.clock) := by
        rw [View.snapshot, h₅.pending, View.queue_pending, h₄.pending, h₃.pending, hpending₂]
        rfl
      rw [hsnap]
      exact .complianceResolved s rule v₁.snapshot.clock id hid (hs.held hkey)

end BindPlane.Devices
