import BindPlane.Devices.EditsKept

/-!
# Alerts follow the status columns

`Db.AlertsMatch`: a switch is unreachable exactly where its `device_unreachable` alert is
unresolved, its last backup failed exactly where its `backup_failed` alert is, and no key has
two unresolved alerts.

An upsert leaves its key with one unresolved alert (`Upserts.opens`), a resolution leaves it
with none (`Resolves.closes`), and neither concerns another key.  Each executor makes that
write in the transaction that sets the column, so that every commit keeps the match.

**Why a key and not a row.**  Between the column and the alert stands the text of the key, which
both name.  An acknowledged alert is still unresolved and counts; a resolved one is history, and
there may be any number of them under one key.
-/

namespace BindPlane.Devices

open ReadCommitted

variable {P : Platform} {op : Op} {u : Unit} {K : Set (Resource Key)} {d d' : Db} {r : Reply}
  {alerts : Table Alert} {key : DedupeKey}

/-! ## Unresolved alerts under a write -/

/-- A write that leaves key and status class of an alert alone. -/
theorem activeIn_modify {id : Id} {f : Alert → Alert}
    (hf : ∀ a, (f a).dedupeKey = a.dedupeKey ∧ (f a).active = a.active) :
    activeIn (alerts.modify id f) key = activeIn alerts key := by
  ext i
  simp only [activeIn, Set.mem_ofPred_eq, Table.get?_modify]
  by_cases hid : i = id
  · simp [hid, (hf _).1, (hf _).2]
  · simp [hid]

theorem activeIn_resolve {id : Id} {start : Instant} :
    activeIn (alerts.modify id (Alert.resolve start)) key = activeIn alerts key \ {id} := by
  ext i
  simp only [activeIn, Set.mem_ofPred_eq, Table.get?_modify, Set.mem_sdiff, Set.mem_singleton_iff]
  by_cases hid : i = id
  · simp [hid, Alert.resolve, Alert.active]
  · simp [hid]

theorem activeIn_insert {id : Id} {a : Alert} (hactive : a.active = true) :
    activeIn (alerts.insert id a) a.dedupeKey = insert id (activeIn alerts a.dedupeKey) := by
  ext i
  simp only [activeIn, Set.mem_ofPred_eq, Table.get?_insert, Set.mem_insert_iff]
  by_cases hid : i = id
  · simp [hid, hactive]
  · simp [hid]

theorem activeIn_insert_of_ne {id : Id} {a : Alert} (hfresh : alerts.get? id = none)
    (hkey : a.dedupeKey ≠ key) : activeIn (alerts.insert id a) key = activeIn alerts key := by
  ext i
  simp only [activeIn, Set.mem_ofPred_eq, Table.get?_insert]
  by_cases hid : i = id
  · simp [hid, hfresh, hkey]
  · simp [hid]

/-- An upsert opens its key, and leaves every other key as it is. -/
theorem Upserts.opens {start : Instant} {new : NewAlert} {touch : Alert → Alert}
    {write : Table Alert → Table Alert} (h : Upserts K d start new touch write)
    (htouch : ∀ a, (touch a).dedupeKey = a.dedupeKey ∧ (touch a).active = a.active)
    (hone : (activeIn d.alerts new.key).Subsingleton) :
    (∃ id, activeIn (write d.alerts) new.key = {id}) ∧
      ∀ key, key ≠ new.key → activeIn (write d.alerts) key = activeIn d.alerts key := by
  cases h with
  | touched id hid =>
      refine ⟨⟨id, ?_⟩, fun key _ => activeIn_modify htouch⟩
      rw [activeIn_modify htouch]
      exact hone.eq_singleton_of_mem hid
  | opened id hnone hserial hfresh hswitch =>
      have hrow : (new.row start).dedupeKey = new.key := rfl
      refine ⟨⟨id, ?_⟩, fun key hkey => activeIn_insert_of_ne hfresh.alert (Ne.symm hkey)⟩
      rw [← hrow, activeIn_insert rfl, hrow, hnone, insert_empty_eq]

/-- A resolution closes its key, and leaves every other key as it is. -/
theorem Resolves.closes {start : Instant} {write : Table Alert → Table Alert}
    (h : Resolves K d start key write) (hone : (activeIn d.alerts key).Subsingleton) :
    activeIn (write d.alerts) key = ∅ ∧
      ∀ key', key' ≠ key → activeIn (write d.alerts) key' = activeIn d.alerts key' := by
  cases h with
  | resolved id hid hkey =>
      refine ⟨?_, fun key' hne => ?_⟩
      · rw [activeIn_resolve, hone.eq_singleton_of_mem hid, Set.sdiff_self]
      · rw [activeIn_resolve]
        refine Set.sdiff_singleton_eq_self fun hmem => hne ?_
        obtain ⟨a, ha, hakey, -⟩ := hid
        obtain ⟨a', ha', hakey', -⟩ := hmem
        rw [ha] at ha'
        cases ha'
        exact hakey'.symm.trans hakey
  | nothing hnone => exact ⟨hnone, fun _ _ => rfl⟩

/-! ## The match -/

/-- The status columns of the switch `s` agree with its alerts. -/
structure Switch.Matches (sw : Switch) (alerts : Table Alert) (s : Id) : Prop where
  reachable : sw.reachable = some false ↔ (activeIn alerts (.deviceUnreachable s)).Nonempty
  config : sw.configError ≠ none ↔ (activeIn alerts (.backupFailed s)).Nonempty

/-- **Status columns and alerts match**, and no key has two unresolved alerts.

Nothing in the schema ties the columns of a switch to the table of alerts: they are written by two
statements.  They match since the two statements are in one transaction, and the executors of one
switch are kept apart by the pending index. -/
structure Db.AlertsMatch (d : Db) : Prop where
  one : ∀ key, (activeIn d.alerts key).Subsingleton
  status : ∀ s sw, d.switches.get? s = some sw → sw.Matches d.alerts s

theorem Switch.Matches.congr {sw sw' : Switch} {alerts' : Table Alert} {s : Id}
    (h : sw.Matches alerts s) (hreachable : sw'.reachable = sw.reachable)
    (hconfig : sw'.configError = sw.configError)
    (hactive : ∀ key : DedupeKey, key.switchId = s → activeIn alerts' key = activeIn alerts key) :
    sw'.Matches alerts' s where
  reachable := by rw [hreachable, hactive _ rfl, h.reachable]
  config := by rw [hconfig, hactive _ rfl, h.config]

namespace Db.AlertsMatch

theorem empty : Db.empty.AlertsMatch where
  one key := by
    rintro i ⟨a, ha, -⟩
    simp [Db.empty] at ha
  status s sw hsw := by simp [Db.empty] at hsw

/-- A commit that neither resolves nor opens an alert, nor touches a status column. -/
theorem frame (h : d.AlertsMatch)
    (hactive : ∀ key, activeIn d'.alerts key = activeIn d.alerts key)
    (hswitch : ∀ s sw', d'.switches.get? s = some sw' → ∃ sw, d.switches.get? s = some sw ∧
      sw'.reachable = sw.reachable ∧ sw'.configError = sw.configError) : d'.AlertsMatch where
  one key := by
    rw [hactive]
    exact h.one key
  status s sw' hsw' := by
    obtain ⟨sw, hsw, hreachable, hconfig⟩ := hswitch s sw' hsw'
    exact (h.status s sw hsw).congr hreachable hconfig fun key _ => hactive key

/-- A commit that opens or closes keys other than those of the status columns. -/
theorem frame_alerts (h : d.AlertsMatch) {s rule : Id}
    (hone : (activeIn d'.alerts (.compliance s rule)).Subsingleton)
    (hothers : ∀ key, key ≠ .compliance s rule → activeIn d'.alerts key = activeIn d.alerts key)
    (hswitches : d'.switches = d.switches) : d'.AlertsMatch where
  one key := by
    by_cases hkey : key = .compliance s rule
    · exact hkey ▸ hone
    · rw [hothers key hkey]
      exact h.one key
  status i sw hsw := by
    have hm := h.status i sw (hswitches ▸ hsw)
    constructor
    · rw [hothers _ (by simp)]
      exact hm.reachable
    · rw [hothers _ (by simp)]
      exact hm.config

/-- An executor writes one key of its switch, and the status columns with it. -/
theorem settle (h : d.AlertsMatch) {item : ClaimedItem} {f : Item → Item} {g : Switch → Switch}
    {write : Table Alert → Table Alert} {k : DedupeKey} (hkey : k.switchId = item.switchId)
    (hone : (activeIn (write d.alerts) k).Subsingleton)
    (hothers : ∀ k', k' ≠ k → activeIn (write d.alerts) k' = activeIn d.alerts k')
    (hself : ∀ sw, sw.Matches d.alerts item.switchId →
      (g sw).Matches (write d.alerts) item.switchId) :
    (d.settle item f g write).AlertsMatch where
  one k' := by
    by_cases hk : k' = k
    · exact hk ▸ hone
    · exact (hothers k' hk).symm ▸ h.one k'
  status s sw' hsw' := by
    have hget : (d.settle item f g write).switches.get? s =
        if s = item.switchId then (d.switches.get? s).map g else d.switches.get? s :=
      Table.get?_modify ..
    rw [hget] at hsw'
    split at hsw'
    · next hs =>
        subst hs
        obtain ⟨sw, hsw, rfl⟩ := Option.map_eq_some_iff.mp hsw'
        exact hself sw (h.status _ sw hsw)
    · next hs =>
        refine (h.status s sw' hsw').congr rfl rfl fun k' hk => hothers k' ?_
        rintro rfl
        exact hs (hk.symm.trans hkey)

end Db.AlertsMatch

/-- A successful backup clears the error with the alert. -/
private theorem backup_settles (h : d.AlertsMatch) {item : ClaimedItem} {f : Item → Item}
    {start : Instant} {write : Table Alert → Table Alert} (hsame : d'.alerts = d.alerts)
    (hres : Resolves K d' start (.backupFailed item.switchId) write) :
    (d.settle item f (Switch.backedUp start none) write).AlertsMatch := by
  obtain ⟨hnone, hothers⟩ := hres.closes (hsame ▸ h.one _)
  rw [hsame] at hnone hothers
  refine h.settle rfl (by simp [hnone]) hothers fun sw hm => ⟨?_, ?_⟩
  · rw [hothers _ (by simp)]
    exact hm.reachable
  · simp [Switch.backedUp, hnone]

/-- **Every commit keeps the match.**

Most commits write neither a status column of a switch nor an alert.  The others write the two
together, under the entry of the pending index, and the alert under its key; so the switch in
question matches afterwards, and no other switch is touched. -/
theorem Commit.alertsMatch (h : Commit P op u K d d' r) (hd : d.AlertsMatch) :
    d'.AlertsMatch := by
  have hseen : ∀ (start : Instant) (new : NewAlert) (a : Alert),
      (a.seen start new).dedupeKey = a.dedupeKey ∧ (a.seen start new).active = a.active :=
    fun _ _ _ => ⟨rfl, rfl⟩
  have hsame : ∀ s sw', d.switches.get? s = some sw' → ∃ sw, d.switches.get? s = some sw ∧
      sw'.reachable = sw.reachable ∧ sw'.configError = sw.configError :=
    fun s sw' hsw' => ⟨sw', hsw', rfl, rfl⟩
  cases h with
  | switchMade actor input id e hkey hfresh =>
      refine ⟨hd.one, fun s sw hsw => ?_⟩
      have hget : (d.switches.insert id input.row).get? s = some sw := hsw
      rw [Table.get?_insert] at hget
      split at hget
      · next hs =>
          -- a new number has no alert yet
          subst hs
          cases hget
          have hno : ∀ key : DedupeKey, key.switchId = s → activeIn d.alerts key = ∅ := by
            intro key hks
            refine Set.eq_empty_iff_forall_notMem.mpr ?_
            rintro i ⟨a, ha, hakey, -⟩
            exact hfresh.alerted i a ha (by rw [hakey, hks])
          constructor
          · simp [SwitchInput.row, Db.addEvent, hno (.deviceUnreachable s) rfl]
          · simp [SwitchInput.row, Db.addEvent, hno (.backupFailed s) rfl]
      · exact hd.status s sw hget
  | switchEdited actor uid edit id e n =>
      refine hd.frame (fun _ => rfl) fun s sw' hsw' => ?_
      have hget : (d.switches.modify id (Switch.edited edit)).get? s = some sw' := hsw'
      rw [Table.get?_modify] at hget
      split at hget
      · obtain ⟨sw, hsw, rfl⟩ := Option.map_eq_some_iff.mp hget
        exact ⟨sw, hsw, rfl, rfl⟩
      · exact ⟨sw', hget, rfl, rfl⟩
  | checked item p start write hkind hruns hok herror =>
      cases he : p.error with
      | none =>
          obtain ⟨hnone, hothers⟩ := (hok he).closes (hd.one _)
          refine hd.settle rfl (by simp [hnone]) hothers fun sw hm => ⟨?_, ?_⟩
          · simp [Switch.checked, he, hnone]
          · rw [hothers _ (by simp)]
            exact hm.config
      | some e =>
          obtain ⟨⟨id, hid⟩, hothers⟩ := (herror e he).2.opens (hseen _ _) (hd.one _)
          have hid' : activeIn (write d.alerts) (.deviceUnreachable item.switchId) = {id} := hid
          refine hd.settle (k := .deviceUnreachable item.switchId) rfl
            (by simp [hid']) hothers fun sw hm => ⟨?_, ?_⟩
          · simp [Switch.checked, he, hid']
          · rw [hothers _ (by simp [unreachableAlert])]
            exact hm.config
  | backupFailed item m start write hkind hruns hkey hup =>
      obtain ⟨⟨id, hid⟩, hothers⟩ := hup.opens (hseen _ _) (hd.one _)
      have hid' : activeIn (write d.alerts) (.backupFailed item.switchId) = {id} := hid
      refine hd.settle (k := .backupFailed item.switchId) rfl
        (by simp [hid']) hothers fun sw hm => ⟨?_, ?_⟩
      · rw [hothers _ (by simp [backupAlert])]
        exact hm.reachable
      · simp [Switch.backedUp, hid']
  | unchanged item c start write m hkind hruns hres => exact backup_settles hd rfl hres
  | backedUp item c start write m id hkind hruns hres =>
      refine backup_settles ?_ ?_ hres
      · exact ⟨hd.one, hd.status⟩
      · rfl
  | acknowledged actor id a start e hkey hrow hopen =>
      refine hd.frame (fun key => ?_) hsame
      -- an acknowledged alert is unresolved still
      ext i
      have hget : (d.alerts.modify id (Alert.acknowledge start actor.email)).get? i =
          if i = id then (d.alerts.get? i).map (Alert.acknowledge start actor.email)
          else d.alerts.get? i := Table.get?_modify ..
      simp only [activeIn, Set.mem_ofPred_eq, Db.addEvent, Db.modifyAlert, hget]
      by_cases hi : i = id
      · simp [hi, hrow, Alert.acknowledge, Alert.active, hopen]
      · simp [hi]
  | alertsPruned ids n =>
      refine hd.frame (fun key => ?_) hsame
      ext i
      simp only [activeIn, Set.mem_ofPred_eq, Db.deleteAlerts, Table.get?_deleteWhere,
        Option.filter_eq_some_iff]
      refine exists_congr fun a => ⟨fun ha => ⟨ha.1.1, ha.2⟩, fun ha => ⟨⟨ha.1, ?_⟩, ha.2⟩⟩
      simp [Alert.active_eq_true.mp ha.2.2]
  | complianceRaised s rule m start write hkey hup =>
      obtain ⟨⟨id, hid⟩, hothers⟩ := hup.opens (fun _ => ⟨rfl, rfl⟩) (hd.one _)
      have hid' : activeIn (write d.alerts) (.compliance s rule) = {id} := hid
      have hone : (activeIn (d.mapAlerts write).alerts (.compliance s rule)).Subsingleton :=
        hid'.symm ▸ Set.subsingleton_singleton
      exact hd.frame_alerts hone hothers rfl
  | complianceResolved s rule start id hid hkey =>
      have hclosed : ∀ key, key ≠ .compliance s rule →
          activeIn (d.alerts.modify id (Alert.resolve start)) key = activeIn d.alerts key :=
        ((Resolves.resolved id hid hkey).closes (hd.one _)).2
      have hone : (activeIn (d.modifyAlert id (Alert.resolve start)).alerts
          (.compliance s rule)).Subsingleton := by
        rw [Db.modifyAlert, activeIn_resolve]
        exact (hd.one _).anti Set.sdiff_subset
      exact hd.frame_alerts hone hclosed rfl
  | _ => exact hd.frame (fun _ => rfl) hsame

/-- **Alerts and status columns agree**: in every reachable state a switch is unreachable
exactly where one unresolved alert says so, its configuration could not be read exactly where
one does, and no key has two.

The alerts are a second account of the columns, kept by the same transactions.  Nothing in the
schema ties the two together, so the match is an invariant of commits: whoever sets a status column
raises or resolves the alert of that key in the same transaction, and the pending alert of a key is
looked up under the lock of its entry in the unique index, so that two executors of one switch do
not raise two. -/
theorem Plane.Reachable.alerts_match {s : Plane} (h : Plane.Reachable P s) :
    (∀ id sw, s.db.switches.get? id = some sw →
      (sw.reachable = some false ↔ ∃! a, a ∈ activeIn s.db.alerts (.deviceUnreachable id)) ∧
      (sw.configError ≠ none ↔ ∃! a, a ∈ activeIn s.db.alerts (.backupFailed id))) ∧
    ∀ key, (activeIn s.db.alerts key).Subsingleton := by
  have hm : s.db.AlertsMatch := h.induct .empty fun _ _ hc hd => hc.alertsMatch hd
  have hunique : ∀ key, (activeIn s.db.alerts key).Nonempty ↔
      ∃! a, a ∈ activeIn s.db.alerts key := fun key =>
    ⟨fun ⟨a, ha⟩ => ⟨a, ha, fun b hb => hm.one key hb ha⟩, fun ⟨a, ha, _⟩ => ⟨a, ha⟩⟩
  refine ⟨fun id sw hsw => ?_, hm.one⟩
  rw [← hunique, ← hunique]
  exact ⟨(hm.status id sw hsw).reachable, (hm.status id sw hsw).config⟩

/-! ## A concrete run

One switch; a reachability run is requested, its item claimed, and the connection refused. -/

namespace Demo

/-- A day. -/
def day : ℕ := 24 * 3600 * 1000000

/-- A calendar whose months have 31 days, from the first of January 1970. -/
def location : Location where
  civil t :=
    { year := 1970 + t / (372 * day)
      month := 1 + t / (31 * day) % 12
      day := 1 + t / day % 31
      hour := t / 3600000000 % 24
      minute := t / 60000000 % 60
      second := t / 1000000 % 60 }
  weekday t := (4 + t / day) % 7
  date c := ((((((c.year - 1970) * 12 + (c.month - 1)) * 31 + (c.day - 1)) * 24 + c.hour) * 60 +
    c.minute) * 60 + c.second).toNat * 1000000

def platform : Platform := ⟨location, 1000⟩

def admin : Principal := ⟨100, "admin@test.invalid", true, []⟩

/-- One transaction from its request to its end. -/
def act (t : ℕ) (op : Op) (s : Plane) : Plane := s.perform (body platform) 60 t op ()

theorem act_reachable {s : Plane} (h : s.Reachable platform) (t : ℕ) (op : Op) :
    (act t op s).Reachable platform :=
  h.trans (Sys.perform_steps ..)

/-- The switch `0`, in no group. -/
def equipped : Plane := act 0 (.createSwitch admin ⟨"test", true, none⟩) (Sys.init Db.empty 0)

/-- Up to the claim of the item `2` under the token `3`. -/
def checking : Plane :=
  act 2 (.claimDeviceItems 1) (act 1 (.runTask admin ⟨"reachability", "all", .empty, []⟩) equipped)

/-- Up to the failed connection. -/
def down : Plane :=
  act 3 (.recordReachability ⟨2, 3, .reachability, 0⟩ ⟨22, none, some "refused"⟩) checking

theorem down_reachable : down.Reachable platform :=
  act_reachable (act_reachable (act_reachable (act_reachable .refl ..) ..) ..) ..

/-- The switch that refused is marked, with its alert. -/
theorem refused_alerted : (down.db.switches.get? 0).any (·.reachable = some false) ∧
    (∀ id sw, down.db.switches.get? id = some sw →
      (sw.reachable = some false ↔ ∃! a, a ∈ activeIn down.db.alerts (.deviceUnreachable id)) ∧
      (sw.configError ≠ none ↔ ∃! a, a ∈ activeIn down.db.alerts (.backupFailed id))) ∧
    ∀ key, (activeIn down.db.alerts key).Subsingleton :=
  ⟨by decide +kernel, down_reachable.alerts_match⟩

end Demo

end BindPlane.Devices
