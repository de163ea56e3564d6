import BindPlane.Devices.Steps

/-!
# What the others leave alone

The facts a transaction may rely on while the others commit.  A number it has drawn stays
unused.  The entry of the pending index it holds stays as it is: no item comes to it
(`idle_stable`), and the item it has does not change (`item_stable`).  The unresolved alerts
of a key stay the same while it holds the key, or the entry of the index that guards the key
(`active_stable`).

An executor relies on more: while its item runs, nobody else adds a version to its switch
(`Held.before`), although it holds no lock yet.

**A guard without a lock.**  An executor computes for seconds between its claim and its last
transaction, and holds nothing in the meantime.  That nobody adds a version of its switch is a
matter of the index: whoever does runs an item of the same switch and kind, and there is one such
item at a time.
-/

namespace BindPlane.Devices

open ReadCommitted

variable {P : Platform} {op : Op} {u : Unit} {K : Set (Resource Key)} {d d' : Db} {r : Reply}

/-! ## One commit -/

theorem notMem_of_disjoint {K K' : Set (Resource Key)} (h : Disjoint K K') {x : Resource Key}
    (hx : x ∈ K) : x ∉ K' := Set.disjoint_left.mp h hx

/-- No item comes to a free entry of the pending index whose lock is somebody else's. -/
theorem Commit.idle (h : Commit P op u K d d' r) {n : ℕ} (hd : d.Valid n) {s : Id}
    {kind : TaskKind} (hkey : .key (.pending s kind) ∉ K) (hidle : d.Idle s kind) :
    d'.Idle s kind := by
  intro id i hi
  cases h.item hd id with
  | same h' => exact hidle id i (h' ▸ hi)
  | created i' hserial hfresh hnew hlease hbackup htask hone heach h' =>
      rw [h'] at hi
      cases hi
      cases hnew with
      | queued hstatus hk hno =>
          refine Bool.eq_false_iff.mpr fun hp => hkey ?_
          obtain ⟨hswitch, hkind, -⟩ := Item.pendingFor_eq_true.mp hp
          rw [← hswitch, ← hkind]
          exact hk
      | skipped hstatus => simp [Item.pendingFor, Item.pending, hstatus]
  | started i₀ start token hi₀ hqueued hk h' =>
      have hno := hidle id i₀ hi₀
      rw [h'] at hi
      cases hi
      refine Bool.eq_false_iff.mpr fun hp => ?_
      obtain ⟨hswitch, hkind, -⟩ := Item.pendingFor_eq_true.mp hp
      have hpending : i₀.pendingFor s kind = true :=
        Item.pendingFor_eq_true.mpr ⟨hswitch, hkind, by simp [Item.pending, hqueued]⟩
      rw [hpending] at hno
      cases hno
  | ended i₀ i' hi₀ hrunning hk h' hsame hended =>
      rw [h'] at hi
      cases hi
      simp [Item.pendingFor, hended]
  | pruned i₀ hi₀ hdone h' =>
      rw [h'] at hi
      cases hi

/-- The item of an entry of the pending index whose lock is somebody else's stays. -/
theorem Commit.item_kept (h : Commit P op u K d d' r) {n : ℕ} (hd : d.Valid n) {id : Id}
    {i : Item} (hkey : .key (.pending i.switchId i.kind) ∉ K)
    (hi : d.items.get? id = some i) (hpending : i.pending = true) :
    d'.items.get? id = some i := by
  cases h.item hd id with
  | same h' => exact h'.trans hi
  | created i' hserial hfresh => rw [hfresh.item] at hi; cases hi
  | started i₀ start token hi₀ hqueued hk =>
      rw [hi₀] at hi
      cases hi
      exact absurd hk hkey
  | ended i₀ i' hi₀ hrunning hk =>
      rw [hi₀] at hi
      cases hi
      exact absurd hk hkey
  | pruned i₀ hi₀ hdone =>
      rw [hi₀] at hi
      cases hi
      rw [hpending] at hdone
      cases hdone

/-- An alert of the key is opened or resolved under both of its locks only. -/
theorem Commit.active (h : Commit P op u K d d' r) {key : DedupeKey}
    (hkey : .key (.alert key) ∉ K ∨ ¬ key.Guarded K) :
    activeIn d'.alerts key = activeIn d.alerts key := by
  have hno : ∀ {k : DedupeKey}, k = key → .key (.alert k) ∈ K → k.Guarded K → False := by
    rintro k rfl hk hguard
    exact hkey.elim (· hk) (· hguard)
  ext id
  cases h.alert id with
  | same h' => simp [activeIn, h']
  | opened a hserial hfresh hk hguard hnone hswitch hopen h' =>
      have hne : a.dedupeKey ≠ key := fun heq => hno heq hk hguard
      simp [activeIn, h', hfresh.alert, hne]
  | written a a' ha hactive hk h' hsame hstill =>
      simp [activeIn, h', ha, hsame, hactive, hstill]
  | resolved a a' ha hactive hk hguard h' hsame hdone =>
      have hne : a.dedupeKey ≠ key := fun heq => hno heq hk hguard
      simp [activeIn, h', ha, hsame, hne]
  | pruned a ha hdone h' => simp [activeIn, h', ha, hdone]

/-- An unresolved alert whose key is somebody else's stays. -/
theorem Commit.alert_kept (h : Commit P op u K d d' r) {id : Id} {a : Alert}
    (hkey : .key (.alert a.dedupeKey) ∉ K) (ha : d.alerts.get? id = some a)
    (hactive : a.active = true) : d'.alerts.get? id = some a := by
  cases h.alert id with
  | same h' => exact h'.trans ha
  | opened a' hserial hfresh => rw [hfresh.alert] at ha; cases ha
  | written a₀ a' ha₀ _ hk =>
      rw [ha₀] at ha
      cases ha
      exact absurd hk hkey
  | resolved a₀ a' ha₀ _ hk =>
      rw [ha₀] at ha
      cases ha
      exact absurd hk hkey
  | pruned a₀ ha₀ hdone =>
      rw [ha₀] at ha
      cases ha
      rw [hactive] at hdone
      cases hdone

/-- A schedule that is somebody else's stays. -/
theorem Commit.schedule_kept (h : Commit P op u K d d' r) {id : Id} {sc : Schedule}
    (hkey : .key (.schedule id) ∉ K) (hsc : d.schedules.get? id = some sc) :
    d'.schedules.get? id = some sc := by
  cases h.schedule id with
  | same h' => exact h'.trans hsc
  | made sc' t next hserial hfresh => rw [hfresh.schedule] at hsc; cases hsc
  | edited row sc' time hrow hk => exact absurd hk hkey
  | fired f t next heq hmoves => exact absurd (heq ▸ hmoves.key) hkey

/-- An item that is held was held before, since a handed item never comes to run again; and
its row is the same. -/
theorem Commit.held_back (h : Commit P op u K d d' r) {n : ℕ} (hd : d.Valid n)
    {item : ClaimedItem} (hhanded : item ∈ d.handed)
    (hheld : d'.held item.id item.leaseToken = true) :
    d'.items.get? item.id = d.items.get? item.id ∧ d.held item.id item.leaseToken = true := by
  obtain ⟨i', hi', htoken, hrunning⟩ := Db.held_eq_true.mp hheld
  have hsame : d'.items.get? item.id = d.items.get? item.id := by
    cases h.item hd item.id with
    | same h' => exact h'
    | created i hserial hfresh => exact absurd rfl (hfresh.handed item hhanded)
    | started i start token hi hqueued =>
        exact absurd hqueued (hd.handed_item item hhanded i hi).2.2.1
    | ended i i₁ hi hrun hk h' hsame hended =>
        rw [h'] at hi'
        cases hi'
        simp [Item.pending, hrunning] at hended
    | pruned i hi hdone h' =>
        rw [h'] at hi'
        cases hi'
  rw [hsame] at hi'
  exact ⟨hsame, Db.held_eq_true.mpr ⟨i', hi', htoken, hrunning⟩⟩

/-- **A held item stays held only where nobody adds a version to its switch**: whoever adds
one has a running backup item of the switch, and there is one at most. -/
theorem Commit.held_before (h : Commit P op u K d d' r) {n : ℕ} (hd : d.Valid n)
    {item : ClaimedItem} (hhanded : item ∈ d.handed) (hkind : item.kind = .configBackup)
    (hheld : d'.held item.id item.leaseToken = true) :
    d.held item.id item.leaseToken = true ∧
      d'.backupsOf item.switchId = d.backupsOf item.switchId := by
  obtain ⟨hsame, hbefore⟩ := h.held_back hd hhanded hheld
  obtain ⟨i', hi', htoken, hrunning⟩ := Db.held_eq_true.mp hbefore
  refine ⟨hbefore, ?_⟩
  cases h.backups hd with
  | same h' => rw [Db.backupsOf, h', Db.backupsOf]
  | added other id b hruns hkind' hswitch hserial hfresh _ _ _ h' hitem =>
      by_cases hs : other.switchId = item.switchId
      · -- the other's item would be this one, which its commit ends
        obtain ⟨j, hj, hjrun, hjswitch, hjkind, -⟩ := hruns.row hd
        obtain ⟨hiswitch, hikind, -, -⟩ := hd.handed_item item hhanded i' hi'
        have hid : other.id = item.id := by
          refine hd.pending_unique _ _ j i' hj hi' ?_ ?_ ?_ ?_
          · simp [Item.pending, hjrun]
          · simp [Item.pending, hrunning]
          · rw [hjswitch, hs, hiswitch]
          · rw [hjkind, hkind', hikind, hkind]
        obtain ⟨k, hk, hkstatus, -⟩ := hitem
        rw [hid, hsame, hi'] at hk
        cases hk
        rw [hrunning] at hkstatus
        cases hkstatus
      · have hne : b.switchId ≠ item.switchId := fun heq => hs (hswitch ▸ heq)
        have hfree : ∀ x ∈ d.backups.rows, x.1 ≠ id := by
          intro x hx heq
          have hget := Table.mem_rows.mp (show (x.1, x.2) ∈ d.backups.rows from hx)
          rw [heq, hfresh.backup] at hget
          cases hget
        rw [Db.backupsOf, h', Table.insert, List.filter_append, Db.backupsOf]
        simp only [List.filter_filter, hne, decide_false, Bool.false_eq_true,
          not_false_eq_true, List.filter_cons_of_neg, List.filter_nil, List.append_nil]
        refine List.filter_congr fun x hx => ?_
        simp [hfree x hx]

/-! ## Any number of commits -/

section Stable

variable {s s' : Db × ℕ} (h : (contract P).interference.rel K s s')
include h

theorem wall_stable : s.1.clock ≤ s'.1.clock ∧ s.1.wall ≤ s'.1.wall := by
  refine Contract.interference_induct (C := contract P)
    (P := fun d d' => d.clock ≤ d'.clock ∧ d.wall ≤ d'.wall) (fun _ => ⟨le_rfl, le_rfl⟩)
    (fun h h' => ⟨h.1.trans h'.1, h.2.trans h'.2⟩) (fun _ hc => ?_) h
  exact Commit.clock hc

theorem handed_stable {c : ClaimedItem} (hc : c ∈ s.1.handed) : c ∈ s'.1.handed :=
  Contract.interference_keeps (C := contract P) h
    (fun _ hcommit hc => Commit.handed hcommit hc) hc

theorem hasGroup_stable {scope : ScheduleScope} (hs : s.1.hasGroup scope = true) :
    s'.1.hasGroup scope = true :=
  Contract.interference_keeps (C := contract P) (P := fun d => d.hasGroup scope = true) h
    (fun _ hcommit hd => Commit.hasGroup hcommit hd) hs

theorem switch_stable {id : Id} (hs : ∃ sw, s.1.switches.get? id = some sw) :
    ∃ sw, s'.1.switches.get? id = some sw :=
  Contract.interference_keeps (C := contract P) (P := fun d => ∃ sw, d.switches.get? id = some sw)
    h (fun _ hcommit ⟨_, hsw⟩ => Commit.switch hcommit hsw) hs

theorem active_stable {key : DedupeKey}
    (hkey : .key (.alert key) ∈ K ∨ ∃ g, key.guard = some g ∧ .key g ∈ K) :
    activeIn s'.1.alerts key = activeIn s.1.alerts key := by
  refine Contract.interference_induct (C := contract P)
    (P := fun d d' => activeIn d'.alerts key = activeIn d.alerts key) (fun _ => rfl)
    (fun h h' => h'.trans h) (fun hdisj hc => Commit.active hc ?_) h
  rcases hkey with hkey | ⟨g, hg, hkey⟩
  · exact .inl (notMem_of_disjoint hdisj hkey)
  · exact .inr fun hguard => notMem_of_disjoint hdisj hkey (hguard g hg)

theorem alert_stable {id : Id} {a : Alert} (hkey : .key (.alert a.dedupeKey) ∈ K)
    (ha : s.1.alerts.get? id = some a) (hactive : a.active = true) :
    s'.1.alerts.get? id = some a :=
  Contract.interference_keeps (C := contract P) (P := fun d => d.alerts.get? id = some a) h
    (fun hdisj hc ha => Commit.alert_kept hc (notMem_of_disjoint hdisj hkey) ha hactive) ha

theorem schedule_stable {id : Id} {sc : Schedule} (hkey : .key (.schedule id) ∈ K)
    (hsc : s.1.schedules.get? id = some sc) : s'.1.schedules.get? id = some sc :=
  Contract.interference_keeps (C := contract P) (P := fun d => d.schedules.get? id = some sc) h
    (fun hdisj hc hsc => Commit.schedule_kept hc (notMem_of_disjoint hdisj hkey) hsc) hsc

variable (hs : s.1.Valid s.2)
include hs

theorem unused_stable {id : Id} (hid : .serial id ∈ K) (hfresh : s.1.Unused id) :
    s'.1.Unused id :=
  Contract.interference_induct_inv (C := contract P) (P := fun d d' => d.Unused id → d'.Unused id)
    (fun _ hd => hd) (fun h h' hd => h' (h hd))
    (fun hd hdisj hc => Commit.unused hc hd (notMem_of_disjoint hdisj hid)) h hs hfresh

theorem idle_stable {sw : Id} {kind : TaskKind} (hkey : .key (.pending sw kind) ∈ K)
    (hidle : s.1.Idle sw kind) : s'.1.Idle sw kind :=
  Contract.interference_induct_inv (C := contract P)
    (P := fun d d' => d.Idle sw kind → d'.Idle sw kind) (fun _ => id)
    (fun h h' hd => h' (h hd))
    (fun hd hdisj hc => Commit.idle hc hd (notMem_of_disjoint hdisj hkey)) h hs hidle

theorem item_stable {id : Id} {i : Item} (hkey : .key (.pending i.switchId i.kind) ∈ K)
    (hi : s.1.items.get? id = some i) (hpending : i.pending = true) :
    s'.1.items.get? id = some i :=
  Contract.interference_induct_inv (C := contract P)
    (P := fun d d' => d.items.get? id = some i → d'.items.get? id = some i) (fun _ hd => hd)
    (fun h h' hd => h' (h hd))
    (fun hd hdisj hc hi =>
      Commit.item_kept hc hd (notMem_of_disjoint hdisj hkey) hi hpending) h hs hi

/-- What an executor whose item still runs may conclude about the time before. -/
theorem held_before {item : ClaimedItem} (hhanded : item ∈ s.1.handed)
    (hkind : item.kind = .configBackup) (hheld : s'.1.held item.id item.leaseToken = true) :
    s.1.held item.id item.leaseToken = true ∧
      s'.1.backupsOf item.switchId = s.1.backupsOf item.switchId := by
  have hback : item ∈ s.1.handed → item ∈ s'.1.handed ∧
      (s'.1.held item.id item.leaseToken = true →
        s.1.held item.id item.leaseToken = true ∧
          s'.1.backupsOf item.switchId = s.1.backupsOf item.switchId) := by
    refine Contract.interference_induct_inv (C := contract P)
      (P := fun d d' => item ∈ d.handed → item ∈ d'.handed ∧
        (d'.held item.id item.leaseToken = true →
          d.held item.id item.leaseToken = true ∧
            d'.backupsOf item.switchId = d.backupsOf item.switchId))
      (fun _ hm => ⟨hm, fun hh => ⟨hh, rfl⟩⟩) (fun h h' hm => ?_) (fun hd _ hc hm => ?_) h hs
    · obtain ⟨hm', hback⟩ := h hm
      obtain ⟨hm'', hback'⟩ := h' hm'
      refine ⟨hm'', fun hh => ?_⟩
      obtain ⟨hh', hb'⟩ := hback' hh
      obtain ⟨hh₀, hb⟩ := hback hh'
      exact ⟨hh₀, hb'.trans hb⟩
    · exact ⟨Commit.handed hc hm, fun hh => Commit.held_before hc hd hm hkind hh⟩
  exact (hback hhanded).2 hheld

end Stable

end BindPlane.Devices
