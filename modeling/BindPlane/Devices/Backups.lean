import BindPlane.Devices.Runs

/-!
# Configuration versions

What holds of the versions `back_up` records, whoever runs it and however late.  Consecutive
versions of a switch differ (`Db.VersionsDiffer`): a new version is behind all others of its
switch and differs from the last of them.  Each is referred to by the one item that ended with
it, until that item's task is pruned (`Plane.Reachable.referred`).  An item that has ended stays
as it is, and an executor whose item no longer runs under its token leaves nothing behind
(`Plane.Reachable.executor_fenced`).
-/

namespace BindPlane.Devices

open ReadCommitted

variable {P : Platform} {op : Op} {u : Unit} {K : Set (Resource Key)} {d d' : Db} {r : Reply}

/-! ## The order of versions -/

/-- `(captured_at, id)` of `x` is before that of `y`. -/
def Backup.Before (x y : ℕ × Backup) : Prop :=
  x.2.capturedAt < y.2.capturedAt ∨ x.2.capturedAt = y.2.capturedAt ∧ x.1 < y.1

private theorem lex_not (a b i j : ℕ) :
    ¬ (a < b ∨ a = b ∧ i < j) ↔ b < a ∨ b = a ∧ j ≤ i := by omega

private theorem lex_total (a b i j : ℕ) :
    (b < a ∨ b = a ∧ j ≤ i) ∨ (a < b ∨ a = b ∧ i ≤ j) := by omega

private theorem lex_trans (a b c i j k : ℕ) (h : b < a ∨ b = a ∧ j ≤ i)
    (h' : c < b ∨ c = b ∧ k ≤ j) : c < a ∨ c = a ∧ k ≤ i := by omega

theorem Backup.not_before_iff {x y : ℕ × Backup} : ¬ Backup.Before x y ↔ Backup.notBefore x y :=
  lex_not ..

instance : Std.Total Backup.notBefore := ⟨fun _ _ => lex_total ..⟩

instance : IsTrans (ℕ × Backup) Backup.notBefore := ⟨fun _ _ _ h h' => lex_trans _ _ _ _ _ _ h h'⟩

theorem not_before_of_before {x y : ℕ × Backup} (h : Backup.Before x y) :
    ¬ Backup.Before y x := by
  rintro (h' | ⟨h', hid'⟩) <;> rcases h with h | ⟨h, hid⟩
  · exact lt_asymm h h'
  · exact h'.ne' h
  · exact h.ne' h'
  · exact lt_asymm hid hid'

theorem mem_backupsOf {s : Id} {x : ℕ × Backup} :
    x ∈ d.backupsOf s ↔ d.backups.get? x.1 = some x.2 ∧ x.2.switchId = s := by
  rw [Db.backupsOf, List.mem_filter, ← Table.mem_rows]
  simp

/-- Two versions are the same row, or one is before the other. -/
theorem before_trichotomy {s : Id} {x y : ℕ × Backup} (hx : x ∈ d.backupsOf s)
    (hy : y ∈ d.backupsOf s) : x = y ∨ Backup.Before x y ∨ Backup.Before y x := by
  rcases lt_trichotomy x.2.capturedAt y.2.capturedAt with hlt | heq | hlt
  · exact .inr (.inl (.inl hlt))
  · rcases lt_trichotomy x.1 y.1 with hid | hid | hid
    · exact .inr (.inl (.inr ⟨heq, hid⟩))
    · refine .inl (Prod.ext hid ?_)
      have hrow := (mem_backupsOf.mp hx).1
      rw [hid, (mem_backupsOf.mp hy).1] at hrow
      exact (Option.some.inj hrow).symm
    · exact .inr (.inr (.inr ⟨heq.symm, hid⟩))
  · exact .inr (.inr (.inl hlt))

/-- The latest version is one of the switch, with none behind it. -/
theorem latestBackup_eq_some {s : Id} {x : ℕ × Backup} (h : d.latestBackup s = some x) :
    x ∈ d.backupsOf s ∧ ∀ y ∈ d.backupsOf s, ¬ Backup.Before x y := by
  have hperm := List.perm_insertionSort Backup.notBefore (d.backupsOf s)
  have hsorted := List.pairwise_insertionSort Backup.notBefore (d.backupsOf s)
  rw [Db.latestBackup] at h
  cases hl : (d.backupsOf s).insertionSort Backup.notBefore with
  | nil => rw [hl] at h; cases h
  | cons a l =>
      rw [hl] at h hperm hsorted
      cases h
      refine ⟨hperm.mem_iff.mp List.mem_cons_self, fun y hy => ?_⟩
      rw [Backup.not_before_iff]
      rcases List.mem_cons.mp (hperm.mem_iff.mpr hy) with rfl | hy
      · exact .inr ⟨rfl, le_rfl⟩
      · exact List.rel_of_pairwise_cons hsorted hy

theorem latestBackup_eq_none {s : Id} (h : d.latestBackup s = none) : d.backupsOf s = [] := by
  rw [Db.latestBackup, List.head?_eq_none_iff] at h
  exact List.perm_nil.mp (h ▸ (List.perm_insertionSort Backup.notBefore _).symm)

/-- **Consecutive versions differ.**

Consecutive means in the order in which the history of a switch is shown, by the time of capture and
then by the number.  A later version may well be equal to an earlier one that is not its neighbour:
a change that is taken back is two changes. -/
def Db.VersionsDiffer (d : Db) : Prop :=
  ∀ s x y, x ∈ d.backupsOf s → y ∈ d.backupsOf s → Backup.Before x y →
    (∀ z ∈ d.backupsOf s, ¬ (Backup.Before x z ∧ Backup.Before z y)) →
    x.2.contentSha256 ≠ y.2.contentSha256

theorem Commit.versionsDiffer (h : Commit P op u K d d' r) {n : ℕ} (hv : d.Valid n)
    (hd : d.VersionsDiffer) : d'.VersionsDiffer := by
  cases h.backups hv with
  | same h' =>
      have hsame : ∀ s, d'.backupsOf s = d.backupsOf s := fun s => by
        rw [Db.backupsOf, h', Db.backupsOf]
      intro s x y hx hy
      rw [hsame] at hx hy ⊢
      exact hd s x y hx hy
  | added item id b hruns hkind hswitch hserial hfresh hcaptured hlatest hlast h' =>
      have hmem : ∀ {s z}, z ∈ d'.backupsOf s →
          z ∈ d.backupsOf s ∨ z = (id, b) ∧ b.switchId = s := by
        intro s z hz
        obtain ⟨hget, hs⟩ := mem_backupsOf.mp hz
        rw [h', Table.get?_insert] at hget
        split at hget
        · next hid =>
            obtain rfl := Option.some.inj hget
            exact .inr ⟨Prod.ext hid rfl, hs⟩
        · exact .inl (mem_backupsOf.mpr ⟨hget, hs⟩)
      have hkept : ∀ {s z}, z ∈ d.backupsOf s → z ∈ d'.backupsOf s := by
        intro s z hz
        obtain ⟨hget, hs⟩ := mem_backupsOf.mp hz
        refine mem_backupsOf.mpr ⟨?_, hs⟩
        rw [h', Table.get?_insert_of_ne _ (fun heq => ?_), hget]
        rw [heq, hfresh.backup] at hget
        cases hget
      -- the new version is behind every other
      have hbehind : ∀ z ∈ d.backupsOf item.switchId, Backup.Before z (id, b) := by
        intro z hz
        obtain ⟨hle, hlt⟩ := hlast z hz
        rcases hle.lt_or_eq with hle | hle
        · exact .inl hle
        · exact .inr ⟨hle, hlt⟩
      intro s x y hx hy hxy hnone
      rcases hmem hy with hy | ⟨rfl, hbs⟩
      · rcases hmem hx with hx | ⟨rfl, hbs⟩
        · exact hd s x y hx hy hxy fun z hz => hnone z (hkept hz)
        · rw [← hbs, hswitch] at hy
          exact absurd hxy (not_before_of_before (hbehind y hy))
      · rcases hmem hx with hx | ⟨rfl, -⟩
        · -- the version before the new one is the latest of the others
          rw [← hbs, hswitch] at hx hnone
          cases hl : d.latestBackup item.switchId with
          | none =>
              rw [latestBackup_eq_none hl] at hx
              cases hx
          | some z =>
              obtain ⟨hz, hmax⟩ := latestBackup_eq_some hl
              rw [hl] at hlatest
              rcases before_trichotomy hx hz with rfl | hxz | hzx
              · exact fun heq => hlatest (congrArg some heq)
              · exact absurd ⟨hxz, hbehind z hz⟩ (hnone z (hkept hz))
              · exact absurd hzx (hmax x hx)
        · exact absurd hxy (not_before_of_before hxy)

/-! ## Versions and the items that recorded them -/

/-- The item is the one that refers to the version.

An item points to the version that it has recorded, and the page of a task shows the version by that
pointer.  The structure says all that a reader may conclude from it. -/
structure Db.RefersOnce (d : Db) (bid : Id) (id : Id) (i : Item) : Prop where
  row : d.items.get? id = some i
  backup : i.backupId = some bid
  succeeded : i.status = .succeeded
  changed : i.changed = some true
  alone : ∀ id' i', d.items.get? id' = some i' → i'.backupId = some bid → id' = id

/-- Every reference is of an item that ended with it, to a version of its switch, and no other
item's.

A version belongs to the item that has made it.  It is inserted before the item is finished, but the
transaction is rolled back when the item cannot be. -/
structure Db.RefsSound (d : Db) : Prop where
  done : ∀ id i bid, d.items.get? id = some i → i.backupId = some bid →
    i.status = .succeeded ∧ i.changed = some true ∧
      ∃ b, d.backups.get? bid = some b ∧ b.switchId = i.switchId
  once : ∀ id id' i i' bid, d.items.get? id = some i → d.items.get? id' = some i' →
    i.backupId = some bid → i'.backupId = some bid → id = id'

theorem Db.RefsSound.refersOnce (h : d.RefsSound) {bid id : Id} {i : Item}
    (hi : d.items.get? id = some i) (hb : i.backupId = some bid) : d.RefersOnce bid id i :=
  ⟨hi, hb, (h.done id i bid hi hb).1, (h.done id i bid hi hb).2.1,
    fun id' i' hi' hb' => h.once id' id i' i bid hi' hi hb' hb⟩

/-- A reference is there already, or its version is new. -/
theorem Commit.refers (h : Commit P op u K d d' r) {n : ℕ} (hv : d.Valid n) (hd : d.RefsSound)
    {id bid : Id} {i : Item} (hi : d'.items.get? id = some i) (hb : i.backupId = some bid) :
    d.items.get? id = some i ∨ i.Refers K d d' := by
  cases h.item hv id with
  | same h' => exact .inl (h' ▸ hi)
  | created i' hserial hfresh hnew hlease hbackup htask hone heach h' =>
      rw [h'] at hi
      cases hi
      rw [hbackup] at hb
      cases hb
  | started i₀ start token hi₀ hqueued hkey h' =>
      rw [h'] at hi
      cases hi
      have hdone := (hd.done id i₀ bid hi₀ hb).1
      rw [hqueued] at hdone
      cases hdone
  | ended i₀ i' hi₀ hrunning hkey h' hsame hended hbackup =>
      rw [h'] at hi
      cases hi
      rcases hbackup with hsame | hnone | hrefers
      · have hdone := (hd.done id i₀ bid hi₀ (hsame ▸ hb)).1
        rw [hrunning] at hdone
        cases hdone
      · rw [hnone] at hb
        cases hb
      · exact .inr hrefers
  | pruned i₀ hi₀ hdone h' =>
      rw [h'] at hi
      cases hi

theorem Commit.refsSound (h : Commit P op u K d d' r) {n : ℕ} (hv : d.Valid n)
    (hd : d.RefsSound) : d'.RefsSound := by
  cases h.backups hv with
  | same h' =>
      have hold : ∀ {id bid i}, d'.items.get? id = some i → i.backupId = some bid →
          d.items.get? id = some i := by
        intro id bid i hi hb
        rcases h.refers hv hd hi hb with hi | ⟨-, -, bid', b, -, hfresh, -, hadded, -⟩
        · exact hi
        · have hnone := hfresh.backup
          rw [← h', hadded, Table.get?_insert_self] at hnone
          cases hnone
      constructor
      · intro id i bid hi hb
        rw [h']
        exact hd.done id i bid (hold hi hb) hb
      · intro id id' i i' bid hi hi' hb hb'
        exact hd.once id id' i i' bid (hold hi hb) (hold hi' hb') hb hb'
  | added item new b hruns hkind hswitch hserial hfresh hcaptured hlatest hlast h' hitem hothers =>
      obtain ⟨i₀, hi₀, hstatus, hchanged, hbackup, hswitch₀⟩ := hitem
      -- a reference is to the new version by its item, or to an old one by an old item
      have hcases : ∀ {id bid i}, d'.items.get? id = some i → i.backupId = some bid →
          id = item.id ∧ i = i₀ ∧ bid = new ∨ d.items.get? id = some i ∧ bid ≠ new := by
        intro id bid i hi hb
        by_cases hid : id = item.id
        · rw [hid, hi₀] at hi
          cases hi
          rw [hbackup] at hb
          cases hb
          exact .inl ⟨hid, rfl, rfl⟩
        · rw [hothers id hid] at hi
          refine .inr ⟨hi, ?_⟩
          rintro rfl
          obtain ⟨-, -, b', hb', -⟩ := hd.done id i bid hi hb
          rw [hfresh.backup] at hb'
          cases hb'
      constructor
      · intro id i bid hi hb
        rcases hcases hi hb with ⟨-, rfl, rfl⟩ | ⟨hold, hne⟩
        · refine ⟨hstatus, hchanged, b, ?_, hswitch.trans hswitch₀.symm⟩
          rw [h', Table.get?_insert_self]
        · obtain ⟨hs, hc, b', hb', hsw⟩ := hd.done id i bid hold hb
          refine ⟨hs, hc, b', ?_, hsw⟩
          rw [h', Table.get?_insert_of_ne _ hne, hb']
      · intro id id' i i' bid hi hi' hb hb'
        rcases hcases hi hb with ⟨hid, -, hbid⟩ | ⟨hold, hne⟩ <;>
          rcases hcases hi' hb' with ⟨hid', -, hbid'⟩ | ⟨hold', hne'⟩
        · exact hid.trans hid'.symm
        · exact absurd hbid hne'
        · exact absurd hbid' hne
        · exact hd.once id id' i i' bid hold hold' hb hb'

/-- The item that refers to a version stays, or is pruned with its task; then nothing refers to
the version. -/
theorem Commit.refersOnce (h : Commit P op u K d d' r) {n : ℕ} (hv : d.Valid n)
    (hd : d.RefsSound) {bid id : Id} {i : Item} {b : Backup}
    (hb : d.backups.get? bid = some b) (hi : d.RefersOnce bid id i) :
    d'.RefersOnce bid id i ∨ d'.tasks.get? i.taskId = none ∧
      ∀ id' i', d'.items.get? id' = some i' → i'.backupId ≠ some bid := by
  have hsame : ∀ {id' i'}, d'.items.get? id' = some i' → i'.backupId = some bid →
      d.items.get? id' = some i' := by
    intro id' i' hi' hb'
    rcases h.refers hv hd hi' hb' with hold | ⟨-, -, new, b₀, hnew, hfresh, -⟩
    · exact hold
    · rw [hb'] at hnew
      cases hnew
      rw [hfresh.backup] at hb
      cases hb
  cases h.item hv id with
  | same h' => exact .inl ((h.refsSound hv hd).refersOnce (h'.trans hi.row) hi.backup)
  | created i' hserial hfresh =>
      have hrow := hi.row
      rw [hfresh.item] at hrow
      cases hrow
  | started i₀ start token hi₀ hqueued =>
      rw [hi.row] at hi₀
      cases hi₀
      rw [hi.succeeded] at hqueued
      cases hqueued
  | ended i₀ i' hi₀ hrunning =>
      rw [hi.row] at hi₀
      cases hi₀
      rw [hi.succeeded] at hrunning
      cases hrunning
  | pruned i₀ hi₀ hdone h' hgone =>
      rw [hi.row] at hi₀
      cases hi₀
      refine .inr ⟨hgone, fun id' i' hi' hb' => ?_⟩
      have hid := hi.alone id' i' (hsame hi' hb') hb'
      rw [hid, h'] at hi'
      cases hi'

/-! ## Numbers in use -/

/-- Every number in use has been drawn by a transaction that has ended, so that nothing comes
back under it. -/
theorem Plane.Reachable.retired {s : Plane} (h : Plane.Reachable P s) {id : Id}
    (hid : ¬ s.db.Unused id) : s.Retired id := by
  induction h with
  | refl => exact absurd (Db.valid_empty.unused id (Nat.zero_le _)) hid
  | @tail s₁ s₂ hrun hstep ih =>
      obtain ⟨a, ha⟩ := hstep
      have hsound := Plane.Reachable.sound hrun
      cases Sys.step_moved ha with
      | quiet hdb => exact Sys.step_retired ha (ih (hdb ▸ hid))
      | commit op u r w ht hdb htxns =>
          by_cases hheld : .serial id ∈ s₁.heldBy a.txn
          · exact Sys.retires hsound.undrawn ha ht hheld (by rw [htxns, Function.update_self])
          · refine Sys.step_retired ha (ih fun hunused => hid ?_)
            rw [hdb]
            exact ((hsound.commits ht).2.unused hsound.inv hheld hunused)

/-- **Induction over what follows** a reachable state, the numbers of `N` having retired. -/
theorem Plane.Reachable.induct_from {s₁ s : Plane} (h₁ : Plane.Reachable P s₁)
    (hrun : Plane.Steps P s₁ s) {I : Db → Prop} {N : Set ℕ} (hN : ∀ n ∈ N, s₁.Retired n)
    (h₀ : I s₁.db)
    (hstep : ∀ {op u K d d' r n}, d.Valid n → (∀ i ∈ N, .serial i ∉ K) →
      Commit P op u K d d' r → I d → I d') : I s.db := by
  have hboth : (∀ n ∈ N, s.Retired n) ∧ I s.db := by
    induction hrun with
    | refl => exact ⟨hN, h₀⟩
    | @tail s₂ s₃ hrun hstep' ih =>
        obtain ⟨a, ha⟩ := hstep'
        obtain ⟨hret, hI⟩ := ih
        have hsound := Plane.Reachable.sound (h₁.trans hrun)
        refine ⟨fun n hn => Sys.step_retired ha (hret n hn), ?_⟩
        cases Sys.step_moved ha with
        | quiet hdb => rw [hdb]; exact hI
        | commit op u r w ht hdb htxns =>
            rw [hdb]
            refine hstep hsound.inv (fun i hi hheld => ?_) (hsound.commits ht).2 hI
            have hfree := (hret i hi).2
            have hlock : s₂.locks (.serial i) = some a.txn := hheld
            rw [hlock] at hfree
            cases hfree
  exact hboth.2

/-! ## What holds over whole runs -/

/-- **An item that has ended stays** as it is, until it is pruned. -/
theorem Plane.Reachable.ended_stays {s₁ s : Plane} (h₁ : Plane.Reachable P s₁)
    (hrun : Plane.Steps P s₁ s) {id : Id} {i : Item} (hi : s₁.db.items.get? id = some i)
    (hdone : i.pending = false) :
    s.db.items.get? id = some i ∨ s.db.items.get? id = none := by
  refine h₁.induct_from (N := {id})
    (I := fun d => d.items.get? id = some i ∨ d.items.get? id = none) hrun ?_ (.inl hi)
    fun {op u K d d' r n} hv hN hc hd => ?_
  · rintro _ rfl
    refine h₁.retired fun hunused => ?_
    rw [hunused.item] at hi
    cases hi
  · cases hc.item hv id with
    | same h' => rwa [h']
    | created i' hserial => exact absurd hserial (hN id rfl)
    | started i₀ start token hi₀ hqueued =>
        rcases hd with hd | hd <;> rw [hi₀] at hd <;> cases hd
        simp [Item.pending, hqueued] at hdone
    | ended i₀ i' hi₀ hrunning =>
        rcases hd with hd | hd <;> rw [hi₀] at hd <;> cases hd
        simp [Item.pending, hrunning] at hdone
    | pruned i₀ hi₀ _ h' => exact .inr h'

/-- The item of an executor's transaction. -/
def Op.item? : Op → Option ClaimedItem
  | .skipItem item | .failItem item | .recordReachability item _ | .recordBackupFailure item _
  | .recordBackup item _ => some item
  | _ => none

/-- An executor whose item does not run under its token changes nothing. -/
theorem Commit.superseded_silent (h : Commit P op u K d d' r) {item : ClaimedItem}
    (hop : op.item? = some item) (hheld : d.held item.id item.leaseToken = false) : d' = d := by
  have hno : ∀ {x : ClaimedItem}, some x = some item → x.Runs K d → d' = d := by
    rintro x ⟨⟩ hruns
    rw [hruns.held] at hheld
    cases hheld
  cases h with
  | lost => rfl
  | ended x start f hop' hbackup hruns =>
      refine hno ?_ hruns
      rcases hop' with ⟨rfl, -⟩ | ⟨rfl, -⟩ <;> exact hop
  | checked x p start write hkind hruns => exact hno hop hruns
  | backupFailed x m start write hkind hruns => exact hno hop hruns
  | unchanged x c start write m hkind hruns => exact hno hop hruns
  | backedUp x c start write m id hkind hruns => exact hno hop hruns
  | _ => cases hop

/-- **A stale executor leaves nothing behind**: its item having ceased to run under its token at
some time before, its commit changes nothing.

Between the two states the item may have been swept, claimed again by somebody else, ended and
pruned.  In none of these states is it running under the old token again, so the update of the old
executor matches no row, at whatever time it is executed. -/
theorem Plane.Reachable.executor_fenced {s₁ s : Plane} (h₁ : Plane.Reachable P s₁)
    (hrun : Plane.Steps P s₁ s) {item : ClaimedItem} (hhanded : item ∈ s₁.db.handed)
    (hheld : s₁.db.held item.id item.leaseToken = false) {t : ℕ} {op : Op} {w : Db → Db}
    {r : Reply} (hop : op.item? = some item) (ht : s.txns t = .active op () w (.pure r)) :
    w s.db = s.db := by
  have hstale : item ∈ s.db.handed ∧ s.db.held item.id item.leaseToken = false := by
    refine h₁.induct_from (N := ∅) (I := fun d => item ∈ d.handed ∧
      d.held item.id item.leaseToken = false) hrun nofun ⟨hhanded, hheld⟩ ?_
    rintro op u K d d' r n hv - hc ⟨hm, hno⟩
    refine ⟨hc.handed hm, Bool.eq_false_iff.mpr fun hheld' => ?_⟩
    rw [(hc.held_back hv hm hheld').2] at hno
    cases hno
  exact (Plane.Reachable.commit (h₁.trans hrun) ht).2.superseded_silent hop hstale.2

theorem Db.refsSound_empty : Db.empty.RefsSound where
  done _ _ _ hi := by simp [Db.empty] at hi
  once _ _ _ _ _ hi := by simp [Db.empty] at hi

theorem Plane.Reachable.refsSound {s : Plane} (h : Plane.Reachable P s) : s.db.RefsSound :=
  h.induct Db.refsSound_empty fun hv _ hc hd => hc.refsSound hv hd

/-- The version of a switch is referred to by one item of it, or was by one whose task has been
pruned since. -/
def Plane.Referred (P : Platform) (s : Plane) (bid : Id) (b : Backup) : Prop :=
  (∃ id i, s.db.RefersOnce bid id i ∧ i.switchId = b.switchId) ∨
  (∀ id i, s.db.items.get? id = some i → i.backupId ≠ some bid) ∧
    ∃ s₀, Plane.Reachable P s₀ ∧ Plane.Steps P s₀ s ∧ ∃ id i, s₀.db.RefersOnce bid id i ∧
      i.switchId = b.switchId ∧ s.db.tasks.get? i.taskId = none

/-- A commit keeps what is known of a version that was there. -/
private theorem Plane.Referred.commit {s s' : Plane} {bid : Id} {b : Backup}
    (h : Plane.Referred P s bid b) (hs : Plane.Reachable P s) (hstep : Plane.Steps P s s')
    (hb : s.db.backups.get? bid = some b) (hc : Commit P op u K s.db s'.db r)
    (hK : ∀ n, s.Retired n → .serial n ∉ K) : Plane.Referred P s' bid b := by
  have hv := hs.sound.inv
  rcases h with ⟨id, i, hi, hswitch⟩ | ⟨hno, s₀, hs₀, hsteps, id, i, hi, hswitch, hgone⟩
  · rcases hc.refersOnce hv hs.refsSound hb hi with hi' | ⟨hgone, hno⟩
    · exact .inl ⟨id, i, hi', hswitch⟩
    · exact .inr ⟨hno, s, hs, hstep, id, i, hi, hswitch, hgone⟩
  · refine .inr ⟨fun id' i' hi' hb' => ?_, s₀, hs₀, hsteps.trans hstep, id, i, hi, hswitch, ?_⟩
    · rcases hc.refers hv hs.refsSound hi' hb' with hold | ⟨-, -, new, b₀, hnew, hfresh, -⟩
      · exact hno id' i' hold hb'
      · rw [hb'] at hnew
        cases hnew
        rw [hfresh.backup] at hb
        cases hb
    · -- the number of a task that has been there is not drawn again
      obtain ⟨t, ht⟩ := hs₀.sound.inv.item_task id i hi.row
      have hret : s.Retired i.taskId := by
        refine Sys.steps_retired hsteps (hs₀.retired fun hunused => ?_)
        rw [hunused.task] at ht
        cases ht
      cases ht' : s'.db.tasks.get? i.taskId with
      | none => rfl
      | some t' =>
          rcases hc.task_back ht' with hold | hserial
          · rw [hgone] at hold
            cases hold
          · exact absurd hserial (hK _ hret)

theorem Plane.Reachable.referred {s : Plane} (h : Plane.Reachable P s) {bid : Id} {b : Backup}
    (hb : s.db.backups.get? bid = some b) : Plane.Referred P s bid b := by
  induction h with
  | refl => simp [Sys.init, Db.empty] at hb
  | @tail s₁ s₂ hrun hstep ih =>
      obtain ⟨a, ha⟩ := hstep
      have hs₁ : Plane.Reachable P s₁ := hrun
      have hone : Plane.Steps P s₁ s₂ := .single ⟨a, ha⟩
      cases Sys.step_moved ha with
      | quiet hdb =>
          rw [hdb] at hb
          have hsame := ih hb
          simp only [Plane.Referred, hdb] at hsame ⊢
          refine hsame.imp_right ?_
          rintro ⟨hno, s₀, hs₀, hsteps, hrest⟩
          exact ⟨hno, s₀, hs₀, hsteps.trans hone, hrest⟩
      | commit op u r w ht hdb htxns =>
          have hc : Commit P op u (s₁.heldBy a.txn) s₁.db s₂.db r :=
            hdb ▸ (hs₁.sound.commits ht).2
          have hret : ∀ n, s₁.Retired n → .serial n ∉ s₁.heldBy a.txn := by
            intro n hn hheld
            have hlock : s₁.locks (.serial n) = some a.txn := hheld
            rw [hn.2] at hlock
            cases hlock
          cases hc.backups hs₁.sound.inv with
          | same h' =>
              rw [h'] at hb
              exact (ih hb).commit hs₁ hone hb hc hret
          | added item new b' hruns hkind hswitch hserial hfresh hcaptured hlatest hlast h'
              hitem =>
              rw [h', Table.get?_insert] at hb
              split at hb
              · next hbid =>
                  subst hbid
                  cases hb
                  obtain ⟨i, hi, -, -, hbackup, hswitch'⟩ := hitem
                  refine .inl ⟨item.id, i, ?_, hswitch'.trans hswitch.symm⟩
                  exact (hc.refsSound hs₁.sound.inv hs₁.refsSound).refersOnce hi hbackup
              · exact (ih hb).commit hs₁ hone hb hc hret

/-- **Configuration versions are sound**: consecutive versions of a switch differ, each is
referred to by the one item that recorded it until that item's task is pruned, an item that has
ended never changes again, and an executor whose item no longer runs under its token leaves no
version, no status and no alert behind.

A backup compares the configuration it has read with the last version of its switch, under the lock
of the switch, and inserts a version only where the two differ.  The items of a switch may be
executed late, after a sweep has given them up; what such an executor still does is fenced by its
token, of which the row of the item is the only holder.  `Referred` follows a version from the item
that recorded it to the pruning of that item's task. -/
theorem Plane.Reachable.versions_sound {s₁ : Plane} (h₁ : Plane.Reachable P s₁) :
    s₁.db.VersionsDiffer ∧
    (∀ bid b, s₁.db.backups.get? bid = some b → Plane.Referred P s₁ bid b) ∧
    ∀ s, Plane.Steps P s₁ s →
      (∀ id i, s₁.db.items.get? id = some i → i.pending = false →
        s.db.items.get? id = some i ∨ s.db.items.get? id = none) ∧
      ∀ item ∈ s₁.db.handed, s₁.db.held item.id item.leaseToken = false →
        ∀ t op w r, op.item? = some item → s.txns t = .active op () w (.pure r) →
          w s.db = s.db := by
  refine ⟨?_, fun bid b hb => h₁.referred hb, fun s hs => ⟨?_, ?_⟩⟩
  · refine h₁.induct (fun s x y hx => ?_) fun hv _ hc hd => hc.versionsDiffer hv hd
    cases hx
  · exact fun id i hi hdone => h₁.ended_stays hs hi hdone
  · exact fun item hhanded hheld t op w r hop ht => h₁.executor_fenced hs hhanded hheld hop ht

namespace Demo

/-- The switch is backed up: the item `2`, claimed under the token `3`, records the version
`4`. -/
def versioned : Plane :=
  act 3 (.recordBackup ⟨2, 3, .configBackup, 0⟩ ⟨"sha", 12, 1, "v1:sealed"⟩)
    (act 2 (.claimDeviceItems 1)
      (act 1 (.runTask admin ⟨"config_backup", "all", .empty, []⟩) equipped))

theorem versioned_reachable : versioned.Reachable platform :=
  act_reachable (act_reachable (act_reachable equipped_reachable ..) ..) ..

/-- The version of the concrete run is referred to, and what follows leaves its item alone. -/
theorem versioned_referred : ∃ b i, versioned.db.backups.get? 4 = some b ∧
    Plane.Referred platform versioned 4 b ∧ versioned.db.items.get? 2 = some i ∧
    ∀ s, Plane.Steps platform versioned s →
      s.db.items.get? 2 = some i ∨ s.db.items.get? 2 = none := by
  have hb : (versioned.db.backups.get? 4).isSome = true := by decide +kernel
  have hi : ((versioned.db.items.get? 2).any fun i => !i.pending) = true := by decide +kernel
  obtain ⟨b, hb⟩ := Option.isSome_iff_exists.mp hb
  obtain ⟨i, hi, hdone⟩ := (Option.any_eq_true _ _).mp hi
  obtain ⟨-, hreferred, hstays⟩ := versioned_reachable.versions_sound
  exact ⟨b, i, hb, hreferred 4 b hb, hi,
    fun s hs => (hstays s hs).1 2 i hi (by simpa using hdone)⟩

end Demo

end BindPlane.Devices
