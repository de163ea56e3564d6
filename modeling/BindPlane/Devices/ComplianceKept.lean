import BindPlane.Devices.Compliance
import Mathlib.Data.Prod.Lex

/-!
# What evaluations keep

`World.Sound` is what holds of the tables and of the evaluations in every state.

* `Store.Grows` is what happens to the inputs of an evaluation: nothing is deleted, a backup does
  not change, and a rule that changes gets a new version.  So what was read stays true of its
  version (`Store.Owes`, `Store.Holds`).
* `Store.Keyed` is about the alerts: those of the compliance have the keys of their pairs, and no
  key has two unresolved ones.  What is unresolved after a statement is said by
  `unresolved_resolveAlert`, `unresolved_resolveStale` and `unresolved_upsertAlert`.
* `Store.mem_duties` says what there is to do.
-/

namespace BindPlane.Compliance

open ReadCommitted Devices

namespace Store

/-! ## What does not change -/

/-- The inputs of an evaluation grow. -/
structure Grows (d d' : Store) : Prop where
  switches : ∀ s, (d.switches.get? s).isSome = true → (d'.switches.get? s).isSome = true
  backups : ∀ id b, d.backups.get? id = some b → d'.backups.get? id = some b
  rules : ∀ r rule, d.rules.get? r = some rule →
    ∃ rule', d'.rules.get? r = some rule' ∧ (rule' = rule ∨ rule.version < rule'.version)

/-- The item is of rows that are there, and of the rule as it was at its version. -/
structure Owes (d : Store) (w : Work) : Prop where
  switch : (d.switches.get? w.switchId).isSome = true
  backup : ∃ b, d.backups.get? w.backupId = some b ∧ b.switchId = w.switchId
  rule : ∃ rule, d.rules.get? w.ruleId = some rule ∧ w.ruleVersion ≤ rule.version ∧
    (w.ruleVersion = rule.version →
      w.pattern = rule.pattern ∧ w.mode = rule.mode ∧ w.severity = rule.severity)

/-- What a rule makes of a backup. -/
def verdict (P : Platform) (rule : Rule) (b : Backup) : Bool × Option String :=
  let judged := judge P rule.pattern rule.mode (P.openConfig b.encryptedContent)
  (judged.1, if judged.2 = "" then none else some judged.2)

/-- The result is of a backup of the switch, and what the rule made of it at its version.

A result may be out of date, since a rule is edited or a newer backup arrives.  It stays a true
record of its own versions, and the versions in it are how the next evaluation sees that it is out
of date. -/
structure Holds (P : Platform) (d : Store) (s r : Id) (result : Result) : Prop where
  switch : (d.switches.get? s).isSome = true
  backup : ∃ b, d.backups.get? result.backupId = some b ∧ b.switchId = s
  rule : ∃ rule, d.rules.get? r = some rule ∧ result.ruleVersion ≤ rule.version ∧
    (result.ruleVersion = rule.version → ∀ b, d.backups.get? result.backupId = some b →
      (result.passed, result.detail) = verdict P rule.toRule b)

variable {P : Platform} {d d' : Store} {w : Work} {s r : Id} {result : Result}

theorem Grows.refl (d : Store) : d.Grows d :=
  ⟨fun _ h => h, fun _ _ h => h, fun _ rule h => ⟨rule, h, .inl rfl⟩⟩

/-- The inputs are the same. -/
theorem Grows.of (hswitches : d'.switches = d.switches) (hbackups : d'.backups = d.backups)
    (hrules : d'.rules = d.rules) : d.Grows d' := by
  refine ⟨fun s h => ?_, fun id b h => ?_, fun r rule h => ⟨rule, ?_, .inl rfl⟩⟩
  · rwa [hswitches]
  · rwa [hbackups]
  · rwa [hrules]

theorem Owes.grows (h : d.Owes w) (hgrows : d.Grows d') : d'.Owes w := by
  obtain ⟨b, hb, hs⟩ := h.backup
  obtain ⟨rule, hrule, hle, hsame⟩ := h.rule
  refine ⟨hgrows.switches _ h.switch, ⟨b, hgrows.backups _ _ hb, hs⟩, ?_⟩
  obtain ⟨rule', hrule', rfl | hlt⟩ := hgrows.rules _ _ hrule
  · exact ⟨rule', hrule', hle, hsame⟩
  · exact ⟨rule', hrule', by omega, fun heq => by omega⟩

theorem Holds.grows (h : d.Holds P s r result) (hgrows : d.Grows d') : d'.Holds P s r result := by
  obtain ⟨b, hb, hs⟩ := h.backup
  obtain ⟨rule, hrule, hle, hsame⟩ := h.rule
  refine ⟨hgrows.switches _ h.switch, ⟨b, hgrows.backups _ _ hb, hs⟩, ?_⟩
  obtain ⟨rule', hrule', rfl | hlt⟩ := hgrows.rules _ _ hrule
  · refine ⟨rule', hrule', hle, fun heq b' hb' => ?_⟩
    rw [hgrows.backups _ _ hb] at hb'
    exact hsame heq b' (hb.trans hb')
  · exact ⟨rule', hrule', by omega, fun heq => by omega⟩

/-! ## Alerts -/

/-- The key is that of a pair exactly where the alert is of the compliance, of that pair. -/
def Labelled (kind : AlertKind) (switchId : Id) (ruleId : Option Id) (key : DedupeKey) : Prop :=
  (kind = .complianceViolation → ruleId.isSome = true) ∧
    ∀ s r, key = .compliance s r ↔
      kind = .complianceViolation ∧ switchId = s ∧ ruleId = some r

/-- A write leaves alone what says whose alert it is. -/
def Still (a a' : Alert) : Prop :=
  a'.kind = a.kind ∧ a'.switchId = a.switchId ∧ a'.ruleId = a.ruleId ∧ a'.dedupeKey = a.dedupeKey

/-- What holds of the alerts. -/
structure Keyed (d : Store) : Prop where
  label : ∀ id a, d.alerts.get? id = some a → Labelled a.kind a.switchId a.ruleId a.dedupeKey
  single : ∀ id a id' a', d.alerts.get? id = some a → d.alerts.get? id' = some a' →
    a.active = true → a'.active = true → a.dedupeKey = a'.dedupeKey → id = id'
  fresh : ∀ id, d.nextAlert ≤ id → d.alerts.get? id = none

/-- There is an unresolved alert. -/
def Unresolved (d : Store) (key : DedupeKey) : Prop :=
  ∃ id a, d.alerts.get? id = some a ∧ a.dedupeKey = key ∧ a.active = true

variable {p : ℕ → Alert → Bool} {f touch : Alert → Alert} {new : NewAlert} {key key' : DedupeKey}

/-- An update of alerts, after which no more of them are unresolved. -/
theorem Keyed.updateWhere (h : d.Keyed)
    (hf : ∀ id a, d.alerts.get? id = some a → p id a = true →
      Still a (f a) ∧ ((f a).active = true → a.active = true)) :
    ({ d with alerts := d.alerts.updateWhere p f } : Store).Keyed := by
  have hrows : ∀ id a', (d.alerts.updateWhere p f).get? id = some a' →
      ∃ a, d.alerts.get? id = some a ∧ Still a a' ∧ (a'.active = true → a.active = true) := by
    intro id a' ha'
    rw [Table.get?_updateWhere, Option.map_eq_some_iff] at ha'
    obtain ⟨a, ha, rfl⟩ := ha'
    refine ⟨a, ha, ?_⟩
    split
    next hp => exact hf id a ha hp
    next => exact ⟨⟨rfl, rfl, rfl, rfl⟩, fun h => h⟩
  refine ⟨fun id a' ha' => ?_, fun id a' i b' ha' hb' hactive hactive' hkey => ?_, fun id hid => ?_⟩
  · obtain ⟨a, ha, ⟨hkind, hs, hr, hkey⟩, -⟩ := hrows id a' ha'
    rw [hkind, hs, hr, hkey]
    exact h.label id a ha
  · obtain ⟨a, ha, ⟨-, -, -, hka⟩, hacta⟩ := hrows id a' ha'
    obtain ⟨b, hb, ⟨-, -, -, hkb⟩, hactb⟩ := hrows i b' hb'
    exact h.single id a i b ha hb (hacta hactive) (hactb hactive') (hka.symm.trans (hkey.trans hkb))
  · show (d.alerts.updateWhere p f).get? id = none
    rw [Table.get?_updateWhere, h.fresh id hid]
    rfl

theorem unresolved_updateWhere :
    ({ d with alerts := d.alerts.updateWhere p f } : Store).Unresolved key ↔
      ∃ id a, d.alerts.get? id = some a ∧
        (if p id a then f a else a).dedupeKey = key ∧
        (if p id a then f a else a).active = true := by
  constructor
  · rintro ⟨id, a', ha', hkey, hactive⟩
    rw [Table.get?_updateWhere, Option.map_eq_some_iff] at ha'
    obtain ⟨a, ha, rfl⟩ := ha'
    exact ⟨id, a, ha, hkey, hactive⟩
  · rintro ⟨id, a, ha, hkey, hactive⟩
    refine ⟨id, _, ?_, hkey, hactive⟩
    rw [Table.get?_updateWhere, ha]
    rfl

/-- After a resolution the alert is resolved, and the others are as they were. -/
theorem unresolved_resolveAlert : (d.resolveAlert key).Unresolved key' ↔
    key' ≠ key ∧ d.Unresolved key' := by
  rw [resolveAlert, unresolved_updateWhere]
  constructor
  · rintro ⟨id, a, ha, hkey, hactive⟩
    by_cases hp : a.dedupeKey = key ∧ a.active = true
    · rw [if_pos (by simpa using hp)] at hactive
      cases hactive
    · rw [if_neg (by simpa using hp)] at hkey hactive
      refine ⟨fun heq => hp ⟨hkey.trans heq, hactive⟩, id, a, ha, hkey, hactive⟩
  · rintro ⟨hne, id, a, ha, hkey, hactive⟩
    have hp : ¬(a.dedupeKey = key ∧ a.active = true) := fun hp => hne (hkey.symm.trans hp.1)
    refine ⟨id, a, ha, ?_⟩
    rw [if_neg (by simpa using hp)]
    exact ⟨hkey, hactive⟩

/-- After the stale ones are resolved, the alerts of the compliance are of violations. -/
theorem unresolved_resolveStale (h : d.Keyed) : d.resolveStale.Unresolved (.compliance s r) ↔
    d.violated s r = true ∧ d.Unresolved (.compliance s r) := by
  rw [resolveStale, unresolved_updateWhere]
  constructor
  · rintro ⟨id, a, ha, hkey, hactive⟩
    split at hactive
    next => cases hactive
    next hp =>
      rw [if_neg hp] at hkey
      obtain ⟨hkind, hs, hr⟩ := ((h.label id a ha).2 s r).mp hkey
      refine ⟨?_, id, a, ha, hkey, hactive⟩
      simpa [hkind, hactive, hs, hr] using hp
  · rintro ⟨hviolated, id, a, ha, hkey, hactive⟩
    obtain ⟨hkind, hs, hr⟩ := ((h.label id a ha).2 s r).mp hkey
    refine ⟨id, a, ha, ?_⟩
    rw [if_neg (by simp [hs, hr, hviolated])]
    exact ⟨hkey, hactive⟩

/-- A key with an unresolved alert is that of an entry of the index. -/
theorem activeAlert_eq_some {id : Id} {a : Alert} (h : d.activeAlert key = some (id, a)) :
    d.alerts.get? id = some a ∧ a.dedupeKey = key ∧ a.active = true := by
  obtain ⟨ha, hp⟩ := Table.find?_eq_some h
  exact ⟨ha, by simpa using hp⟩

theorem activeAlert_eq_none (h : d.activeAlert key = none) : ¬d.Unresolved key := by
  rintro ⟨id, a, ha, hkey, hactive⟩
  have hp := Table.find?_eq_none.mp h id a ha
  simp [hkey, hactive] at hp

/-- After an upsert the alert is unresolved, and the others are as they were. -/
theorem unresolved_upsertAlert (h : d.Keyed)
    (htouch : ∀ a, Still a (touch a) ∧ (touch a).active = a.active) :
    (d.upsertAlert new touch).Unresolved key ↔ key = new.key ∨ d.Unresolved key := by
  unfold upsertAlert
  split
  next id a hactive =>
    obtain ⟨ha, hkey, hact⟩ := activeAlert_eq_some hactive
    have hsame : ∀ b : Alert, (touch b).dedupeKey = b.dedupeKey ∧ (touch b).active = b.active :=
      fun b => ⟨(htouch b).1.2.2.2, (htouch b).2⟩
    rw [Table.modify, unresolved_updateWhere]
    constructor
    · rintro ⟨i, b, hb, hbkey, hbactive⟩
      refine .inr ⟨i, b, hb, ?_⟩
      split at hbkey
      next hi => rw [if_pos hi] at hbactive; exact ⟨(hsame b).1 ▸ hbkey, (hsame b).2 ▸ hbactive⟩
      next hi => rw [if_neg hi] at hbactive; exact ⟨hbkey, hbactive⟩
    · intro hor
      obtain ⟨i, b, hb, hbkey, hbactive⟩ : d.Unresolved key := by
        rcases hor with rfl | hor
        · exact ⟨id, a, ha, hkey, hact⟩
        · exact hor
      refine ⟨i, b, hb, ?_⟩
      split
      next => exact ⟨(hsame b).1.trans hbkey, (hsame b).2.trans hbactive⟩
      next => exact ⟨hbkey, hbactive⟩
  next hnone =>
    have hfresh : d.alerts.get? d.nextAlert = none := h.fresh _ le_rfl
    constructor
    · rintro ⟨i, b, hb, hbkey, hbactive⟩
      rw [show (d.alerts.insert _ _).get? i = _ from Table.get?_insert ..] at hb
      split at hb
      next => cases hb; exact .inl hbkey.symm
      next => exact .inr ⟨i, b, hb, hbkey, hbactive⟩
    · rintro (rfl | ⟨i, b, hb, hbkey, hbactive⟩)
      · exact ⟨d.nextAlert, _, Table.get?_insert_self .., rfl, rfl⟩
      · have hne : i ≠ d.nextAlert := by
          rintro rfl
          rw [hfresh] at hb
          cases hb
        exact ⟨i, b, (Table.get?_insert_of_ne _ hne _).trans hb, hbkey, hbactive⟩

theorem Keyed.upsertAlert (h : d.Keyed)
    (hnew : Labelled new.kind new.switchId new.ruleId new.key)
    (htouch : ∀ a, Still a (touch a) ∧ (touch a).active = a.active) :
    (d.upsertAlert new touch).Keyed := by
  unfold Store.upsertAlert
  split
  next id a hactive =>
    exact h.updateWhere fun _ b _ _ => ⟨(htouch b).1, fun hact => (htouch b).2 ▸ hact⟩
  next hnone =>
    have hother : ∀ i b, (d.alerts.insert d.nextAlert (new.row d.clock)).get? i = some b →
        (i = d.nextAlert ∧ b = new.row d.clock) ∨ d.alerts.get? i = some b := by
      intro i b hb
      rw [Table.get?_insert] at hb
      split at hb
      next hi => cases hb; exact .inl ⟨hi, rfl⟩
      next => exact .inr hb
    have hfree : ∀ i b, d.alerts.get? i = some b → b.active = true → b.dedupeKey ≠ new.key :=
      fun i b hb hactive hkey => activeAlert_eq_none hnone ⟨i, b, hb, hkey, hactive⟩
    refine ⟨fun i b hb => ?_, fun i b j c hb hc hactive hactive' hkey => ?_, fun i hi => ?_⟩
    · rcases hother i b hb with ⟨-, rfl⟩ | hb
      · exact hnew
      · exact h.label i b hb
    · rcases hother i b hb with ⟨rfl, rfl⟩ | hb <;> rcases hother j c hc with ⟨rfl, rfl⟩ | hc
      · rfl
      · exact absurd hkey.symm (hfree j c hc hactive')
      · exact absurd hkey (hfree i b hb hactive)
      · exact h.single i b j c hb hc hactive hactive' hkey
    · have hlt : d.nextAlert < i := hi
      show (d.alerts.insert _ _).get? i = none
      rw [Table.get?_insert_of_ne _ hlt.ne']
      exact h.fresh i hlt.le

@[simp] theorem upsertAlert_results : (d.upsertAlert new touch).results = d.results := by
  unfold upsertAlert
  split <;> rfl

theorem upsertAlert_inputs : (d.upsertAlert new touch).switches = d.switches ∧
    (d.upsertAlert new touch).rules = d.rules ∧ (d.upsertAlert new touch).backups = d.backups := by
  unfold upsertAlert
  split <;> exact ⟨rfl, rfl, rfl⟩

theorem Keyed.resolve (h : d.Keyed) :
    ({ d with alerts := d.alerts.updateWhere p (Alert.resolve d.clock) } : Store).Keyed :=
  h.updateWhere fun _ _ _ _ => ⟨⟨rfl, rfl, rfl, rfl⟩, fun h => by cases h⟩

/-! ## The tables -/

/-- What holds of the tables. -/
structure Kept (P : Platform) (d : Store) : Prop where
  positive : ∀ id b, d.backups.get? id = some b → 0 < id
  results : ∀ s r result, d.results s r = some result → d.Holds P s r result
  keyed : d.Keyed

/-- The inputs grow, and there are no new results. -/
theorem Kept.grows (h : d.Kept P) (hgrows : d.Grows d')
    (hpositive : ∀ id b, d'.backups.get? id = some b → 0 < id)
    (hresults : ∀ s r result, d'.results s r = some result → d.results s r = some result)
    (hkeyed : d'.Keyed) : d'.Kept P :=
  ⟨hpositive, fun s r result hr => (h.results s r result (hresults s r result hr)).grows hgrows,
    hkeyed⟩

/-- Only the alerts are others. -/
theorem Kept.alerts (h : d.Kept P) (hinputs : d'.switches = d.switches ∧ d'.rules = d.rules ∧
    d'.backups = d.backups) (hresults : d'.results = d.results) (hkeyed : d'.Keyed) :
    d'.Kept P := by
  refine h.grows (.of hinputs.1 hinputs.2.2 hinputs.2.1) (fun id b hb => ?_)
    (fun s r result hr => ?_) hkeyed
  · rw [hinputs.2.2] at hb
    exact h.positive id b hb
  · rwa [hresults] at hr

theorem labelled_violation (item : Work) (detail : String) :
    Labelled (violation P item detail).kind (violation P item detail).switchId
      (violation P item detail).ruleId (violation P item detail).key := by
  refine ⟨fun _ => rfl, fun s r => ?_⟩
  simp [violation, complianceAlert]

theorem still_seen (now : Instant) (a : Alert) :
    Still a (Alert.seen now new a) ∧ (Alert.seen now new a).active = a.active :=
  ⟨⟨rfl, rfl, rfl, rfl⟩, rfl⟩

theorem still_seenAs (now : Instant) (a : Alert) :
    Still a (Alert.seenAs now new a) ∧ (Alert.seenAs now new a).active = a.active :=
  ⟨⟨rfl, rfl, rfl, rfl⟩, rfl⟩

/-- **Nobody's write takes an input away.** -/
theorem written_grows {x : Write} (h : d.permits x = true) : d.Grows (d.written x) := by
  cases x with
  | tick | acknowledge | prune | workerResolves => exact .of rfl rfl rfl
  | createSwitch id sw =>
    refine ⟨fun s hs => ?_, fun _ _ h => h, fun r rule h => ⟨rule, h, .inl rfl⟩⟩
    show ((d.switches.insert id sw).get? s).isSome = true
    rw [Table.get?_insert]
    split
    · rfl
    · exact hs
  | editSwitch id sw =>
    refine ⟨fun s hs => ?_, fun _ _ h => h, fun r rule h => ⟨rule, h, .inl rfl⟩⟩
    show ((d.switches.modify id _).get? s).isSome = true
    rw [Table.get?_modify]
    split
    · rwa [Option.isSome_map]
    · exact hs
  | createRule id rule =>
    refine ⟨fun _ h => h, fun _ _ h => h, fun r old hold => ⟨old, ?_, .inl rfl⟩⟩
    refine (Table.get?_insert_of_ne _ ?_ _).trans hold
    rintro rfl
    simp [permits, hold] at h
  | editRule id rule =>
    refine ⟨fun _ h => h, fun _ _ h => h, fun r old hold => ?_⟩
    by_cases hr : r = id
    · subst hr
      refine ⟨⟨rule, old.version + 1⟩, ?_, .inr (Nat.lt_succ_self _)⟩
      exact (Table.get?_modify_self ..).trans (by rw [hold]; rfl)
    · exact ⟨old, (Table.get?_modify_of_ne _ hr _).trans hold, .inl rfl⟩
  | captureBackup id backup =>
    refine ⟨fun _ h => h, fun i b hb => ?_, fun r rule h => ⟨rule, h, .inl rfl⟩⟩
    refine (Table.get?_insert_of_ne _ ?_ _).trans hb
    rintro rfl
    simp [permits, hb] at h
  | workerAlert new => exact .of upsertAlert_inputs.1 upsertAlert_inputs.2.2 upsertAlert_inputs.2.1

theorem written_results (x : Write) : (d.written x).results = d.results := by
  cases x with
  | workerAlert new => exact upsertAlert_results
  | _ => rfl

/-- A worker's alert is not of the compliance. -/
theorem labelled_worker (hkey : DedupeKey.ofWorker new.key = true)
    (hkind : new.kind ≠ .complianceViolation) :
    Labelled new.kind new.switchId new.ruleId new.key := by
  refine ⟨fun h => absurd h hkind, fun s r => ?_⟩
  constructor
  · intro heq
    rw [heq] at hkey
    cases hkey
  · rintro ⟨h, -⟩
    exact absurd h hkind

theorem Keyed.written {x : Write} (hkeyed : d.Keyed) (h : d.permits x = true) :
    (d.written x).Keyed := by
  cases x with
  | acknowledge id email =>
    refine hkeyed.updateWhere fun i a _ hp => ⟨⟨rfl, rfl, rfl, rfl⟩, fun _ => ?_⟩
    obtain ⟨-, hstatus⟩ := (Bool.and_eq_true _ _).mp hp
    simp [Alert.active, of_decide_eq_true hstatus]
  | workerAlert new =>
    obtain ⟨hkey, hkind⟩ := (Bool.and_eq_true _ _).mp h
    exact hkeyed.upsertAlert (labelled_worker hkey (of_decide_eq_true hkind)) (still_seen _)
  | workerResolves key => exact hkeyed.resolve
  | prune before =>
    have hrows : ∀ i a, (d.written (.prune before)).alerts.get? i = some a →
        d.alerts.get? i = some a := by
      intro i a ha
      simp only [Store.written, Table.get?_deleteWhere, Option.filter_eq_some_iff] at ha
      exact ha.1
    refine ⟨fun i a ha => hkeyed.label i a (hrows i a ha), fun i a j b ha hb =>
      hkeyed.single i a j b (hrows i a ha) (hrows j b hb), fun i hi => ?_⟩
    show (d.alerts.deleteWhere _).get? i = none
    rw [Table.get?_deleteWhere, hkeyed.fresh i hi]
    rfl
  | _ => exact ⟨hkeyed.label, hkeyed.single, hkeyed.fresh⟩

/-- **Every write keeps the tables.** -/
theorem Kept.written {x : Write} (hkept : d.Kept P) (h : d.permits x = true) :
    (d.written x).Kept P := by
  refine hkept.grows (written_grows h) ?_ (fun s r result hr => written_results x ▸ hr)
    (hkept.keyed.written h)
  cases x with
  | workerAlert new =>
    show ∀ id b, (d.upsertAlert _ _).backups.get? id = some b → 0 < id
    rw [upsertAlert_inputs.2.2]
    exact hkept.positive
  | captureBackup id backup =>
    intro i b hb
    simp only [Store.written, Table.get?_insert] at hb
    split at hb
    next hi =>
      simp only [permits, Bool.and_eq_true, decide_eq_true_eq] at h
      exact hi ▸ h.1.1
    next => exact hkept.positive i b hb
  | _ => exact hkept.positive

/-! ## What there is to do -/

/-- By the time of the capture, and then by the key. -/
def rank (x : ℕ × Backup) : Lex (Instant × ℕ) := toLex (x.2.capturedAt, x.1)

/-- The backup is the latest of the switch. -/
structure IsLatest (d : Store) (s id : Id) (b : Backup) : Prop where
  row : d.backups.get? id = some b
  switch : b.switchId = s
  last : ∀ i c, d.backups.get? i = some c → c.switchId = s → rank (i, c) ≤ rank (id, b)

theorem later_iff {a b : ℕ × Backup} : later a b = true ↔ rank a < rank b := by
  rw [rank, rank, Prod.Lex.toLex_lt_toLex]
  simp [later]

theorem mem_of_latestOf {l : List (ℕ × Backup)} {x : ℕ × Backup} (h : latestOf l = some x) :
    x ∈ l := by
  induction l generalizing x with
  | nil => cases h
  | cons b rest ih =>
    simp only [latestOf] at h
    split at h
    next => cases h; exact List.mem_cons_self
    next a ha =>
      split at h <;> cases h
      · exact List.mem_cons_of_mem _ (ih ha)
      · exact List.mem_cons_self

theorem latestOf_eq_none {l : List (ℕ × Backup)} (h : latestOf l = none) : l = [] := by
  cases l with
  | nil => rfl
  | cons b rest =>
    simp only [latestOf] at h
    split at h
    · cases h
    · split at h <;> cases h

theorem rank_le_of_latestOf {l : List (ℕ × Backup)} {x y : ℕ × Backup} (h : latestOf l = some x)
    (hy : y ∈ l) : rank y ≤ rank x := by
  induction l generalizing x with
  | nil => cases h
  | cons b rest ih =>
    simp only [latestOf] at h
    split at h
    next hnone =>
      cases h
      obtain rfl : y = b := by simpa [latestOf_eq_none hnone] using hy
      exact le_rfl
    next a ha =>
      split at h
      next hba =>
        cases h
        rcases List.mem_cons.mp hy with rfl | hy
        · exact (later_iff.mp hba).le
        · exact ih ha hy
      next hba =>
        cases h
        rcases List.mem_cons.mp hy with rfl | hy
        · exact le_rfl
        · exact (ih ha hy).trans (not_lt.mp (mt later_iff.mpr hba))

/-- **The row that `latest` has for a switch is its latest backup.** -/
theorem latest_eq_some {id : Id} {b : Backup} : d.latest s = some (id, b) ↔ d.IsLatest s id b := by
  have hmem : ∀ x : ℕ × Backup, x ∈ d.backups.rows.filter (fun b => b.2.switchId = s) ↔
      d.backups.get? x.1 = some x.2 ∧ x.2.switchId = s := by
    intro x
    rw [List.mem_filter, ← Table.mem_rows, decide_eq_true_eq]
  constructor
  · intro h
    obtain ⟨hrow, hswitch⟩ := (hmem _).mp (mem_of_latestOf h)
    refine ⟨hrow, hswitch, fun i c hc hs => ?_⟩
    exact rank_le_of_latestOf h ((hmem (i, c)).mpr ⟨hc, hs⟩)
  · rintro ⟨hrow, hswitch, hlast⟩
    have hin := (hmem (id, b)).mpr ⟨hrow, hswitch⟩
    unfold latest
    match hl : latestOf (d.backups.rows.filter fun b => b.2.switchId = s) with
    | none =>
      rw [latestOf_eq_none hl] at hin
      cases hin
    | some (i, c) =>
      obtain ⟨hc, hcs⟩ := (hmem _).mp (mem_of_latestOf hl)
      have hrank := (hlast i c hc hcs).antisymm (rank_le_of_latestOf hl hin)
      obtain rfl : i = id := congrArg (fun x => (ofLex x).2) hrank
      exact congrArg (fun b => some (i, b)) (Option.some.inj (hc.symm.trans hrow))

/-- **What there is to do**: the rules in force on the latest backups. -/
theorem mem_duties {x : Work} : x ∈ d.duties ↔ ∃ s sw id b r rule,
    d.switches.get? s = some sw ∧ d.IsLatest s id b ∧ d.rules.get? r = some rule ∧
      applies rule.toRule sw = true ∧ x = rule.work id s r := by
  unfold duties
  rw [List.mem_flatMap]
  constructor
  · rintro ⟨⟨s, sw⟩, hsw, hx⟩
    split at hx
    next => cases hx
    next y hy =>
      obtain ⟨⟨r, rule⟩, hrule, rfl⟩ := List.mem_map.mp hx
      obtain ⟨hrule, happlies⟩ := List.mem_filter.mp hrule
      exact ⟨s, sw, y.1, y.2, r, rule, Table.mem_rows.mp hsw, latest_eq_some.mp hy,
        Table.mem_rows.mp hrule, happlies, rfl⟩
  · rintro ⟨s, sw, id, b, r, rule, hsw, hlatest, hrule, happlies, rfl⟩
    refine ⟨(s, sw), Table.mem_rows.mpr hsw, ?_⟩
    rw [latest_eq_some.mpr hlatest]
    exact List.mem_map.mpr ⟨(r, rule), List.mem_filter.mpr ⟨Table.mem_rows.mpr hrule, happlies⟩,
      rfl⟩

/-- What is to do is of rows that are there. -/
theorem owes_of_mem_duties {x : Work} (h : x ∈ d.duties) : d.Owes x := by
  obtain ⟨s, sw, id, b, r, rule, hsw, hlatest, hrule, -, rfl⟩ := mem_duties.mp h
  refine ⟨?_, ⟨b, hlatest.row, hlatest.switch⟩, rule, hrule, le_rfl, fun _ => ⟨rfl, rfl, rfl⟩⟩
  show (d.switches.get? s).isSome = true
  rw [hsw]
  rfl

/-- The work that is read is to do, and stale. -/
theorem IsWork.mem {work : List Work} {x : Work} (h : d.IsWork work) (hx : x ∈ work) :
    x ∈ d.duties ∧ d.stale x = true := by
  obtain ⟨rows, hperm, -, rfl⟩ := h
  exact List.mem_filter.mp (hperm.mem_iff.mp (List.mem_of_mem_take hx))

end Store

open Store

/-! ## Evaluations -/

/-- What is kept of a backup is what it opens to. -/
def Cache.Genuine (P : Platform) (d : Store) (c : Cache) : Prop :=
  c.backupId = 0 ∨
    ∃ b, d.backups.get? c.backupId = some b ∧ c.opened = P.openConfig b.encryptedContent

/-- What an evaluation carries is of rows that are there. -/
def Stage.Genuine (P : Platform) (d : Store) : Stage → Prop
  | .opening _ item rest => ∀ x ∈ item :: rest, d.Owes x
  | .saving _ cache item rest =>
      cache.Genuine P d ∧ cache.backupId = item.backupId ∧ ∀ x ∈ item :: rest, d.Owes x
  | .alerting _ cache item _ _ rest => cache.Genuine P d ∧ ∀ x ∈ item :: rest, d.Owes x
  | _ => True

variable {P : Platform} {d d' : Store} {stage stage' : Stage} {s r : Id}

theorem Cache.Genuine.grows {c : Cache} (h : c.Genuine P d) (hgrows : d.Grows d') :
    c.Genuine P d' := by
  rcases h with h | ⟨b, hb, hopened⟩
  · exact .inl h
  · exact .inr ⟨b, hgrows.backups _ _ hb, hopened⟩

theorem Stage.Genuine.grows (h : stage.Genuine P d) (hgrows : d.Grows d') :
    stage.Genuine P d' := by
  cases stage with
  | opening count item rest => exact fun x hx => (h x hx).grows hgrows
  | saving count cache item rest =>
    exact ⟨h.1.grows hgrows, h.2.1, fun x hx => (h.2.2 x hx).grows hgrows⟩
  | alerting count cache item passed detail rest =>
    exact ⟨h.1.grows hgrows, fun x hx => (h.2 x hx).grows hgrows⟩
  | _ => trivial

theorem Stage.genuine_next {count : ℕ} {cache : Cache} {items : List Work}
    (hcache : cache.Genuine P d) (hitems : ∀ x ∈ items, d.Owes x) :
    (Stage.next count cache items).Genuine P d := by
  cases items with
  | nil => trivial
  | cons item rest =>
    by_cases hid : item.backupId = cache.backupId
    · rw [Stage.next, if_neg (not_not.mpr hid)]
      exact ⟨hcache, hid.symm, hitems⟩
    · rw [Stage.next, if_pos hid]
      exact hitems

/-- What is saved is what the rule makes of the backup. -/
theorem holds_saved {item : Work} {cache : Cache} (hkept : d.Kept P) (hcache : cache.Genuine P d)
    (hid : cache.backupId = item.backupId) (hitem : d.Owes item) :
    d.Holds P item.switchId item.ruleId
      ⟨item.backupId, item.ruleVersion, (judge P item.pattern item.mode cache.opened).1,
        if (judge P item.pattern item.mode cache.opened).2 = "" then none
        else some (judge P item.pattern item.mode cache.opened).2⟩ := by
  obtain ⟨b, hb, hs⟩ := hitem.backup
  obtain ⟨rule, hrule, hle, hsame⟩ := hitem.rule
  refine ⟨hitem.switch, ⟨b, hb, hs⟩, rule, hrule, hle, fun heq b' hb' => ?_⟩
  obtain ⟨hpattern, hmode, -⟩ := hsame heq
  obtain hzero | ⟨c, hc, hopened⟩ := hcache
  · exact absurd (hid.symm.trans hzero) (hkept.positive _ _ hb).ne'
  · have hbc : b' = c := Option.some.inj (hb'.symm.trans (hid ▸ hc))
    rw [hopened, hpattern, hmode, hbc]
    rfl

theorem saveResult_self {item : Work} {passed : Bool} {detail : String} :
    (d.saveResult item passed detail).results item.switchId item.ruleId =
      some ⟨item.backupId, item.ruleVersion, passed,
        if detail = "" then none else some detail⟩ := by
  simp only [saveResult, Function.update_self]

theorem saveResult_of_ne {item : Work} {passed : Bool} {detail : String}
    (h : ¬(s = item.switchId ∧ r = item.ruleId)) :
    (d.saveResult item passed detail).results s r = d.results s r := by
  by_cases hs : s = item.switchId
  · subst hs
    simp only [saveResult, Function.update_self]
    exact Function.update_of_ne (fun hr => h ⟨rfl, hr⟩) _ _
  · simp only [saveResult, Function.update_of_ne hs]

theorem Store.Kept.saveResult {item : Work} {passed : Bool} {detail : String} (hkept : d.Kept P)
    (h : d.Holds P item.switchId item.ruleId
      ⟨item.backupId, item.ruleVersion, passed, if detail = "" then none else some detail⟩) :
    (d.saveResult item passed detail).Kept P := by
  have hgrows : d.Grows (d.saveResult item passed detail) := .of rfl rfl rfl
  refine ⟨hkept.positive, fun s r result hr => ?_, ⟨hkept.keyed.label, hkept.keyed.single,
    hkept.keyed.fresh⟩⟩
  by_cases hpair : s = item.switchId ∧ r = item.ruleId
  · obtain ⟨rfl, rfl⟩ := hpair
    rw [saveResult_self] at hr
    cases hr
    exact h.grows hgrows
  · rw [saveResult_of_ne hpair] at hr
    exact (hkept.results s r result hr).grows hgrows

/-- No statement of an evaluation changes an input. -/
theorem statement_inputs (h : World.statement P d stage = some (d', stage')) :
    d'.switches = d.switches ∧ d'.rules = d.rules ∧ d'.backups = d.backups := by
  cases stage with
  | deleting | resolving | saving => cases h; exact ⟨rfl, rfl, rfl⟩
  | opening count item rest =>
    simp only [World.statement] at h
    split at h <;> cases h <;> exact ⟨rfl, rfl, rfl⟩
  | alerting count cache item passed detail rest =>
    cases h
    split
    · exact ⟨rfl, rfl, rfl⟩
    · exact upsertAlert_inputs
  | _ => cases h

theorem statement_grows (h : World.statement P d stage = some (d', stage')) : d.Grows d' := by
  obtain ⟨hswitches, hrules, hbackups⟩ := statement_inputs h
  exact .of hswitches hbackups hrules

/-- **Every statement keeps the tables**, and what the evaluation carries on is of rows that are
there.

What an evaluation carries from one statement to the next was true when it was read, and others have
written since.  It is of rows that do not disappear, and it names the version of the rule, which is
what keeps it true. -/
theorem statement_kept (hkept : d.Kept P) (hstage : stage.Genuine P d)
    (h : World.statement P d stage = some (d', stage')) : d'.Kept P ∧ stage'.Genuine P d' := by
  have hgrows := statement_grows h
  cases stage with
  | deleting =>
    cases h
    refine ⟨hkept.grows hgrows hkept.positive (fun s r result hr => ?_) ⟨hkept.keyed.label,
      hkept.keyed.single, hkept.keyed.fresh⟩, trivial⟩
    simp only [deleteResults] at hr
    split at hr
    · split at hr
      · exact hr
      · cases hr
    · exact hr
  | resolving =>
    cases h
    exact ⟨hkept.alerts ⟨rfl, rfl, rfl⟩ rfl hkept.keyed.resolve, trivial⟩
  -- the text that is kept from here on is that of a backup, and backups do not change
  | opening count item rest =>
    simp only [World.statement] at h
    split at h
    next => cases h; exact ⟨hkept, trivial⟩
    next b hb => cases h; exact ⟨hkept, .inr ⟨b, hb, rfl⟩, rfl, hstage⟩
  -- the result is of the backup and of the version that the item names
  | saving count cache item rest =>
    cases h
    obtain ⟨hcache, hid, hitems⟩ := hstage
    refine ⟨hkept.saveResult (holds_saved hkept hcache hid (hitems _ List.mem_cons_self)), ?_⟩
    have hitems' := fun x hx => (hitems x hx).grows hgrows
    split
    next => exact ⟨hcache.grows hgrows, hitems'⟩
    next =>
      exact Stage.genuine_next (hcache.grows hgrows) fun x hx =>
        hitems' x (List.mem_cons_of_mem _ hx)
  | alerting count cache item passed detail rest =>
    cases h
    obtain ⟨hcache, hitems⟩ := hstage
    refine ⟨?_, Stage.genuine_next (hcache.grows hgrows) fun x hx =>
      (hitems x (List.mem_cons_of_mem _ hx)).grows hgrows⟩
    split
    next => exact hkept.alerts ⟨rfl, rfl, rfl⟩ rfl hkept.keyed.resolve
    next =>
      exact hkept.alerts upsertAlert_inputs upsertAlert_results
        (hkept.keyed.upsertAlert (labelled_violation item detail) (still_seenAs _))
  | _ => cases h

/-! ## The world -/

namespace World

variable {w w' : World} {event : Event} {events : List Event}

/-- What holds in every state.

Nothing here says that the tables are complete.  What is kept is that everything in them is true: a
result is what the rule made of the backup at that version, and an alert belongs to the pair that
its key names. -/
structure Sound (P : Platform) (w : World) : Prop where
  kept : w.store.Kept P
  stages : ∀ e, (w.stages e).Genuine P w.store

theorem Sound.goTo {e : ℕ} (h : w.Sound P) (hkept : d.Kept P) (hgrows : w.store.Grows d)
    (hstage : stage.Genuine P d) : (w.goTo e d stage).Sound P := by
  refine ⟨hkept, fun i => ?_⟩
  by_cases hi : i = e
  · subst hi
    show (Function.update w.stages i stage i).Genuine P d
    rwa [Function.update_self]
  · show (Function.update w.stages e stage i).Genuine P d
    rw [Function.update_of_ne hi]
    exact (h.stages i).grows hgrows

/-- **Every step keeps what holds.**

A step is a statement of an evaluation, which may fail with or without its effect, or a write of
somebody else.  The cases are `statement_kept` and `Kept.written`; the other evaluations see the
tables grow. -/
theorem Sound.step (h : w.Sound P) (hfaithful : w.Faithful event)
    (hstep : w.step P event = some w') : w'.Sound P := by
  cases event with
  | write x =>
    simp only [World.step, Option.ite_none_right_eq_some, Option.some.injEq] at hstep
    obtain ⟨hpermits, rfl⟩ := hstep
    exact ⟨h.kept.written hpermits, fun e => (h.stages e).grows (written_grows hpermits)⟩
  | start e =>
    simp only [World.step, Option.ite_none_right_eq_some, Option.some.injEq] at hstep
    obtain ⟨-, rfl⟩ := hstep
    exact h.goTo h.kept (.refl _) trivial
  | go e =>
    obtain ⟨⟨d, stage⟩, hstatement, rfl⟩ := Option.map_eq_some_iff.mp hstep
    obtain ⟨hkept, hstage⟩ := statement_kept h.kept (h.stages e) hstatement
    exact h.goTo hkept (statement_grows hstatement) hstage
  | reads e work =>
    simp only [World.step] at hstep
    split at hstep
    next =>
      cases hstep
      refine h.goTo h.kept (.refl _) (Stage.genuine_next (.inl rfl) fun x hx => ?_)
      exact owes_of_mem_duties (IsWork.mem hfaithful hx).1
    next => cases hstep
  | fails e committed =>
    simp only [World.step] at hstep
    split at hstep
    next => cases hstep
    next =>
      split at hstep
      next => cases hstep; exact h.goTo h.kept (.refl _) trivial
      next d stage hstatement =>
        cases hstep
        cases committed with
        | false => exact h.goTo h.kept (.refl _) trivial
        | true =>
          have hkept := (statement_kept h.kept (h.stages e) hstatement).1
          exact h.goTo hkept (statement_grows hstatement) trivial
  | crash e =>
    cases hstep
    exact h.goTo h.kept (.refl _) trivial

theorem Sound.run (h : w.Sound P) (hrun : Run P w events w') : w'.Sound P := by
  induction hrun with
  | nil => exact h
  | cons hfaithful hstep _ ih => exact ih (h.step hfaithful hstep)

end World

end BindPlane.Compliance
