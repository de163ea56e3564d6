import BindPlane.Devices.Violations

/-!
# Settled tables

* `Store.pending` is what there is to do.
* `Store.Clean` says that there is nothing to do, and that no result and no alert is of nothing.
* `Store.Settled` is what evaluations are for: one result for every rule in force on a switch, of
  the latest backup and the rule as it is, and an unresolved alert for every violation of a critical
  rule.

Clean tables are settled where every violation that stands has its alert (`Store.Clean.settled`).
-/

namespace BindPlane.Compliance

open ReadCommitted Devices Store

variable {P : Platform} {d d' : Store} {s r : Id}

/-! ## What is to do -/

namespace Store

/-- What there is to do. -/
def pending (d : Store) : List Work := d.duties.filter d.stale

/-- There is one item for a pair. -/
theorem duties_unique {x y : Work} (hx : x ∈ d.duties) (hy : y ∈ d.duties)
    (hs : x.switchId = y.switchId) (hr : x.ruleId = y.ruleId) : x = y := by
  obtain ⟨s, sw, id, b, r, rule, -, hlatest, hrule, -, rfl⟩ := mem_duties.mp hx
  obtain ⟨s', sw', id', b', r', rule', -, hlatest', hrule', -, rfl⟩ := mem_duties.mp hy
  obtain rfl : s = s' := hs
  obtain rfl : r = r' := hr
  have hid := (latest_eq_some.mpr hlatest).symm.trans (latest_eq_some.mpr hlatest')
  obtain rfl : id = id' := congrArg Prod.fst (Option.some.inj hid)
  obtain rfl : rule = rule' := Option.some.inj (hrule.symm.trans hrule')
  rfl

theorem nodup_duties (d : Store) : d.duties.Nodup := by
  unfold duties
  rw [List.nodup_flatMap]
  constructor
  · intro sw _
    split
    · exact List.nodup_nil
    · refine List.Nodup.map_on ?_ (d.rules.nodup.of_map.filter _)
      intro x hx y hy heq
      have hkey : x.1 = y.1 := congrArg Work.ruleId heq
      exact List.inj_on_of_nodup_map d.rules.nodup (List.mem_of_mem_filter hx)
        (List.mem_of_mem_filter hy) hkey
  · refine (List.pairwise_map.mp d.switches.nodup).imp fun {sw sw'} hne => ?_
    intro x hx hx'
    refine hne ?_
    dsimp only at hx hx'
    split at hx
    · cases hx
    · obtain ⟨rule, -, rfl⟩ := List.mem_map.mp hx
      split at hx'
      · cases hx'
      · obtain ⟨rule', -, heq⟩ := List.mem_map.mp hx'
        exact (congrArg Work.switchId heq).symm

theorem nodup_pending (d : Store) : d.pending.Nodup := (nodup_duties d).filter _

theorem mem_pending {x : Work} : x ∈ d.pending ↔ x ∈ d.duties ∧ d.stale x = true := List.mem_filter

theorem pending_congr
    (hinputs : d'.switches = d.switches ∧ d'.rules = d.rules ∧ d'.backups = d.backups)
    (hresults : d'.results = d.results) : d'.pending = d.pending := by
  unfold pending
  rw [duties_congr hinputs]
  exact List.filter_congr fun x _ => stale_congr (by rw [hresults])

/-- The result of a pair in force is not deleted. -/
theorem deleteResults_of_mem_duties {x : Work} (h : x ∈ d.duties) :
    d.deleteResults.results x.switchId x.ruleId = d.results x.switchId x.ruleId := by
  obtain ⟨s, sw, id, b, r, rule, hsw, -, hrule, happlies, rfl⟩ := mem_duties.mp h
  unfold deleteResults
  dsimp only [RuleRow.work]
  rw [hsw, hrule]
  exact if_pos happlies

theorem pending_deleteResults : d.deleteResults.pending = d.pending := by
  have hduties : d.deleteResults.duties = d.duties := duties_congr ⟨rfl, rfl, rfl⟩
  unfold pending
  rw [hduties]
  exact List.filter_congr fun x hx => stale_congr (deleteResults_of_mem_duties hx)

/-- **A result that is saved is one thing less to do.** -/
theorem pending_saveResult {item : Work} {passed : Bool} {detail : String}
    (h : item ∈ d.duties) : (d.saveResult item passed detail).pending = d.pending.erase item := by
  have hduties : (d.saveResult item passed detail).duties = d.duties := duties_congr ⟨rfl, rfl, rfl⟩
  rw [(nodup_pending d).erase_eq_filter, pending, pending, hduties, List.filter_filter]
  refine List.filter_congr fun x hx => ?_
  by_cases heq : x = item
  · subst heq
    have hfresh : (d.saveResult x passed detail).stale x = false :=
      stale_eq_false.mpr ⟨_, saveResult_self, rfl, rfl⟩
    simp [hfresh]
  · have hpair : ¬(x.switchId = item.switchId ∧ x.ruleId = item.ruleId) :=
      fun ⟨hs, hr⟩ => heq (duties_unique hx h hs hr)
    rw [stale_congr (saveResult_of_ne hpair)]
    simp [heq]

/-! ## What is settled -/

/-- Every result is of a rule in force. -/
def Applying (d : Store) : Prop :=
  ∀ s r result, d.results s r = some result → ∃ sw rule, d.switches.get? s = some sw ∧
    d.rules.get? r = some rule ∧ applies rule.toRule sw = true

/-- Every unresolved alert of the compliance is of a violation. -/
def Founded (d : Store) : Prop :=
  ∀ id a, d.alerts.get? id = some a → a.kind = .complianceViolation → a.active = true →
    ∃ r, a.ruleId = some r ∧ d.violated a.switchId r = true

/-- There is nothing to do, and nothing that is of nothing. -/
structure Clean (d : Store) : Prop where
  pending : d.pending = []
  applying : d.Applying
  founded : d.Founded

/-- **What the tables say.**  There is one result for every switch and every rule in force on it, on
its latest backup, and an unresolved alert for every violation of a critical rule, and no more.

This is the purpose of an evaluation, stated without it: a function of the rules, the switches and
the backups, which the two tables of the compliance should be equal to. -/
structure Settled (P : Platform) (d : Store) : Prop where
  results : ∀ s r result, d.results s r = some result ↔ ∃ sw rule id b,
    d.switches.get? s = some sw ∧ d.rules.get? r = some rule ∧ applies rule.toRule sw = true ∧
      d.IsLatest s id b ∧ result =
        ⟨id, rule.version, (verdict P rule.toRule b).1, (verdict P rule.toRule b).2⟩
  alerts : ∀ s r, (∃ id a, d.alerts.get? id = some a ∧ a.kind = .complianceViolation ∧
      a.active = true ∧ a.switchId = s ∧ a.ruleId = some r) ↔
    ∃ result rule, d.results s r = some result ∧ d.rules.get? r = some rule ∧
      rule.severity = .critical ∧ result.passed = false
  named : ∀ id a, d.alerts.get? id = some a → a.kind = .complianceViolation → a.active = true →
    a.ruleId.isSome = true
  single : ∀ id a id' a', d.alerts.get? id = some a → d.alerts.get? id' = some a' →
    a.kind = .complianceViolation → a.active = true → a'.kind = .complianceViolation →
    a'.active = true → a.switchId = a'.switchId → a.ruleId = a'.ruleId → id = id'

/-- There is a latest backup of a switch that has one. -/
theorem exists_isLatest {i : Id} {c : Backup} (h : d.backups.get? i = some c)
    (hs : c.switchId = s) : ∃ id b, d.IsLatest s id b := by
  match hl : d.latest s with
  | some (id, b) => exact ⟨id, b, latest_eq_some.mp hl⟩
  | none =>
    have hmem : (i, c) ∈ d.backups.rows.filter fun b => b.2.switchId = s :=
      List.mem_filter.mpr ⟨Table.mem_rows.mpr h, decide_eq_true hs⟩
    rw [latestOf_eq_none hl] at hmem
    cases hmem

/-- A result, where there is nothing to do, is what the rule makes of the latest backup. -/
theorem Clean.result (h : d.Clean) (hkept : d.Kept P) {sw : Switch} {rule : RuleRow} {id : Id}
    {b : Backup} (hsw : d.switches.get? s = some sw) (hrule : d.rules.get? r = some rule)
    (happlies : applies rule.toRule sw = true) (hlatest : d.IsLatest s id b) :
    d.results s r =
      some ⟨id, rule.version, (verdict P rule.toRule b).1, (verdict P rule.toRule b).2⟩ := by
  have hduty : rule.work id s r ∈ d.duties :=
    mem_duties.mpr ⟨s, sw, id, b, r, rule, hsw, hlatest, hrule, happlies, rfl⟩
  have hfresh : d.stale (rule.work id s r) = false := by
    by_contra hstale
    have hmem := mem_pending.mpr ⟨hduty, Bool.eq_true_of_not_eq_false hstale⟩
    rw [h.pending] at hmem
    cases hmem
  obtain ⟨⟨i, version, passed, detail⟩, hresult, hid, hversion⟩ := stale_eq_false.mp hfresh
  obtain rfl : i = id := hid
  obtain rfl : version = rule.version := hversion
  obtain ⟨-, -, rule', hrule', -, hverdict⟩ := hkept.results s r _ hresult
  obtain rfl : rule = rule' := Option.some.inj (hrule.symm.trans hrule')
  have hjudged := hverdict rfl b hlatest.row
  rw [Prod.mk.injEq] at hjudged
  show d.results s r = _
  rw [← hjudged.1, ← hjudged.2]
  exact hresult

/-- **Where there is nothing to do, and what stands has its alert, the tables are settled.** -/
theorem Clean.settled (h : d.Clean) (hkept : d.Kept P)
    (hstanding : ∀ s r, d.Standing s r → d.Unresolved (.compliance s r)) : d.Settled P := by
  -- a result that is left belongs to a pair in force, which has a backup
  have hinforce : ∀ s r result, d.results s r = some result → ∃ sw rule id b,
      d.switches.get? s = some sw ∧ d.rules.get? r = some rule ∧ applies rule.toRule sw = true ∧
        d.IsLatest s id b := by
    intro s r result hresult
    obtain ⟨sw, rule, hsw, hrule, happlies⟩ := h.applying s r result hresult
    obtain ⟨c, hc, hcs⟩ := (hkept.results s r result hresult).backup
    obtain ⟨id, b, hlatest⟩ := exists_isLatest hc hcs
    exact ⟨sw, rule, id, b, hsw, hrule, happlies, hlatest⟩
  refine ⟨fun s r result => ⟨fun hresult => ?_, ?_⟩, fun s r => ⟨?_, ?_⟩, fun id a ha hkind _ => ?_,
    fun id a id' a' ha ha' hkind hactive hkind' hactive' hs hr => ?_⟩
  · obtain ⟨sw, rule, id, b, hsw, hrule, happlies, hlatest⟩ := hinforce s r result hresult
    refine ⟨sw, rule, id, b, hsw, hrule, happlies, hlatest, ?_⟩
    exact Option.some.inj (hresult.symm.trans (h.result hkept hsw hrule happlies hlatest))
  · rintro ⟨sw, rule, id, b, hsw, hrule, happlies, hlatest, rfl⟩
    exact h.result hkept hsw hrule happlies hlatest
  · -- an active alert has its violation, since nothing is left to resolve
    rintro ⟨id, a, ha, hkind, hactive, rfl, hr⟩
    obtain ⟨r', hr', hviolated⟩ := h.founded id a ha hkind hactive
    obtain rfl : r = r' := Option.some.inj (hr.symm.trans hr')
    unfold violated at hviolated
    split at hviolated
    next result rule hresult hrule =>
      simp only [Bool.and_eq_true, Bool.not_eq_true', decide_eq_true_eq] at hviolated
      exact ⟨result, rule, hresult, hrule, hviolated.2, hviolated.1⟩
    next => cases hviolated
  · -- a violation has its alert, since its result is current and nothing is left to save
    rintro ⟨result, rule, hresult, hrule, hcritical, hpassed⟩
    obtain ⟨sw, rule', id, b, hsw, hrule', happlies, hlatest⟩ := hinforce s r result hresult
    obtain rfl : rule = rule' := Option.some.inj (hrule.symm.trans hrule')
    have his := Option.some.inj (hresult.symm.trans (h.result hkept hsw hrule happlies hlatest))
    have hknown : d.Known s r :=
      ⟨result, rule, hresult, hrule, congrArg Result.ruleVersion his, hcritical, hpassed⟩
    obtain ⟨i, a, ha, hkey, hactive⟩ := hstanding s r ⟨hknown, rule.work id s r,
      mem_duties.mpr ⟨s, sw, id, b, r, rule, hsw, hlatest, hrule, happlies, rfl⟩, rfl, rfl,
      stale_eq_false.mpr ⟨result, hresult, congrArg Result.backupId his,
        congrArg Result.ruleVersion his⟩⟩
    obtain ⟨hkind, hs, hr⟩ := ((hkept.keyed.label i a ha).2 s r).mp hkey
    exact ⟨i, a, ha, hkind, hactive, hs, hr⟩
  · exact (hkept.keyed.label id a ha).1 hkind
  · obtain ⟨r, hrule⟩ := Option.isSome_iff_exists.mp ((hkept.keyed.label id a ha).1 hkind)
    have hkey := ((hkept.keyed.label id a ha).2 a.switchId r).mpr ⟨hkind, rfl, hrule⟩
    have hkey' := ((hkept.keyed.label id' a' ha').2 a.switchId r).mpr
      ⟨hkind', hs.symm, hr.symm.trans hrule⟩
    exact hkept.keyed.single id a id' a' ha ha' hactive hactive' (hkey.trans hkey'.symm)

/-- In settled tables the violations have their alerts. -/
theorem Settled.unresolved (h : d.Settled P) (hkept : d.Kept P) (hknown : d.Known s r) :
    d.Unresolved (.compliance s r) := by
  obtain ⟨result, rule, hresult, hrule, -, hcritical, hpassed⟩ := hknown
  obtain ⟨id, a, ha, hkind, hactive, hs, hr⟩ :=
    (h.alerts s r).mpr ⟨result, rule, hresult, hrule, hcritical, hpassed⟩
  exact ⟨id, a, ha, ((hkept.keyed.label id a ha).2 s r).mpr ⟨hkind, hs, hr⟩, hactive⟩

/-- After the deletion every result is of a rule in force. -/
theorem applying_deleteResults (h : d.Kept P) : d.deleteResults.Applying := by
  intro s r result hresult
  have hold := h.results s r result (deleteResults_eq_some hresult)
  obtain ⟨sw, hsw⟩ := Option.isSome_iff_exists.mp hold.switch
  obtain ⟨rule, hrule, -⟩ := hold.rule
  refine ⟨sw, rule, hsw, hrule, ?_⟩
  by_contra hnot
  simp only [deleteResults, hsw, hrule, if_neg hnot] at hresult
  cases hresult

/-- After the resolution every unresolved alert is of a violation. -/
theorem founded_resolveStale (h : d.Keyed) : d.resolveStale.Founded := by
  intro id a ha hkind hactive
  have hkeyed : d.resolveStale.Keyed := h.resolve
  obtain ⟨r, hr⟩ := Option.isSome_iff_exists.mp ((hkeyed.label id a ha).1 hkind)
  have hkey := ((hkeyed.label id a ha).2 a.switchId r).mpr ⟨hkind, rfl, hr⟩
  exact ⟨r, hr, ((unresolved_resolveStale h).mp ⟨id, a, ha, hkey, hactive⟩).1⟩

end Store

end BindPlane.Compliance
