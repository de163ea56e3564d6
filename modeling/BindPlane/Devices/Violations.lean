import BindPlane.Devices.ComplianceKept

/-!
# Violations have alerts

The result of a violation is saved by one statement, and its alert is raised by the next one.  A
result that is current is not evaluated again, so that an evaluation that stops in between leaves a
violation without an alert.

* `Store.Known` is a violation that is among the results, and `Store.Standing` one that nobody
  would evaluate again.
* `World.Covered` says that every violation has an unresolved alert, or that an evaluation is about
  to raise it.
* `World.Calm` is what a step must not do: stop in between, and resolve the alert of a violation.
  The second takes two evaluations at a time.

**Two notions.**  The results about alerts are shown for two notions of a violation at once, one
that counts every violation among the results, and one that counts those only which no evaluation
would look at again.  What they have in common is `Notion`, and the statements of an evaluation are
checked against that.
-/

namespace BindPlane.Compliance

open ReadCommitted Devices Store

variable {P : Platform} {d d' : Store} {stage stage' : Stage} {s r : Id}

/-! ## Notions of a violation -/

namespace Store

/-- The rule is as it was when the item was read. -/
def Current (d : Store) (item : Work) : Prop :=
  ∃ rule, d.rules.get? item.ruleId = some rule ∧ rule.version = item.ruleVersion

/-- There is a result of the rule as it is, which is critical, and it has not passed. -/
def Known (d : Store) (s r : Id) : Prop :=
  ∃ result rule, d.results s r = some result ∧ d.rules.get? r = some rule ∧
    result.ruleVersion = rule.version ∧ rule.severity = .critical ∧ result.passed = false

/-- The violation is known, and the pair would not be evaluated again. -/
def Standing (d : Store) (s r : Id) : Prop :=
  d.Known s r ∧ ∃ item ∈ d.duties, item.switchId = s ∧ item.ruleId = r ∧ d.stale item = false

/-- What a notion of violation must be, so that the statements of an evaluation cover it. -/
structure Notion (D : Store → Id → Id → Prop) : Prop where
  known : ∀ d s r, D d s r → d.Known s r
  delete : ∀ d s r, D d.deleteResults s r → D d s r
  save : ∀ d item passed detail s r, D (d.saveResult item passed detail) s r →
    ¬(s = item.switchId ∧ r = item.ruleId) → D d s r
  alerts : ∀ d d' s r, d'.switches = d.switches ∧ d'.rules = d.rules ∧ d'.backups = d.backups →
    d'.results = d.results → D d' s r → D d s r

theorem deleteResults_eq_some {result : Result}
    (h : d.deleteResults.results s r = some result) : d.results s r = some result := by
  simp only [deleteResults] at h
  split at h
  · split at h
    · exact h
    · cases h
  · exact h

theorem violated_of_known (h : d.Known s r) : d.violated s r = true := by
  obtain ⟨result, rule, hresult, hrule, -, hcritical, hpassed⟩ := h
  simp [violated, hresult, hrule, hcritical, hpassed]

theorem known_congr (hresult : d'.results s r = d.results s r) (hrules : d'.rules = d.rules) :
    d'.Known s r ↔ d.Known s r := by
  unfold Known
  rw [hrules, hresult]

theorem notion_known : Notion Known where
  known _ _ _ h := h
  delete d s r h := by
    obtain ⟨result, rule, hresult, h⟩ := h
    exact ⟨result, rule, deleteResults_eq_some hresult, h⟩
  save d item passed detail s r h hne := (known_congr (saveResult_of_ne hne) rfl).mp h
  alerts d d' s r hinputs hresults h := (known_congr (by rw [hresults]) hinputs.2.1).mp h

theorem duties_congr (h : d'.switches = d.switches ∧ d'.rules = d.rules ∧ d'.backups = d.backups) :
    d'.duties = d.duties := by
  unfold duties latest
  rw [h.1, h.2.1, h.2.2]

/-- An item is stale where its pair has no result of its backup and its version. -/
theorem stale_eq_false {item : Work} : d.stale item = false ↔
    ∃ result, d.results item.switchId item.ruleId = some result ∧
      result.backupId = item.backupId ∧ result.ruleVersion = item.ruleVersion := by
  unfold stale
  split
  next h => simp [h]
  next result h => simp [h]

theorem stale_congr {x : Work}
    (h : d'.results x.switchId x.ruleId = d.results x.switchId x.ruleId) :
    d'.stale x = d.stale x := by
  unfold stale
  rw [h]

theorem standing_congr (hresult : d'.results s r = d.results s r)
    (hinputs : d'.switches = d.switches ∧ d'.rules = d.rules ∧ d'.backups = d.backups) :
    d'.Standing s r ↔ d.Standing s r := by
  unfold Standing
  rw [known_congr hresult hinputs.2.1, duties_congr hinputs]
  refine and_congr_right fun _ => exists_congr fun x => and_congr_right fun _ => ?_
  refine and_congr_right fun hs => and_congr_right fun hr => ?_
  rw [stale_congr (hs ▸ hr ▸ hresult)]

theorem notion_standing : Notion Standing where
  known _ _ _ h := h.1
  delete d s r h := by
    obtain ⟨hknown, item, hitem, hs, hr, hstale⟩ := h
    refine ⟨notion_known.delete d s r hknown, item, ?_, hs, hr, ?_⟩
    · rwa [duties_congr ⟨rfl, rfl, rfl⟩] at hitem
    · obtain ⟨result, hresult, h⟩ := stale_eq_false.mp hstale
      exact stale_eq_false.mpr ⟨result, deleteResults_eq_some hresult, h⟩
  save d item passed detail s r h hne :=
    (standing_congr (saveResult_of_ne hne) ⟨rfl, rfl, rfl⟩).mp h
  alerts d d' s r hinputs hresults h := (standing_congr (by rw [hresults]) hinputs).mp h

end Store

/-! ## Statements -/

/-- What would be left without an alert, if the evaluation stopped before its statement, or after
it. -/
def Stage.alarm (P : Platform) (committed : Bool) : Stage → Option Work
  | .saving _ cache item _ =>
      if committed && item.severity = .critical &&
          !(judge P item.pattern item.mode cache.opened).1 then some item
      else none
  | .alerting _ _ item passed _ _ => if committed || passed then none else some item
  | _ => none

/-- An evaluation that does not run leaves nothing. -/
theorem Stage.alarm_of_rests {committed : Bool} (h : stage.rests = true) :
    stage.alarm P committed = none := by
  cases stage with
  | idle | returned => rfl
  | _ => cases h

/-- What the statement resolves the alert of. -/
def Stage.clears : Stage → Option Work
  | .alerting _ _ item true _ _ => some item
  | _ => none

/-- **What a statement does to a violation.**  It was there, and what is about to be raised for it
is raised; or it is new, and about to be raised. -/
theorem statement_due {D : Store → Id → Id → Prop} (hD : Notion D) (hkept : d.Kept P)
    (hstage : stage.Genuine P d) (h : World.statement P d stage = some (d', stage'))
    (hdue : D d' s r)
    (hclears : ∀ item, stage.clears = some item → ¬d.Known item.switchId item.ruleId) :
    (d.Unresolved (.compliance s r) → d'.Unresolved (.compliance s r)) ∧
      ((D d s r ∧ ∀ item, stage.alarm P false = some item → item.switchId = s → item.ruleId = r →
          d'.Unresolved (.compliance s r)) ∨
        ∃ item, stage.alarm P true = some item ∧ stage'.alarm P false = some item ∧
          item.switchId = s ∧ item.ruleId = r ∧ d'.Current item) := by
  cases stage with
  | deleting =>
    cases h
    exact ⟨fun h => h, .inl ⟨hD.delete d s r hdue, fun _ h => by cases h⟩⟩
  -- only alerts without a violation are resolved
  | resolving =>
    cases h
    have hold := hD.alerts d d.resolveStale s r ⟨rfl, rfl, rfl⟩ rfl hdue
    have hviolated := violated_of_known (hD.known d s r hold)
    refine ⟨fun h => ?_, .inl ⟨hold, fun _ h => by cases h⟩⟩
    exact (unresolved_resolveStale hkept.keyed).mpr ⟨hviolated, h⟩
  | opening count item rest =>
    simp only [World.statement] at h
    split at h <;> cases h <;> exact ⟨fun h => h, .inl ⟨hdue, fun _ h => by cases h⟩⟩
  -- the result of a pair: for this pair the alert is the next statement, the others are as before
  | saving count cache item rest =>
    cases h
    refine ⟨fun h => h, ?_⟩
    by_cases hpair : s = item.switchId ∧ r = item.ruleId
    · obtain ⟨rfl, rfl⟩ := hpair
      obtain ⟨result, rule, hresult, hrule, hversion, hcritical, hpassed⟩ := hD.known _ _ _ hdue
      rw [saveResult_self] at hresult
      cases hresult
      obtain ⟨rule', hrule', -, hsame⟩ := (hstage.2.2 item List.mem_cons_self).rule
      obtain rfl : rule = rule' := Option.some.inj (hrule.symm.trans hrule')
      have hseverity : item.severity = .critical := (hsame hversion).2.2.trans hcritical
      dsimp only at hpassed
      refine .inr ⟨item, ?_, ?_, rfl, rfl, rule, hrule, hversion.symm⟩
      · simp [Stage.alarm, hseverity, hpassed]
      · rw [if_pos hseverity]
        simp [Stage.alarm, hpassed]
    · exact .inl ⟨hD.save d item _ _ s r hdue hpair, fun _ h => by cases h⟩
  -- the alert of a pair: raised for a violation, resolved for a pass
  | alerting count cache item passed detail rest =>
    cases h
    cases passed with
    | true =>
      have hold := hD.alerts d (d.resolveAlert _) s r ⟨rfl, rfl, rfl⟩ rfl hdue
      refine ⟨fun h => ?_, .inl ⟨hold, fun _ h => by cases h⟩⟩
      refine unresolved_resolveAlert.mpr ⟨fun heq => ?_, h⟩
      obtain ⟨rfl, rfl⟩ := DedupeKey.compliance.inj heq
      exact hclears item rfl (hD.known d _ _ hold)
    | false =>
      have hold := hD.alerts d _ s r upsertAlert_inputs upsertAlert_results hdue
      have hiff : (d.upsertAlert (violation P item detail)
          (Alert.seenAs d.clock (violation P item detail))).Unresolved (.compliance s r) ↔ _ :=
        unresolved_upsertAlert hkept.keyed (still_seenAs d.clock)
      refine ⟨fun h => hiff.mpr (.inr h), .inl ⟨hold, fun x hx hs hr => hiff.mpr (.inl ?_)⟩⟩
      obtain rfl : item = x := Option.some.inj hx
      rw [← hs, ← hr]
      rfl
  | _ => cases h

/-! ## The other writes -/

/-- **Nobody else's write makes a violation known**, and none of them changes a rule that is in the
results without a new version. -/
theorem known_of_written {x : Write} (hkept : d.Kept P) (hpermits : d.permits x = true)
    (h : (d.written x).Known s r) : d.Known s r ∧
      ∀ item, item.ruleId = r → d.Current item → (d.written x).Current item := by
  obtain ⟨result, rule, hresult, hrule, hversion, h⟩ := h
  rw [written_results] at hresult
  obtain ⟨-, -, old, hold, hle, -⟩ := hkept.results s r result hresult
  -- the rule of a result is there, and its version is not the next one
  obtain rfl : old = rule := by
    obtain ⟨rule', hrule', heq | hlt⟩ := (written_grows hpermits).rules r old hold
    · exact heq.symm.trans (Option.some.inj (hrule'.symm.trans hrule))
    · obtain rfl := Option.some.inj (hrule'.symm.trans hrule)
      omega
  refine ⟨⟨result, old, hresult, hold, hversion, h⟩, fun item hitem hcurrent => ?_⟩
  subst hitem
  obtain ⟨rule', hrule', hversion'⟩ := hcurrent
  obtain rfl := Option.some.inj (hrule'.symm.trans hold)
  exact ⟨rule', hrule, hversion'⟩

/-- **Nobody else's write resolves an alert of the compliance.** -/
theorem Store.Unresolved.written {x : Write} (hkeyed : d.Keyed) (hpermits : d.permits x = true)
    (h : d.Unresolved (.compliance s r)) : (d.written x).Unresolved (.compliance s r) := by
  cases x with
  | acknowledge id email =>
    obtain ⟨i, a, ha, hkey, hactive⟩ := h
    refine unresolved_updateWhere.mpr ⟨i, a, ha, ?_⟩
    split
    · exact ⟨hkey, rfl⟩
    · exact ⟨hkey, hactive⟩
  | workerAlert new => exact (unresolved_upsertAlert hkeyed (still_seen _)).mpr (.inr h)
  | workerResolves key =>
    refine unresolved_resolveAlert.mpr ⟨?_, h⟩
    rintro rfl
    cases hpermits
  | prune before =>
    obtain ⟨i, a, ha, hkey, hactive⟩ := h
    refine ⟨i, a, ?_, hkey, hactive⟩
    simp only [Store.written, Table.get?_deleteWhere, Option.filter_eq_some_iff]
    refine ⟨ha, ?_⟩
    have hstatus : a.status ≠ .resolved := of_decide_eq_true hactive
    simp [hstatus]
  | _ => exact h

/-! ## The world -/

namespace World

variable {w w' : World} {event : Event} {events : List Event} {D : Store → Id → Id → Prop}

/-- Every violation has an unresolved alert, or an evaluation is about to raise it.

The second case is what makes this an invariant: between the result and its alert there is a moment
at which the violation has none, and then an evaluation stands right in front of the statement that
raises it.  If that evaluation is stopped there the invariant is lost for good, which is what `Calm`
excludes. -/
def Covered (P : Platform) (D : Store → Id → Id → Prop) (w : World) : Prop :=
  ∀ s r, D w.store s r → w.store.Unresolved (.compliance s r) ∨
    ∃ e item, (w.stages e).alarm P false = some item ∧ item.switchId = s ∧ item.ruleId = r ∧
      w.store.Current item

/-- No violation is left without an alert, and no alert of a violation is resolved. -/
def Calm (P : Platform) (w : World) : Event → Prop
  | .go e => ∀ item, (w.stages e).clears = some item → ¬w.store.Known item.switchId item.ruleId
  | .fails e committed =>
      (∀ item, (w.stages e).alarm P committed = some item → w.store.Current item →
        w.store.Unresolved (.compliance item.switchId item.ruleId)) ∧
      (committed = true → ∀ item, (w.stages e).clears = some item →
        ¬w.store.Known item.switchId item.ruleId)
  | .crash e => ∀ item, (w.stages e).alarm P false = some item → w.store.Current item →
      w.store.Unresolved (.compliance item.switchId item.ruleId)
  | _ => True

/-- Every step of a list is calm. -/
def Calmly (P : Platform) : World → List Event → Prop
  | _, [] => True
  | w, event :: events => w.Calm P event ∧ ∀ w', w.step P event = some w' → Calmly P w' events

/-- An evaluation goes on: every violation was there, and what was to be raised for it is raised or
still to be; or it has an alert; or it is to be raised now. -/
theorem Covered.goTo {e : ℕ} (h : w.Covered P D) (hrules : d.rules = w.store.rules)
    (hdue : ∀ s r, D d s r →
      (D w.store s r ∧
        (w.store.Unresolved (.compliance s r) → d.Unresolved (.compliance s r)) ∧
        ∀ item, (w.stages e).alarm P false = some item → item.switchId = s → item.ruleId = r →
          d.Current item → d.Unresolved (.compliance s r)) ∨
      d.Unresolved (.compliance s r) ∨
      ∃ item, stage.alarm P false = some item ∧ item.switchId = s ∧ item.ruleId = r ∧
        d.Current item) : (w.goTo e d stage).Covered P D := by
  intro s r hD
  rcases hdue s r hD with ⟨hold, hkeeps, hraised⟩ | hunresolved | ⟨item, halarm, h⟩
  · rcases h s r hold with hunresolved | ⟨i, item, halarm, hs, hr, hcurrent⟩
    · exact .inl (hkeeps hunresolved)
    · have hcurrent' : d.Current item := by
        unfold Current at hcurrent ⊢
        rwa [hrules]
      by_cases hi : i = e
      · exact .inl (hraised item (hi ▸ halarm) hs hr hcurrent')
      · refine .inr ⟨i, item, ?_, hs, hr, hcurrent'⟩
        show (Function.update w.stages e stage i).alarm P false = some item
        rwa [Function.update_of_ne hi]
  · exact .inl hunresolved
  · refine .inr ⟨e, item, ?_, h⟩
    show (Function.update w.stages e stage e).alarm P false = some item
    rwa [Function.update_self]

/-- The same for a step that leaves the store alone. -/
theorem Covered.goTo_store {e : ℕ} (h : w.Covered P D)
    (hraised : ∀ item, (w.stages e).alarm P false = some item → w.store.Current item →
      w.store.Unresolved (.compliance item.switchId item.ruleId)) :
    (w.goTo e w.store stage).Covered P D := by
  refine h.goTo rfl fun s r hD => .inl ⟨hD, fun h => h, ?_⟩
  rintro item halarm rfl rfl hcurrent
  exact hraised item halarm hcurrent

/-- **A calm step that is no write of another keeps the violations covered.**

Of the statements of an evaluation only two matter here, that which saves a result and that which
raises an alert.  Between them the evaluation itself is the witness that the violation is covered.
-/
theorem Covered.step (hD : Notion D) (hsound : w.Sound P) (h : w.Covered P D)
    (hstep : w.step P event = some w') (hcalm : w.Calm P event)
    (hwrite : ∀ x, event = .write x → w'.Covered P D) : w'.Covered P D := by
  cases event with
  | write x => exact hwrite x rfl
  | start e =>
    simp only [World.step, Option.ite_none_right_eq_some, Option.some.injEq] at hstep
    obtain ⟨hrests, rfl⟩ := hstep
    refine h.goTo_store fun item halarm _ => ?_
    rw [Stage.alarm_of_rests hrests] at halarm
    cases halarm
  -- the pair was due before, or is so now and the evaluation is about to raise its alert
  | go e =>
    obtain ⟨⟨d, stage⟩, hstatement, rfl⟩ := Option.map_eq_some_iff.mp hstep
    refine h.goTo (statement_inputs hstatement).2.1 fun s r hdue => ?_
    obtain ⟨hkeeps, ⟨hold, hraised⟩ | ⟨item, -, hnew⟩⟩ :=
      statement_due hD hsound.kept (hsound.stages e) hstatement hdue hcalm
    · exact .inl ⟨hold, hkeeps, fun item halarm hs hr _ => hraised item halarm hs hr⟩
    · exact .inr (.inr ⟨item, hnew⟩)
  | reads e work =>
    simp only [World.step] at hstep
    split at hstep
    next hstage =>
      cases hstep
      refine h.goTo_store fun item halarm _ => ?_
      rw [hstage] at halarm
      cases halarm
    next => cases hstep
  | fails e committed =>
    simp only [World.step] at hstep
    split at hstep
    next => cases hstep
    next =>
      split at hstep
      -- the evaluation was not at a statement, and so not about to raise an alert
      next hnone =>
        cases hstep
        refine h.goTo_store fun item halarm _ => ?_
        cases hstage : w.stages e with
        | alerting => rw [hstage] at hnone; cases hnone
        | _ => rw [hstage] at halarm; cases halarm
      next d stage hstatement =>
        cases hstep
        cases committed with
        | false => exact h.goTo_store hcalm.1
        | true =>
          refine h.goTo (statement_inputs hstatement).2.1 fun s r hdue => ?_
          obtain ⟨hkeeps, ⟨hold, hraised⟩ | ⟨item, halarm, -, rfl, rfl, hcurrent⟩⟩ :=
            statement_due hD hsound.kept (hsound.stages e) hstatement hdue (hcalm.2 rfl)
          · exact .inl ⟨hold, hkeeps, fun item halarm hs hr _ => hraised item halarm hs hr⟩
          · have hcurrent' : w.store.Current item := by
              unfold Current at hcurrent ⊢
              rwa [← (statement_inputs hstatement).2.1]
            exact .inr (.inl (hkeeps (hcalm.1 item halarm hcurrent')))
  -- a calm crash leaves no violation behind that only the evaluation knew of
  | crash e =>
    cases hstep
    exact h.goTo_store hcalm

/-- **A calm step keeps the known violations covered.** -/
theorem Covered.step_known (hsound : w.Sound P) (h : w.Covered P Known)
    (hcalm : w.Calm P event) (hstep : w.step P event = some w') : w'.Covered P Known := by
  refine h.step notion_known hsound hstep hcalm ?_
  rintro x rfl
  simp only [World.step, Option.ite_none_right_eq_some, Option.some.injEq] at hstep
  obtain ⟨hpermits, rfl⟩ := hstep
  intro s r hknown
  obtain ⟨hold, hcurrent⟩ := known_of_written hsound.kept hpermits hknown
  rcases h s r hold with hunresolved | ⟨e, item, halarm, hs, hr, hitem⟩
  · exact .inl (hunresolved.written hsound.kept.keyed hpermits)
  · exact .inr ⟨e, item, halarm, hs, hr, hcurrent item hr hitem⟩

/-- **A calm run keeps the known violations covered.** -/
theorem Covered.run_known (hsound : w.Sound P) (h : w.Covered P Known) (hrun : Run P w events w')
    (hcalm : w.Calmly P events) : w'.Covered P Known := by
  induction hrun with
  | nil => exact h
  | cons hfaithful hstep _ ih =>
    exact ih (hsound.step hfaithful hstep) (h.step_known hsound hcalm.1 hstep)
      (hcalm.2 _ hstep)

end World

end BindPlane.Compliance
