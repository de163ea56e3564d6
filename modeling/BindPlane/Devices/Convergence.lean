import BindPlane.Devices.Settled
import Mathlib.Algebra.Ring.Nat

/-!
# Evaluations converge

`World.Repeats` is a sequence of evaluations, one after the other and with nobody else, up to the
first one that returns zero.

* An evaluation that returns `n` leaves `n` fewer things to do (`Stage.Since`), so that all of them
  together return what there was to do.
* An evaluation that returns zero has found nothing to do, after it has deleted the results and
  resolved the alerts that are of nothing.
* The violations that stand keep their alerts, and those that have none get none: no evaluation
  looks at them again (`statement_bare`).

`converges` puts these together: the tables are settled in the end exactly where every violation
that stood in the beginning had its alert.
-/

namespace BindPlane.Compliance

open ReadCommitted Devices Store

variable {P : Platform} {d d' : Store} {stage stage' : Stage} {s r : Id}

/-! ## An evaluation by itself -/

/-- A step of an evaluation that nothing goes wrong in, or the time passes. -/
def Event.By (e : ℕ) : Event → Prop
  | .go i | .reads i _ => i = e
  | .write (.tick _) => True
  | _ => False

namespace World

/-- No evaluation is running. -/
def AtRest (w : World) : Prop := ∀ e, (w.stages e).rests = true

/-- One evaluation from its start until it returns the number, and nothing else. -/
def Evaluates (P : Platform) (e : ℕ) (w : World) (n : ℕ) (w' : World) : Prop :=
  ∃ events, (∀ event ∈ events, Event.By e event) ∧ Run P w (.start e :: events) w' ∧
    w'.stages e = .returned n false

/-- **`evaluateCompliance` has been run repeatedly until it returns 0**, with what it returned.

The number that an evaluation returns is what the caller repeats on: not zero means that there may
be more to do, since an evaluation takes five thousand items at most. -/
inductive Repeats (P : Platform) (e : ℕ) : World → List ℕ → World → Prop
  | last {w w' : World} (h : w.Evaluates P e 0 w') : Repeats P e w [0] w'
  | again {w w' w'' : World} {n : ℕ} {ns : List ℕ} (h : w.Evaluates P e (n + 1) w')
      (hrest : Repeats P e w' ns w'') : Repeats P e w ((n + 1) :: ns) w''

end World

/-- What an evaluation has done since the store `d₀`, and what it has before it. -/
def Stage.Since (d₀ d : Store) : Stage → Prop
  | .deleting => d.pending = d₀.pending
  | .resolving => d.pending = d₀.pending ∧ d.Applying
  | .reading => d.pending = d₀.pending ∧ d.Applying ∧ d.Founded
  | .opening n item rest | .saving n _ item rest =>
      d.pending.length + n = d₀.pending.length ∧ (item :: rest).Nodup ∧
        ∀ x ∈ item :: rest, x ∈ d₀.pending ∧ x ∈ d.pending
  | .alerting n _ item passed _ rest =>
      (d.pending.length + (n + 1) = d₀.pending.length ∧ rest.Nodup ∧
        ∀ x ∈ rest, x ∈ d₀.pending ∧ x ∈ d.pending) ∧ item ∈ d₀.pending ∧
      ∃ result, d.results item.switchId item.ruleId = some result ∧ result.passed = passed
  | .returned n failed =>
      failed = false ∧ d.pending.length + n = d₀.pending.length ∧ (n = 0 → d.Clean)
  | .idle => False

theorem Stage.since_next {d₀ : Store} {n : ℕ} {cache : Cache} {items : List Work}
    (hlength : d.pending.length + n = d₀.pending.length) (hnodup : items.Nodup)
    (hmem : ∀ x ∈ items, x ∈ d₀.pending ∧ x ∈ d.pending)
    (hclean : items = [] → n = 0 → d.Clean) : (Stage.next n cache items).Since d₀ d := by
  cases items with
  | nil => exact ⟨rfl, hlength, hclean rfl⟩
  | cons item rest =>
    by_cases hid : item.backupId = cache.backupId
    · rw [Stage.next, if_neg (not_not.mpr hid)]
      exact ⟨hlength, hnodup, hmem⟩
    · rw [Stage.next, if_pos hid]
      exact ⟨hlength, hnodup, hmem⟩

theorem Stage.Since.congr {d₀ : Store} (h : stage.Since d₀ d)
    (hinputs : d'.switches = d.switches ∧ d'.rules = d.rules ∧ d'.backups = d.backups)
    (hresults : d'.results = d.results) (halerts : d'.alerts = d.alerts) :
    stage.Since d₀ d' := by
  have hpending := pending_congr hinputs hresults
  have happlying : d.Applying → d'.Applying := by
    intro h s r result hresult
    rw [hresults] at hresult
    rw [hinputs.1, hinputs.2.1]
    exact h s r result hresult
  have hfounded : d.Founded → d'.Founded := by
    intro h id a ha hkind hactive
    rw [halerts] at ha
    unfold violated
    rw [hresults, hinputs.2.1]
    exact h id a ha hkind hactive
  cases stage with
  | deleting => exact hpending.trans h
  | resolving => exact ⟨hpending.trans h.1, happlying h.2⟩
  | reading => exact ⟨hpending.trans h.1, happlying h.2.1, hfounded h.2.2⟩
  | opening | saving => exact ⟨hpending ▸ h.1, h.2.1, hpending ▸ h.2.2⟩
  | alerting => exact ⟨⟨hpending ▸ h.1.1, h.1.2.1, hpending ▸ h.1.2.2⟩, h.2.1, hresults ▸ h.2.2⟩
  | returned =>
    refine ⟨h.1, hpending ▸ h.2.1, fun hn => ?_⟩
    obtain ⟨hnil, happ, hfound⟩ := h.2.2 hn
    exact ⟨hpending.trans hnil, happlying happ, hfounded hfound⟩
  | idle => exact h

/-- The work that is read is to be done, and where there is none there is nothing to do. -/
theorem Stage.since_reads {d₀ : Store} {work : List Work} (hwork : d.IsWork work)
    (hsince : Stage.reading.Since d₀ d) : (Stage.next 0 {} work).Since d₀ d := by
  obtain ⟨hpending, happlying, hfounded⟩ := hsince
  obtain ⟨rows, hperm, -, rfl⟩ := hwork
  have hperm : rows.Perm d.pending := hperm
  refine Stage.since_next (by rw [hpending, Nat.add_zero]) ?_ (fun x hx => ?_) fun hnil _ => ?_
  · exact ((hperm.nodup_iff).mpr (nodup_pending d)).sublist (List.take_sublist 5000 rows)
  · have hx' := hperm.mem_iff.mp (List.mem_of_mem_take hx)
    exact ⟨hpending ▸ hx', hx'⟩
  · have hrows : rows = [] := by simpa using hnil
    subst hrows
    exact ⟨hperm.symm.eq_nil, happlying, hfounded⟩

/-- **What a statement does of what is to be done.** -/
theorem statement_since {d₀ : Store} (hkept : d.Kept P) (hstage : stage.Genuine P d)
    (hsince : stage.Since d₀ d) (h : World.statement P d stage = some (d', stage')) :
    stage'.Since d₀ d' := by
  cases stage with
  | deleting =>
    cases h
    exact ⟨pending_deleteResults.trans hsince, applying_deleteResults hkept⟩
  | resolving =>
    cases h
    have hpending : d.resolveStale.pending = d.pending := pending_congr ⟨rfl, rfl, rfl⟩ rfl
    exact ⟨hpending.trans hsince.1, hsince.2, founded_resolveStale hkept.keyed⟩
  | opening n item rest =>
    obtain ⟨b, hb, -⟩ := (hstage item List.mem_cons_self).backup
    simp only [World.statement, hb] at h
    cases h
    exact hsince
  -- the item is settled, and no other
  | saving n cache item rest =>
    cases h
    obtain ⟨hlength, hnodup, hmem⟩ := hsince
    obtain ⟨hitem, hrest⟩ := List.nodup_cons.mp hnodup
    have hin := hmem item List.mem_cons_self
    have hpending : (d.saveResult item (judge P item.pattern item.mode cache.opened).1
        (judge P item.pattern item.mode cache.opened).2).pending = d.pending.erase item :=
      pending_saveResult (mem_pending.mp hin.2).1
    have hlength' : (d.pending.erase item).length + (n + 1) = d₀.pending.length := by
      have hpos := List.length_pos_of_mem hin.2
      rw [List.length_erase_of_mem hin.2]
      omega
    have hmem' : ∀ x ∈ rest, x ∈ d₀.pending ∧ x ∈ d.pending.erase item := by
      intro x hx
      have hx' := hmem x (List.mem_cons_of_mem _ hx)
      refine ⟨hx'.1, (List.mem_erase_of_ne ?_).mpr hx'.2⟩
      rintro rfl
      exact hitem hx
    rw [← hpending] at hlength' hmem'
    split
    · exact ⟨⟨hlength', hrest, hmem'⟩, hin.1, _, saveResult_self, rfl⟩
    · exact Stage.since_next hlength' hrest hmem' fun _ hn => absurd hn (Nat.succ_ne_zero n)
  -- an alert does not change what is to be done
  | alerting n cache item passed detail rest =>
    cases h
    obtain ⟨⟨hlength, hnodup, hmem⟩, -, -⟩ := hsince
    have hpending : (if passed then d.resolveAlert (violation P item detail).key
        else d.upsertAlert (violation P item detail)
          (Alert.seenAs d.clock (violation P item detail))).pending = d.pending := by
      split
      · exact pending_congr ⟨rfl, rfl, rfl⟩ rfl
      · exact pending_congr upsertAlert_inputs upsertAlert_results
    rw [← hpending] at hlength hmem
    exact Stage.since_next hlength hnodup hmem fun _ hn => absurd hn (Nat.succ_ne_zero n)
  | _ => cases h

/-- What an evaluation clears has passed. -/
theorem Stage.Since.clears {d₀ : Store} (h : stage.Since d₀ d) {item : Work}
    (hitem : stage.clears = some item) : ¬d.Known item.switchId item.ruleId := by
  cases stage with
  | alerting n cache x passed detail rest =>
    cases passed with
    | false => cases hitem
    | true =>
      cases hitem
      obtain ⟨-, -, result, hresult, hpassed⟩ := h
      rintro ⟨result', rule, hresult', -, -, -, hfailed⟩
      obtain rfl := Option.some.inj (hresult.symm.trans hresult')
      rw [hpassed] at hfailed
      cases hfailed
  | _ => cases hitem

/-- **A violation that stands without an alert stays so.**

The one statement that raises the alert of a violation is behind the one that saves its result, and
an evaluation that finds the result there does not save it again. -/
theorem statement_bare {d₀ : Store} (hkept : d.Kept P) (hduties : d.duties = d₀.duties)
    (hsince : stage.Since d₀ d) (h : World.statement P d stage = some (d', stage'))
    (hstood : d₀.Standing s r) (hstands : d.Standing s r)
    (hbare : ¬d.Unresolved (.compliance s r)) :
    d'.Standing s r ∧ ¬d'.Unresolved (.compliance s r) := by
  obtain ⟨-, x, hx, rfl, rfl, hfresh⟩ := hstood
  have hne : ∀ item ∈ d₀.pending, ¬(x.switchId = item.switchId ∧ x.ruleId = item.ruleId) := by
    rintro item hitem ⟨hs, hr⟩
    obtain ⟨hmem, hstale⟩ := mem_pending.mp hitem
    rw [← duties_unique hx hmem hs hr, hfresh] at hstale
    cases hstale
  have hstays : d'.results x.switchId x.ruleId = d.results x.switchId x.ruleId →
      d'.Standing x.switchId x.ruleId :=
    fun hsame => (standing_congr hsame (statement_inputs h)).mpr hstands
  cases stage with
  | deleting =>
    cases h
    exact ⟨hstays (deleteResults_of_mem_duties (hduties ▸ hx)), hbare⟩
  | resolving =>
    cases h
    exact ⟨hstays rfl,
      fun h => hbare ((unresolved_resolveStale hkept.keyed).mp h).2⟩
  | opening n item rest =>
    simp only [World.statement] at h
    split at h <;> cases h <;> exact ⟨hstands, hbare⟩
  | saving n cache item rest =>
    cases h
    have hitem := (hsince.2.2 item List.mem_cons_self).1
    exact ⟨hstays (saveResult_of_ne (hne item hitem)), hbare⟩
  | alerting n cache item passed detail rest =>
    cases h
    have hitem := hne item hsince.2.1
    cases passed with
    | true =>
      exact ⟨hstays rfl, fun h => hbare (unresolved_resolveAlert.mp h).2⟩
    | false =>
      refine ⟨hstays (congrFun₂ upsertAlert_results _ _), fun h => ?_⟩
      rcases (unresolved_upsertAlert hkept.keyed (still_seenAs d.clock)).mp h with heq | h
      · exact hitem (DedupeKey.compliance.inj heq)
      · exact hbare h
  | _ => cases h

/-! ## Steps by itself -/

namespace World

variable {w w₀ w' w'' : World} {e n : ℕ} {event : Event} {events more : List Event}

/-- A world that the evaluation alone has made, since it started on `w₀`. -/
structure Alone (P : Platform) (e : ℕ) (w₀ w : World) : Prop where
  sound : w.Sound P
  inputs : w.store.switches = w₀.store.switches ∧ w.store.rules = w₀.store.rules ∧
    w.store.backups = w₀.store.backups
  since : (w.stages e).Since w₀.store w.store
  others : ∀ i, i ≠ e → w.stages i = w₀.stages i
  /-- What stood and was covered, is. -/
  covered : w₀.Covered P Standing → w.Covered P Standing
  /-- What stood without an alert, does. -/
  bare : ∀ s r, w₀.store.Standing s r → ¬w₀.store.Unresolved (.compliance s r) →
    w.store.Standing s r ∧ ¬w.store.Unresolved (.compliance s r)

theorem Alone.start (hsound : w.Sound P) (hrests : (w.stages e).rests = true)
    (hstep : w.step P (.start e) = some w') : Alone P e w w' := by
  have hsound' := hsound.step (show w.Faithful (.start e) from trivial) hstep
  have hcovered : w.Covered P Standing → w'.Covered P Standing :=
    fun h => h.step notion_standing hsound hstep trivial fun x hx => by cases hx
  simp only [World.step, hrests, if_true] at hstep
  cases hstep
  refine ⟨hsound', ⟨rfl, rfl, rfl⟩, ?_, fun i hi => Function.update_of_ne hi _ _, hcovered,
    fun s r hstands hbare => ⟨hstands, hbare⟩⟩
  show (Function.update w.stages e Stage.deleting e).Since w.store w.store
  rw [Function.update_self]
  exact rfl

/-- **Every step of the evaluation by itself.** -/
theorem Alone.step (h : Alone P e w₀ w) (hby : event.By e) (hfaithful : w.Faithful event)
    (hstep : w.step P event = some w') : Alone P e w₀ w' := by
  have hsound := h.sound.step hfaithful hstep
  cases event with
  -- a statement of the evaluation
  | go i =>
    obtain rfl : i = e := hby
    have hcovered := fun hw => (h.covered hw).step notion_standing h.sound hstep
      (fun item hitem => h.since.clears hitem) fun x hx => by cases hx
    obtain ⟨⟨d, stage⟩, hstatement, rfl⟩ := Option.map_eq_some_iff.mp hstep
    obtain ⟨hswitches, hrules, hbackups⟩ := statement_inputs hstatement
    refine ⟨hsound, ⟨hswitches.trans h.inputs.1, hrules.trans h.inputs.2.1,
      hbackups.trans h.inputs.2.2⟩, ?_, fun j hj => (Function.update_of_ne hj _ _).trans
      (h.others j hj), hcovered, fun s r hstood hbare => ?_⟩
    · show (Function.update w.stages i stage i).Since w₀.store d
      rw [Function.update_self]
      exact statement_since h.sound.kept (h.sound.stages i) h.since hstatement
    · obtain ⟨hstands, hbare'⟩ := h.bare s r hstood hbare
      exact statement_bare h.sound.kept (duties_congr h.inputs) h.since hstatement hstood hstands
        hbare'
  | reads i work =>
    obtain rfl : i = e := hby
    have hcovered := fun hw => (h.covered hw).step notion_standing h.sound hstep trivial
      fun x hx => by cases hx
    simp only [World.step] at hstep
    split at hstep
    next hstage =>
      cases hstep
      have hsince := h.since
      rw [hstage] at hsince
      refine ⟨hsound, h.inputs, ?_, fun j hj => (Function.update_of_ne hj _ _).trans
        (h.others j hj), hcovered, h.bare⟩
      show (Function.update w.stages i _ i).Since w₀.store w.store
      rw [Function.update_self]
      exact Stage.since_reads hfaithful hsince
    next => cases hstep
  -- nobody else writes: only the clock goes on
  | write x =>
    cases x with
    | tick now =>
      cases hstep
      refine ⟨hsound, h.inputs, h.since.congr ⟨rfl, rfl, rfl⟩ rfl rfl, h.others,
        fun hw s r hstands => ?_, fun s r hstood hbare => ?_⟩
      · exact h.covered hw s r (notion_standing.alerts w.store _ s r ⟨rfl, rfl, rfl⟩ rfl hstands)
      · obtain ⟨hstands, hbare'⟩ := h.bare s r hstood hbare
        exact ⟨(standing_congr rfl ⟨rfl, rfl, rfl⟩).mpr hstands, hbare'⟩
    | _ => cases hby
  | _ => cases hby

theorem Alone.run (h : Alone P e w₀ w) (hby : ∀ event ∈ events, Event.By e event)
    (hrun : Run P w events w') : Alone P e w₀ w' := by
  induction hrun with
  | nil => exact h
  | cons hfaithful hstep _ ih =>
    exact ih (h.step (hby _ List.mem_cons_self) hfaithful hstep)
      fun event hevent => hby event (List.mem_cons_of_mem _ hevent)

theorem Evaluates.alone (hsound : w.Sound P) (hrests : (w.stages e).rests = true)
    (h : w.Evaluates P e n w') : Alone P e w w' := by
  obtain ⟨events, hby, hrun, -⟩ := h
  cases hrun with
  | cons hfaithful hstep hrun => exact (Alone.start hsound hrests hstep).run hby hrun

theorem Evaluates.returned (h : w.Evaluates P e n w') (halone : Alone P e w w') :
    w'.store.pending.length + n = w.store.pending.length ∧ (n = 0 → w'.store.Clean) := by
  obtain ⟨-, -, -, hreturned⟩ := h
  have hsince := halone.since
  rw [hreturned] at hsince
  exact hsince.2

theorem Evaluates.atRest (h : w.Evaluates P e n w') (halone : Alone P e w w') (hrest : w.AtRest) :
    w'.AtRest := by
  obtain ⟨-, -, -, hreturned⟩ := h
  intro i
  by_cases hi : i = e
  · rw [hi, hreturned]
    rfl
  · rw [halone.others i hi]
    exact hrest i

/-! ## An evaluation comes to its end -/

theorem Run.append (h : Run P w events w') (h' : Run P w' more w'') :
    Run P w (events ++ more) w'' := by
  induction h with
  | nil => exact h'
  | cons hfaithful hstep _ ih => exact .cons hfaithful hstep (ih h')

theorem stages_goTo : (w.goTo e d stage).stages e = stage := Function.update_self ..

/-- The next statement. -/
theorem run_go (hstage : w.stages e = stage) (h : statement P w.store stage = some (d', stage')) :
    Run P w [.go e] (w.goTo e d' stage') := by
  refine .cons trivial ?_ (.nil _)
  show (statement P w.store (w.stages e)).map _ = _
  rw [hstage, h]
  rfl

/-- The evaluation returns, if it is left alone. -/
def Ends (P : Platform) (e : ℕ) (w : World) : Prop :=
  ∃ events n w', (∀ event ∈ events, Event.By e event) ∧ Run P w events w' ∧
    w'.stages e = .returned n false

theorem Ends.after (hrun : Run P w [event] w') (hby : event.By e) (hends : Ends P e w') :
    Ends P e w := by
  obtain ⟨events, n, w'', hbys, hruns, hreturned⟩ := hends
  refine ⟨event :: events, n, w'', fun x hx => ?_, hrun.append hruns, hreturned⟩
  rcases List.mem_cons.mp hx with rfl | hx
  · exact hby
  · exact hbys x hx

theorem Ends.go (hstage : w.stages e = stage)
    (h : statement P w.store stage = some (d', stage')) (hends : Ends P e (w.goTo e d' stage')) :
    Ends P e w :=
  Ends.after (run_go hstage h) rfl hends

/-- **The loop ends.** -/
theorem ends_next (rest : List Work) : ∀ (w : World) (n : ℕ) (cache : Cache), w.Sound P →
    w.stages e = .next n cache rest → Ends P e w := by
  induction rest with
  | nil =>
    intro w n cache _ hstage
    exact ⟨[], n, w, by simp, .nil w, hstage⟩
  | cons item rest ih =>
    have hsave : ∀ (w : World) (n : ℕ) (cache : Cache), w.Sound P →
        w.stages e = .saving n cache item rest → Ends P e w := by
      intro w n cache hsound hstage
      have hsound' := hsound.run (run_go hstage rfl)
      refine Ends.go hstage rfl ?_
      by_cases hcritical : item.severity = .critical
      · rw [if_pos hcritical] at hsound' ⊢
        refine Ends.go stages_goTo rfl ?_
        exact ih _ _ cache (hsound'.run (run_go stages_goTo rfl)) stages_goTo
      · rw [if_neg hcritical] at hsound' ⊢
        exact ih _ _ cache hsound' stages_goTo
    intro w n cache hsound hstage
    by_cases hid : item.backupId = cache.backupId
    · rw [Stage.next, if_neg (not_not.mpr hid)] at hstage
      exact hsave w n cache hsound hstage
    · rw [Stage.next, if_pos hid] at hstage
      have hgenuine := hsound.stages e
      rw [hstage] at hgenuine
      obtain ⟨b, hb, -⟩ := (hgenuine item List.mem_cons_self).backup
      have hopen : statement P w.store (.opening n item rest) = some (w.store,
          .saving n ⟨item.backupId, P.openConfig b.encryptedContent⟩ item rest) := by
        simp only [statement, hb]
      refine Ends.go hstage hopen ?_
      exact hsave _ n _ (hsound.run (run_go hstage hopen)) stages_goTo

/-- There is an order of the rows that the statement returns. -/
theorem exists_isWork (d : Store) : ∃ work, d.IsWork work := by
  refine ⟨_, d.pending.mergeSort fun a b => decide (a.backupId ≤ b.backupId),
    List.mergeSort_perm .., ?_, rfl⟩
  have hsorted : (d.pending.mergeSort fun a b => decide (a.backupId ≤ b.backupId)).Pairwise
      fun a b => decide (a.backupId ≤ b.backupId) = true :=
    List.pairwise_mergeSort
      (fun a b c hab hbc => by simp only [decide_eq_true_eq] at *; exact hab.trans hbc)
      (fun a b => by simpa using le_total a.backupId b.backupId) d.pending
  exact hsorted.imp of_decide_eq_true

theorem ends_reading (hsound : w.Sound P) (hstage : w.stages e = .reading) : Ends P e w := by
  obtain ⟨work, hwork⟩ := exists_isWork w.store
  have hreads : Run P w [.reads e work] (w.goTo e w.store (.next 0 {} work)) := by
    refine .cons hwork ?_ (.nil _)
    simp only [World.step, hstage]
  exact Ends.after hreads rfl (ends_next work _ 0 {} (hsound.run hreads) stages_goTo)

/-- **An evaluation that nothing goes wrong in returns.** -/
theorem exists_evaluates (hsound : w.Sound P) (hrests : (w.stages e).rests = true) :
    ∃ n w', w.Evaluates P e n w' := by
  have hstart : Run P w [.start e] (w.goTo e w.store .deleting) := by
    refine .cons trivial ?_ (.nil _)
    simp only [World.step, hrests, if_true]
  have hends : Ends P e (w.goTo e w.store .deleting) := by
    have hdeleted := (hsound.run hstart).run (run_go stages_goTo rfl)
    have hresolved := hdeleted.run (run_go stages_goTo rfl)
    refine Ends.go stages_goTo rfl (Ends.go stages_goTo rfl ?_)
    exact ends_reading hresolved stages_goTo
  obtain ⟨events, n, w', hby, hrun, hreturned⟩ := hends
  exact ⟨n, w', events, hby, hstart.append hrun, hreturned⟩

/-! ## Repeated evaluations -/

/-- At rest, what is covered has its alert. -/
theorem Covered.unresolved {D : Store → Id → Id → Prop} (h : w.Covered P D) (hrest : w.AtRest)
    (hD : D w.store s r) : w.store.Unresolved (.compliance s r) := by
  rcases h s r hD with hunresolved | ⟨e, item, halarm, -⟩
  · exact hunresolved
  · rw [Stage.alarm_of_rests (hrest e)] at halarm
    cases halarm

/-- **What repeated evaluations return, and what they leave.**

The induction is on the repetition.  An evaluation that returns a positive number has made the rest
shorter, and the last one, which returns zero, has found nothing: what it found at its begin is what
there is at its end. -/
theorem Repeats.spec {ns : List ℕ} (h : Repeats P e w ns w') (hsound : w.Sound P)
    (hrest : w.AtRest) : ns.sum = w.store.pending.length ∧ w'.Sound P ∧ w'.AtRest ∧
      w'.store.Clean ∧ (w.Covered P Standing → w'.Covered P Standing) ∧
      ∀ s r, w.store.Standing s r → ¬w.store.Unresolved (.compliance s r) →
        w'.store.Standing s r ∧ ¬w'.store.Unresolved (.compliance s r) := by
  induction h with
  | last h =>
    have halone := h.alone hsound (hrest e)
    obtain ⟨hlength, hclean⟩ := h.returned halone
    refine ⟨?_, halone.sound, h.atRest halone hrest, hclean rfl, halone.covered, halone.bare⟩
    rw [← hlength, (hclean rfl).pending]
    rfl
  | again h _ ih =>
    have halone := h.alone hsound (hrest e)
    obtain ⟨hlength, -⟩ := h.returned halone
    obtain ⟨hsum, hsound', hrest', hclean, hcovered, hbare⟩ :=
      ih halone.sound (h.atRest halone hrest)
    refine ⟨?_, hsound', hrest', hclean, fun hw => hcovered (halone.covered hw),
      fun s r hstands hnone => ?_⟩
    · rw [List.sum_cons, hsum, ← hlength, Nat.add_comm]
    · obtain ⟨hstands', hnone'⟩ := halone.bare s r hstands hnone
      exact hbare s r hstands' hnone'

/-- **Evaluations can be repeated until one returns zero.**

The number of things to do is finite and shrinks, so that a caller who repeats until zero does come
to an end. -/
theorem exists_repeats (e : ℕ) : ∀ (k : ℕ) (w : World), w.Sound P → w.AtRest →
    w.store.pending.length ≤ k → ∃ ns w', Repeats P e w ns w' := by
  intro k
  induction k with
  | zero =>
    intro w hsound hrest hk
    obtain ⟨n, w', h⟩ := exists_evaluates hsound (hrest e)
    obtain ⟨hlength, -⟩ := h.returned (h.alone hsound (hrest e))
    obtain rfl : n = 0 := by omega
    exact ⟨[0], w', .last h⟩
  | succ k ih =>
    intro w hsound hrest hk
    obtain ⟨n, w', h⟩ := exists_evaluates hsound (hrest e)
    have halone := h.alone hsound (hrest e)
    obtain ⟨hlength, -⟩ := h.returned halone
    cases n with
    | zero => exact ⟨[0], w', .last h⟩
    | succ n =>
      obtain ⟨ns, w'', hrepeats⟩ := ih w' halone.sound (h.atRest halone hrest) (by omega)
      exact ⟨(n + 1) :: ns, w'', .again h hrepeats⟩

end World

/-- Nothing is in the tables. -/
def Store.empty (now : Instant) : Store where
  clock := now
  switches := ∅
  rules := ∅
  backups := ∅
  results _ _ := none
  alerts := ∅
  nextAlert := 1

/-- Nothing has happened yet. -/
def World.init (now : Instant) : World := ⟨.empty now, fun _ => .idle⟩

theorem World.sound_init (now : Instant) : (World.init now).Sound P := by
  refine ⟨⟨fun id b h => ?_, fun s r result h => ?_, ⟨fun id a h => ?_, fun id a i b h => ?_,
    fun id _ => rfl⟩⟩, fun e => trivial⟩
  all_goals cases h

namespace World

variable {w : World} {events : List Event} {now : Instant}

/-- **Evaluations converge.**  From whatever state the writes of others and evaluations that stopped
anywhere have left, `evaluateCompliance` can be repeated until it returns zero; what it returns on
the way is what there was to do.  In the end the tables are settled exactly where in the beginning
every violation that stood had an unresolved alert; and it had where no evaluation stopped between
a violation and its alert, and none resolved the alert of a violation.

An evaluation counts what it does, so the numbers it returns are a measure: each of them is the
number of things that are no longer to be done, and a sequence of evaluations ends as soon as there
is nothing left.  What is not on this list is the alert of a violation that was recorded before its
alert was raised.  No evaluation looks at such a violation again, and this is the one way in which
the repetition comes to rest at tables that are not settled. -/
theorem converges (e : ℕ) (hrun : Run P (init now) events w) (hrest : w.AtRest) :
    (∃ ns w', Repeats P e w ns w') ∧
      (∀ ns w', Repeats P e w ns w' → ns.sum = w.store.pending.length) ∧
      ((∀ ns w', Repeats P e w ns w' → w'.store.Settled P) ↔
        ∀ s r, w.store.Standing s r → w.store.Unresolved (.compliance s r)) ∧
      ((init now).Calmly P events →
        ∀ s r, w.store.Standing s r → w.store.Unresolved (.compliance s r)) := by
  have hsound : w.Sound P := (sound_init now).run hrun
  have hexists := exists_repeats (P := P) e _ w hsound hrest le_rfl
  refine ⟨hexists, fun ns w' h => (h.spec hsound hrest).1, ⟨fun hsettled s r hstands => ?_,
    fun hraised ns w' h => ?_⟩, fun hcalm s r hstands => ?_⟩
  · obtain ⟨ns, w', hrepeats⟩ := hexists
    obtain ⟨-, hsound', -, -, -, hbare⟩ := hrepeats.spec hsound hrest
    by_contra hnone
    obtain ⟨hstands', hnone'⟩ := hbare s r hstands hnone
    exact hnone' ((hsettled ns w' hrepeats).unresolved hsound'.kept hstands'.1)
  · obtain ⟨-, hsound', hrest', hclean, hcovered, -⟩ := h.spec hsound hrest
    have hcovered' : w'.Covered P Standing := hcovered fun s r hstands => .inl (hraised s r hstands)
    exact hclean.settled hsound'.kept fun s r hstands => hcovered'.unresolved hrest' hstands
  · have hcovered : (init now).Covered P Known := by
      rintro s r ⟨result, rule, hresult, -⟩
      cases hresult
    exact (hcovered.run_known (sound_init now) hrun hcalm).unresolved hrest hstands.1

end World

/-- Whose step it is. -/
def Event.evaluator : Event → Option ℕ
  | .write _ => none
  | .start e | .go e | .reads e _ | .fails e _ | .crash e => some e

namespace World

variable {w w' : World} {event : Event} {events : List Event} {now : Instant}

/-- Nobody's step moves another's evaluation. -/
theorem step_stages (hstep : w.step P event = some w') {i : ℕ}
    (hi : event.evaluator ≠ some i) :
    w'.stages i = w.stages i := by
  have hgoTo : ∀ e d stage, some e ≠ some i → (w.goTo e d stage).stages i = w.stages i :=
    fun e d stage he => Function.update_of_ne (fun heq => he (congrArg some heq.symm)) _ _
  cases event with
  | write x =>
    simp only [World.step, Option.ite_none_right_eq_some, Option.some.injEq] at hstep
    obtain ⟨-, rfl⟩ := hstep
    rfl
  | start e =>
    simp only [World.step, Option.ite_none_right_eq_some, Option.some.injEq] at hstep
    obtain ⟨-, rfl⟩ := hstep
    exact hgoTo e _ _ hi
  | go e =>
    obtain ⟨x, -, rfl⟩ := Option.map_eq_some_iff.mp hstep
    exact hgoTo e _ _ hi
  | reads e work =>
    simp only [World.step] at hstep
    split at hstep <;> cases hstep
    exact hgoTo e _ _ hi
  | fails e committed =>
    simp only [World.step] at hstep
    split at hstep
    · cases hstep
    · split at hstep <;> cases hstep <;> exact hgoTo e _ _ hi
  | crash e =>
    cases hstep
    exact hgoTo e _ _ hi

/-- Only the evaluation `0` has run, and it rests. -/
theorem atRest_of_run (hrun : Run P (init now) events w)
    (honly : ∀ event ∈ events, event.evaluator.all (· = 0) = true)
    (hrests : (w.stages 0).rests = true) : w.AtRest := by
  have hstages : ∀ {v v' : World} {events : List Event}, Run P v events v' →
      (∀ event ∈ events, event.evaluator.all (· = 0) = true) → ∀ i, i ≠ 0 →
        v'.stages i = v.stages i := by
    intro v v' events hrun honly i hi
    induction hrun with
    | nil => rfl
    | @cons v _ _ event _ _ hstep _ ih =>
      have hother : event.evaluator ≠ some i := by
        intro heq
        have hzero := honly event List.mem_cons_self
        rw [heq] at hzero
        exact hi (of_decide_eq_true hzero)
      rw [ih fun x hx => honly x (List.mem_cons_of_mem _ hx), step_stages hstep hother]
  intro i
  by_cases hi : i = 0
  · exact hi ▸ hrests
  · rw [hstages hrun honly i hi]
    rfl

/-- Whether the work that is read is all there is, and in order. -/
def faithful (w : World) : Event → Bool
  | .reads _ work => work = w.store.pending.take 5000 &&
      decide (w.store.pending.Pairwise fun a b => a.backupId ≤ b.backupId)
  | _ => true

/-- The steps of a list, where each of them is possible. -/
def follow (P : Platform) (w : World) : List Event → Option World
  | [] => some w
  | event :: events =>
      if w.faithful event then (w.step P event).bind fun w' => follow P w' events else none

theorem run_of_follow (h : w.follow P events = some w') : Run P w events w' := by
  induction events generalizing w with
  | nil =>
    obtain rfl := Option.some.inj h
    exact .nil _
  | cons event events ih =>
    simp only [follow, Option.ite_none_right_eq_some, Option.bind_eq_some_iff] at h
    obtain ⟨hfaithful, v, hstep, hrest⟩ := h
    refine .cons ?_ hstep (ih hrest)
    cases event with
    | reads e work =>
      obtain ⟨hwork, hsorted⟩ := (Bool.and_eq_true _ _).mp hfaithful
      exact ⟨w.store.pending, .refl _, of_decide_eq_true hsorted, of_decide_eq_true hwork⟩
    | _ => trivial

/-- A platform whose configurations say nothing about the time. -/
def plain : Platform where
  openConfig _ := some "hostname access".toList
  compile _ := .ok fun _ => none
  quote name := "\"" ++ name ++ "\""

/-- A switch with a backup, and a critical rule that its configuration violates. -/
def lab : List Event :=
  [.write (.createSwitch 1 ⟨"cisco", none, true⟩),
    .write (.createRule 1 ⟨"ntp", none, "ntp server", .mustContain, .critical, none, none, true⟩),
    .write (.captureBackup 1 ⟨1, 10, "", 15, 1, ""⟩)]

/-- The first evaluation dies between the result and the alert. -/
def dying : List Event :=
  lab ++ [.start 0, .go 0, .go 0,
    .reads 0 [⟨1, 1, 1, 1, "ntp server", .mustContain, .critical, "ntp"⟩], .go 0, .go 0, .crash 0]

/-- An evaluation that finds nothing to do. -/
def idling : List Event := [.go 0, .go 0, .reads 0 []]

theorem converges_lab : ∃ w, Run plain (init 0) lab w ∧ w.store.pending.length = 1 ∧
    ∃ ns w', Repeats plain 0 w ns w' ∧ ns.sum = 1 ∧ w'.store.Settled plain := by
  have hsome : ((init 0).follow plain lab).map (fun w => (w.store.pending.length, w.stages 0)) =
      some (1, .idle) := by decide +kernel
  obtain ⟨w, hw, hfacts⟩ := Option.map_eq_some_iff.mp hsome
  obtain ⟨hpending, hstage⟩ := Prod.mk.inj hfacts
  have hrun := run_of_follow hw
  have hrest : w.AtRest := atRest_of_run hrun (by decide) (by rw [hstage]; rfl)
  obtain ⟨⟨ns, w', hrepeats⟩, hsum, hiff, hcalm⟩ := converges 0 hrun hrest
  have hcalmly : (init 0).Calmly plain lab :=
    ⟨trivial, fun _ _ => ⟨trivial, fun _ _ => ⟨trivial, fun _ _ => trivial⟩⟩⟩
  exact ⟨w, hrun, hpending, ns, w', hrepeats, (hsum ns w' hrepeats).trans hpending,
    hiff.mpr (hcalm hcalmly) ns w' hrepeats⟩

/-- The evaluation has returned zero, and there is a violation, but no alert. -/
def missed (w : World) : Bool :=
  w.stages 0 = .returned 0 false && (w.store.results 1 1).map Result.passed = some false &&
    (w.store.rules.get? 1).map (fun rule => rule.severity) = some .critical &&
    w.store.alerts.rows.isEmpty

/-- **Where an evaluation dies between the two, the alert is never raised.** -/
theorem not_converges : ∃ w w', Run plain (init 0) dying w ∧ w.AtRest ∧ Repeats plain 0 w [0] w' ∧
    ¬w'.store.Settled plain := by
  have hdying : ((init 0).follow plain dying).map (fun w => w.stages 0) = some .idle := by
    decide +kernel
  obtain ⟨w, hw, hstage⟩ := Option.map_eq_some_iff.mp hdying
  have hidling : (w.follow plain (.start 0 :: idling)).map missed = some true := by
    have hboth : (((init 0).follow plain dying).bind
        fun w => w.follow plain (.start 0 :: idling)).map missed = some true := by decide +kernel
    rwa [hw] at hboth
  obtain ⟨w', hw', hfacts⟩ := Option.map_eq_some_iff.mp hidling
  simp only [missed, Bool.and_eq_true, decide_eq_true_eq, List.isEmpty_iff,
    Option.map_eq_some_iff] at hfacts
  obtain ⟨⟨⟨hreturned, result, hresult, hpassed⟩, rule, hrule, hcritical⟩, halerts⟩ := hfacts
  have hrun := run_of_follow hw
  refine ⟨w, w', hrun, atRest_of_run hrun (by decide) (by rw [hstage]; rfl), .last ⟨idling, ?_,
    run_of_follow hw', hreturned⟩, fun hsettled => ?_⟩
  · simp [idling, Event.By]
  · obtain ⟨id, a, ha, -⟩ :=
      (hsettled.alerts 1 1).mpr ⟨result, rule, hresult, hrule, hcritical, hpassed⟩
    rw [← Table.mem_rows, halerts] at ha
    cases ha

end World

end BindPlane.Compliance
