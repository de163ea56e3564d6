import BindPlane.Mail.Loop

/-!
# What the mail dispatcher promises on its way down

* `Kept` is the discipline of a journal, `World.Told` what the journals and the loop have to do with
  each other, and `World.Timely` that no acknowledgement starts too late.
* `World.Prompt` is what the last of them takes: from the result of the mailer to its
  acknowledgement, less than the lease passes.
* `World.Orderly` collects what is promised of a state, and `drained` says that every run keeps it.

**Time.**  The steps of the dispatcher take no time, and any time may pass between them.  That an
acknowledgement is in time is therefore a condition on the run, and the only one: a context that is
cut off from all others still has a deadline of its own.
-/

namespace BindPlane.Dispatch

open Coroutine Mail
open Function (update)

/-! ## Journals -/

section Journals

variable {d : MailDispatcher} {h earlier later : Journal} {q : Request}

/-- Every call of the journal keeps to the guard, and every answer stands behind its call. -/
inductive Kept (d : MailDispatcher) : Journal → Prop
  | nil : Kept d []
  | calls {h : Journal} {q : Request} (hh : Kept d h) (hq : Guard d h q) : Kept d (.called q :: h)
  | returns {h : Journal} {q : Request} (hh : Kept d (.called q :: h))
      (r : Except Failure (Reply q)) : Kept d (.returned q r :: .called q :: h)

theorem acks_called (h : Journal) (q : Request) :
    acks (.called q :: h) = acks h + if isAck (.called q) then 1 else 0 := List.countP_cons

theorem acks_append (later earlier : Journal) :
    acks (later ++ earlier) = acks later + acks earlier :=
  List.countP_append

theorem Kept.tail {e : Coroutine.Event Reply Failure} (h : Kept d (e :: earlier)) :
    Kept d earlier := by
  cases h with
  | calls hh => exact hh
  | returns hh => exact hh

theorem Kept.guard (hh : Kept d (.called q :: h)) : Guard d h q := by
  cases hh with
  | calls _ hq => exact hq

/-- An answer stands behind its call, which has kept to the guard. -/
theorem Kept.returned {r : Except Failure (Reply q)} :
    ∀ {later : Journal}, Kept d (later ++ .returned q r :: earlier) →
      ∃ h, earlier = .called q :: h ∧ Guard d h q
  | [], hkept => by
      cases hkept with
      | returns hh => exact ⟨_, rfl, hh.guard⟩
  | _ :: _, hkept => Kept.returned hkept.tail

theorem Kept.acks_le (hh : Kept d h) : acks h ≤ 1 := by
  induction hh with
  | nil => exact Nat.zero_le 1
  | @calls h q hh hq ih =>
      rw [acks_called]
      split
      next hack =>
        cases q with
        | acknowledge =>
            rw [hq.1]
        | now | compose | resolveMailer | send | recordMailAttempt | currentMailRetryCount
          | random => cases hack
      next => exact ih
  | returns hh r ih => exact ih

/-- What is left of a delivery goes on from its journal. -/
def Paused (d : MailDispatcher) : Bool → Act Unit → Journal → Prop
  | false, rest, h => rest.Safe (Guard d) Settled h
  | true, .call q k, h =>
      q ≠ .now ∧ (∃ h₀, h = .called q :: h₀) ∧
        ∀ r, (k r).Safe (Guard d) Settled (.returned q r :: h)
  | true, _, _ => False

end Journals

/-! ## What has been done under a delivery -/

structure Delivery.Told (d : MailDispatcher) (v : Delivery) : Prop where
  kept : Kept d v.journal
  clocked : Clocked v.journal
  counted : v.acknowledgements.length = acks v.journal

/-- An acknowledgement of a result was in time, or still can be. -/
structure Delivery.Timely (d : MailDispatcher) (clock : ℤ) (v : Delivery) : Prop where
  alive : mailed v.journal = true → ∀ ack ∈ v.acknowledgements, ack.2 = true
  ahead : ∀ t, acks v.journal = 0 → resultTime v.journal = some t → clock < t + d.bound

namespace Delivery

variable {d : MailDispatcher} {v v' : Delivery} {q : Request} {ack : Ack} {deadline clock : ℤ}

theorem Told.alike (h : v.Told d) (hjournal : v'.journal = v.journal)
    (hacks : v'.acknowledgements = v.acknowledgements) : v'.Told d := by
  refine ⟨?_, ?_, ?_⟩
  · rw [hjournal]
    exact h.kept
  · rw [hjournal]
    exact h.clocked
  · rw [hjournal, hacks]
    exact h.counted

theorem clocked_called {h : Journal} (hh : Clocked h) (q : Request) : Clocked (.called q :: h) := by
  intro failure hmem
  rw [List.mem_cons] at hmem
  refine hh failure (hmem.resolve_left fun heq => ?_)
  cases heq

theorem clocked_returned {h : Journal} (hh : Clocked h) {q : Request} {r : Except Failure (Reply q)}
    (hr : ∀ failure,
      (.returned q r : Coroutine.Event Reply Failure) ≠ .returned .now (.error failure)) :
    Clocked (.returned q r :: h) := by
  intro failure hmem
  rw [List.mem_cons] at hmem
  exact hh failure (hmem.resolve_left fun heq => hr failure heq.symm)

theorem Told.reads (h : v.Told d) (t : ℤ) :
    { v with
      journal := .returned .now (.ok t) :: .called .now :: v.journal : Delivery }.Told d := by
  refine ⟨(h.kept.calls (guard_of rfl)).returns _, ?_, ?_⟩
  · refine clocked_returned (clocked_called h.clocked .now) fun failure heq => ?_
    cases heq
  · exact h.counted.trans (acks_returned rfl _).symm

theorem Told.acknowledges (h : v.Told d) (hguard : Due d deadline v.journal) :
    { v with
      journal := .called (.acknowledge ack deadline) :: v.journal
      acknowledgements :=
        (ack, decide (clock < deadline)) :: v.acknowledgements : Delivery }.Told d := by
  refine ⟨h.kept.calls hguard, clocked_called h.clocked _, ?_⟩
  rw [acks_called, ← h.counted]
  rfl

theorem Told.asks (h : v.Told d) (hguard : Guard d v.journal q) (hack : isAck (.called q) = false) :
    { v with journal := .called q :: v.journal : Delivery }.Told d := by
  refine ⟨h.kept.calls hguard, clocked_called h.clocked _, ?_⟩
  rw [acks_called, hack]
  exact h.counted

theorem Told.answers (h : v.Told d) (hnow : q ≠ .now) (hcalled : ∃ h₀, v.journal = .called q :: h₀)
    (r : Except Failure (Reply q)) :
    { v with journal := .returned q r :: v.journal : Delivery }.Told d := by
  refine ⟨?_, ?_, h.counted⟩
  · obtain ⟨h₀, hjournal⟩ := hcalled
    have hkept := h.kept
    rw [hjournal] at hkept
    show Kept d (.returned q r :: v.journal)
    rw [hjournal]
    exact hkept.returns r
  · refine clocked_returned h.clocked fun failure heq => ?_
    cases heq
    exact hnow rfl

theorem bound_pos (d : MailDispatcher) : 0 < d.bound := by
  unfold MailDispatcher.bound
  split
  · decide
  · omega

/-- An event that is not an answer of the clock. -/
theorem resultTime_other {h : Journal} {e : Coroutine.Event Reply Failure}
    (he : clockedResult (e :: h) = none) : resultTime (e :: h) = resultTime h := by
  show (resultTime h).or (clockedResult (e :: h)) = _
  rw [he, Option.or_none]

theorem clockedResult_returned {h : Journal} (hnow : q ≠ .now) (r : Except Failure (Reply q)) :
    clockedResult (.returned q r :: h) = none := by
  unfold clockedResult
  split
  next hshape =>
    cases hshape
    exact absurd rfl hnow
  next => rfl

theorem clockedResult_ok {h : Journal} {t t' : ℤ}
    (ht : clockedResult (.returned .now (.ok t) :: h) = some t') : t' = t := by
  unfold clockedResult at ht
  split at ht
  next hshape =>
    cases hshape
    exact (Option.some.inj ht).symm
  next => cases ht

theorem Timely.alike (h : v.Timely d clock) (hjournal : v'.journal = v.journal)
    (hacks : v'.acknowledgements = v.acknowledgements) : v'.Timely d clock := by
  refine ⟨?_, ?_⟩
  · rw [hjournal, hacks]
    exact h.alive
  · rw [hjournal]
    exact h.ahead

theorem Timely.reads (h : v.Timely d clock) :
    { v with
      journal := .returned .now (.ok clock) :: .called .now :: v.journal : Delivery }.Timely d
        clock := by
  refine ⟨h.alive, fun t hacks ht => ?_⟩
  replace ht : ((resultTime v.journal).or none).or
    (clockedResult (.returned .now (.ok clock) :: .called .now :: v.journal)) = some t := ht
  rw [Option.or_none] at ht
  cases hold : resultTime v.journal with
  | none =>
      rw [hold, Option.none_or] at ht
      rw [clockedResult_ok ht]
      exact Int.lt_add_of_pos_right _ (bound_pos d)
  | some early =>
      rw [hold, Option.some_or] at ht
      exact h.ahead t hacks (hold.trans ht)

theorem Timely.acknowledges (h : v.Timely d clock) (hguard : Due d deadline v.journal) :
    { v with
      journal := .called (.acknowledge ack deadline) :: v.journal
      acknowledgements :=
        (ack, decide (clock < deadline)) :: v.acknowledgements : Delivery }.Timely d clock := by
  refine ⟨fun hmailed b hb => ?_, fun t hacks => ?_⟩
  · rw [List.mem_cons] at hb
    rcases hb with rfl | hb
    · have hahead := h.ahead _ hguard.1 (hguard.2 hmailed)
      rw [Int.sub_add_cancel] at hahead
      exact decide_eq_true hahead
    · exact h.alive hmailed b hb
  · rw [acks_called] at hacks
    cases hacks

theorem Timely.asks (h : v.Timely d clock) (hack : isAck (.called q) = false) :
    { v with journal := .called q :: v.journal : Delivery }.Timely d clock := by
  refine ⟨h.alive, fun t hacks ht => ?_⟩
  rw [acks_called, hack] at hacks
  rw [resultTime_other rfl] at ht
  exact h.ahead t hacks ht

theorem Timely.answers (h : v.Timely d clock) (htold : v.Told d) (hnow : q ≠ .now)
    (hcalled : ∃ h₀, v.journal = .called q :: h₀) (r : Except Failure (Reply q)) :
    { v with journal := .returned q r :: v.journal : Delivery }.Timely d clock := by
  refine ⟨fun hmailed => ?_, fun t hacks ht => ?_⟩
  · by_cases hold : mailed v.journal = true
    · exact h.alive hold
    · -- the result of the mailer: nothing has been acknowledged before its call
      obtain ⟨h₀, hjournal⟩ := hcalled
      have hguard : Guard d h₀ q := by
        have hkept := htold.kept
        rw [hjournal] at hkept
        exact hkept.guard
      have hresult : isResult (.returned q r) = true := by
        unfold mailed at hmailed hold
        rw [List.any_cons, Bool.or_eq_true] at hmailed
        exact hmailed.resolve_right hold
      have hnone : acks v.journal = 0 := by
        rw [hjournal]
        cases q with
        | send => exact hguard.1
        | now | compose | resolveMailer | acknowledge | recordMailAttempt | currentMailRetryCount
          | random => cases hresult
      have hempty : v.acknowledgements = [] :=
        List.length_eq_zero_iff.mp (htold.counted.trans hnone)
      intro ack hack
      rw [hempty] at hack
      cases hack
  · rw [resultTime_other (clockedResult_returned hnow r)] at ht
    exact h.ahead t hacks ht

end Delivery

namespace World

variable {d : MailDispatcher} {w w' : World} {event : Event}

/-- The journals follow the deliveries.

The journal of a delivery is what its program has seen.  With it the program logic of a single
delivery says what a stage of the loop may still do. -/
structure Told (d : MailDispatcher) (w : World) : Prop where
  told : ∀ i, (w.deliveries i).Told d
  fresh : ∀ i, w.stage.phase = .fresh i → (w.deliveries i).journal = []
  paused : ∀ i called rest, w.stage.phase = .paused i called rest →
    Paused d called rest (w.deliveries i).journal
  settled : ∀ i < w.deliveryCount, w.stage.phase.delivery ≠ some i →
    acks (w.deliveries i).journal = 1

/-- Less than the lease passes from the result of the mailer to its acknowledgement. -/
def Prompt (d : MailDispatcher) (w : World) : Event → Prop
  | .elapse n => ∀ i t, acks (w.deliveries i).journal = 0 →
      resultTime (w.deliveries i).journal = some t → w.clock + n < t + d.bound
  | _ => True

/-- The steps of a run are prompt. -/
def Prompts (d : MailDispatcher) : World → List Event → Prop
  | _, [] => True
  | w, event :: events =>
      w.Prompt d event ∧ ∀ w', w.step d event = some w' → Prompts d w' events

/-! ## The journals follow the deliveries -/

theorem forall_setDelivery {P : Delivery → Prop} (h : ∀ j, P (w.deliveries j)) {i : ℕ}
    {f : Delivery → Delivery} (hi : P (f (w.deliveries i))) (j : ℕ) :
    P ((w.setDelivery i f).deliveries j) := by
  show P (update w.deliveries i _ j)
  by_cases hj : j = i
  · rw [hj, Function.update_self]
    exact hi
  · rw [Function.update_of_ne hj]
    exact h j

theorem setDelivery_self (i : ℕ) (f : Delivery → Delivery) :
    (w.setDelivery i f).deliveries i = f (w.deliveries i) := Function.update_self ..

theorem setDelivery_ne {i j : ℕ} (hj : j ≠ i) (f : Delivery → Delivery) :
    (w.setDelivery i f).deliveries j = w.deliveries j := Function.update_of_ne hj ..

/-- Behind a step that neither enters nor leaves the work on a delivery. -/
theorem Told.alike (h : w.Told d) (hcount : w'.deliveryCount = w.deliveryCount)
    (hdone : ∀ i, (w'.deliveries i).journal = (w.deliveries i).journal ∧
      (w'.deliveries i).acknowledgements = (w.deliveries i).acknowledgements)
    (hphase : w'.stage.phase = w.stage.phase) : w'.Told d := by
  refine ⟨fun i => (h.told i).alike (hdone i).1 (hdone i).2, ?_, ?_, ?_⟩
  · intro i hi
    rw [(hdone i).1]
    exact h.fresh i (hphase ▸ hi)
  · intro i called rest hi
    rw [(hdone i).1]
    exact h.paused i called rest (hphase ▸ hi)
  · intro i hi hne
    rw [(hdone i).1]
    rw [hcount] at hi
    exact h.settled i hi (hphase ▸ hne)

/-- Behind a step of the work on a delivery. -/
theorem Told.works (h : w.Told d) {i : ℕ} {called called' : Bool} {rest rest' : Act Unit}
    {f : Delivery → Delivery} (hstage : w.stage = .delivering i called rest)
    (htold : (f (w.deliveries i)).Told d)
    (hpaused : Paused d called' rest' (f (w.deliveries i)).journal) :
    ((w.setDelivery i f).goTo (.delivering i called' rest')).Told d := by
  refine ⟨forall_setDelivery h.told htold, ?_, ?_, ?_⟩
  · intro j hj
    cases hj
  · intro j called rest hj
    cases hj
    show Paused d called' rest' ((w.setDelivery i f).deliveries i).journal
    rw [setDelivery_self]
    exact hpaused
  · intro j hj hne
    have hji : j ≠ i := fun hji => hne (congrArg some hji.symm)
    show acks ((w.setDelivery i f).deliveries j).journal = 1
    rw [setDelivery_ne hji]
    refine h.settled j hj fun heq => hji ?_
    rw [hstage] at heq
    exact (Option.some.inj heq).symm

theorem Told.opens (h : w.Told d) {job : MailJob} (hstage : w.stage = .claimed job) :
    (w.openDelivery d job).Told d := by
  have hnew : ∀ deadline, ({ deadline } : Delivery).Told d := fun deadline =>
    ⟨.nil, fun _ hmem => absurd hmem List.not_mem_nil, rfl⟩
  refine ⟨forall_setDelivery (f := fun _ => { deadline := _ }) h.told (hnew _), ?_, ?_, ?_⟩
  · intro i hi
    cases hi
    show (update w.deliveries w.deliveryCount _ w.deliveryCount).journal = []
    rw [Function.update_self]
  · intro i called rest hi
    cases hi
  · intro i hi hne
    have hcount : i ≠ w.deliveryCount := fun heq => hne (congrArg some heq.symm)
    show acks (update w.deliveries w.deliveryCount _ i).journal = 1
    rw [Function.update_of_ne hcount]
    refine h.settled i (Nat.lt_of_le_of_ne (Nat.lt_succ_iff.mp hi) hcount) ?_
    rw [hstage]
    intro heq
    cases heq

/-- The work on a delivery begins with its whole program. -/
theorem Told.begins (h : w.Told d) {i : ℕ} {job : MailJob} (hphase : w.stage.phase = .fresh i)
    (hstage : w'.stage = .delivering i false (d.deliver job)) (halike : w.Alike w') :
    w'.Told d := by
  have hphase' : w'.stage.phase = .paused i false (d.deliver job) := congrArg Stage.phase hstage
  refine ⟨fun j => (h.told j).alike (halike.journal j) (halike.acknowledgements j), ?_, ?_, ?_⟩
  · intro j hj
    cases hphase'.symm.trans hj
  · intro j called rest hj
    cases hphase'.symm.trans hj
    rw [halike.journal i, h.fresh i hphase]
    exact deliver_safe d job
  · intro j hj hne
    rw [halike.journal j]
    rw [halike.deliveryCount] at hj
    refine h.settled j hj ?_
    rw [hphase]
    rwa [hphase'] at hne

/-- The work on a delivery ends with an acknowledgement. -/
theorem Told.ends (h : w.Told d) {i : ℕ} {rest : Act Unit} {failed : Bool}
    (hstage : w.stage = .delivering i false rest)
    (hrest : ∀ h, rest.Safe (Guard d) Settled h → Clocked h → acks h = 1) :
    (w.goTo (.releasing i failed)).Told d := by
  refine ⟨h.told, ?_, ?_, ?_⟩
  · intro j hj
    cases hj
  · intro j called rest hj
    cases hj
  · intro j hj _
    by_cases hji : j = i
    · rw [hji]
      exact hrest _ (h.paused i false rest (congrArg Stage.phase hstage)) (h.told i).clocked
    · refine h.settled j hj fun heq => hji ?_
      rw [hstage] at heq
      exact (Option.some.inj heq).symm

/-- **The loop keeps them.** -/
theorem Told.loop (h : w.Told d) (hloop : w.Loop d w') : w'.Told d := by
  have hsames : w.Same w' → w'.stage.phase = w.stage.phase → w'.Told d := fun hsame =>
    h.alike hsame.deliveryCount fun i => ⟨hsame.journal i, hsame.acknowledgements i⟩
  cases hloop with
  | hops hphase hphase' hmargin hsame => exact hsames hsame (hphase'.trans hphase.symm)
  | claims hstage => exact h.alike rfl (fun _ => ⟨rfl, rfl⟩) (congrArg Stage.phase hstage).symm
  | opens hstage => exact h.opens hstage
  | links hphase hphase' hmargin hsame => exact hsames hsame (hphase'.trans hphase.symm)
  | begins hphase hstage hsame => exact h.begins hphase hstage hsame.toAlike
  | ends hstage hrest => exact h.ends hstage hrest
  | reads hstage =>
      have hpaused := h.paused _ _ _ (congrArg Stage.phase hstage)
      exact h.works hstage ((h.told _).reads _) (hpaused.2 _)
  | acknowledges hstage =>
      have hpaused := h.paused _ _ _ (congrArg Stage.phase hstage)
      exact h.works hstage ((h.told _).acknowledges hpaused.1)
        ⟨fun heq => Request.noConfusion heq, ⟨_, rfl⟩, hpaused.2⟩
  | asks hnow hack hstage =>
      have hpaused := h.paused _ _ _ (congrArg Stage.phase hstage)
      exact h.works hstage ((h.told _).asks hpaused.1 hack) ⟨hnow, ⟨_, rfl⟩, hpaused.2⟩
  | answers hstage =>
      obtain ⟨hnow, hcalled, hrest⟩ := h.paused _ _ _ (congrArg Stage.phase hstage)
      exact h.works hstage ((h.told _).answers hnow hcalled _) (hrest _)

theorem elapse_eq {n : ℕ} (h : w.step d (.elapse n) = some w') :
    w' = { w with clock := w.clock + n } := by
  cases h
  rfl

/-- **And so does every step.** -/
theorem Told.step (h : w.Told d) (hstep : w.step d event = some w') : w'.Told d := by
  by_cases hloop : event.ofLoop = true
  · exact h.loop (World.loop hloop hstep)
  · by_cases helapse : ∃ n, event = .elapse n
    · obtain ⟨n, rfl⟩ := helapse
      rw [elapse_eq hstep]
      exact h.alike rfl (fun _ => ⟨rfl, rfl⟩) rfl
    · obtain ⟨hstage, halike, -⟩ := outside (Bool.eq_false_iff.mpr hloop)
        (fun n hn => helapse ⟨n, hn⟩) hstep
      exact h.alike halike.deliveryCount (fun i => ⟨halike.journal i, halike.acknowledgements i⟩)
        (congrArg Stage.phase hstage)

/-! ## Acknowledgements are in time -/

/-- Every acknowledgement of a result of the mailer is in time. -/
def Timely (d : MailDispatcher) (w : World) : Prop := ∀ i, (w.deliveries i).Timely d w.clock

theorem Timely.alike (h : w.Timely d) (halike : w.Alike w') : w'.Timely d := by
  intro i
  rw [halike.clock]
  exact (h i).alike (halike.journal i) (halike.acknowledgements i)

theorem Timely.works (h : w.Timely d) {i : ℕ} {f : Delivery → Delivery} {stage : Stage}
    (hi : (f (w.deliveries i)).Timely d w.clock) : ((w.setDelivery i f).goTo stage).Timely d :=
  forall_setDelivery h hi

theorem Timely.loop (h : w.Timely d) (htold : w.Told d) (hloop : w.Loop d w') : w'.Timely d := by
  cases hloop with
  | hops hphase hphase' hmargin hsame => exact h.alike hsame.toAlike
  | claims hstage => exact h
  | opens hstage =>
      have hnew : ∀ deadline, ({ deadline } : Delivery).Timely d w.clock := fun deadline =>
        ⟨fun hmailed => absurd hmailed Bool.false_ne_true, fun t _ ht => by cases ht⟩
      exact forall_setDelivery (f := fun _ => { deadline := _ }) h (hnew _)
  | links hphase hphase' hmargin hsame => exact h.alike hsame.toAlike
  | begins hphase hstage hsame => exact h.alike hsame.toAlike
  | ends hstage hrest => exact h
  | reads hstage => exact h.works (h _).reads
  | acknowledges hstage =>
      have hpaused := htold.paused _ _ _ (congrArg Stage.phase hstage)
      exact h.works ((h _).acknowledges hpaused.1)
  | asks hnow hack hstage => exact h.works ((h _).asks hack)
  | answers hstage =>
      obtain ⟨hnow, hcalled, -⟩ := htold.paused _ _ _ (congrArg Stage.phase hstage)
      exact h.works ((h _).answers (htold.told _) hnow hcalled _)

theorem Timely.step (h : w.Timely d) (htold : w.Told d) (hprompt : w.Prompt d event)
    (hstep : w.step d event = some w') : w'.Timely d := by
  by_cases hloop : event.ofLoop = true
  · exact h.loop htold (World.loop hloop hstep)
  · by_cases helapse : ∃ n, event = .elapse n
    · obtain ⟨n, rfl⟩ := helapse
      rw [elapse_eq hstep]
      exact fun i => ⟨(h i).alive, fun t => hprompt i t⟩
    · exact h.alike (outside (Bool.eq_false_iff.mpr hloop) (fun n hn => helapse ⟨n, hn⟩) hstep).2.1

/-! ## Claims -/

theorem Loop.begins_of (hloop : w.Loop d w') : w.Begins w' := by
  have hkept : ∀ v : World, v.calls = w.calls → v.stopping = w.stopping → w.Begins v := by
    intro v hcalls hstopping
    refine ⟨fun hbegun k hk => ?_, fun htrue => hstopping.trans htrue⟩
    rw [hcalls] at hk
    exact hstopping.trans (hbegun k hk)
  cases hloop with
  | hops _ _ _ hsame | links _ _ _ hsame | begins _ _ hsame => exact hsame.begins
  | claims | opens | ends | reads | acknowledges | asks | answers => exact hkept _ rfl rfl

theorem begins (hstep : w.step d event = some w') : w.Begins w' := by
  by_cases hloop : event.ofLoop = true
  · exact (World.loop hloop hstep).begins_of
  · by_cases helapse : ∃ n, event = .elapse n
    · obtain ⟨n, rfl⟩ := helapse
      rw [elapse_eq hstep]
      exact ⟨id, id⟩
    · exact (outside (Bool.eq_false_iff.mpr hloop) (fun n hn => helapse ⟨n, hn⟩) hstep).2.2

/-- A claim of the loop uses up what it has left. -/
theorem Loop.claims_le (hloop : w.Loop d w') (hstopping : w.stopping = true) :
    w'.claims + w'.stage.margin ≤ w.claims + w.stage.margin := by
  cases hloop with
  | hops _ _ hmargin hsame =>
      rw [hsame.claims]
      exact Nat.add_le_add_left (hmargin hstopping) _
  | claims hstage =>
      rw [hstage]
      exact Nat.le_refl (w.claims + 1)
  | links _ _ hmargin hsame =>
      rw [hsame.claims, hmargin]
      exact Nat.add_le_add_left (Nat.zero_le _) _
  | begins _ hstage hsame =>
      rw [hsame.claims, hstage]
      exact Nat.add_le_add_left (Nat.zero_le _) _
  | opens | ends | reads | acknowledges | asks | answers =>
      exact Nat.add_le_add_left (Nat.zero_le _) w.claims

theorem claims_le (hstep : w.step d event = some w') (hstopping : w.stopping = true) :
    w'.claims + w'.stage.margin ≤ w.claims + w.stage.margin := by
  by_cases hloop : event.ofLoop = true
  · exact (World.loop hloop hstep).claims_le hstopping
  · by_cases helapse : ∃ n, event = .elapse n
    · obtain ⟨n, rfl⟩ := helapse
      rw [elapse_eq hstep]
    · obtain ⟨hstage, halike, -⟩ := outside (Bool.eq_false_iff.mpr hloop)
        (fun n hn => helapse ⟨n, hn⟩) hstep
      rw [halike.claims, hstage]

theorem margin_le (stage : Stage) : stage.margin ≤ 1 := by
  unfold Stage.margin
  split
  · exact Nat.le_refl 1
  · exact Nat.le_refl 1
  · exact Nat.zero_le 1

/-- **One further claim** of a dispatcher that is stopping.

The loop looks at `stopping` in front of a claim, and it may have looked just before the shutdown
began.  That claim is still made, and behind it the loop looks again. -/
theorem run_claims (hstopping : w.stopping = true) : ∀ {events : List Event} {w' : World},
    w.run d events = some w' → w'.claims ≤ w.claims + 1 := by
  have hrun : ∀ (events : List Event) (v v' : World), v.stopping = true →
      v.run d events = some v' → v'.claims + v'.stage.margin ≤ v.claims + v.stage.margin := by
    intro events
    induction events with
    | nil =>
        intro v v' _ h
        cases h
        exact Nat.le_refl _
    | cons event events ih =>
        intro v v' hv h
        obtain ⟨v₁, hstep, hrest⟩ := Option.bind_eq_some_iff.mp h
        exact (ih v₁ v' ((begins hstep).stopping hv) hrest).trans (claims_le hstep hv)
  intro events w' h
  have := hrun events w w' hstopping h
  have := margin_le w.stage
  omega

/-! ## Every run -/

/-- The dispatcher before `Run`, given the deadline of its context. -/
def initial (clock : ℤ) (runDeadline : Option ℤ) : World := { clock, runDeadline }

theorem initial_linked (clock : ℤ) (runDeadline : Option ℤ) :
    (initial clock runDeadline).links.Linked where
  active := rfl
  current _ h := by cases h
  hidden _ h := by cases h
  kept _ _ h := by cases h
  linker _ _ h := by cases h
  alone _ _ _ h := by cases h
  entered _ _ _ h := by cases h
  registered _ _ _ h := by rcases h with h | h <;> cases h
  withdrawing _ _ _ h := by cases h
  loop _ h := by cases h
  caller _ h := absurd rfl h
  callback _ h := absurd h (Nat.not_lt_zero _)
  started _ h := absurd h (Nat.not_lt_zero _)
  single _ h := absurd h (Nat.not_lt_zero _)
  unborn _ _ := rfl
  owner _ h := by cases h
  link _ _ h := by cases h
  cause _ h := by cases h
  stopping := rfl

/-- What holds in every state. -/
structure Sound (d : MailDispatcher) (w : World) : Prop where
  linked : w.links.Linked
  told : w.Told d
  begun : w.Begun

theorem initial_sound (clock : ℤ) (runDeadline : Option ℤ) :
    (initial clock runDeadline).Sound d := by
  refine ⟨initial_linked clock runDeadline, ⟨fun _ => ?_, ?_, ?_, ?_⟩, ?_⟩
  · exact ⟨.nil, fun _ hmem => absurd hmem List.not_mem_nil, rfl⟩
  · intro i hi
    cases hi
  · intro i called rest hi
    cases hi
  · exact fun i hi => absurd hi (Nat.not_lt_zero i)
  · intro k hk
    rcases hk with hk | hk <;> cases hk

theorem Sound.step (h : w.Sound d) (hstep : w.step d event = some w') : w'.Sound d := by
  refine ⟨?_, h.told.step hstep, (begins hstep).begun h.begun⟩
  rcases simulates h.linked hstep with hsame | hlinks
  · rw [hsame]
    exact h.linked
  · exact h.linked.step hlinks

theorem run_sound : ∀ {events : List Event} {w w' : World}, w.Sound d →
    w.run d events = some w' → w'.Sound d := by
  intro events
  induction events with
  | nil =>
      intro w w' h hrun
      cases hrun
      exact h
  | cons event events ih =>
      intro w w' h hrun
      obtain ⟨v, hstep, hrest⟩ := Option.bind_eq_some_iff.mp hrun
      exact ih (h.step hstep) hrest

theorem run_timely : ∀ {events : List Event} {w w' : World}, w.Sound d → w.Timely d →
    w.Prompts d events → w.run d events = some w' → w'.Timely d := by
  intro events
  induction events with
  | nil =>
      intro w w' _ htimely _ hrun
      cases hrun
      exact htimely
  | cons event events ih =>
      intro w w' h htimely hprompts hrun
      obtain ⟨v, hstep, hrest⟩ := Option.bind_eq_some_iff.mp hrun
      exact ih (h.step hstep) (htimely.step h.told hprompts.1 hstep) (hprompts.2 v hstep) hrest

theorem initial_timely (clock : ℤ) (runDeadline : Option ℤ) :
    (initial clock runDeadline).Timely d :=
  fun _ => ⟨fun hmailed => absurd hmailed Bool.false_ne_true, fun t _ ht => by cases ht⟩

/-! ## What is promised -/

/-- The end of the shutdown context has cancelled a delivery, or has started the callback that does,
or finds the call of `linkActiveDelivery` that registers it. -/
inductive Cancels (w : World) (i context : ℕ) : Prop
  | done (h : (w.deliveries i).cancelled = true)
  | started {b : ℕ} (h : w.callbacks b = ⟨context, i, .started⟩)
  | entered {l : ℕ} (h : w.linkers l = .entered i context)

/-- At most two steps of callbacks and of `linkActiveDelivery` cancel a delivery. -/
def Soon (d : MailDispatcher) (w : World) (i : ℕ) : Prop :=
  ∃ events : List Event, events.length ≤ 2 ∧
    (∀ event ∈ events, (∃ b, event = .fire b) ∨ ∃ l, event = .link l) ∧
    ∃ w', w.run d events = some w' ∧ (w'.deliveries i).cancelled = true

/-- What is promised of a state.

These are the promises of the drain, of one state.  Some of them are about the past, as that an
acknowledgement was in time, and they are here because the journals keep it; the last ones say what
the next steps are able to do. -/
structure Orderly (d : MailDispatcher) (w : World) : Prop where
  /-- Nothing cancels a delivery before it is the active one. -/
  hidden : ∀ i job, w.stage = .publishing i job → (w.deliveries i).cancelled = false
  /-- While it is, its own callback does, behind the end of the shutdown context. -/
  cause : ∀ i, w.active = some i → (w.deliveries i).cancelled = true →
    ∃ b context, w.callbacks b = ⟨context, i, .over⟩ ∧ w.shutdownContext = some context ∧
      w.ended context = true
  /-- And it does. -/
  cancels : ∀ i context, w.active = some i → w.shutdownContext = some context →
    w.ended context = true → w.Cancels i context ∧ w.Soon d i
  /-- A result of the mailer is followed by one acknowledgement. -/
  settled : ∀ i < w.deliveryCount, ∀ later deadline result earlier,
    (w.deliveries i).journal = later ++ .returned (.send deadline) result :: earlier →
      acks earlier = 0 ∧ acks later ≤ 1 ∧ ((w.deliveries i).released = true → acks later = 1)
  counted : ∀ i, (w.deliveries i).acknowledgements.length = acks (w.deliveries i).journal
  /-- Its context has not ended. -/
  alive : ∀ i, mailed (w.deliveries i).journal = true →
    ∀ ack ∈ (w.deliveries i).acknowledgements, ack.2 = true
  /-- No callback is left of a delivery that is released, but where a call of `BeginShutdown` is
  about to withdraw it. -/
  removed : ∀ b i, (w.callbacks b).delivery = i → (w.callbacks b).state = .waiting →
    (w.deliveries i).released = true → ∃ k, w.calls k = .linking ∧
      (w.linkers (k + 1) = .registered i b ∨ w.linkers (k + 1) = .withdrawing i b)

theorem soon_fire {i b : ℕ} {context : ℕ} (h : w.callbacks b = ⟨context, i, .started⟩) :
    ∃ w', w.step d (.fire b) = some w' ∧ (w'.deliveries i).cancelled = true := by
  refine ⟨_, if_pos (congrArg Callback.state h), ?_⟩
  show (update w.deliveries (w.callbacks b).delivery _ i).cancelled = true
  rw [h, Function.update_self]

/-- What has begun is soon over. -/
theorem Cancels.soon {i context : ℕ} (hended : w.ended context = true)
    (h : w.Cancels i context) : w.Soon d i := by
  cases h with
  | done h => exact ⟨[], Nat.zero_le 2, fun _ hmem => absurd hmem List.not_mem_nil, w, rfl, h⟩
  | @started b h =>
      obtain ⟨w', hstep, hcancelled⟩ := soon_fire (d := d) h
      refine ⟨[.fire b], Nat.le_succ 1, ?_, w', ?_, hcancelled⟩
      · intro event hevent
        exact .inl ⟨b, List.mem_singleton.mp hevent⟩
      · show (w.step d (.fire b)).bind _ = _
        rw [hstep]
        rfl
  | @entered l h =>
      have hlink : w.step d (.link l) = some { w.afterFunc context i with
          linkers := update w.linkers l (.registered i w.callbackCount) } := by
        show w.link l = _
        unfold link
        rw [h]
      have hstarted : ({ w.afterFunc context i with
          linkers := update w.linkers l (.registered i w.callbackCount) } : World).callbacks
            w.callbackCount = ⟨context, i, .started⟩ := by
        show update w.callbacks w.callbackCount _ w.callbackCount = _
        rw [Function.update_self, hended]
        rfl
      obtain ⟨w', hstep, hcancelled⟩ := soon_fire (d := d) hstarted
      refine ⟨[.link l, .fire w.callbackCount], Nat.le_refl 2, ?_, w', ?_, hcancelled⟩
      · intro event hevent
        rw [List.mem_cons, List.mem_singleton] at hevent
        exact hevent.symm.imp (fun heq => ⟨_, heq⟩) fun heq => ⟨_, heq⟩
      · show (w.step d (.link l)).bind _ = _
        rw [hlink]
        show (step d _ (.fire w.callbackCount)).bind _ = _
        rw [hstep]
        rfl

theorem callback_eq {v : Callback} {context i : ℕ} {state : CallbackState}
    (hcontext : v.context = context) (hdelivery : v.delivery = i) (hstate : v.state = state) :
    v = ⟨context, i, state⟩ := by
  rw [← hcontext, ← hdelivery, ← hstate]

theorem eq_started {state : CallbackState} (hwaiting : state ≠ .waiting) (hover : state ≠ .over) :
    state = .started := by
  cases state <;> trivial

theorem Sound.cancels (h : w.Sound d) {i context : ℕ} (hactive : w.active = some i)
    (hcontext : w.shutdownContext = some context) (hended : w.ended context = true) :
    w.Cancels i context := by
  rcases h.linked.link i context hactive hcontext with hdone | ⟨b, hdelivery, hstate⟩ | ⟨l, hl⟩
  · exact .done hdone
  · have hb : b < w.callbackCount := by
      by_contra hb
      exact hstate (h.linked.unborn b (Nat.le_of_not_lt hb))
    have hown : (w.callbacks b).context = context :=
      Option.some.inj ((h.linked.callback b hb).1.symm.trans hcontext)
    have hstarted : (w.callbacks b).state = .started := by
      refine eq_started (fun hwaiting => ?_) hstate
      have hfalse := (h.linked.started b hb).2 hwaiting
      rw [show w.links.callbacks b = w.callbacks b from rfl, hown] at hfalse
      exact Bool.true_eq_false.mp (hended.symm.trans hfalse)
    exact .started (callback_eq hown hdelivery hstarted)
  · exact .entered hl

theorem Sound.cause (h : w.Sound d) {i : ℕ} (hactive : w.active = some i)
    (hcancelled : (w.deliveries i).cancelled = true) :
    ∃ b context, w.callbacks b = ⟨context, i, .over⟩ ∧ w.shutdownContext = some context ∧
      w.ended context = true := by
  obtain ⟨b, hb, hdelivery, hstate, hended⟩ := h.linked.cause i hactive hcancelled
  exact ⟨b, (w.callbacks b).context, callback_eq rfl hdelivery hstate,
    (h.linked.callback b hb).1, hended⟩

/-- A result of the mailer stands behind its call, and nothing is acknowledged before that. -/
theorem Sound.settled (h : w.Sound d) {i : ℕ} (hi : i < w.deliveryCount) {later : Journal}
    {deadline : ℤ} {result : Except Failure Unit} {earlier : Journal}
    (hjournal : (w.deliveries i).journal =
      later ++ .returned (.send deadline) result :: earlier) :
    acks earlier = 0 ∧ acks later ≤ 1 ∧ ((w.deliveries i).released = true → acks later = 1) := by
  have hkept := (h.told.told i).kept
  have hle := hkept.acks_le
  rw [hjournal] at hkept hle
  obtain ⟨h₀, rfl, hguard⟩ := hkept.returned
  have hnone : acks (.called (.send deadline) :: h₀) = 0 := hguard.1
  have hsum : acks (later ++ .returned (.send deadline) result :: .called (.send deadline) :: h₀) =
      acks later := (acks_append _ _).trans (congrArg (acks later + ·) hnone)
  refine ⟨hnone, hsum ▸ hle, fun hreleased => ?_⟩
  rw [← hsum, ← hjournal]
  refine h.told.settled i hi fun hphase => ?_
  have hcurrent : w.links.place.current = some i := Stage.current_of_phase hphase
  exact Bool.false_ne_true ((h.linked.current i hcurrent).2.symm.trans hreleased)

/-- Only a call of `BeginShutdown` can still have a callback of a released delivery. -/
theorem Sound.removed (h : w.Sound d) {b i : ℕ} (hdelivery : (w.callbacks b).delivery = i)
    (hwaiting : (w.callbacks b).state = .waiting) (hreleased : (w.deliveries i).released = true) :
    ∃ k, w.calls k = .linking ∧
      (w.linkers (k + 1) = .registered i b ∨ w.linkers (k + 1) = .withdrawing i b) := by
  have hgone : w.links.place.current ≠ some i := fun hcurrent =>
    Bool.false_ne_true ((h.linked.current i hcurrent).2.symm.trans hreleased)
  have howner := h.linked.owner b hwaiting
  rw [show (w.links.callbacks b).delivery = i from hdelivery] at howner
  rcases howner with ⟨hactive, -⟩ | ⟨l, hl⟩ | hplace
  · rw [h.linked.active] at hactive
    exact absurd (Place.current_of_active hactive) hgone
  · have hlinker : (w.linkers l).delivery = some i := by
      rcases hl with hl | hl <;> exact congrArg Linker.delivery hl
    cases l with
    | zero =>
        rw [h.linked.loop i hlinker] at hgone
        exact absurd rfl hgone
    | succ k =>
        refine ⟨k, h.linked.caller k fun hidle => ?_, hl⟩
        rw [show w.linkers (k + 1) = .idle from hidle] at hlinker
        cases hlinker
  · rw [hplace] at hgone
    exact absurd rfl hgone

theorem Sound.orderly (h : w.Sound d) (htimely : w.Timely d) : w.Orderly d where
  hidden i _ hstage := (h.linked.hidden i (congrArg Stage.place hstage)).1
  cause _ hactive hcancelled := h.cause hactive hcancelled
  cancels _ _ hactive hcontext hended :=
    have hcancels := h.cancels hactive hcontext hended
    ⟨hcancels, hcancels.soon hended⟩
  settled _ hi _ _ _ _ hjournal := h.settled hi hjournal
  counted i := (h.told.told i).counted
  alive i := (htimely i).alive
  removed _ _ hdelivery hwaiting hreleased := h.removed hdelivery hwaiting hreleased

/-- **The way down.**  In every run whose steps are prompt, what is promised of a state holds, and a
call of `BeginShutdown` that has returned leaves one more claim at most.

The run may stop the dispatcher at any moment and let any time pass between two steps of its
goroutines.  `Prompts` bounds one span only, from the answer of the mailer to the acknowledgement
that reports it: it must be shorter than the lease, whose length is also the limit of the context in
which the result is recorded.  What is promised then is the journal of every delivery, and that
after the drain has returned at most the one claim that was under way is still made. -/
theorem drained (d : MailDispatcher) (clock : ℤ) (runDeadline : Option ℤ) (events : List Event)
    (w : World) (hrun : (initial clock runDeadline).run d events = some w)
    (hprompt : (initial clock runDeadline).Prompts d events) :
    w.Orderly d ∧ ∀ k, w.calls k = .returned →
      ∀ later w', w.run d later = some w' → w'.claims ≤ w.claims + 1 := by
  have hsound := run_sound (initial_sound clock runDeadline) hrun
  have htimely := run_timely (initial_sound clock runDeadline) (initial_timely clock runDeadline)
    hprompt hrun
  refine ⟨hsound.orderly htimely, fun k hk later w' hlater => ?_⟩
  exact run_claims (hsound.begun k (.inr hk)) hlater

end World

/-! ## Two runs -/

/-- A retry policy, half a minute of lease. -/
def dispatcher : MailDispatcher where
  wired := true
  lease := 30 * second
  retryInitial := second
  retryMax := 60 * second
  maxAttempts := 10
  requireMaterial := true
  retryPolicy := true
  records := true

/-- A job of the dispatcher, with material. -/
def job : MailJob where
  id := 1
  kind := .passwordReset
  userId := some 1
  invitationId := none
  emailChangeRequestId := none
  name := "Ada"
  email := "ada@example.com"
  systemName := "Bind Plane"
  locale := "en"
  encryptedMaterial := [1]
  resetSelector := []
  emailChangeSelector := []
  verifierDigest := []
  invitationSelector := []
  invitationVerifierDigest := []
  attempts := 1
  round := 1
  roundAttempts := 1
  leaseToken := "lease"
  createdAt := 0
  expiresAt := 3600000000000

/-- The first claim, up to the call of the mailer. -/
def sending : List Event :=
  [.go, .go, .go, .go, .succeeds, .succeeds, .go, .go, .succeeds, .go, .claims job, .go, .go, .go,
    .answer .compose (.ok ()), .go, .go, .answer (.resolveMailer (30 * second)) (.ok ()), .go]

/-- A shutdown while the mailer works; then it returns, and the message is marked. -/
def marking : List Event :=
  sending ++ [.beginShutdown 0 0, .advance 0, .link 1, .link 1, .advance 0,
    .answer (.send (30 * second)) (.ok ()), .go, .go,
    .answer (.acknowledge .markMailSent (30 * second)) (.ok true), .go, .go, .go, .go, .go, .go]

/-- The mailer fails, and half a minute later so does the look at the retry policy. -/
def stalling : List Event :=
  sending ++ [.answer (.send (30 * second)) (.error (.delivery "temporary" true)), .go, .go,
    .elapse 30000000000, .answer (.currentMailRetryCount (30 * second)) (.error .other), .go]

/-- Time stands still. -/
def Event.still : Event → Bool
  | .elapse _ => false
  | _ => true

theorem prompts_of_still {d : MailDispatcher} : ∀ {events : List Event} {w : World},
    (∀ event ∈ events, event.still = true) → w.Prompts d events := by
  intro events
  induction events with
  | nil => exact fun _ => trivial
  | cons event events ih =>
      intro w hstill
      refine ⟨?_, fun w' _ => ih fun e he => hstill e (List.mem_cons_of_mem event he)⟩
      have hevent := hstill event List.mem_cons_self
      cases event with
      | elapse n => cases hevent
      | cancelRun | endContext | fire | beginShutdown | advance | link | go | fails | succeeds
        | claims | answer | seesDone | seesStop | ticks => trivial

theorem drained_marking : ∃ w, (World.initial 0 none).run dispatcher marking = some w ∧
    w.Orderly dispatcher ∧
      ∀ later w', w.run dispatcher later = some w' → w'.claims ≤ w.claims + 1 := by
  have hsome : (((World.initial 0 none).run dispatcher marking).map fun w => w.calls 0) =
      some .returned := by decide +kernel
  obtain ⟨w, hrun, hcall⟩ := Option.map_eq_some_iff.mp hsome
  obtain ⟨horderly, hclaims⟩ := World.drained dispatcher 0 none marking w hrun
    (prompts_of_still (by decide))
  exact ⟨w, hrun, horderly, hclaims 0 hcall⟩

/-- The acknowledgement of `stalling` comes too late. -/
theorem not_drained : ¬ ∀ (d : MailDispatcher) (clock : ℤ) (runDeadline : Option ℤ)
    (events : List Event) (w : World), (World.initial clock runDeadline).run d events = some w →
    w.Orderly d ∧ ∀ k, w.calls k = .returned →
      ∀ later w', w.run d later = some w' → w'.claims ≤ w.claims + 1 := by
  intro h
  have hsome : (((World.initial 0 none).run dispatcher stalling).map fun w =>
      (mailed (w.deliveries 0).journal, (w.deliveries 0).acknowledgements)) =
      some (true, [(.deadLetterMail "dependency", false)]) := by decide +kernel
  obtain ⟨w, hrun, heq⟩ := Option.map_eq_some_iff.mp hsome
  obtain ⟨hmailed, hacks⟩ := Prod.mk.inj heq
  have halive := (h dispatcher 0 none stalling w hrun).1.alive 0 hmailed
  rw [hacks] at halive
  exact Bool.false_ne_true (halive _ List.mem_cons_self)

end BindPlane.Dispatch
