import BindPlane.Mail.Links

/-!
# The dispatcher and its links

The steps of the dispatcher, seen from its links (`World.links`): each is one of theirs or leaves
them alone (`World.simulates`).

The two levels are connected here.  What holds of the links in every run of `Links.Step` holds of
the dispatcher, since none of its steps does anything else to them; so the argument about the mutex
needs to know nothing of the store, the mailer or the clock.
-/

namespace BindPlane.Dispatch

open Coroutine Mail
open Function (update)

def Stage.place : Stage → Place
  | .publishing i _ => .hidden i
  | .linking i _ => .linking i
  | .delivering i .. | .releasing i _ => .working i
  | .stopping i b _ => .stopping i b
  | .cancelling i _ => .cancelling i
  | _ => .away

theorem Check.stop_place (check : Check) : check.stop.place = .away := by
  cases check <;> rfl

theorem Check.pass_place (d : MailDispatcher) (check : Check) : (check.pass d).place = .away := by
  cases check with
  | entry =>
      show (if d.wired then Stage.sweeping else .processed true).place = .away
      split <;> rfl
  | top | claim | bottom => rfl

namespace World

/-- What the links of a state are. -/
def links (w : World) : Links where
  place := w.stage.place
  ended := w.ended
  stopping := w.stopping
  shutdownContext := w.shutdownContext
  active := w.active
  cancelled i := (w.deliveries i).cancelled
  stop i := (w.deliveries i).stop
  released i := (w.deliveries i).released
  deliveryCount := w.deliveryCount
  callbacks := w.callbacks
  callbackCount := w.callbackCount
  linkers := w.linkers
  linking k := w.calls k = .linking

variable {d : MailDispatcher} {w w' : World} {event : Event}

/-! ## What a step does to the links -/

theorem links_goTo (stage : Stage) : (w.goTo stage).links = { w.links with place := stage.place } :=
  rfl

theorem links_goTo_same {stage : Stage} (h : stage.place = w.stage.place) :
    (w.goTo stage).links = w.links := by
  rw [links_goTo, h]
  rfl

theorem links_setDelivery (i : ℕ) (f : Delivery → Delivery) : (w.setDelivery i f).links =
    { w.links with
      cancelled := update w.links.cancelled i (f (w.deliveries i)).cancelled
      stop := update w.links.stop i (f (w.deliveries i)).stop
      released := update w.links.released i (f (w.deliveries i)).released } := by
  ext1
  case cancelled => exact Function.comp_update Delivery.cancelled w.deliveries i _
  case stop => exact Function.comp_update Delivery.stop w.deliveries i _
  case released => exact Function.comp_update Delivery.released w.deliveries i _
  all_goals rfl

/-- A change to what is done under a delivery. -/
theorem links_setDelivery_same {i : ℕ} {f : Delivery → Delivery}
    (h : (f (w.deliveries i)).cancelled = (w.deliveries i).cancelled ∧
      (f (w.deliveries i)).stop = (w.deliveries i).stop ∧
      (f (w.deliveries i)).released = (w.deliveries i).released) :
    (w.setDelivery i f).links = w.links := by
  rw [links_setDelivery, h.1, h.2.1, h.2.2]
  ext1
  case cancelled => exact Function.update_eq_self i w.links.cancelled
  case stop => exact Function.update_eq_self i w.links.stop
  case released => exact Function.update_eq_self i w.links.released
  all_goals rfl

theorem links_keep (i b : ℕ) : (w.setDelivery i fun v => { v with stop := some b }).links =
    { w.links with stop := update w.links.stop i (some b) } := by
  rw [links_setDelivery]
  ext1
  case cancelled => exact Function.update_eq_self i w.links.cancelled
  case released => exact Function.update_eq_self i w.links.released
  all_goals rfl

theorem links_cancel (i : ℕ) : (w.setDelivery i fun v => { v with cancelled := true }).links =
    { w.links with cancelled := update w.links.cancelled i true } := by
  rw [links_setDelivery]
  ext1
  case stop => exact Function.update_eq_self i w.links.stop
  case released => exact Function.update_eq_self i w.links.released
  all_goals rfl

theorem links_release (i : ℕ) :
    (w.setDelivery i fun v => { v with cancelled := true, released := true }).links =
      { w.links with
        cancelled := update w.links.cancelled i true
        released := update w.links.released i true } := by
  rw [links_setDelivery]
  ext1
  case stop => exact Function.update_eq_self i w.links.stop
  all_goals rfl

theorem links_stopCallback (b : ℕ) :
    (w.stopCallback b).links = { w.links with callbacks := w.links.stopped b } := by
  unfold stopCallback Links.stopped
  by_cases hwaiting : (w.callbacks b).state = .waiting
  · rw [if_pos hwaiting, if_pos (show (w.links.callbacks b).state = .waiting from hwaiting)]
    rfl
  · rw [if_neg hwaiting, if_neg (show ¬ (w.links.callbacks b).state = .waiting from hwaiting)]

theorem links_open (job : MailJob) : (w.openDelivery d job).links =
    { w.links with
      place := .hidden w.deliveryCount
      cancelled := update w.links.cancelled w.deliveryCount false
      stop := update w.links.stop w.deliveryCount none
      released := update w.links.released w.deliveryCount false
      deliveryCount := w.deliveryCount + 1 } := by
  ext1
  case cancelled => exact Function.comp_update Delivery.cancelled w.deliveries _ _
  case stop => exact Function.comp_update Delivery.stop w.deliveries _ _
  case released => exact Function.comp_update Delivery.released w.deliveries _ _
  all_goals rfl

/-- A call of a delivery only adds to what is done under it. -/
theorem request_eq (i : ℕ) (q : Request) (k : Except Failure (Reply q) → Act Unit) :
    ∃ journal acknowledgements called rest, w.request i q k =
      (w.setDelivery i fun v => { v with journal, acknowledgements }).goTo
        (.delivering i called rest) := by
  cases q <;> exact ⟨_, _, _, _, rfl⟩

theorem links_request (i : ℕ) (q : Request) (k : Except Failure (Reply q) → Act Unit) :
    (w.request i q k).links = { w.links with place := .working i } := by
  obtain ⟨journal, acknowledgements, called, rest, heq⟩ := request_eq (w := w) i q k
  rw [heq, links_goTo, links_setDelivery_same ⟨rfl, rfl, rfl⟩]
  rfl

theorem links_setCall_same {k : ℕ} {caller : Caller} (h : w.calls k ≠ .linking)
    (hcaller : caller ≠ .linking) : (w.setCall k caller).links = w.links := by
  ext1
  case linking =>
    funext j
    show (update w.calls k caller j = .linking) = (w.calls j = .linking)
    by_cases hj : j = k
    · rw [hj, Function.update_self]
      exact propext (iff_of_false hcaller h)
    · rw [Function.update_of_ne hj]
  all_goals rfl

theorem links_setCall {k : ℕ} {caller : Caller} : (w.setCall k caller).links =
    { w.links with linking := update w.links.linking k (caller = .linking) } := by
  ext1
  case linking => exact Function.comp_update (fun c => c = Caller.linking) w.calls k caller
  all_goals rfl

/-- A step that the links do not see, or one of their own. -/
def Simulates (w w' : World) : Prop := w'.links = w.links ∨ w.links.Step w'.links

theorem simulates_link {l : ℕ} (h : w.link l = some w') : w.links.Step w'.links := by
  unfold link at h
  split at h
  · cases h
  next i c hlinker =>
    cases h
    exact .registers hlinker
  next i b hlinker =>
    split_ifs at h with hactive
    · cases h
      show w.links.Step { (w.setDelivery i _).links with linkers := update w.linkers l .idle }
      rw [links_keep]
      exact .keeps hlinker hactive
    · cases h
      exact .misses hlinker hactive
  next i b hlinker =>
    cases h
    show w.links.Step { (w.stopCallback b).links with linkers := update w.linkers l .idle }
    rw [links_stopCallback]
    exact .withdraws hlinker

theorem simulates_fire {b : ℕ} (h : w.fire b = some w') : w.links.Step w'.links := by
  unfold fire at h
  split_ifs at h with hstate
  cases h
  show w.links.Step { (w.setDelivery (w.callbacks b).delivery _).links with callbacks := _ }
  rw [links_cancel]
  exact .fires hstate

theorem simulates_advance {k : ℕ} (hlinked : w.links.Linked)
    (h : w.advance k = some w') : w.Simulates w' := by
  unfold advance at h
  split at h
  -- the call begins: it is the first one or it changes nothing
  next c hcall =>
    cases h
    have hlinking : ¬ w.links.linking k := by
      show ¬ w.calls k = .linking
      rw [hcall]
      exact Caller.noConfusion
    have hne : w.calls k ≠ .linking := hlinking
    unfold beginShutdown
    by_cases hstopped : w.stopping = true
    · rw [if_pos hstopped]
      exact .inl (links_setCall_same hne (by decide))
    · rw [if_neg hstopped]
      have hcontext : w.shutdownContext = none := by
        rw [show w.stopping = w.shutdownContext.isSome from hlinked.stopping] at hstopped
        simpa using hstopped
      split
      next hactive =>
        right
        show w.links.Step { (w.setCall k .returned).links with
          stopping := true, shutdownContext := some c }
        rw [links_setCall_same hne (by decide)]
        exact .begins hcontext hactive
      -- a delivery is active: the call goes on to link it
      next i hactive =>
        right
        show w.links.Step { (w.setCall k .linking).links with
          stopping := true, shutdownContext := some c
          linkers := update w.linkers (k + 1) (.entered i c) }
        rw [links_setCall]
        have htrue : (Caller.linking = Caller.linking) = True := eq_true rfl
        rw [htrue]
        exact .beginsLink hcontext hactive hlinking
  -- the call returns when its linker is idle again
  next hcall =>
    split_ifs at h with hlinker
    cases h
    right
    rw [links_setCall]
    have hfalse : (Caller.returned = Caller.linking) = False := eq_false Caller.noConfusion
    rw [hfalse]
    exact .returns hlinker
  next => cases h

theorem simulates_publish {i : ℕ} {job : MailJob} (hstage : w.stage = .publishing i job) :
    w.links.Step (w.publish d i job).links := by
  have hplace : w.links.place = .hidden i := congrArg Stage.place hstage
  unfold publish
  split
  next hcontext => exact .publishes hplace hcontext
  next c hcontext => exact .enters hplace hcontext

theorem simulates_release {i : ℕ} {failed : Bool} (hlinked : w.links.Linked)
    (hstage : w.stage = .releasing i failed) : w.links.Step (w.release i failed).links := by
  have hplace : w.links.place = .working i := congrArg Stage.place hstage
  have hactive : w.active = some i := by
    rw [show w.active = w.links.place.active from hlinked.active, hplace]
    rfl
  unfold release
  rw [if_pos hactive]
  split
  next hstop => exact .releases hplace hstop
  next b hstop => exact .releasesKept hplace hstop

/-- The loop goes on. -/
theorem simulates_go (hlinked : w.links.Linked) (h : w.go d = some w') : w.Simulates w' := by
  unfold go at h
  split at h
  -- away from the deliveries the links do not notice the loop
  next check hstage =>
    cases h
    refine .inl (links_goTo_same ?_)
    rw [hstage]
    split
    · exact check.stop_place
    · rfl
  next check hstage =>
    cases h
    refine .inl (links_goTo_same ?_)
    rw [hstage]
    split
    · exact check.stop_place
    · exact check.pass_place d
  next hstage =>
    cases h
    have hplace : w.stage.place = .away := congrArg Stage.place hstage
    left
    show { w.links with place := .away } = w.links
    rw [← hplace]
    rfl
  -- from here on each stage of a delivery is a step of the links
  next job hstage =>
    cases h
    right
    rw [links_open]
    exact .opens (congrArg Stage.place hstage)
  next i job hstage =>
    cases h
    exact .inr (simulates_publish hstage)
  next i job hstage =>
    split_ifs at h with hidle
    cases h
    exact .inr (.works (congrArg Stage.place hstage) hidle)
  next i rest hstage =>
    have hplace : w.stage.place = .working i := congrArg Stage.place hstage
    split at h
    · cases h
      exact .inl (links_goTo_same hplace.symm)
    · cases h
      exact .inl (links_goTo_same hplace.symm)
    · cases h
      left
      rw [links_request, ← hplace]
      rfl
  next i failed hstage =>
    cases h
    exact .inr (simulates_release hlinked hstage)
  next i b failed hstage =>
    cases h
    right
    rw [links_goTo, links_stopCallback]
    exact .stops (congrArg Stage.place hstage)
  next i failed hstage =>
    cases h
    right
    rw [links_goTo, links_release]
    exact .cancels (congrArg Stage.place hstage)
  next failed hstage =>
    cases h
    refine .inl (links_goTo_same ?_)
    rw [hstage]
    split <;> rfl
  next => cases h

theorem simulates_answer {request : Request} {result : Except Failure (Reply request)}
    (h : w.answer request result = some w') : w'.links = w.links := by
  unfold answer at h
  split at h
  next i q k hstage =>
    split_ifs at h with hsame
    cases h
    have hplace : w.stage.place = .working i := congrArg Stage.place hstage
    rw [links_goTo, links_setDelivery_same ⟨rfl, rfl, rfl⟩]
    show { w.links with place := .working i } = w.links
    rw [← hplace]
    rfl
  next => cases h

theorem simulates_fails (h : w.fails = some w') : w'.links = w.links := by
  unfold fails at h
  split at h
  case h_5 => cases h
  all_goals
    next hstage =>
      cases h
      exact links_goTo_same (congrArg Stage.place hstage).symm

theorem simulates_succeeds (h : w.succeeds = some w') : w'.links = w.links := by
  unfold succeeds at h
  split at h
  case h_5 => cases h
  all_goals
    next hstage =>
      cases h
      exact links_goTo_same (congrArg Stage.place hstage).symm

theorem simulates_receives {job : MailJob} (h : w.receives job = some w') :
    w'.links = w.links := by
  unfold receives at h
  split at h
  next hstage =>
    cases h
    exact links_goTo_same (congrArg Stage.place hstage).symm
  next => cases h

theorem simulates_select {ready : Bool} {next : Stage} (hnext : next.place = .away)
    (h : w.select ready next = some w') : w'.links = w.links := by
  unfold select at h
  split at h
  next hstage =>
    split_ifs at h
    cases h
    exact links_goTo_same (hnext.trans (congrArg Stage.place hstage).symm)
  next => cases h

/-- **A step is one of the links**, or they do not see it.

A step of the dispatcher changes the links in one of the ways of `Links.Step`, or it does not change
them: this is the refinement of the small machine by the whole. -/
theorem simulates (hlinked : w.links.Linked)
    (h : w.step d event = some w') : w.Simulates w' := by
  cases event with
  | elapse | cancelRun =>
      cases h
      exact .inl rfl
  | endContext c =>
      cases h
      exact .inr (.ends c)
  | fire b => exact .inr (simulates_fire h)
  | beginShutdown k c =>
      replace h :
        (if w.calls k = .idle then some (w.setCall k (.called c)) else none) = some w' := h
      split_ifs at h with hidle
      cases h
      have hne : w.calls k ≠ .linking := by
        rw [hidle]
        exact Caller.noConfusion
      exact .inl (links_setCall_same hne (by simp))
  | advance k => exact simulates_advance hlinked h
  | link l => exact .inr (simulates_link h)
  | go => exact simulates_go hlinked h
  | fails => exact .inl (simulates_fails h)
  | succeeds => exact .inl (simulates_succeeds h)
  | claims job => exact .inl (simulates_receives h)
  | answer request result => exact .inl (simulates_answer h)
  | seesDone | seesStop | ticks => exact .inl (simulates_select rfl h)

end World

end BindPlane.Dispatch
