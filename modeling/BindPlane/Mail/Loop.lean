import BindPlane.Mail.Linking

/-!
# The steps of the loop

The others leave the loop, its claims and the journals of the deliveries alone (`World.outside`);
`World.Loop` says what the loop itself does to them (`World.loop`).

A step of the loop is classified by the phase it is in, so that an invariant of the deliveries is
checked for the few steps that touch them; whatever the loop does between two deliveries is one
case.
-/

namespace BindPlane.Dispatch

open Coroutine Mail
open Function (update)

/-- How far the loop is with its delivery. -/
inductive Phase
  | idle
  | fresh (delivery : ℕ)
  | paused (delivery : ℕ) (called : Bool) (rest : Act Unit)

def Phase.delivery : Phase → Option ℕ
  | idle => none
  | fresh i | paused i .. => some i

def Stage.phase : Stage → Phase
  | .publishing i _ | .linking i _ => .fresh i
  | .delivering i called rest => .paused i called rest
  | _ => .idle

theorem Stage.current_of_phase {stage : Stage} {i : ℕ} (h : stage.phase.delivery = some i) :
    stage.place.current = some i := by
  cases stage with
  | publishing | linking | delivering => exact h
  | reading | asking | sweeping | cleaning | drawing | claiming | claimed | releasing | stopping
    | cancelling | processed | waiting | returned => cases h

/-- How many claims the loop starts without another look at `stopping`. -/
def Stage.margin : Stage → ℕ
  | .drawing | .claiming false => 1
  | _ => 0

theorem Check.stop_phase (check : Check) : check.stop.phase = .idle ∧ check.stop.margin = 0 := by
  cases check <;> exact ⟨rfl, rfl⟩

theorem Check.pass_phase (d : MailDispatcher) (check : Check) : (check.pass d).phase = .idle := by
  cases check with
  | entry =>
      show (if d.wired then Stage.sweeping else .processed true).phase = .idle
      split <;> rfl
  | top | claim | bottom => rfl

/-- A step of the loop. -/
def Event.ofLoop : Event → Bool
  | .go | .fails | .succeeds | .claims _ | .answer .. | .seesDone | .seesStop | .ticks => true
  | _ => false

namespace World

variable {d : MailDispatcher} {w w' : World} {event : Event}

/-! ## The others -/

/-- The same has been claimed and done.

Steps of others may cancel a delivery or register a callback; nothing of what is compared here
notices it. -/
structure Alike (w w' : World) : Prop where
  clock : w'.clock = w.clock
  claims : w'.claims = w.claims
  deliveryCount : w'.deliveryCount = w.deliveryCount
  journal : ∀ i, (w'.deliveries i).journal = (w.deliveries i).journal
  acknowledgements : ∀ i, (w'.deliveries i).acknowledgements = (w.deliveries i).acknowledgements

theorem setDelivery_journal {i : ℕ} {f : Delivery → Delivery}
    (h : ∀ v, (f v).journal = v.journal ∧ (f v).acknowledgements = v.acknowledgements) (j : ℕ) :
    ((w.setDelivery i f).deliveries j).journal = (w.deliveries j).journal ∧
      ((w.setDelivery i f).deliveries j).acknowledgements = (w.deliveries j).acknowledgements := by
  show (update w.deliveries i (f (w.deliveries i)) j).journal = _ ∧
    (update w.deliveries i (f (w.deliveries i)) j).acknowledgements = _
  by_cases hj : j = i
  · rw [hj, Function.update_self]
    exact h _
  · rw [Function.update_of_ne hj]
    exact ⟨rfl, rfl⟩

/-- And the shutdown is where it was. -/
structure Same (w w' : World) : Prop extends Alike w w' where
  calls : w'.calls = w.calls
  stopping : w'.stopping = w.stopping

theorem Alike.of (h : w'.clock = w.clock ∧ w'.claims = w.claims ∧
    w'.deliveryCount = w.deliveryCount ∧ w'.deliveries = w.deliveries) : w.Alike w' := by
  obtain ⟨hclock, hclaims, hcount, hdeliveries⟩ := h
  exact ⟨hclock, hclaims, hcount, fun i => by rw [hdeliveries], fun i => by rw [hdeliveries]⟩

theorem Same.of (h : w'.clock = w.clock ∧ w'.claims = w.claims ∧
    w'.deliveryCount = w.deliveryCount ∧ w'.deliveries = w.deliveries ∧ w'.calls = w.calls ∧
    w'.stopping = w.stopping) : w.Same w' := by
  obtain ⟨hclock, hclaims, hcount, hdeliveries, hcalls, hstopping⟩ := h
  exact ⟨.of ⟨hclock, hclaims, hcount, hdeliveries⟩, hcalls, hstopping⟩

theorem Same.setDelivery {i : ℕ} {f : Delivery → Delivery}
    (h : ∀ v, (f v).journal = v.journal ∧ (f v).acknowledgements = v.acknowledgements) :
    w.Same (w.setDelivery i f) :=
  ⟨⟨rfl, rfl, rfl, fun j => (setDelivery_journal h j).1,
    fun j => (setDelivery_journal h j).2⟩, rfl, rfl⟩

theorem stopCallback_eq (w : World) (b : ℕ) :
    ∃ callbacks, w.stopCallback b = { w with callbacks } := by
  unfold stopCallback
  split
  · exact ⟨_, rfl⟩
  · exact ⟨w.callbacks, rfl⟩

theorem link_same {l : ℕ} (h : w.link l = some w') : w'.stage = w.stage ∧ w.Same w' := by
  unfold link at h
  split at h
  · cases h
  · cases h
    exact ⟨rfl, .of ⟨rfl, rfl, rfl, rfl, rfl, rfl⟩⟩
  next i b hlinker =>
    split_ifs at h
    · cases h
      obtain ⟨⟨hclock, hclaims, hcount, hjournal, hacks⟩, hcalls, hstopping⟩ :=
        @Same.setDelivery w i (fun v => { v with stop := some b }) fun v => ⟨rfl, rfl⟩
      exact ⟨rfl, ⟨hclock, hclaims, hcount, hjournal, hacks⟩, hcalls, hstopping⟩
    · cases h
      exact ⟨rfl, .of ⟨rfl, rfl, rfl, rfl, rfl, rfl⟩⟩
  next i b hlinker =>
    cases h
    obtain ⟨callbacks, heq⟩ := stopCallback_eq w b
    rw [heq]
    exact ⟨rfl, .of ⟨rfl, rfl, rfl, rfl, rfl, rfl⟩⟩

theorem fire_same {b : ℕ} (h : w.fire b = some w') : w'.stage = w.stage ∧ w.Same w' := by
  unfold fire at h
  split_ifs at h
  cases h
  obtain ⟨⟨hclock, hclaims, hcount, hjournal, hacks⟩, hcalls, hstopping⟩ := @Same.setDelivery w
    (w.callbacks b).delivery (fun v => { v with cancelled := true }) fun v => ⟨rfl, rfl⟩
  exact ⟨rfl, ⟨hclock, hclaims, hcount, hjournal, hacks⟩, hcalls, hstopping⟩

/-- Whoever is past the mutex of `BeginShutdown` has left the dispatcher stopping. -/
def Begun (w : World) : Prop :=
  ∀ k, w.calls k = .linking ∨ w.calls k = .returned → w.stopping = true

/-- It does not stop stopping. -/
structure Begins (w w' : World) : Prop where
  begun : w.Begun → w'.Begun
  stopping : w.stopping = true → w'.stopping = true

theorem Same.begins (h : w.Same w') : w.Begins w' := by
  refine ⟨fun hbegun k hk => ?_, fun hstopping => h.stopping.trans hstopping⟩
  rw [h.calls] at hk
  exact h.stopping.trans (hbegun k hk)

theorem Begun.setCall {k : ℕ} {caller : Caller} (h : w.Begun)
    (hcaller : caller = .linking ∨ caller = .returned → w.stopping = true) :
    (w.setCall k caller).Begun := by
  intro j hj
  replace hj : update w.calls k caller j = .linking ∨ update w.calls k caller j = .returned := hj
  by_cases hjk : j = k
  · rw [hjk, Function.update_self] at hj
    exact hcaller hj
  · rw [Function.update_of_ne hjk] at hj
    exact h j hj

theorem advance_alike {k : ℕ} (h : w.advance k = some w') :
    w'.stage = w.stage ∧ w.Alike w' ∧ w.Begins w' := by
  unfold advance at h
  split at h
  next c hcall =>
    cases h
    unfold beginShutdown
    by_cases hstopping : w.stopping = true
    · rw [if_pos hstopping]
      exact ⟨rfl, .of ⟨rfl, rfl, rfl, rfl⟩, fun h => h.setCall fun _ => hstopping, id⟩
    · rw [if_neg hstopping]
      split <;> exact ⟨rfl, .of ⟨rfl, rfl, rfl, rfl⟩, fun _ _ _ => rfl, fun _ => rfl⟩
  next hcall =>
    split_ifs at h
    cases h
    exact ⟨rfl, .of ⟨rfl, rfl, rfl, rfl⟩, fun h => h.setCall fun _ => h k (.inl hcall), id⟩
  next => cases h

/-- What the others do. -/
theorem outside (hevent : event.ofLoop = false) (helapse : ∀ n, event ≠ .elapse n)
    (h : w.step d event = some w') : w'.stage = w.stage ∧ w.Alike w' ∧ w.Begins w' := by
  have hsame : ∀ v : World, v.stage = w.stage ∧ w.Same v →
      v.stage = w.stage ∧ w.Alike v ∧ w.Begins v :=
    fun v hv => ⟨hv.1, hv.2.toAlike, hv.2.begins⟩
  cases event with
  | elapse n => exact absurd rfl (helapse n)
  | cancelRun | endContext =>
      cases h
      exact hsame _ ⟨rfl, .of ⟨rfl, rfl, rfl, rfl, rfl, rfl⟩⟩
  | fire b => exact hsame _ (fire_same h)
  | beginShutdown k c =>
      replace h :
        (if w.calls k = .idle then some (w.setCall k (.called c)) else none) = some w' := h
      split_ifs at h
      cases h
      exact ⟨rfl, .of ⟨rfl, rfl, rfl, rfl⟩, fun h => h.setCall (by simp), id⟩
  | advance k => exact advance_alike h
  | link l => exact hsame _ (link_same h)
  | go | fails | succeeds | claims | answer | seesDone | seesStop | ticks => cases hevent

/-! ## The loop -/

/-- What the loop does.

The statements of the loop are sorted by what they mean for the count of acknowledgements, which is
all that the invariant of the drain is about. -/
inductive Loop (d : MailDispatcher) (w : World) : World → Prop
  /-- Away from the deliveries. -/
  | hops {w' : World} (hphase : w.stage.phase = .idle) (hphase' : w'.stage.phase = .idle)
      (hmargin : w.stopping = true → w'.stage.margin ≤ w.stage.margin) (hsame : w.Same w') :
      Loop d w w'
  | claims (hstage : w.stage = .claiming false) :
      Loop d w { w with stage := .claiming true, claims := w.claims + 1 }
  | opens {job : MailJob} (hstage : w.stage = .claimed job) : Loop d w (w.openDelivery d job)
  | links {w' : World} {i : ℕ} (hphase : w.stage.phase = .fresh i)
      (hphase' : w'.stage.phase = .fresh i) (hmargin : w'.stage.margin = 0) (hsame : w.Same w') :
      Loop d w w'
  | begins {w' : World} {i : ℕ} {job : MailJob} (hphase : w.stage.phase = .fresh i)
      (hstage : w'.stage = .delivering i false (d.deliver job)) (hsame : w.Same w') :
      Loop d w w'
  | ends {i : ℕ} {rest : Act Unit} {failed : Bool} (hstage : w.stage = .delivering i false rest)
      (hrest : ∀ h, rest.Safe (Guard d) Settled h → Clocked h → acks h = 1) :
      Loop d w (w.goTo (.releasing i failed))
  | reads {i : ℕ} {k : Except Failure (Reply .now) → Act Unit}
      (hstage : w.stage = .delivering i false (.call .now k)) :
      Loop d w ((w.setDelivery i fun v =>
        { v with journal := .returned .now (.ok w.clock) :: .called .now :: v.journal }).goTo
          (.delivering i false (k (.ok w.clock))))
  | acknowledges {i : ℕ} {ack : Ack} {deadline : ℤ}
      {k : Except Failure (Reply (.acknowledge ack deadline)) → Act Unit}
      (hstage : w.stage = .delivering i false (.call (.acknowledge ack deadline) k)) :
      Loop d w ((w.setDelivery i fun v =>
        { v with
          journal := .called (.acknowledge ack deadline) :: v.journal
          acknowledgements := (ack, decide (w.clock < deadline)) :: v.acknowledgements }).goTo
          (.delivering i true (.call (.acknowledge ack deadline) k)))
  | asks {i : ℕ} {q : Request} {k : Except Failure (Reply q) → Act Unit} (hnow : q ≠ .now)
      (hack : isAck (.called q) = false) (hstage : w.stage = .delivering i false (.call q k)) :
      Loop d w ((w.setDelivery i fun v => { v with journal := .called q :: v.journal }).goTo
        (.delivering i true (.call q k)))
  | answers {i : ℕ} {q : Request} {k : Except Failure (Reply q) → Act Unit}
      {r : Except Failure (Reply q)} (hstage : w.stage = .delivering i true (.call q k)) :
      Loop d w ((w.setDelivery i fun v => { v with journal := .returned q r :: v.journal }).goTo
        (.delivering i false (k r)))

theorem hops_goTo {stage : Stage} (hphase : w.stage.phase = .idle) (hphase' : stage.phase = .idle)
    (hmargin : w.stopping = true → stage.margin ≤ w.stage.margin) : w.Loop d (w.goTo stage) :=
  .hops hphase hphase' hmargin (.of ⟨rfl, rfl, rfl, rfl, rfl, rfl⟩)

theorem same_publish (i : ℕ) (job : MailJob) : w.Same (w.publish d i job) := by
  unfold publish
  split <;> exact .of ⟨rfl, rfl, rfl, rfl, rfl, rfl⟩

theorem same_release (i : ℕ) (failed : Bool) : w.Same (w.release i failed) := by
  unfold release
  split
  · split <;> exact .of ⟨rfl, rfl, rfl, rfl, rfl, rfl⟩
  · exact .of ⟨rfl, rfl, rfl, rfl, rfl, rfl⟩

theorem release_phase (i : ℕ) (failed : Bool) :
    (w.release i failed).stage.phase = .idle ∧ (w.release i failed).stage.margin = 0 := by
  unfold release
  split
  · split <;> exact ⟨rfl, rfl⟩
  · exact ⟨rfl, rfl⟩

theorem loop_publish {i : ℕ} {job : MailJob} (hstage : w.stage = .publishing i job) :
    w.Loop d (w.publish d i job) := by
  have hphase : w.stage.phase = .fresh i := congrArg Stage.phase hstage
  have hsame := same_publish (d := d) (w := w) i job
  revert hsame
  unfold publish
  split
  · exact fun hsame => .begins hphase rfl hsame
  · exact fun hsame => .links hphase rfl rfl hsame

theorem loop_request {i : ℕ} {q : Request} {k : Except Failure (Reply q) → Act Unit}
    (hstage : w.stage = .delivering i false (.call q k)) : w.Loop d (w.request i q k) := by
  cases q with
  | now => exact .reads hstage
  | acknowledge => exact .acknowledges hstage
  | compose | resolveMailer | send | recordMailAttempt | currentMailRetryCount | random =>
      exact .asks Request.noConfusion rfl hstage

theorem loop_go (h : w.go d = some w') : w.Loop d w' := by
  unfold go at h
  split at h
  -- before the end of the context is looked at, and before the flag is
  next check hstage =>
    cases h
    refine hops_goTo (congrArg Stage.phase hstage) ?_ fun _ => ?_
    · split
      · exact check.stop_phase.1
      · rfl
    · split
      · rw [check.stop_phase.2]
        exact Nat.zero_le _
      · exact Nat.zero_le _
  next check hstage =>
    cases h
    refine hops_goTo (congrArg Stage.phase hstage) ?_ fun hstopping => ?_
    · split
      · exact check.stop_phase.1
      · exact check.pass_phase d
    · rw [if_pos hstopping, check.stop_phase.2]
      exact Nat.zero_le _
  next hstage =>
    cases h
    exact .claims hstage
  next job hstage =>
    cases h
    exact .opens hstage
  next i job hstage =>
    cases h
    exact loop_publish hstage
  next i job hstage =>
    split_ifs at h
    cases h
    exact .begins (congrArg Stage.phase hstage) rfl (.of ⟨rfl, rfl, rfl, rfl, rfl, rfl⟩)
  -- the delivery has ended, or it comes to its next call
  next i rest hstage =>
    split at h
    · cases h
      exact .ends hstage fun h hsafe => hsafe
    · cases h
      exact .ends hstage fun h hsafe => hsafe
    · cases h
      exact loop_request hstage
  next i failed hstage =>
    cases h
    refine .hops (congrArg Stage.phase hstage) (release_phase i failed).1 (fun _ => ?_)
      (same_release i failed)
    rw [(release_phase i failed).2]
    exact Nat.zero_le _
  next i b failed hstage =>
    cases h
    obtain ⟨callbacks, heq⟩ := stopCallback_eq w b
    rw [heq]
    exact .hops (congrArg Stage.phase hstage) rfl (fun _ => Nat.zero_le _)
      (.of ⟨rfl, rfl, rfl, rfl, rfl, rfl⟩)
  next i failed hstage =>
    cases h
    obtain ⟨⟨hclock, hclaims, hcount, hjournal, hacks⟩, hcalls, hstopping⟩ := @Same.setDelivery w i
      (fun v => { v with cancelled := true, released := true }) fun v => ⟨rfl, rfl⟩
    exact .hops (congrArg Stage.phase hstage) rfl (fun _ => Nat.zero_le _)
      ⟨⟨hclock, hclaims, hcount, hjournal, hacks⟩, hcalls, hstopping⟩
  next failed hstage =>
    cases h
    refine hops_goTo (congrArg Stage.phase hstage) ?_ fun _ => ?_
    · split <;> rfl
    · split <;> exact Nat.zero_le _
  next => cases h

theorem loop_answer {request : Request} {result : Except Failure (Reply request)}
    (h : w.answer request result = some w') : w.Loop d w' := by
  unfold answer at h
  split at h
  next i q k hstage =>
    split_ifs at h with hsame
    subst hsame
    cases h
    exact .answers hstage
  next => cases h

theorem loop_fails (h : w.fails = some w') : w.Loop d w' := by
  unfold fails at h
  split at h
  case h_5 => cases h
  all_goals
    next hstage =>
      cases h
      exact hops_goTo (congrArg Stage.phase hstage) rfl fun _ => Nat.zero_le _

theorem loop_succeeds (h : w.succeeds = some w') : w.Loop d w' := by
  unfold succeeds at h
  split at h
  case h_3 hstage =>
    cases h
    refine hops_goTo (congrArg Stage.phase hstage) rfl fun _ => ?_
    rw [hstage]
    exact Nat.le_refl 1
  case h_5 => cases h
  all_goals
    next hstage =>
      cases h
      exact hops_goTo (congrArg Stage.phase hstage) rfl fun _ => Nat.zero_le _

theorem loop_select {ready : Bool} {next : Stage} (hnext : next.phase = .idle ∧ next.margin = 0)
    (h : w.select ready next = some w') : w.Loop d w' := by
  unfold select at h
  split at h
  next hstage =>
    split_ifs at h
    cases h
    refine hops_goTo (congrArg Stage.phase hstage) hnext.1 fun _ => ?_
    rw [hnext.2]
    exact Nat.zero_le _
  next => cases h

theorem loop (hevent : event.ofLoop = true) (h : w.step d event = some w') : w.Loop d w' := by
  cases event with
  | go => exact loop_go h
  | fails => exact loop_fails h
  | succeeds => exact loop_succeeds h
  | claims job =>
      replace h : w.receives job = some w' := h
      unfold receives at h
      split at h
      next hstage =>
        cases h
        exact hops_goTo (congrArg Stage.phase hstage) rfl fun _ => Nat.zero_le _
      next => cases h
  | answer request result => exact loop_answer h
  | seesDone | seesStop | ticks => exact loop_select ⟨rfl, rfl⟩ h
  | elapse | cancelRun | endContext | fire | beginShutdown | advance | link => cases hevent

end World

end BindPlane.Dispatch
