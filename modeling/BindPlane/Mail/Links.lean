import Mathlib.Data.Bool.Basic
import BindPlane.Mail.Dispatcher

/-!
# The link between a delivery and the shutdown

`BeginShutdown` publishes the shutdown context and reads the active delivery, the loop publishes its
delivery and reads the shutdown context, each under the mutex, and the one that comes second links
the two.

* `Links` is what these steps are about, and `Links.Step` says what they do; what the store and the
  mailer do is not in it (`Simulates`).
* `Linked` holds in every state: each delivery is linked by one party, its callback has an owner
  that keeps it or is about to remove it, and nothing else cancels a delivery that is still the
  active one.

**Why it is delicate.**  A shutdown that begins while a delivery is being published must not miss
it, and a delivery that ends while the shutdown links it must not leave a callback behind that
cancels a later one.  Both orders of the two publications are covered, since whoever comes second
sees what the first has published.
-/

namespace BindPlane.Dispatch

/-- Where the loop is with its delivery. -/
inductive Place
  | away
  /-- The delivery is not published yet. -/
  | hidden (delivery : ℕ)
  | linking (delivery : ℕ)
  | working (delivery : ℕ)
  | stopping (delivery callback : ℕ)
  | cancelling (delivery : ℕ)
  deriving DecidableEq

/-- The active delivery. -/
def Place.active : Place → Option ℕ
  | linking i | working i => some i
  | _ => none

/-- The delivery that is not released. -/
def Place.current : Place → Option ℕ
  | hidden i | linking i | working i | stopping i _ | cancelling i => some i
  | away => none

theorem Place.current_of_active {place : Place} {i : ℕ} (h : place.active = some i) :
    place.current = some i := by
  cases place with
  | linking | working => exact h
  | away | hidden | stopping | cancelling => cases h

def Linker.delivery : Linker → Option ℕ
  | .idle => none
  | .entered i _ | .registered i _ | .withdrawing i _ => some i

theorem Linker.eq_idle {l : Linker} (h : ∀ i, l.delivery ≠ some i) : l = .idle := by
  cases l with
  | idle => rfl
  | entered i | registered i | withdrawing i => exact absurd rfl (h i)

@[ext]
structure Links where
  place : Place
  ended : ℕ → Bool
  stopping : Bool
  shutdownContext : Option ℕ
  active : Option ℕ
  cancelled : ℕ → Bool
  stop : ℕ → Option ℕ
  released : ℕ → Bool
  deliveryCount : ℕ
  callbacks : ℕ → Callback
  callbackCount : ℕ
  linkers : ℕ → Linker
  /-- The calls of `BeginShutdown` that are in `linkActiveDelivery`. -/
  linking : ℕ → Prop

namespace Links

open Function (update)

/-- The callbacks when one of them has been stopped. -/
def stopped (s : Links) (b : ℕ) : ℕ → Callback :=
  if (s.callbacks b).state = .waiting then
    update s.callbacks b { s.callbacks b with state := .over }
  else s.callbacks

theorem stopped_context (s : Links) (b b' : ℕ) :
    (s.stopped b b').context = (s.callbacks b').context := by
  unfold stopped
  grind [Function.update_apply]

theorem stopped_delivery (s : Links) (b b' : ℕ) :
    (s.stopped b b').delivery = (s.callbacks b').delivery := by
  unfold stopped
  grind [Function.update_apply]

/-- The one callback is not waiting any more, and the others are as they were. -/
theorem stopped_state (s : Links) (b b' : ℕ) :
    (s.stopped b b').state = (s.callbacks b').state ∧ (b' = b → (s.callbacks b').state ≠ .waiting) ∨
      b' = b ∧ (s.callbacks b').state = .waiting ∧ (s.stopped b b').state = .over := by
  unfold stopped
  grind [Function.update_apply]

/-- What a step does to the links.

These are the steps that the cancellation of a delivery depends on, taken from those of the
dispatcher. -/
inductive Step (s : Links) : Links → Prop
  | opens (hplace : s.place = .away) :
      Step s { s with
        place := .hidden s.deliveryCount
        cancelled := update s.cancelled s.deliveryCount false
        stop := update s.stop s.deliveryCount none
        released := update s.released s.deliveryCount false
        deliveryCount := s.deliveryCount + 1 }
  | publishes {i : ℕ} (hplace : s.place = .hidden i) (hcontext : s.shutdownContext = none) :
      Step s { s with active := some i, place := .working i }
  | enters {i c : ℕ} (hplace : s.place = .hidden i) (hcontext : s.shutdownContext = some c) :
      Step s { s with
        active := some i, place := .linking i, linkers := update s.linkers 0 (.entered i c) }
  | works {i : ℕ} (hplace : s.place = .linking i) (hlinker : s.linkers 0 = .idle) :
      Step s { s with place := .working i }
  | releases {i : ℕ} (hplace : s.place = .working i) (hstop : s.stop i = none) :
      Step s { s with active := none, place := .cancelling i }
  | releasesKept {i b : ℕ} (hplace : s.place = .working i) (hstop : s.stop i = some b) :
      Step s { s with active := none, place := .stopping i b }
  | stops {i b : ℕ} (hplace : s.place = .stopping i b) :
      Step s { s with callbacks := s.stopped b, place := .cancelling i }
  | cancels {i : ℕ} (hplace : s.place = .cancelling i) :
      Step s { s with
        cancelled := update s.cancelled i true, released := update s.released i true
        place := .away }
  | begins {c : ℕ} (hcontext : s.shutdownContext = none) (hactive : s.active = none) :
      Step s { s with stopping := true, shutdownContext := some c }
  | beginsLink {k c i : ℕ} (hcontext : s.shutdownContext = none) (hactive : s.active = some i)
      (hcall : ¬ s.linking k) :
      Step s { s with
        stopping := true, shutdownContext := some c, linking := update s.linking k True
        linkers := update s.linkers (k + 1) (.entered i c) }
  | returns {k : ℕ} (hlinker : s.linkers (k + 1) = .idle) :
      Step s { s with linking := update s.linking k False }
  | registers {l i c : ℕ} (hlinker : s.linkers l = .entered i c) :
      Step s { s with
        callbacks := update s.callbacks s.callbackCount
          ⟨c, i, if s.ended c then .started else .waiting⟩
        callbackCount := s.callbackCount + 1
        linkers := update s.linkers l (.registered i s.callbackCount) }
  | keeps {l i b : ℕ} (hlinker : s.linkers l = .registered i b) (hactive : s.active = some i) :
      Step s { s with stop := update s.stop i (some b), linkers := update s.linkers l .idle }
  | misses {l i b : ℕ} (hlinker : s.linkers l = .registered i b) (hactive : s.active ≠ some i) :
      Step s { s with linkers := update s.linkers l (.withdrawing i b) }
  | withdraws {l i b : ℕ} (hlinker : s.linkers l = .withdrawing i b) :
      Step s { s with callbacks := s.stopped b, linkers := update s.linkers l .idle }
  | ends (c : ℕ) :
      Step s { s with
        ended := update s.ended c true
        callbacks := fun b =>
          if (s.callbacks b).context = c ∧ (s.callbacks b).state = .waiting then
            { s.callbacks b with state := .started }
          else s.callbacks b }
  | fires {b : ℕ} (hstate : (s.callbacks b).state = .started) :
      Step s { s with
        cancelled := update s.cancelled (s.callbacks b).delivery true
        callbacks := update s.callbacks b { s.callbacks b with state := .over } }

/-- What holds of the links.

The fields say for each delivery who is responsible for its link.  It may be a goroutine in the
middle of `linkActiveDelivery`, and the invariant names it, so that no step can lose the link or
make it twice. -/
structure Linked (s : Links) : Prop where
  active : s.active = s.place.active
  current : ∀ i, s.place.current = some i → i < s.deliveryCount ∧ s.released i = false
  hidden : ∀ i, s.place = .hidden i → s.cancelled i = false ∧ s.stop i = none
  kept : ∀ i b, s.stop i = some b → s.shutdownContext.isSome = true
  linker : ∀ l i, (s.linkers l).delivery = some i → s.shutdownContext.isSome = true ∧
    i < s.deliveryCount ∧ s.place ≠ .hidden i ∧ s.stop i = none
  alone : ∀ l l' i, (s.linkers l).delivery = some i → (s.linkers l').delivery = some i → l = l'
  entered : ∀ l i c, s.linkers l = .entered i c → s.shutdownContext = some c ∧
    ∀ b < s.callbackCount, (s.callbacks b).delivery ≠ i
  registered : ∀ l i b, s.linkers l = .registered i b ∨ s.linkers l = .withdrawing i b →
    b < s.callbackCount ∧ (s.callbacks b).delivery = i
  withdrawing : ∀ l i b, s.linkers l = .withdrawing i b → s.active ≠ some i
  loop : ∀ i, (s.linkers 0).delivery = some i → s.place = .linking i
  caller : ∀ k, s.linkers (k + 1) ≠ .idle → s.linking k
  callback : ∀ b < s.callbackCount, s.shutdownContext = some (s.callbacks b).context ∧
    (s.callbacks b).delivery < s.deliveryCount ∧ s.place ≠ .hidden (s.callbacks b).delivery
  started : ∀ b < s.callbackCount,
    ((s.callbacks b).state = .started → s.ended (s.callbacks b).context = true) ∧
    ((s.callbacks b).state = .waiting → s.ended (s.callbacks b).context = false)
  single : ∀ b < s.callbackCount, ∀ b' < s.callbackCount,
    (s.callbacks b).delivery = (s.callbacks b').delivery → b = b'
  unborn : ∀ b, s.callbackCount ≤ b → (s.callbacks b).state = .over
  owner : ∀ b, (s.callbacks b).state = .waiting →
    (s.active = some (s.callbacks b).delivery ∧ s.stop (s.callbacks b).delivery = some b) ∨
    (∃ l, s.linkers l = .registered (s.callbacks b).delivery b ∨
      s.linkers l = .withdrawing (s.callbacks b).delivery b) ∨
    s.place = .stopping (s.callbacks b).delivery b
  link : ∀ i c, s.active = some i → s.shutdownContext = some c → s.cancelled i = true ∨
    (∃ b, (s.callbacks b).delivery = i ∧ (s.callbacks b).state ≠ .over) ∨
    ∃ l, s.linkers l = .entered i c
  cause : ∀ i, s.active = some i → s.cancelled i = true →
    ∃ b < s.callbackCount, (s.callbacks b).delivery = i ∧ (s.callbacks b).state = .over ∧
      s.ended (s.callbacks b).context = true
  stopping : s.stopping = s.shutdownContext.isSome

variable {s s' : Links}

namespace Linked

theorem opens (h : s.Linked) (hplace : s.place = .away) :
    ({ s with
        place := .hidden s.deliveryCount
        cancelled := update s.cancelled s.deliveryCount false
        stop := update s.stop s.deliveryCount none
        released := update s.released s.deliveryCount false
        deliveryCount := s.deliveryCount + 1 } : Links).Linked := by
  have hactive : s.active = none := by rw [h.active, hplace]; rfl
  have hlinker := h.linker
  have hcallback := h.callback
  have hloop := h.loop
  constructor <;> dsimp only
  · exact hactive
  · grind [Place.current, Function.update_apply]
  · grind [Function.update_apply]
  · have := h.kept
    grind [Function.update_apply]
  · grind [Function.update_apply]
  · exact h.alone
  · exact h.entered
  · exact h.registered
  · exact h.withdrawing
  · grind
  · exact h.caller
  · grind
  · exact h.started
  · exact h.single
  · exact h.unborn
  · have := h.owner
    grind
  · grind
  · grind
  · exact h.stopping

theorem publishes (h : s.Linked) {i : ℕ} (hplace : s.place = .hidden i)
    (hcontext : s.shutdownContext = none) :
    ({ s with active := some i, place := .working i } : Links).Linked := by
  have hlinker := h.linker
  have hcallback := h.callback
  have hhidden := h.hidden i hplace
  have hcurrent := h.current i (by rw [hplace]; rfl)
  constructor <;> dsimp only
  · rfl
  · grind [Place.current]
  · grind
  · exact h.kept
  · grind
  · exact h.alone
  · exact h.entered
  · exact h.registered
  · grind [Linker.delivery]
  · grind
  · exact h.caller
  · grind
  · exact h.started
  · exact h.single
  · exact h.unborn
  · have := h.owner
    have := h.unborn
    grind
  · grind
  · grind
  · exact h.stopping

theorem enters (h : s.Linked) {i c : ℕ} (hplace : s.place = .hidden i)
    (hcontext : s.shutdownContext = some c) :
    ({ s with
        active := some i, place := .linking i
        linkers := update s.linkers 0 (.entered i c) } : Links).Linked := by
  have hlinker := h.linker
  have hcallback := h.callback
  have hloop := h.loop
  have hhidden := h.hidden i hplace
  have hcurrent := h.current i (by rw [hplace]; rfl)
  have hidle : s.linkers 0 = .idle := Linker.eq_idle fun j hj => by
    have := hloop j hj
    grind
  have hactive : s.active = none := by rw [h.active, hplace]; rfl
  constructor <;> dsimp only
  · rfl
  · grind [Place.current]
  · grind
  · exact h.kept
  · grind [Function.update_apply, Linker.delivery]
  · have := h.alone
    grind [Function.update_apply, Linker.delivery]
  · have := h.entered
    grind [Function.update_apply]
  · have := h.registered
    grind [Function.update_apply]
  · grind [Function.update_apply, Linker.delivery]
  · grind [Function.update_apply, Linker.delivery]
  · have := h.caller
    grind [Function.update_apply]
  · grind
  · exact h.started
  · exact h.single
  · exact h.unborn
  · intro b hb
    rcases h.owner b hb with ⟨hkept, -⟩ | ⟨l, hl⟩ | hstopping
    · cases hactive.symm.trans hkept
    · refine .inr (.inl ⟨l, ?_⟩)
      have hne : l ≠ 0 := by grind
      rwa [Function.update_of_ne hne]
    · cases hplace.symm.trans hstopping
  · intro j c' hj hc'
    have hsame : c' = c := by grind
    refine .inr (.inr ⟨0, ?_⟩)
    rw [Function.update_self, hsame, Option.some.inj hj]
  · grind
  · exact h.stopping

theorem works (h : s.Linked) {i : ℕ} (hplace : s.place = .linking i)
    (hidle : s.linkers 0 = .idle) : ({ s with place := .working i } : Links).Linked := by
  have hactive := h.active
  rw [hplace] at hactive
  have hcurrent := h.current i (by rw [hplace]; rfl)
  constructor <;> dsimp only
  · exact hactive
  · grind [Place.current]
  · grind
  · exact h.kept
  · have := h.linker
    grind
  · exact h.alone
  · exact h.entered
  · exact h.registered
  · exact h.withdrawing
  · grind [Linker.delivery]
  · exact h.caller
  · have := h.callback
    grind
  · exact h.started
  · exact h.single
  · exact h.unborn
  · have := h.owner
    grind
  · exact h.link
  · exact h.cause
  · exact h.stopping

/-- The active delivery is withdrawn, and its callback is about to be stopped. -/
theorem releases (h : s.Linked) {i : ℕ} (hplace : s.place = .working i) {place : Place}
    (hnext : place = .cancelling i ∧ s.stop i = none ∨
      ∃ b, place = .stopping i b ∧ s.stop i = some b) :
    ({ s with active := none, place } : Links).Linked := by
  have hactive : s.active = some i := by rw [h.active, hplace]; rfl
  have hcurrent := h.current i (by rw [hplace]; rfl)
  have hnone : place.active = none ∧ place.current = some i ∧ ∀ j, place ≠ .hidden j ∧
      place ≠ .linking j := by
    rcases hnext with ⟨rfl, -⟩ | ⟨b, rfl, -⟩
    · exact ⟨rfl, rfl, by simp⟩
    · exact ⟨rfl, rfl, by simp⟩
  constructor <;> dsimp only
  · exact hnone.1.symm
  · grind
  · grind
  · exact h.kept
  · have := h.linker
    grind
  · exact h.alone
  · exact h.entered
  · exact h.registered
  · grind
  · have := h.loop
    grind
  · exact h.caller
  · have := h.callback
    grind
  · exact h.started
  · exact h.single
  · exact h.unborn
  · have := h.owner
    grind
  · grind
  · grind
  · exact h.stopping

theorem cancels (h : s.Linked) {i : ℕ} (hplace : s.place = .cancelling i) :
    ({ s with
        cancelled := update s.cancelled i true, released := update s.released i true
        place := .away } : Links).Linked := by
  have hactive : s.active = none := by rw [h.active, hplace]; rfl
  constructor <;> dsimp only
  · exact hactive
  · grind [Place.current]
  · grind
  · exact h.kept
  · have := h.linker
    grind
  · exact h.alone
  · exact h.entered
  · exact h.registered
  · grind
  · have := h.loop
    grind
  · exact h.caller
  · have := h.callback
    grind
  · exact h.started
  · exact h.single
  · exact h.unborn
  · have := h.owner
    grind
  · grind
  · grind
  · exact h.stopping

theorem stops (h : s.Linked) {i b : ℕ} (hplace : s.place = .stopping i b) :
    ({ s with callbacks := s.stopped b, place := .cancelling i } : Links).Linked := by
  have hactive : s.active = none := by rw [h.active, hplace]; rfl
  have hcurrent := h.current i (by rw [hplace]; rfl)
  have hstate := s.stopped_state b
  constructor <;> dsimp only
  · exact hactive
  · grind [Place.current]
  · grind
  · exact h.kept
  · have := h.linker
    grind
  · exact h.alone
  · have := h.entered
    grind [stopped_delivery]
  · have := h.registered
    grind [stopped_delivery]
  · exact h.withdrawing
  · have := h.loop
    grind
  · exact h.caller
  · have := h.callback
    grind [stopped_context, stopped_delivery]
  · have := h.started
    grind [stopped_context]
  · have := h.single
    grind [stopped_delivery]
  · have := h.unborn
    grind
  · have := h.owner
    grind [stopped_delivery]
  · grind
  · grind
  · exact h.stopping

theorem begins (h : s.Linked) {c : ℕ} (hcontext : s.shutdownContext = none)
    (hactive : s.active = none) :
    ({ s with stopping := true, shutdownContext := some c } : Links).Linked := by
  have hlinker := h.linker
  constructor <;> dsimp only
  · exact h.active
  · exact h.current
  · exact h.hidden
  · exact fun _ _ _ => rfl
  · grind
  · exact h.alone
  · have := h.entered
    grind
  · exact h.registered
  · exact h.withdrawing
  · exact h.loop
  · exact h.caller
  · have := h.callback
    grind
  · exact h.started
  · exact h.single
  · exact h.unborn
  · exact h.owner
  · grind
  · grind
  · rfl

theorem beginsLink (h : s.Linked) {k c i : ℕ} (hcontext : s.shutdownContext = none)
    (hactive : s.active = some i) :
    ({ s with
        stopping := true, shutdownContext := some c, linking := update s.linking k True
        linkers := update s.linkers (k + 1) (.entered i c) } : Links).Linked := by
  have hnone : ∀ l j, (s.linkers l).delivery ≠ some j := by
    have := h.linker
    grind
  have hidle : ∀ l, s.linkers l = .idle := fun l => Linker.eq_idle (hnone l)
  have hcallbacks : s.callbackCount = 0 := by
    have := h.callback
    by_contra hne
    have := this 0 (Nat.pos_of_ne_zero hne)
    grind
  have hcurrent := h.current i (Place.current_of_active (h.active.symm.trans hactive))
  have hstop : s.stop i = none := by
    refine Option.eq_none_iff_forall_ne_some.mpr fun b hb => ?_
    have hsome := h.kept i b hb
    rw [hcontext] at hsome
    cases hsome
  have hplace := h.active
  constructor <;> dsimp only
  · exact h.active
  · exact h.current
  · exact h.hidden
  · exact fun _ _ _ => rfl
  · grind [Function.update_apply, Linker.delivery, Place.active]
  · grind [Function.update_apply, Linker.delivery]
  · grind [Function.update_apply]
  · grind [Function.update_apply]
  · grind [Function.update_apply]
  · grind [Function.update_apply, Linker.delivery]
  · grind [Function.update_apply]
  · grind
  · grind
  · grind
  · exact h.unborn
  · have := h.unborn
    grind
  · intro j c' hj hc'
    refine .inr (.inr ⟨k + 1, ?_⟩)
    rw [Function.update_self]
    grind
  · have := h.cause
    grind
  · rfl

theorem returns (h : s.Linked) {k : ℕ} (hlinker : s.linkers (k + 1) = .idle) :
    ({ s with linking := update s.linking k False } : Links).Linked := by
  obtain ⟨h₁, h₂, h₃, h₄, h₅, h₆, h₇, h₈, h₉, h₁₀, hcaller, h₁₂, h₁₃, h₁₄, h₁₅, h₁₆, h₁₇, h₁₈,
    h₁₉⟩ := h
  refine ⟨h₁, h₂, h₃, h₄, h₅, h₆, h₇, h₈, h₉, h₁₀, fun j hj => ?_, h₁₂, h₁₃, h₁₄, h₁₅, h₁₆, h₁₇,
    h₁₈, h₁₉⟩
  have hne : j ≠ k := by
    rintro rfl
    exact hj hlinker
  show update s.linking k False j
  rw [Function.update_of_ne hne]
  exact hcaller j hj

theorem registers (h : s.Linked) {l i c : ℕ} (hlinker : s.linkers l = .entered i c) :
    ({ s with
        callbacks := update s.callbacks s.callbackCount
          ⟨c, i, if s.ended c then .started else .waiting⟩
        callbackCount := s.callbackCount + 1
        linkers := update s.linkers l (.registered i s.callbackCount) } : Links).Linked := by
  have hl := h.linker l i (by rw [hlinker]; rfl)
  have hentered := h.entered l i c hlinker
  have halone := h.alone
  -- what the other linkers and callbacks rely on does not change
  constructor <;> dsimp only
  · exact h.active
  · exact h.current
  · exact h.hidden
  · exact h.kept
  · have := h.linker
    grind [Function.update_apply, Linker.delivery]
  · grind [Function.update_apply, Linker.delivery]
  · have := h.entered
    have := halone l
    grind [Function.update_apply, Linker.delivery]
  · have := h.registered
    grind [Function.update_apply]
  · have := h.withdrawing
    grind [Function.update_apply]
  · have := h.loop
    grind [Function.update_apply, Linker.delivery]
  · have := h.caller
    grind [Function.update_apply]
  · have := h.callback
    grind [Function.update_apply]
  · have := h.started
    grind [Function.update_apply]
  · have := h.single
    grind [Function.update_apply]
  · have := h.unborn
    grind [Function.update_apply]
  · -- the new callback belongs to the linker that has made it
    intro b hb
    by_cases hnew : b = s.callbackCount
    · subst hnew
      rw [Function.update_self]
      exact .inr (.inl ⟨l, .inl (Function.update_self ..)⟩)
    · rw [Function.update_of_ne hnew] at hb ⊢
      rcases h.owner b hb with hkept | ⟨l', hl'⟩ | hstopping
      · exact .inl hkept
      · refine .inr (.inl ⟨l', ?_⟩)
        have hne : l' ≠ l := by grind
        rwa [Function.update_of_ne hne]
      · exact .inr (.inr hstopping)
  · -- a delivery that relied on this linker now relies on its callback
    intro j c' hj hc'
    rcases h.link j c' hj hc' with hcancelled | ⟨b, hb, hstate⟩ | ⟨l', hl'⟩
    · exact .inl hcancelled
    · refine .inr (.inl ⟨b, ?_⟩)
      have hne : b ≠ s.callbackCount := by
        have := h.unborn b
        grind
      rw [Function.update_of_ne hne]
      exact ⟨hb, hstate⟩
    · by_cases hne : l' = l
      · refine .inr (.inl ⟨s.callbackCount, ?_⟩)
        rw [Function.update_self]
        grind
      · refine .inr (.inr ⟨l', ?_⟩)
        rwa [Function.update_of_ne hne]
  · intro j hj hcancelled
    obtain ⟨b, hlt, hb⟩ := h.cause j hj hcancelled
    refine ⟨b, hlt.trans (Nat.lt_succ_self _), ?_⟩
    rwa [Function.update_of_ne hlt.ne]
  · exact h.stopping

theorem keeps (h : s.Linked) {l i b : ℕ} (hlinker : s.linkers l = .registered i b)
    (hactive : s.active = some i) :
    ({ s with
        stop := update s.stop i (some b), linkers := update s.linkers l .idle } : Links).Linked := by
  have hl := h.linker l i (by rw [hlinker]; rfl)
  have hb := h.registered l i b (.inl hlinker)
  have halone := h.alone l
  have hother : ∀ l' j, l' ≠ l → (s.linkers l').delivery = some j → j ≠ i := by
    grind [Linker.delivery]
  constructor <;> dsimp only
  · exact h.active
  · exact h.current
  · have := h.hidden
    grind [Function.update_apply]
  · have := h.kept
    grind [Function.update_apply]
  · have := h.linker
    grind [Function.update_apply, Linker.delivery]
  · have := h.alone
    grind [Function.update_apply, Linker.delivery]
  · have := h.entered
    grind [Function.update_apply]
  · have := h.registered
    grind [Function.update_apply]
  · have := h.withdrawing
    grind [Function.update_apply]
  · have := h.loop
    grind [Function.update_apply, Linker.delivery]
  · have := h.caller
    grind [Function.update_apply]
  · exact h.callback
  · exact h.started
  · exact h.single
  · exact h.unborn
  · intro b' hb'
    by_cases hsame : b' = b
    · subst hsame
      rw [hb.2, Function.update_self]
      exact .inl ⟨hactive, rfl⟩
    · rcases h.owner b' hb' with ⟨hkept, hstop⟩ | ⟨l', hl'⟩ | hstopping
      · -- the delivery had no callback to stop
        have := hl.2.2.2
        grind
      · refine .inr (.inl ⟨l', ?_⟩)
        have hne : l' ≠ l := by grind
        rwa [Function.update_of_ne hne]
      · exact .inr (.inr hstopping)
  · intro j c hj hc
    rcases h.link j c hj hc with hcancelled | hcallback | ⟨l', hl'⟩
    · exact .inl hcancelled
    · exact .inr (.inl hcallback)
    · refine .inr (.inr ⟨l', ?_⟩)
      have hne : l' ≠ l := by grind
      rwa [Function.update_of_ne hne]
  · exact h.cause
  · exact h.stopping

theorem misses (h : s.Linked) {l i b : ℕ} (hlinker : s.linkers l = .registered i b)
    (hactive : s.active ≠ some i) :
    ({ s with linkers := update s.linkers l (.withdrawing i b) } : Links).Linked := by
  have hdelivery : ∀ l', (update s.linkers l (.withdrawing i b) l').delivery =
      (s.linkers l').delivery := by
    grind [Function.update_apply, Linker.delivery]
  constructor <;> dsimp only
  · exact h.active
  · exact h.current
  · exact h.hidden
  · exact h.kept
  · have := h.linker
    grind
  · have := h.alone
    grind
  · have := h.entered
    grind [Function.update_apply]
  · have := h.registered
    grind [Function.update_apply]
  · have := h.withdrawing
    grind [Function.update_apply]
  · have := h.loop
    grind
  · have := h.caller
    grind [Function.update_apply]
  · exact h.callback
  · exact h.started
  · exact h.single
  · exact h.unborn
  · intro b' hb'
    rcases h.owner b' hb' with hkept | ⟨l', hl'⟩ | hstopping
    · exact .inl hkept
    · refine .inr (.inl ⟨l', ?_⟩)
      grind [Function.update_apply]
    · exact .inr (.inr hstopping)
  · intro j c hj hc
    rcases h.link j c hj hc with hcancelled | hcallback | ⟨l', hl'⟩
    · exact .inl hcancelled
    · exact .inr (.inl hcallback)
    · refine .inr (.inr ⟨l', ?_⟩)
      have hne : l' ≠ l := by grind
      rwa [Function.update_of_ne hne]
  · exact h.cause
  · exact h.stopping

theorem withdraws (h : s.Linked) {l i b : ℕ} (hlinker : s.linkers l = .withdrawing i b) :
    ({ s with callbacks := s.stopped b, linkers := update s.linkers l .idle } : Links).Linked := by
  have hstate := s.stopped_state b
  have hactive := h.withdrawing l i b hlinker
  have hb := h.registered l i b (.inr hlinker)
  constructor <;> dsimp only
  · exact h.active
  · exact h.current
  · exact h.hidden
  · exact h.kept
  · have := h.linker
    grind [Function.update_apply, Linker.delivery]
  · have := h.alone
    grind [Function.update_apply, Linker.delivery]
  · have := h.entered
    grind [Function.update_apply, stopped_delivery]
  · have := h.registered
    grind [Function.update_apply, stopped_delivery]
  · have := h.withdrawing
    grind [Function.update_apply]
  · have := h.loop
    grind [Function.update_apply, Linker.delivery]
  · have := h.caller
    grind [Function.update_apply]
  · have := h.callback
    grind [stopped_context, stopped_delivery]
  · have := h.started
    grind [stopped_context]
  · have := h.single
    grind [stopped_delivery]
  · have := h.unborn
    grind
  · intro b' hb'
    rw [stopped_delivery]
    have hold : (s.callbacks b').state = .waiting ∧ b' ≠ b := by grind
    rcases h.owner b' hold.1 with hkept | ⟨l', hl'⟩ | hstopping
    · exact .inl hkept
    · refine .inr (.inl ⟨l', ?_⟩)
      have hne : l' ≠ l := by grind
      rwa [Function.update_of_ne hne]
    · exact .inr (.inr hstopping)
  · intro j c hj hc
    rcases h.link j c hj hc with hcancelled | ⟨b', hb', hover⟩ | ⟨l', hl'⟩
    · exact .inl hcancelled
    · refine .inr (.inl ⟨b', ?_⟩)
      rw [stopped_delivery]
      grind
    · refine .inr (.inr ⟨l', ?_⟩)
      have hne : l' ≠ l := by grind
      rwa [Function.update_of_ne hne]
  · intro j hj hcancelled
    obtain ⟨b', hlt, hb', hover, hended⟩ := h.cause j hj hcancelled
    refine ⟨b', hlt, ?_⟩
    rw [stopped_delivery, stopped_context]
    grind
  · exact h.stopping

theorem ends (h : s.Linked) (c : ℕ) :
    ({ s with
        ended := update s.ended c true
        callbacks := fun b =>
          if (s.callbacks b).context = c ∧ (s.callbacks b).state = .waiting then
            { s.callbacks b with state := .started }
          else s.callbacks b } : Links).Linked := by
  constructor <;> dsimp only
  · exact h.active
  · exact h.current
  · exact h.hidden
  · exact h.kept
  · exact h.linker
  · exact h.alone
  · have := h.entered
    grind
  · have := h.registered
    grind
  · exact h.withdrawing
  · exact h.loop
  · exact h.caller
  · have := h.callback
    grind
  · have := h.started
    grind [Function.update_apply]
  · have := h.single
    grind
  · have := h.unborn
    grind
  · have := h.owner
    grind
  · intro j c' hj hc'
    rcases h.link j c' hj hc' with hcancelled | ⟨b, hb, hover⟩ | hentered
    · exact .inl hcancelled
    · refine .inr (.inl ⟨b, ?_⟩)
      grind
    · exact .inr (.inr hentered)
  · intro j hj hcancelled
    obtain ⟨b, hlt, hb, hover, hended⟩ := h.cause j hj hcancelled
    refine ⟨b, hlt, ?_⟩
    grind [Function.update_apply]
  · exact h.stopping

theorem fires (h : s.Linked) {b : ℕ} (hstate : (s.callbacks b).state = .started) :
    ({ s with
        cancelled := update s.cancelled (s.callbacks b).delivery true
        callbacks :=
          update s.callbacks b { s.callbacks b with state := .over } } : Links).Linked := by
  have hlt : b < s.callbackCount := by
    have := h.unborn b
    grind
  have hb := h.callback b hlt
  have hended := (h.started b hlt).1 hstate
  constructor <;> dsimp only
  · exact h.active
  · exact h.current
  · have := h.hidden
    grind [Function.update_apply]
  · exact h.kept
  · exact h.linker
  · exact h.alone
  · have := h.entered
    grind [Function.update_apply]
  · have := h.registered
    grind [Function.update_apply]
  · exact h.withdrawing
  · exact h.loop
  · exact h.caller
  · have := h.callback
    grind [Function.update_apply]
  · have := h.started
    grind [Function.update_apply]
  · have := h.single
    grind [Function.update_apply]
  · have := h.unborn
    grind [Function.update_apply]
  · have := h.owner
    grind [Function.update_apply]
  · intro j c hj hc
    by_cases hsame : j = (s.callbacks b).delivery
    · left
      rw [hsame, Function.update_self]
    · rcases h.link j c hj hc with hcancelled | ⟨b', hb', hover⟩ | hentered
      · left
        rwa [Function.update_of_ne hsame]
      · refine .inr (.inl ⟨b', ?_⟩)
        grind [Function.update_apply]
      · exact .inr (.inr hentered)
  · intro j hj hcancelled
    by_cases hsame : j = (s.callbacks b).delivery
    · refine ⟨b, hlt, ?_⟩
      rw [Function.update_self]
      exact ⟨hsame.symm, rfl, hended⟩
    · rw [Function.update_of_ne hsame] at hcancelled
      obtain ⟨b', hlt', hb', hover, hended'⟩ := h.cause j hj hcancelled
      refine ⟨b', hlt', ?_⟩
      grind [Function.update_apply]
  · exact h.stopping

end Linked

/-- **What holds of the links stays.**

The proof has one case for each step of the links.  The interesting ones are those of the party that
comes second: it has to find what the first one has published, whichever it was. -/
theorem Linked.step (h : s.Linked) (hstep : s.Step s') : s'.Linked := by
  cases hstep with
  | opens hplace => exact h.opens hplace
  | publishes hplace hcontext => exact h.publishes hplace hcontext
  | enters hplace hcontext => exact h.enters hplace hcontext
  | works hplace hlinker => exact h.works hplace hlinker
  | releases hplace hstop => exact h.releases hplace (.inl ⟨rfl, hstop⟩)
  | releasesKept hplace hstop => exact h.releases hplace (.inr ⟨_, rfl, hstop⟩)
  | stops hplace => exact h.stops hplace
  | cancels hplace => exact h.cancels hplace
  | begins hcontext hactive => exact h.begins hcontext hactive
  | beginsLink hcontext hactive hcall => exact h.beginsLink hcontext hactive
  | returns hlinker => exact h.returns hlinker
  | registers hlinker => exact h.registers hlinker
  | keeps hlinker hactive => exact h.keeps hlinker hactive
  | misses hlinker hactive => exact h.misses hlinker hactive
  | withdraws hlinker => exact h.withdraws hlinker
  | ends c => exact h.ends c
  | fires hstate => exact h.fires hstate

end Links

end BindPlane.Dispatch
