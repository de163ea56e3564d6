import BindPlane.ReadCommitted.Contract

/-!
# Pairs of runs

Two programs, run by themselves on two stores.  They are *related* if from related stores
they end alike: both wait, both raise the same error, or both return related values, leave related
stores and have drawn the same numbers.

There is one rule for each operation, and `Related.bind` puts them together.
-/

namespace ReadCommitted.Tx

variable {σ κ ε α β γ δ : Type} {free : κ → Bool}

/-- Queued writes may as well be done. -/
theorem solo_pending (p : Tx σ κ ε α) :
    ∀ {d : σ} {w : σ → σ} {n : ℕ}, p.solo free d w n = p.solo free (w d) id n := by
  induction p with
  | pure a => intro d w n; rfl
  | throw e => intro d w n; rfl
  | read k ih => intro d w n; exact ih _
  | write f k ih =>
      intro d w n
      show k.solo free d (f ∘ w) n = k.solo free (w d) (f ∘ id) n
      rw [ih, @ih (w d)]
      rfl
  | lock key k ih =>
      intro d w n
      show (if free key then _ else _) = if free key then _ else _
      rw [ih]
  | tryLock key k ih => intro d w n; exact ih _
  | probe key c k ih =>
      intro d w n
      show (if free key then _ else _) = if free key then _ else _
      rw [ih]
      rfl
  | fresh k ih => intro d w n; exact ih _

/-- What is left to do where a program has ended. -/
def continued (free : κ → Bool) (g : α → Tx σ κ ε β) :
    Option (Except ε (α × σ × ℕ)) → Option (Except ε (β × σ × ℕ))
  | some (.ok (a, d, n)) => (g a).solo free d id n
  | some (.error e) => some (.error e)
  | none => none

/-- One program after the other. -/
theorem solo_bind (p : Tx σ κ ε α) (g : α → Tx σ κ ε β) :
    ∀ {d : σ} {w : σ → σ} {n : ℕ},
      (p.bind g).solo free d w n = continued free g (p.solo free d w n) := by
  induction p with
  | pure a => intro d w n; exact solo_pending (g a)
  | throw e => intro d w n; rfl
  | read k ih => intro d w n; exact ih _
  | write f k ih => intro d w n; exact ih
  | lock key k ih =>
      intro d w n
      show (if free key then _ else _) = continued free g (if free key then _ else _)
      split
      · exact ih
      · rfl
  | tryLock key k ih => intro d w n; exact ih _
  | probe key c k ih =>
      intro d w n
      show (if free key then _ else _) = continued free g (if free key then _ else _)
      split
      · exact ih _
      · rfl
  | fresh k ih => intro d w n; exact ih _

/-- Two ends that are alike.

Both programs wait, or raise the same, or return results and stores in the given relations and have
drawn as many numbers. -/
inductive Paired (R : σ → σ → Prop) (Q : α → β → Prop) :
    Option (Except ε (α × σ × ℕ)) → Option (Except ε (β × σ × ℕ)) → Prop
  | waits : Paired R Q none none
  | raises (e : ε) : Paired R Q (some (.error e)) (some (.error e))
  | returns {a : α} {b : β} {d d' : σ} (n : ℕ) (hq : Q a b) (hd : R d d') :
      Paired R Q (some (.ok (a, d, n))) (some (.ok (b, d', n)))

/-- **Related programs**.

A relation between stores says what an observer must not be able to tell apart, and a relation
between results what is told.  Programs that are related from all related stores do not leak what
the relation leaves open, neither in the result, nor in an error, nor in what they store, nor in
whether they wait. -/
def Related (free : κ → Bool) (R : σ → σ → Prop) (Q : α → β → Prop) (p : Tx σ κ ε α)
    (p' : Tx σ κ ε β) : Prop :=
  ∀ ⦃d d' : σ⦄ (n : ℕ), R d d' → Paired R Q (p.solo free d id n) (p'.solo free d' id n)

namespace Related

variable {R : σ → σ → Prop} {Q : α → β → Prop} {S : γ → δ → Prop}

theorem pure {a : α} {b : β} (h : Q a b) :
    Related free R Q (Tx.pure a : Tx σ κ ε α) (Tx.pure b) :=
  fun _ _ n hd => .returns n h hd

theorem raise (e : ε) : Related free R Q (Tx.raise e : Tx σ κ ε α) (Tx.raise e) :=
  fun _ _ _ _ => .raises e

theorem bind {p : Tx σ κ ε α} {p' : Tx σ κ ε β} {g : α → Tx σ κ ε γ} {g' : β → Tx σ κ ε δ}
    (h : Related free R Q p p') (hg : ∀ a b, Q a b → Related free R S (g a) (g' b)) :
    Related free R S (p.bind g) (p'.bind g') := by
  intro d d' n hd
  rw [solo_bind, solo_bind]
  have hends := h n hd
  generalize p.solo free d id n = out at hends
  generalize p'.solo free d' id n = out' at hends
  cases hends with
  | waits => exact .waits
  | raises e => exact .raises e
  | returns m hq hd' => exact hg _ _ hq m hd'

theorem snapshot : Related free R R (Tx.snapshot : Tx σ κ ε σ) Tx.snapshot :=
  fun _ _ n hd => .returns n hd hd

theorem update {f f' : σ → σ} (h : ∀ d d', R d d' → R (f d) (f' d')) :
    Related free R (fun _ _ => True) (Tx.update f : Tx σ κ ε PUnit) (Tx.update f') :=
  fun d d' n hd => .returns n trivial (h d d' hd)

theorem acquire (key : κ) :
    Related free R (fun _ _ => True) (Tx.acquire key : Tx σ κ ε PUnit) (Tx.acquire key) := by
  intro d d' n hd
  show Paired R _ (if free key then _ else _) (if free key then _ else _)
  split
  · exact .returns n trivial hd
  · exact .waits

theorem nextSerial :
    Related free R (fun n n' => n' = n) (Tx.nextSerial : Tx σ κ ε ℕ) Tx.nextSerial :=
  fun _ _ n hd => .returns (n + 1) rfl hd

theorem require {c c' : Bool} (h : c' = c) (e : ε) :
    Related free R (fun _ _ => c = true) (Tx.require c e : Tx σ κ ε PUnit)
      (Tx.require c' e) := by
  subst h
  intro d d' n hd
  cases c' with
  | true => exact .returns n rfl hd
  | false => exact .raises e

theorem expect {o : Option α} {o' : Option β} (h : Option.Rel Q o o') (e : ε) :
    Related free R Q (Tx.expect o e : Tx σ κ ε α) (Tx.expect o' e) := by
  intro d d' n hd
  cases h with
  | none => exact .raises e
  | some h => exact .returns n h hd

end Related

/-! ## One run -/

/-- A run by itself is one of the runs that the program logic speaks of: it leaves the store that
the program would commit. -/
theorem Ensures.of_solo {I : Interference σ κ} {Q : Except ε α → View σ κ → Prop} (p : Tx σ κ ε α) :
    ∀ {v : View σ κ} {a : α} {d : σ} {n : ℕ}, p.Ensures I Q v →
      p.solo free v.db v.pending v.seq = some (.ok (a, d, n)) →
        ∃ v', Q (.ok a) v' ∧ v'.db = v.db ∧ v'.snapshot = d := by
  -- alone there is no interference, so each request finds the store as it was
  induction p with
  | pure a =>
      intro v a d n h hout
      cases hout
      exact ⟨v, h v (.refl _ _), rfl, rfl⟩
  | throw e => intro v a d n h hout; cases hout
  | read k ih => intro v a d n h hout; exact ih _ (h v (.refl _ _)) hout
  | write f k ih =>
      intro v a d n h hout
      exact ih (v := v.queue f) (h v (.refl _ _)) hout
  | lock key k ih =>
      intro v a d n h hout
      unfold solo at hout
      split at hout
      · exact ih (v := v.hold (.key key)) (h v (.refl _ _)) hout
      · cases hout
  | tryLock key k ih =>
      intro v a d n h hout
      unfold solo at hout
      obtain ⟨hgot, hbusy⟩ := h v (.refl _ _)
      cases hfree : free key with
      | true =>
          rw [hfree] at hout
          exact ih true (v := v.hold (.key key)) hgot hout
      | false =>
          rw [hfree] at hout
          exact ih false hbusy hout
  | probe key c k ih =>
      intro v a d n h hout
      unfold solo at hout
      obtain ⟨hgot, hnot⟩ := h v (.refl _ _)
      split at hout
      · cases hc : c (v.pending v.db) with
        | true =>
            rw [hc] at hout
            exact ih true (v := v.hold (.key key)) (hgot hc) hout
        | false =>
            rw [hc] at hout
            exact ih false (hnot hc) hout
      · cases hout
  | fresh k ih =>
      intro v a d n h hout
      exact ih _ (v := v.draw) (h v (.refl _ _)) hout

end ReadCommitted.Tx
