import BindPlane.ReadCommitted.System

/-!
# Contracts for interleaved transactions

A `Contract` states an invariant of the store and, for every operation, what its
commit may do to the store while it holds the locks it holds.  The other transactions
interfere by commits of the contract under disjoint locks (`Contract.interference`);
a program *keeps* the contract when it ensures it under that interference
(`Contract.Kept`).

* `Sound.steps` is the meta-theorem: in every state a run can reach the invariant
  holds and every commit was one of the contract's (`Sound.commits`).
* `Tracked.steps` follows one transaction: a postcondition its program ensures from
  some state on is met when it ends, whatever the others do meanwhile.
* `solo_steps` is the progress half: a program none of whose locks is taken by
  somebody else can be run to its end.

**How it is used.**  A model states for each operation what its commit does, as a relation between
two stores under the held locks, and proves for each program that it keeps this contract against the
interference of all the others (`Kept`).  From there on programs are not mentioned again: an
invariant is kept if every commit keeps it (`Sound.steps_keep`), and a transaction can be followed
through a run with whatever was established about it (`Tracked`, `Followed`).

**Circularity.**  What the others may do is defined by the contracts, and that a program keeps its
contract is shown under the assumption that the others keep theirs.  This is not circular, since the
assumption is only about the past: the invariant `Sound` of a state gives the effect of the next
commit, and this effect is what the other programs see as interference.
-/

namespace ReadCommitted

universe u

variable {τ σ κ ο θ ε ρ : Type u}

/-- **A contract** for the operations `ο` begun at times `θ` with replies `ρ`.

A contract replaces the programs by what their commits do.  `inv` is what every store satisfies, and
`commits` what one commit may do, given the resources that the transaction holds at that moment.  To
know which resources those are is the point: that two transactions exclude each other is said by
both holding the same key, and in no other way. -/
structure Contract (σ κ ο θ ρ : Type u) where
  /-- Kept by every commit, and by drawing numbers. -/
  inv : σ → ℕ → Prop
  inv_mono : ∀ {d n m}, inv d n → n ≤ m → inv d m
  /-- `commits op now K d d' r`: begun at `now` and holding `K`, the operation may
  take the store from `d` to `d'` and reply `r`. -/
  commits : ο → θ → Set (Resource κ) → σ → σ → ρ → Prop

namespace Contract

variable (C : Contract σ κ ο θ ρ)

/-- One move of somebody else, who holds nothing of `K`. -/
def Other (K : Set (Resource κ)) (s s' : σ × ℕ) : Prop :=
  C.inv s'.1 s'.2 ∧ s.2 ≤ s'.2 ∧
    (s'.1 = s.1 ∨ ∃ op now K' r, Disjoint K K' ∧ C.commits op now K' s.1 s'.1 r)

/-- All the others together. -/
def interference : Interference σ κ where
  rel K := Relation.ReflTransGen (C.Other K)
  refl _ _ := .refl
  trans := Relation.ReflTransGen.trans
  anti := by
    intro K K' s s' hK h
    refine Relation.ReflTransGen.mono ?_ _ _ h
    rintro a b ⟨hinv, hseq, h | ⟨op, now, L, r, hL, h⟩⟩
    · exact ⟨hinv, hseq, .inl h⟩
    · exact ⟨hinv, hseq, .inr ⟨op, now, L, r, hL.mono_left hK, h⟩⟩

variable {C}

theorem interference_inv {K : Set (Resource κ)} {s s' : σ × ℕ}
    (h : C.interference.rel K s s') (hs : C.inv s.1 s.2) : C.inv s'.1 s'.2 := by
  induction h with
  | refl => exact hs
  | tail _ h _ => exact h.1

theorem interference_seq {K : Set (Resource κ)} {s s' : σ × ℕ}
    (h : C.interference.rel K s s') : s.2 ≤ s'.2 := by
  induction h with
  | refl => exact le_rfl
  | tail _ h ih => exact ih.trans h.2.1

/-- A preorder on stores that every disjoint commit respects is respected by
interference: the induction every stability proof rests on. -/
theorem interference_induct {K : Set (Resource κ)} {P : σ → σ → Prop}
    (hrefl : ∀ d, P d d) (htrans : ∀ {d d' d''}, P d d' → P d' d'' → P d d'')
    (hstep : ∀ {op now K' d d' r}, Disjoint K K' → C.commits op now K' d d' r → P d d')
    {s s' : σ × ℕ} (h : C.interference.rel K s s') : P s.1 s'.1 := by
  induction h with
  | refl => exact hrefl _
  | tail _ h ih =>
      obtain ⟨-, -, h | ⟨op, now, K', r, hK, h⟩⟩ := h
      · rw [h]
        exact ih
      · exact htrans ih (hstep hK h)

/-- A property of stores that every disjoint commit keeps is kept by interference. -/
theorem interference_keeps {K : Set (Resource κ)} {P : σ → Prop} {s s' : σ × ℕ}
    (h : C.interference.rel K s s')
    (hstep : ∀ {op now K' d d' r}, Disjoint K K' → C.commits op now K' d d' r → P d → P d')
    (hs : P s.1) : P s'.1 :=
  interference_induct (P := fun d d' => P d → P d') (fun _ h => h)
    (fun h h' hd => h' (h hd)) hstep h hs

/-- The same induction with the invariant at hand before every commit. -/
theorem interference_induct_inv {K : Set (Resource κ)} {P : σ → σ → Prop}
    (hrefl : ∀ d, P d d) (htrans : ∀ {d d' d''}, P d d' → P d' d'' → P d d'')
    (hstep : ∀ {op now K' d d' r n}, C.inv d n → Disjoint K K' →
      C.commits op now K' d d' r → P d d')
    {s s' : σ × ℕ} (h : C.interference.rel K s s') (hs : C.inv s.1 s.2) : P s.1 s'.1 := by
  induction h with
  | refl => exact hrefl _
  | tail hrel h ih =>
      obtain ⟨-, -, h | ⟨op, now, K', r, hK, h⟩⟩ := h
      · rw [h]
        exact ih
      · exact htrans ih (hstep (interference_inv hrel hs) hK h)

variable (C)

/-- The contract in those runs whose stores all satisfy `W`. -/
def within (W : σ → Prop) : Contract σ κ ο θ ρ where
  inv d n := C.inv d n ∧ W d
  inv_mono h hn := ⟨C.inv_mono h.1 hn, h.2⟩
  commits := C.commits

/-- All runs are within the set of all stores. -/
theorem within_true : C.within (fun _ => True) = C := by
  simp [within]

variable {C}

/-- Whatever the others do within `W` they may do. -/
theorem within_rel {W : σ → Prop} {K : Set (Resource κ)} {s s' : σ × ℕ}
    (h : (C.within W).interference.rel K s s') : C.interference.rel K s s' := by
  refine Relation.ReflTransGen.mono ?_ _ _ h
  rintro a b ⟨hinv, hrest⟩
  exact ⟨hinv.1, hrest⟩

variable (C)

/-- How a program must end: an exception leaves no trace, a result comes with a
commit of the contract. -/
def Ended (op : ο) (now : θ) : Except ε ρ → View σ κ → Prop
  | .ok r, v => C.inv v.snapshot v.seq ∧ C.commits op now v.held v.db v.snapshot r
  | .error _, _ => True

/-- **Every program keeps the contract**, started with nothing held or written. -/
def Kept (body : ο → θ → Tx σ κ ε ρ) : Prop :=
  ∀ op now v, C.inv v.db v.seq → v.pending = id → v.held = ∅ →
    (body op now).Ensures C.interference (C.Ended op now) v

/-! ## Rules under a contract

A program is proved forward from a view that is `Good`; every statement leads to a view
that is `Later`: the others have moved the store, the own resources have only grown,
and nothing was written. -/

/-- The store is sound and every number held has been drawn. -/
def Good (v : View σ κ) : Prop :=
  C.inv v.db v.seq ∧ ∀ n, Resource.serial n ∈ v.held → n < v.seq

/-- The others have moved the store, and the own resources have only grown. -/
def Since (v v' : View σ κ) : Prop :=
  C.interference.rel v.held (v.db, v.seq) (v'.db, v'.seq) ∧ v.held ⊆ v'.held

/-- A view the same transaction may stand on later, with no write in between. -/
def Later (v v' : View σ κ) : Prop := C.Since v v' ∧ v'.pending = v.pending

variable {C}

theorem Since.rel {v v' : View σ κ} (h : C.Since v v') :
    C.interference.rel v.held (v.db, v.seq) (v'.db, v'.seq) := h.1

theorem Since.held {v v' : View σ κ} (h : C.Since v v') : v.held ⊆ v'.held := h.2

theorem Since.trans {v w x : View σ κ} (h : C.Since v w) (h' : C.Since w x) :
    C.Since v x :=
  ⟨C.interference.trans h.rel (C.interference.anti h.held h'.rel), h.held.trans h'.held⟩

theorem Later.since {v v' : View σ κ} (h : C.Later v v') : C.Since v v' := h.1

theorem Later.rel {v v' : View σ κ} (h : C.Later v v') :
    C.interference.rel v.held (v.db, v.seq) (v'.db, v'.seq) := h.since.rel

theorem Later.held {v v' : View σ κ} (h : C.Later v v') : v.held ⊆ v'.held := h.since.held

theorem Later.pending {v v' : View σ κ} (h : C.Later v v') : v'.pending = v.pending := h.2

theorem Later.refl (v : View σ κ) : C.Later v v := ⟨⟨.refl, subset_rfl⟩, rfl⟩

theorem Later.trans {v v' v'' : View σ κ} (h : C.Later v v') (h' : C.Later v' v'') :
    C.Later v v'' := ⟨h.since.trans h'.since, h'.pending.trans h.pending⟩

/-- A write of its own is no move of the store. -/
theorem Since.of_queue {v v' : View σ κ} {f : σ → σ} (h : C.Since (v.queue f) v') :
    C.Since v v' := h

theorem Later.of_within {W : σ → Prop} {v v' : View σ κ} (h : (C.within W).Later v v') :
    C.Later v v' := ⟨⟨within_rel h.rel, h.held⟩, h.pending⟩

theorem Good.of_within {W : σ → Prop} {v : View σ κ} (h : (C.within W).Good v) : C.Good v :=
  ⟨h.1.1, h.2⟩

theorem Good.within {W : σ → Prop} {v : View σ κ} (h : (C.within W).Good v) : W v.db := h.1.2

private theorem Good.moves {v v' : View σ κ} (hv : C.Good v)
    (h : C.interference.Moves v v') : C.Good v' ∧ C.Later v v' := by
  refine ⟨⟨interference_inv h.rel hv.1, fun n hn => ?_⟩, ⟨h.rel, h.held.symm.subset⟩,
    h.pending⟩
  rw [h.held] at hn
  exact (hv.2 n hn).trans_le (interference_seq h.rel)

section Rules

variable {α β : Type u} {Q : Except ε β → View σ κ → Prop} {v : View σ κ}

theorem Good.snapshot (hv : C.Good v) {g : σ → Tx σ κ ε β}
    (h : ∀ v', C.Later v v' → C.Good v' → (g v'.snapshot).Ensures C.interference Q v') :
    (Tx.snapshot.bind g).Ensures C.interference Q v :=
  fun v' hm => h v' (hv.moves hm).2 (hv.moves hm).1

theorem Good.update (hv : C.Good v) {f : σ → σ} {g : PUnit → Tx σ κ ε β}
    (h : ∀ v', C.Later v v' → C.Good (v'.queue f) →
      (g ⟨⟩).Ensures C.interference Q (v'.queue f)) :
    ((Tx.update f).bind g).Ensures C.interference Q v :=
  fun v' hm => h v' (hv.moves hm).2 (hv.moves hm).1

private theorem Good.hold (hv : C.Good v) {key : κ} {v' : View σ κ}
    (hm : C.interference.Moves v v') :
    C.Later v (v'.hold (.key key)) ∧ C.Good (v'.hold (.key key)) := by
  obtain ⟨hv', hl⟩ := hv.moves hm
  refine ⟨⟨⟨hl.rel, hl.held.trans (Set.subset_insert _ _)⟩, hl.pending⟩, hv'.1,
    fun n hn => ?_⟩
  simp only [View.hold_held, Set.mem_insert_iff, reduceCtorEq, false_or] at hn
  exact hv'.2 n hn

theorem Good.acquire (hv : C.Good v) {key : κ} {g : PUnit → Tx σ κ ε β}
    (h : ∀ v', C.Later v v' → C.Good v' → .key key ∈ v'.held →
      (g ⟨⟩).Ensures C.interference Q v') :
    ((Tx.acquire key).bind g).Ensures C.interference Q v :=
  fun _ hm => h _ (hv.hold hm).1 (hv.hold hm).2 (Set.mem_insert _ _)

theorem Good.tryAcquire (hv : C.Good v) {key : κ} {g : Bool → Tx σ κ ε β}
    (h : ∀ v', C.Later v v' → C.Good v' → .key key ∈ v'.held →
      (g true).Ensures C.interference Q v')
    (h' : ∀ v', C.Later v v' → C.Good v' → (g false).Ensures C.interference Q v') :
    ((Tx.tryAcquire key).bind g).Ensures C.interference Q v :=
  fun _ hm => ⟨h _ (hv.hold hm).1 (hv.hold hm).2 (Set.mem_insert _ _),
    h' _ (hv.moves hm).2 (hv.moves hm).1⟩

/-- A lock taken where a condition holds behind it. -/
theorem Good.acquireIf (hv : C.Good v) {key : κ} {c : σ → Bool} {g : Bool → Tx σ κ ε β}
    (h : ∀ v', C.Later v v' → C.Good v' → .key key ∈ v'.held → c v'.snapshot = true →
      (g true).Ensures C.interference Q v')
    (h' : ∀ v', C.Later v v' → C.Good v' → c v'.snapshot = false →
      (g false).Ensures C.interference Q v') :
    ((Tx.acquireIf key c).bind g).Ensures C.interference Q v :=
  fun _ hm => ⟨h _ (hv.hold hm).1 (hv.hold hm).2 (Set.mem_insert _ _),
    h' _ (hv.moves hm).2 (hv.moves hm).1⟩

/-- A number drawn is not in the store, which was sound at that number, and has not been
drawn before. -/
theorem Good.nextSerial (hv : C.Good v) {g : ℕ → Tx σ κ ε β}
    (h : ∀ n v', C.Later v v' → C.Good v' → .serial n ∈ v'.held → .serial n ∉ v.held →
      C.inv v'.db n → (g n).Ensures C.interference Q v') :
    (Tx.nextSerial.bind g).Ensures C.interference Q v := by
  intro v' hm
  obtain ⟨hv', hl⟩ := hv.moves hm
  have hinv := C.inv_mono hv'.1 (Nat.le_succ v'.seq)
  refine h v'.seq v'.draw ⟨⟨?_, hl.held.trans (Set.subset_insert _ _)⟩, hl.pending⟩
    ⟨hinv, fun n hn => ?_⟩ (Set.mem_insert _ _) (fun hn => ?_) hv'.1
  · exact C.interference.trans hl.rel
      (C.interference.anti hl.held (.single ⟨hinv, Nat.le_succ _, .inl rfl⟩))
  · simp only [View.draw_held, Set.mem_insert_iff, Resource.serial.injEq] at hn
    rcases hn with rfl | hn
    · exact Nat.lt_succ_self _
    · exact (hv'.2 n hn).trans (Nat.lt_succ_self _)
  · exact absurd (hv'.2 _ (hl.held hn)) (lt_irrefl _)

theorem Good.pure (hv : C.Good v) {b : β}
    (h : ∀ v', C.Later v v' → C.Good v' → Q (.ok b) v') :
    (Tx.pure b : Tx σ κ ε β).Ensures C.interference Q v :=
  fun v' hm => h v' (hv.moves hm).2 (hv.moves hm).1

/-- A program whose result an operation wraps into its reply, for any postcondition of the
operation. -/
def Yields (C : Contract σ κ ο θ ρ) (Q : Except ε ρ → View σ κ → Prop) (f : α → ρ) :
    Except ε α → View σ κ → Prop
  | .ok a, v => C.Good v ∧ ∀ v', C.Later v v' → C.Good v' → Q (.ok (f a)) v'
  | .error e, v => Q (.error e) v

theorem yields {p : Tx σ κ ε α} {f : α → ρ} {Q : Except ε ρ → View σ κ → Prop} {v : View σ κ}
    (h : p.Ensures C.interference (C.Yields Q f) v) :
    (p.bind fun a => Tx.pure (f a)).Ensures C.interference Q v := by
  refine Tx.Ensures.bind (h.mono ?_)
  rintro (e | a) v hr
  · exact hr
  · obtain ⟨hv, hr⟩ := hr
    exact hv.pure hr

/-- The last statement of a program that yields its result. -/
theorem Good.yield {v : View σ κ} (hv : C.Good v) {a : α} {f : α → ρ}
    {Q : Except ε ρ → View σ κ → Prop}
    (h : ∀ v', C.Later v v' → C.Good v' → Q (.ok (f a)) v') :
    (Tx.pure a : Tx σ κ ε α).Ensures C.interference (C.Yields Q f) v :=
  hv.pure fun _ hl hv' => ⟨hv', fun v'' hl' hv'' => h v'' (hl.trans hl') hv''⟩

/-- A program whose result an operation wraps into its reply. -/
def Finishes (C : Contract σ κ ο θ ρ) (op : ο) (now : θ) (f : α → ρ) :
    Except ε α → View σ κ → Prop
  | .ok a, v => C.Good v ∧
      ∀ v', C.Later v v' → C.Good v' → C.Ended (ε := ε) op now (.ok (f a)) v'
  | .error _, _ => True

/-- An operation that wraps the result of a program. -/
theorem wrap {p : Tx σ κ ε α} {f : α → ρ} {op : ο} {now : θ} {v : View σ κ}
    (h : p.Ensures C.interference (C.Finishes op now f) v) :
    (p.bind fun a => Tx.pure (f a)).Ensures C.interference (C.Ended op now) v := by
  refine Tx.Ensures.bind (h.mono ?_)
  rintro (e | a) v hr
  · trivial
  · obtain ⟨hv, hr⟩ := hr
    exact hv.pure hr

/-- The last statement of the wrapped program. -/
theorem Good.finish {v : View σ κ} (hv : C.Good v) {a : α} {f : α → ρ} {op : ο} {now : θ}
    (h : ∀ v', C.Later v v' → C.Good v' → C.Ended (ε := ε) op now (.ok (f a)) v') :
    (Tx.pure a : Tx σ κ ε α).Ensures C.interference (C.Finishes op now f) v :=
  hv.pure fun _ hl hv' => ⟨hv', fun v'' hl' hv'' => h v'' (hl.trans hl') hv''⟩

end Rules

end Contract

/-- The invariant of the whole system: the store's own, numbers not yet drawn are
held by nobody, only running transactions hold anything, and every running program
still ensures its contract from where it stands.

This is the induction hypothesis for everything else.  The last field is what makes it go through: a
running program still ensures its contract, from its present view and against any interference that
its locks permit.  So when it commits the contract tells what it did, however many others have been
active since it began. -/
structure Sound (C : Contract σ κ ο θ ρ) (s : Sys τ σ κ ο θ ε ρ) : Prop where
  inv : C.inv s.db s.seq
  undrawn : s.Undrawn
  holder : ∀ t, (∀ op now w p, s.txns t ≠ .active op now w p) → s.heldBy t = ∅
  running : ∀ t op now w p, s.txns t = .active op now w p →
    p.Ensures C.interference (C.Ended op now) (s.view t w)

section Soundness

variable {C : Contract σ κ ο θ ρ} {body : ο → θ → Tx σ κ ε ρ}

theorem Sound.init {db : σ} {seq : ℕ} (h : C.inv db seq) :
    Sound C (Sys.init db seq : Sys τ σ κ ο θ ε ρ) where
  inv := h
  undrawn _ _ := rfl
  holder t _ := by
    ext r
    simp [Sys.heldBy, Sys.init]
  running _ _ _ _ _ h := by cases h

/-- A program that has ended commits as the contract allows. -/
theorem Sound.commits {s : Sys τ σ κ ο θ ε ρ} (h : Sound C s) {t : τ} {op : ο} {now : θ}
    {w : σ → σ} {r : ρ} (ht : s.txns t = .active op now w (.pure r)) :
    C.inv (w s.db) s.seq ∧ C.commits op now (s.heldBy t) s.db (w s.db) r :=
  h.running t op now w _ ht _ (.refl _ _)

theorem heldBy_disjoint (s : Sys τ σ κ ο θ ε ρ) {t t' : τ} (h : t' ≠ t) :
    Disjoint (s.heldBy t') (s.heldBy t) := by
  rw [Set.disjoint_left]
  intro r hr hr'
  exact h (Option.some.inj (hr.symm.trans hr'))

variable [DecidableEq τ] [DecidableEq κ]

/-- Whoever does not move sees one move of somebody else. -/
theorem Sound.other {s s' : Sys τ σ κ ο θ ε ρ} (h : Sound C s) {a : Action τ ο θ}
    (hs : s.step body a = some s') {t : τ} (ht : t ≠ a.txn) :
    C.Other (s.heldBy t) (s.db, s.seq) (s'.db, s'.seq) := by
  have hseq := Sys.step_seq hs
  cases Sys.step_moved hs with
  | quiet hdb f _ _ _ _ => exact ⟨hdb ▸ C.inv_mono h.inv hseq, hseq, .inl hdb⟩
  | commit op now r w' hrun hdb _ =>
      obtain ⟨hinv, hcom⟩ := h.commits hrun
      rw [← hdb] at hinv hcom
      exact ⟨C.inv_mono hinv hseq, hseq, .inr ⟨op, now, _, r, heldBy_disjoint s ht, hcom⟩⟩

/-- Whoever does not move sees the store move by interference. -/
theorem Sound.others {s s' : Sys τ σ κ ο θ ε ρ} (h : Sound C s) {a : Action τ ο θ}
    (hs : s.step body a = some s') {t : τ} (ht : t ≠ a.txn) (w : σ → σ) :
    C.inv s'.db s'.seq ∧ C.interference.Moves (s.view t w) (s'.view t w) := by
  have hother := h.other hs ht
  exact ⟨hother.1, .single hother, rfl, (Sys.step_others h.undrawn hs ht).2⟩

/-- **What a step of a sound system does** to the store and to the record of what has
committed: nothing, or one commit of the contract.

This is the step lemma of the library.  A user of it never looks at a statement: between two states
of a run there are only commits, each with its effect and the locks that were held, and steps that
change neither the store nor the records. -/
inductive Outcome (C : Contract σ κ ο θ ρ) (s s' : Sys τ σ κ ο θ ε ρ) (t : τ) : Prop
  | quiet (hdb : s'.db = s.db)
      (hcommitted : ∀ t' op now r,
        s'.txns t' = .committed op now r ↔ s.txns t' = .committed op now r)
  | commit (op : ο) (now : θ) (r : ρ) (w : σ → σ) (hrun : s.txns t = .active op now w (.pure r))
      (hcommit : C.commits op now (s.heldBy t) s.db s'.db r)
      (hcommitted : ∀ t' op' now' r', s'.txns t' = .committed op' now' r' ↔
        s.txns t' = .committed op' now' r' ∨ (t' = t ∧ op' = op ∧ now' = now ∧ r' = r))

theorem Sound.outcome {s s' : Sys τ σ κ ο θ ε ρ} (h : Sound C s) {a : Action τ ο θ}
    (hs : s.step body a = some s') : Outcome C s s' a.txn := by
  cases Sys.step_moved hs with
  | quiet hdb f htxns hf hno _ =>
      refine .quiet hdb fun t' op now r => ?_
      rw [htxns]
      by_cases ht : t' = a.txn
      · subst ht
        simp [hf, hno]
      · rw [Function.update_of_ne ht]
  | commit op now r w hrun hdb htxns =>
      refine .commit op now r w hrun (hdb ▸ (h.commits hrun).2) fun t' op' now' r' => ?_
      rw [htxns]
      by_cases ht : t' = a.txn
      · subst ht
        simp [hrun, eq_comm]
      · simp [ht]

/-- The numbers not drawn stay free. -/
theorem Sound.undrawn_step {s s' : Sys τ σ κ ο θ ε ρ} (h : Sound C s) {a : Action τ ο θ}
    (hs : s.step body a = some s') : s'.Undrawn := by
  have hU := h.undrawn
  intro n hn
  cases a with
  | request t op => simp only [Sys.step] at hs; split at hs <;> cases hs; exact hU n hn
  | begin t now => simp only [Sys.step] at hs; split at hs <;> cases hs; exact hU n hn
  | abort t =>
      simp only [Sys.step] at hs
      split at hs <;> cases hs
      · exact hU n hn
      · simp [Sys.drop, hU n hn]
  | advance t =>
      simp only [Sys.step] at hs
      split at hs
      · next op now w p _ =>
          cases p with
          | pure r => cases hs; simp [Sys.drop, hU n hn]
          | throw e => cases hs; simp [Sys.drop, hU n hn]
          | read k => cases hs; exact hU n hn
          | write f k => cases hs; exact hU n hn
          -- a lock of a key is not a number
          | lock key k =>
              simp only [Sys.advance] at hs
              split at hs
              · cases hs; simp [hU n hn]
              · split at hs <;> cases hs
                exact hU n hn
          | tryLock key k =>
              simp only [Sys.advance] at hs
              split at hs <;> cases hs
              · simp [hU n hn]
              · exact hU n hn
          | probe key c k =>
              simp only [Sys.advance] at hs
              split at hs
              · split at hs <;> cases hs
                · simp [hU n hn]
                · exact hU n hn
              · split at hs <;> cases hs
                exact hU n hn
          -- the number that is drawn is the smallest of those that are free
          | fresh k =>
              cases hs
              simp only [Sys.set_locks, Sys.take_locks] at hn ⊢
              rw [Function.update_of_ne (by simp; omega)]
              exact hU n (by omega)
      · cases hs

/-- **The meta-theorem, one step.**

There are two cases for a running program: it is the one that moves, and then its logic says what it
may do next (`Sys.advance_ensures`); or it is not, and then what has happened is interference that
its locks permit. -/
theorem Sound.step (hC : C.Kept body) {s s' : Sys τ σ κ ο θ ε ρ} (h : Sound C s)
    {a : Action τ ο θ} (hs : s.step body a = some s') : Sound C s' := by
  -- nobody but the mover is affected beyond interference
  have hrest : ∀ t, t ≠ a.txn → ∀ op now w p, s'.txns t = .active op now w p →
      p.Ensures C.interference (C.Ended op now) (s'.view t w) := by
    intro t ht op now w p hp
    rw [(Sys.step_others h.undrawn hs ht).1] at hp
    exact (h.running t op now w p hp).moves (h.others hs ht w).2
  have hheld : ∀ t, t ≠ a.txn → (∀ op now w p, s'.txns t ≠ .active op now w p) →
      s'.heldBy t = ∅ := by
    intro t ht hp
    obtain ⟨htx, hk⟩ := Sys.step_others h.undrawn hs ht
    rw [hk]
    exact h.holder t (by rwa [htx] at hp)
  have hinv : C.inv s'.db s'.seq := by
    have hseq := Sys.step_seq hs
    cases Sys.step_moved hs with
    | quiet hdb => rw [hdb]; exact C.inv_mono h.inv hseq
    | commit op now r w hrun hdb _ => rw [hdb]; exact C.inv_mono (h.commits hrun).1 hseq
  suffices hown : (∀ op now w p, s'.txns a.txn = .active op now w p →
      p.Ensures C.interference (C.Ended op now) (s'.view a.txn w)) ∧
      ((∀ op now w p, s'.txns a.txn ≠ .active op now w p) → s'.heldBy a.txn = ∅) by
    refine ⟨hinv, h.undrawn_step hs, fun t hp => ?_, fun t op now w p hp => ?_⟩
    · by_cases ht : t = a.txn
      · subst ht; exact hown.2 hp
      · exact hheld t ht hp
    · by_cases ht : t = a.txn
      · subst ht; exact hown.1 op now w p hp
      · exact hrest t ht op now w p hp
  cases a with
  | request t op =>
      simp only [Sys.step] at hs
      split at hs <;> cases hs
      next ht =>
      refine ⟨fun op now w p hp => ?_, fun _ => h.holder t (by simp [ht])⟩
      simp [Action.txn] at hp
  | begin t now =>
      simp only [Sys.step] at hs
      split at hs <;> cases hs
      next op ht =>
      refine ⟨fun op' now' w p hp => ?_, fun hp => ?_⟩
      · simp only [Action.txn, Sys.set_txns, Function.update_self, Fate.active.injEq] at hp
        obtain ⟨rfl, rfl, rfl, rfl⟩ := hp
        exact hC _ _ _ h.inv rfl (h.holder t (by simp [ht]))
      · exact absurd (Function.update_self ..) (hp op now id (body op now))
  | abort t =>
      simp only [Sys.step] at hs
      split at hs <;> cases hs
      · next ht =>
        refine ⟨fun op now w p hp => ?_, fun _ => h.holder t (by simp [ht])⟩
        simp [Action.txn] at hp
      · refine ⟨fun op now w p hp => ?_, fun _ => s.drop_heldBy_self t⟩
        simp [Action.txn] at hp
  | advance t =>
      simp only [Sys.step] at hs
      split at hs
      · next op now w p ht =>
          simp only [Action.txn]
          cases Sys.advance_ensures (h.running t op now w p ht) hs with
          | runs w' p' htxns hp =>
              refine ⟨fun op₁ now₁ w₁ p₁ h₁ => ?_, fun hno => absurd htxns (hno _ _ _ _)⟩
              rw [htxns] at h₁
              cases h₁
              exact hp
          | commits r htxns _ _ hk =>
              refine ⟨fun _ _ _ _ h₁ => ?_, fun _ => hk⟩
              rw [htxns] at h₁
              cases h₁
          | raises e htxns _ hk =>
              refine ⟨fun _ _ _ _ h₁ => ?_, fun _ => hk⟩
              rw [htxns] at h₁
              cases h₁
      · cases hs

/-- **The meta-theorem, whole runs.**

No assumption on the schedule is used anywhere, neither fairness nor that a transaction ever ends.
-/
theorem Sound.steps (hC : C.Kept body) {s s' : Sys τ σ κ ο θ ε ρ} (h : Sound C s)
    (hs : Sys.Steps body s s') : Sound C s' := by
  induction hs with
  | refl => exact h
  | tail _ hstep ih =>
      obtain ⟨a, ha⟩ := hstep
      exact ih.step hC ha

/-- A preorder on stores that every commit of the contract respects is respected by
every run. -/
theorem Sound.steps_rel (hC : C.Kept body) {P : σ → σ → Prop} (hrefl : ∀ d, P d d)
    (htrans : ∀ {d d' d''}, P d d' → P d' d'' → P d d'')
    (hP : ∀ {op now K d d' r}, C.commits op now K d d' r → P d d')
    {s s' : Sys τ σ κ ο θ ε ρ} (h : Sound C s) (hs : Sys.Steps body s s') :
    P s.db s'.db := by
  induction hs with
  | refl => exact hrefl _
  | tail hrun hstep ih =>
      obtain ⟨a, ha⟩ := hstep
      cases Sys.step_moved ha with
      | quiet hdb => rw [hdb]; exact ih
      | commit op now r w ht hdb _ =>
          rw [hdb]
          exact htrans ih (hP ((h.steps hC hrun).commits ht).2)

/-- A property of the store that every commit of the contract preserves holds
throughout a run. -/
theorem Sound.steps_db (hC : C.Kept body) {P : σ → Prop}
    (hP : ∀ {op now K d d' r}, C.commits op now K d d' r → P d → P d')
    {s s' : Sys τ σ κ ο θ ε ρ} (h : Sound C s) (hs : Sys.Steps body s s')
    (h₀ : P s.db) : P s'.db :=
  h.steps_rel hC (P := fun d d' => P d → P d') (fun _ => id) (fun f g => g ∘ f)
    (fun hc => hP hc) hs h₀

/-! ## Following one transaction -/

/-- Transaction `t` will end, if it ends by itself, in a result satisfying `Q`. -/
def Tracked (C : Contract σ κ ο θ ρ) (body : ο → θ → Tx σ κ ε ρ) (Q : Except ε ρ → Prop)
    (s : Sys τ σ κ ο θ ε ρ) (t : τ) : Prop :=
  match s.txns t with
  | .absent => False
  | .requested op => ∀ now v, C.inv v.db v.seq →
      C.interference.rel ∅ (s.db, s.seq) (v.db, v.seq) → v.pending = id → v.held = ∅ →
        (body op now).Ensures C.interference (fun r _ => Q r) v
  | .active _ _ w p => p.Ensures C.interference (fun r _ => Q r) (s.view t w)
  | .committed _ _ r => Q (.ok r)
  | .rolledBack _ _ e => Q (.error e)
  | .aborted _ => True

theorem Tracked.step {Q : Except ε ρ → Prop} {s s' : Sys τ σ κ ο θ ε ρ}
    (h : Sound C s) {t : τ} (hQ : Tracked C body Q s t) {a : Action τ ο θ}
    (hs : s.step body a = some s') : Tracked C body Q s' t := by
  by_cases ht : t = a.txn
  · subst ht
    cases a with
    | request t op =>
        simp only [Sys.step] at hs
        split at hs <;> cases hs
        next ht => simp [Tracked, Action.txn, ht] at hQ
    | begin t now =>
        simp only [Sys.step] at hs
        split at hs <;> cases hs
        next op ht =>
        simp only [Tracked, Action.txn, ht] at hQ
        simp only [Tracked, Action.txn, Sys.set_txns, Function.update_self]
        exact hQ now _ h.inv .refl rfl (h.holder t (by simp [ht]))
    | abort t =>
        simp only [Sys.step] at hs
        split at hs <;> cases hs <;> simp [Tracked, Action.txn]
    | advance t =>
        simp only [Sys.step] at hs
        split at hs
        · next op now w p ht =>
            simp only [Tracked, Action.txn, ht] at hQ
            simp only [Tracked, Action.txn]
            cases Sys.advance_ensures hQ hs with
            | runs w' p' htxns hp => simpa only [htxns] using hp
            | commits r htxns _ hp _ => simpa only [htxns] using hp
            | raises e htxns hp _ => simpa only [htxns] using hp
        · cases hs
  · have hsame := (Sys.step_others h.undrawn hs ht).1
    have hmoves := h.others hs ht
    revert hQ
    simp only [Tracked, hsame]
    split
    · exact id
    · intro hQ now v hinv hrel
      refine hQ now v hinv (Relation.ReflTransGen.trans ?_ hrel)
      exact C.interference.anti (Set.empty_subset _) (hmoves id).2.rel
    · exact fun hQ => hQ.moves (hmoves _).2
    · exact id
    · exact id
    · exact id

theorem Tracked.steps (hC : C.Kept body) {Q : Except ε ρ → Prop}
    {s s' : Sys τ σ κ ο θ ε ρ} (h : Sound C s) {t : τ} (hQ : Tracked C body Q s t)
    (hs : Sys.Steps body s s') : Tracked C body Q s' t := by
  induction hs with
  | refl => exact hQ
  | tail hrun hstep ih =>
      obtain ⟨a, ha⟩ := hstep
      exact ih.step (h.steps hC hrun) ha

/-! ## Runs within a set of stores -/

/-- Any number of actions whose stores all satisfy `W`. -/
def Sys.StepsWithin (body : ο → θ → Tx σ κ ε ρ) (W : σ → Prop) :
    Sys τ σ κ ο θ ε ρ → Sys τ σ κ ο θ ε ρ → Prop :=
  Relation.ReflTransGen fun s s' => (∃ a, s.step body a = some s') ∧ W s'.db

theorem Sys.StepsWithin.steps {W : σ → Prop} {s s' : Sys τ σ κ ο θ ε ρ}
    (h : Sys.StepsWithin body W s s') : Sys.Steps body s s' :=
  Relation.ReflTransGen.mono (fun _ _ hs => hs.1) _ _ h

/-- A given list of actions, whose stores all satisfy `W`. -/
def Sys.runWithin (body : ο → θ → Tx σ κ ε ρ) (W : σ → Bool) (s : Sys τ σ κ ο θ ε ρ) :
    List (Action τ ο θ) → Option (Sys τ σ κ ο θ ε ρ)
  | [] => some s
  | a :: as => ((s.step body a).filter fun s' => W s'.db).bind fun s' => s'.runWithin body W as

theorem Sys.runWithin_steps {W : σ → Bool} {as : List (Action τ ο θ)} :
    ∀ {s s' : Sys τ σ κ ο θ ε ρ}, s.runWithin body W as = some s' →
      Sys.StepsWithin body (fun d => W d = true) s s' := by
  induction as with
  | nil =>
      intro s s' h
      cases h
      exact .refl
  | cons a as ih =>
      intro s s' h
      rw [Sys.runWithin, Option.bind_eq_some_iff] at h
      obtain ⟨s₁, h₁, h⟩ := h
      obtain ⟨hs, hW⟩ := Option.filter_eq_some_iff.mp h₁
      exact .head ⟨⟨a, hs⟩, hW⟩ (ih h)

/-- A given list of actions, each of which is fine where it is taken. -/
def Sys.runWhere (body : ο → θ → Tx σ κ ε ρ) (ok : Sys τ σ κ ο θ ε ρ → Action τ ο θ → Bool)
    (s : Sys τ σ κ ο θ ε ρ) : List (Action τ ο θ) → Option (Sys τ σ κ ο θ ε ρ)
  | [] => some s
  | a :: as => if ok s a then (s.step body a).bind fun s' => s'.runWhere body ok as else none

theorem Sys.runWhere_steps {ok : Sys τ σ κ ο θ ε ρ → Action τ ο θ → Bool}
    {as : List (Action τ ο θ)} : ∀ {s s' : Sys τ σ κ ο θ ε ρ}, s.runWhere body ok as = some s' →
      Relation.ReflTransGen (fun s s' => ∃ a, s.step body a = some s' ∧ ok s a = true) s s' := by
  induction as with
  | nil =>
      intro s s' h
      cases h
      exact .refl
  | cons a as ih =>
      intro s s' h
      rw [Sys.runWhere, Option.ite_none_right_eq_some, Option.bind_eq_some_iff] at h
      obtain ⟨hok, s₁, h₁, h⟩ := h
      exact .head ⟨a, h₁, hok⟩ (ih h)

/-- The store a transaction will leave, once its program has ended. -/
def Sys.left (s : Sys τ σ κ ο θ ε ρ) (t : τ) : Option σ :=
  match s.txns t with
  | .active _ _ w (.pure _) => some (w s.db)
  | _ => none

omit [DecidableEq τ] [DecidableEq κ] in
theorem Sys.left_eq_some {s : Sys τ σ κ ο θ ε ρ} {t : τ} {d : σ} (h : s.left t = some d) :
    ∃ op now w r, s.txns t = .active op now w (.pure r) ∧ w s.db = d := by
  unfold Sys.left at h
  split at h
  · next op now w r ht => exact ⟨op, now, w, r, ht, Option.some.inj h⟩
  · cases h

/-- What a transaction will return, once its program has ended. -/
def Sys.answer (s : Sys τ σ κ ο θ ε ρ) (t : τ) : Option ρ :=
  match s.txns t with
  | .active _ _ _ (.pure r) => some r
  | _ => none

omit [DecidableEq τ] [DecidableEq κ] in
theorem Sys.answer_eq_some {s : Sys τ σ κ ο θ ε ρ} {t : τ} {r : ρ} (h : s.answer t = some r) :
    ∃ op now w, s.txns t = .active op now w (.pure r) ∧ s.left t = some (w s.db) := by
  unfold Sys.answer at h
  split at h
  · next op now w r' ht =>
      cases h
      exact ⟨op, now, w, ht, by rw [Sys.left, ht]⟩
  · cases h

/-- **Every program keeps `Q`**, as long as the others stay within `W`. -/
def Contract.KeptWithin (C : Contract σ κ ο θ ρ) (W : σ → Prop) (body : ο → θ → Tx σ κ ε ρ)
    (Q : ο → θ → Except ε ρ → View σ κ → Prop) : Prop :=
  ∀ op now v, C.inv v.db v.seq → W v.db → v.pending = id → v.held = ∅ →
    (body op now).Ensures (C.within W).interference (Q op now) v

/-- Where transaction `t` runs, its program ensures `Q` within `W`. -/
def Followed (C : Contract σ κ ο θ ρ) (W : σ → Prop)
    (Q : ο → θ → Except ε ρ → View σ κ → Prop) (s : Sys τ σ κ ο θ ε ρ) (t : τ) : Prop :=
  ∀ op now w p, s.txns t = .active op now w p →
    p.Ensures (C.within W).interference (Q op now) (s.view t w)

theorem Followed.step {W : σ → Prop} {Q : ο → θ → Except ε ρ → View σ κ → Prop}
    (hbody : C.KeptWithin W body Q) {s s' : Sys τ σ κ ο θ ε ρ} (h : Sound C s) (hW : W s.db)
    {t : τ} (hQ : Followed C W Q s t) {a : Action τ ο θ} (hs : s.step body a = some s')
    (hW' : W s'.db) : Followed C W Q s' t := by
  intro op now w p hp
  -- the transaction itself goes on with what its program was promised
  by_cases ht : t = a.txn
  · subst ht
    cases a with
    | request t op' =>
        simp only [Sys.step] at hs
        split at hs <;> cases hs
        simp [Action.txn] at hp
    | begin t now' =>
        simp only [Sys.step] at hs
        split at hs <;> cases hs
        next op' ht =>
        simp only [Action.txn, Sys.set_txns, Function.update_self, Fate.active.injEq] at hp
        obtain ⟨rfl, rfl, rfl, rfl⟩ := hp
        exact hbody _ _ _ h.inv hW rfl (h.holder t (by simp [ht]))
    | abort t =>
        simp only [Sys.step] at hs
        split at hs <;> cases hs <;> simp [Action.txn] at hp
    | advance t =>
        simp only [Sys.step] at hs
        split at hs
        · next op' now' w' p' ht =>
            simp only [Action.txn] at hp hQ
            cases Sys.advance_ensures (hQ _ _ _ _ ht) hs with
            | runs w'' p'' htxns hp' =>
                rw [htxns] at hp
                cases hp
                exact hp'
            | commits r htxns =>
                rw [htxns] at hp
                cases hp
            | raises e htxns =>
                rw [htxns] at hp
                cases hp
        · cases hs
  · -- another one moves the store as the contract allows
    obtain ⟨htxns, hheld⟩ := Sys.step_others h.undrawn hs ht
    rw [htxns] at hp
    obtain ⟨hinv, hmove⟩ := h.other hs ht
    exact (hQ op now w p hp).moves ⟨.single ⟨⟨hinv, hW'⟩, hmove⟩, rfl, hheld⟩

/-- **Following one transaction** through a run within `W`, from before it begins: when it
has run to its end, `Q` holds of where it stands.

The others are restricted to stores in `W`, and the transaction is not: it is shown to keep its
contract there.  So one can ask what it comes to if nothing else happens than what `W` allows. -/
theorem Sound.follow (hC : C.Kept body) {W : σ → Prop}
    {Q : ο → θ → Except ε ρ → View σ κ → Prop} (hbody : C.KeptWithin W body Q)
    {s₀ s : Sys τ σ κ ο θ ε ρ} (h : Sound C s₀) (hW : W s₀.db) {t : τ}
    (ht : ∀ op now w p, s₀.txns t ≠ .active op now w p) (hrun : Sys.StepsWithin body W s₀ s)
    {op : ο} {now : θ} {w : σ → σ} {r : ρ} (hend : s.txns t = .active op now w (.pure r)) :
    Q op now (.ok r) (s.view t w) := by
  have hfollowed : Followed C W Q s t ∧ W s.db := by
    clear hend
    induction hrun with
    | refl => exact ⟨fun op now w p hp => absurd hp (ht op now w p), hW⟩
    | tail hrun hstep ih =>
        obtain ⟨⟨a, ha⟩, hW'⟩ := hstep
        have hs := h.steps hC (Sys.StepsWithin.steps hrun)
        exact ⟨ih.1.step hbody hs ih.2 ha hW', hW'⟩
  exact hfollowed.1 op now w _ hend _ (.refl _ _)

end Soundness

/-! ## Running one transaction alone -/

/-- Run a program by itself: `free` tells which locks it can have, and `none` means
that it waits. -/
def Tx.solo (free : κ → Bool) :
    Tx σ κ ε ρ → σ → (σ → σ) → ℕ → Option (Except ε (ρ × σ × ℕ))
  | pure r, d, w, n => some (.ok (r, w d, n))
  | throw e, _, _, _ => some (.error e)
  | read k, d, w, n => (k (w d)).solo free d w n
  | write f k, d, w, n => k.solo free d (f ∘ w) n
  | lock key k, d, w, n => if free key then k.solo free d w n else none
  | tryLock key k, d, w, n => (k (free key)).solo free d w n
  | probe key c k, d, w, n => if free key then (k (c (w d))).solo free d w n else none
  | fresh k, d, w, n => (k n).solo free d w (n + 1)

section Progress

variable [DecidableEq τ] [DecidableEq κ] {body : ο → θ → Tx σ κ ε ρ}

/-- `free` is right about the locks transaction `t` can have at once. -/
def Free (s : Sys τ σ κ ο θ ε ρ) (t : τ) (free : κ → Bool) : Prop :=
  ∀ key, free key = true ↔ ∀ t', s.locks (.key key) = some t' → t' = t

omit [DecidableEq τ] in
private theorem Free.update {s : Sys τ σ κ ο θ ε ρ} {t : τ} {free : κ → Bool}
    (h : Free s t free) {r : Resource κ} {s' : Sys τ σ κ ο θ ε ρ}
    (hfree : ∀ key, r = .key key → free key = true)
    (hlocks : s'.locks = Function.update s.locks r (some t)) : Free s' t free := by
  intro key
  rw [hlocks]
  by_cases hr : r = .key key
  · subst hr
    simp [hfree key rfl]
  · rw [Function.update_of_ne (Ne.symm hr)]
    exact h key

/-- **Progress**: what a program does alone it does in the system, one action after
the other, as long as `free` is right about the locks.

This is the only rule that yields an execution, and not a property of all of them.  It is needed
where something is promised to happen. -/
theorem solo_steps {free : κ → Bool} {t : τ} {op : ο} {now : θ} (p : Tx σ κ ε ρ) :
    ∀ {s : Sys τ σ κ ο θ ε ρ} {w : σ → σ} {out : Except ε (ρ × σ × ℕ)},
      s.txns t = .active op now w p → Free s t free →
      p.solo free s.db w s.seq = some out →
      ∃ s', Sys.Advances body t s s' ∧ match out with
        | .ok (r, d, n) => s'.txns t = .committed op now r ∧ s'.db = d ∧ s'.seq = n
        | .error e => s'.txns t = .rolledBack op now e ∧ s'.db = s.db := by
  have hself : ∀ (g : τ → Fate σ κ ο θ ε ρ) f, Function.update g t f t = f :=
    fun g f => Function.update_self ..
  have hone : ∀ {s s' : Sys τ σ κ ο θ ε ρ} {w p}, s.txns t = .active op now w p →
      s.advance t op now w p = some s' → Sys.Advances body t s s' := by
    intro s s' w p ht hs
    exact .single (by simpa only [Sys.step, ht] using hs)
  -- on the program, whose nodes are the actions of the run
  induction p with
  | pure r =>
      intro s w out ht _ hout
      cases hout
      exact ⟨_, hone ht rfl, hself .., rfl, rfl⟩
  | throw e =>
      intro s w out ht _ hout
      cases hout
      exact ⟨_, hone ht rfl, hself .., rfl⟩
  | read k ih =>
      intro s w out ht hfree hout
      obtain ⟨s', hs, h⟩ := ih _ (s := s.set t (.active op now w (k (w s.db))))
        (hself ..) hfree hout
      exact ⟨s', (hone ht rfl).trans hs, h⟩
  | write f k ih =>
      intro s w out ht hfree hout
      obtain ⟨s', hs, h⟩ := ih (s := s.set t (.active op now (f ∘ w) k))
        (hself ..) hfree hout
      exact ⟨s', (hone ht rfl).trans hs, h⟩
  -- a lock that is free is taken, and one that the transaction has costs nothing
  | lock key k ih =>
      intro s w out ht hfree hout
      simp only [Tx.solo, Option.ite_none_right_eq_some] at hout
      obtain ⟨hkey, hout⟩ := hout
      cases hl : s.locks (.key key) with
      | none =>
          obtain ⟨s', hs, h⟩ := ih (s := (s.take t (.key key)).set t (.active op now w k))
            (hself ..) (hfree.update (by rintro _ ⟨⟩; exact hkey) rfl) hout
          exact ⟨s', (hone ht (by simp [Sys.advance, hl])).trans hs, h⟩
      | some t' =>
          have ht' : t' = t := (hfree key).mp hkey t' hl
          obtain ⟨s', hs, h⟩ := ih (s := s.set t (.active op now w k)) (hself ..) hfree hout
          exact ⟨s', (hone ht (by simp [Sys.advance, hl, ht'])).trans hs, h⟩
  -- here `free` only decides what the program learns
  | tryLock key k ih =>
      intro s w out ht hfree hout
      simp only [Tx.solo] at hout
      cases hl : s.locks (.key key) with
      | none =>
          have hkey : free key = true := (hfree key).mpr (by simp [hl])
          rw [hkey] at hout
          obtain ⟨s', hs, h⟩ := ih true
            (s := (s.take t (.key key)).set t (.active op now w (k true)))
            (hself ..) (hfree.update (by rintro _ ⟨⟩; exact hkey) rfl) hout
          exact ⟨s', (hone ht (by simp [Sys.advance, hl])).trans hs, h⟩
      | some t' =>
          have hkey : free key = decide (t' = t) := by
            rw [Bool.eq_iff_iff, hfree key]
            simp [hl]
          rw [hkey] at hout
          obtain ⟨s', hs, h⟩ := ih _ (s := s.set t (.active op now w (k (t' = t))))
            (hself ..) hfree hout
          exact ⟨s', (hone ht (by simp [Sys.advance, hl])).trans hs, h⟩
  | probe key c k ih =>
      intro s w out ht hfree hout
      simp only [Tx.solo, Option.ite_none_right_eq_some] at hout
      obtain ⟨hkey, hout⟩ := hout
      cases hl : s.locks (.key key) with
      | none =>
          cases hc : c (w s.db) with
          | true =>
              rw [hc] at hout
              obtain ⟨s', hs, h⟩ := ih true
                (s := (s.take t (.key key)).set t (.active op now w (k true)))
                (hself ..) (hfree.update (by rintro _ ⟨⟩; exact hkey) rfl) hout
              exact ⟨s', (hone ht (by simp [Sys.advance, hl, hc])).trans hs, h⟩
          | false =>
              rw [hc] at hout
              obtain ⟨s', hs, h⟩ := ih false (s := s.set t (.active op now w (k false)))
                (hself ..) hfree hout
              exact ⟨s', (hone ht (by simp [Sys.advance, hl, hc])).trans hs, h⟩
      | some t' =>
          have ht' : t' = t := (hfree key).mp hkey t' hl
          obtain ⟨s', hs, h⟩ := ih _ (s := s.set t (.active op now w (k (c (w s.db)))))
            (hself ..) hfree hout
          exact ⟨s', (hone ht (by simp [Sys.advance, hl, ht'])).trans hs, h⟩
  | fresh k ih =>
      intro s w out ht hfree hout
      obtain ⟨s', hs, h⟩ := ih s.seq
        (s := { (s.take t (.serial s.seq)).set t (.active op now w (k s.seq)) with
          seq := s.seq + 1 })
        (hself ..) (hfree.update (by simp) rfl) hout
      exact ⟨s', (hone ht rfl).trans hs, h⟩

end Progress

end ReadCommitted
