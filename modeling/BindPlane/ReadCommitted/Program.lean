import Mathlib.Data.Set.Basic
import Mathlib.Data.Set.Insert
import Mathlib.Data.Set.Disjoint
import Mathlib.Data.Set.BooleanAlgebra
import Mathlib.Order.CompletePartialOrder

/-!
# Transaction programs under READ COMMITTED

A transaction is a program over an arbitrary committed store `σ`.  Its statements
are the seven the isolation level gives a client: take a fresh snapshot, queue a
write that becomes visible to the others at commit, wait for an exclusive lock,
try one without waiting, wait for one and keep it only where the store then
satisfies a condition, draw a number from a sequence that never hands out the
same number twice, and raise.

* `Tx` is the syntax: a tree whose continuations are functions, so that a program
  is written in `do` notation and computes.
* `View` is what a running transaction stands on: the committed store, the next
  sequence number, its queued writes and the resources it holds.
* `Tx.Ensures` is the program logic: a condition is proved of a program against an
  arbitrary interference relation, which may act before every statement and once
  more before the commit.

Nothing here says which store, which locks or which programs: those are
parameters.
-/

namespace ReadCommitted

universe u v w x y

/-- What a transaction can hold exclusively until it ends: a lock under a key of
its choice, or a sequence number it has drawn. -/
inductive Resource (κ : Type v) : Type v
  | key (k : κ)
  | serial (n : ℕ)
  deriving DecidableEq

/-- A transaction program with result `α`, exceptions `ε`, lock keys `κ`.

A program is a tree, one node for a statement, and what a statement learns chooses the branch.  So
where another transaction may interfere is part of the syntax: between any two nodes, and nowhere
within one.  Writes are queued until the end, and a program sees its own; what it sees of the others
is what they have committed, anew at every statement, which is READ COMMITTED and no more. -/
inductive Tx (σ : Type u) (κ : Type v) (ε : Type w) (α : Type x) :
    Type (max u v w x)
  /-- Commit and return. -/
  | pure (a : α)
  /-- Roll back and raise. -/
  | throw (e : ε)
  /-- One statement's snapshot: the committed store under the own queued writes. -/
  | read (k : σ → Tx σ κ ε α)
  /-- Queue a write. -/
  | write (f : σ → σ) (k : Tx σ κ ε α)
  /-- Wait for a lock. -/
  | lock (key : κ) (k : Tx σ κ ε α)
  /-- Take a lock if it is free, and learn whether it was. -/
  | tryLock (key : κ) (k : Bool → Tx σ κ ε α)
  /-- Wait until nobody else has a lock, and take it if the snapshot satisfies `c`. -/
  | probe (key : κ) (c : σ → Bool) (k : Bool → Tx σ κ ε α)
  /-- Draw the next sequence number. -/
  | fresh (k : ℕ → Tx σ κ ε α)

namespace Tx

variable {σ : Type u} {κ : Type v} {ε : Type w} {α : Type x} {β : Type y}

/-- Sequential composition. -/
def bind : Tx σ κ ε α → (α → Tx σ κ ε β) → Tx σ κ ε β
  | pure a, g => g a
  | throw e, _ => throw e
  | read k, g => read fun s => (k s).bind g
  | write f k, g => write f (k.bind g)
  | lock key k, g => lock key (k.bind g)
  | tryLock key k, g => tryLock key fun b => (k b).bind g
  | probe key c k, g => probe key c fun b => (k b).bind g
  | fresh k, g => fresh fun n => (k n).bind g

instance : Monad (Tx σ κ ε) where
  pure := Tx.pure
  bind := Tx.bind

/-- Take a snapshot. -/
def snapshot : Tx σ κ ε σ := read pure

/-- Queue a write. -/
def update (f : σ → σ) : Tx σ κ ε PUnit := write f (pure ⟨⟩)

/-- Wait for a lock. -/
def acquire (key : κ) : Tx σ κ ε PUnit := lock key (pure ⟨⟩)

/-- Take a lock unless somebody else has it. -/
def tryAcquire (key : κ) : Tx σ κ ε Bool := tryLock key pure

/-- Take a lock where a condition holds behind it, and learn whether it does. -/
def acquireIf (key : κ) (c : σ → Bool) : Tx σ κ ε Bool := probe key c pure

/-- Draw a number. -/
def nextSerial : Tx σ κ ε ℕ := fresh pure

/-- Raise. -/
def raise (e : ε) : Tx σ κ ε α := throw e

/-- Raise unless a condition holds. -/
def require (c : Bool) (e : ε) : Tx σ κ ε PUnit := if c then pure ⟨⟩ else throw e

/-- The value of an option; raise if there is none. -/
def expect : Option α → ε → Tx σ κ ε α
  | some a, _ => pure a
  | none, e => throw e

@[simp] theorem pure_eq (a : α) : (Pure.pure a : Tx σ κ ε α) = pure a := rfl

@[simp] theorem bind_eq {α β : Type x} (p : Tx σ κ ε α) (g : α → Tx σ κ ε β) :
    (p >>= g) = p.bind g := rfl

@[simp] theorem pure_bind (a : α) (g : α → Tx σ κ ε β) :
    (pure a : Tx σ κ ε α).bind g = g a := rfl

@[simp] theorem raise_bind (e : ε) (g : α → Tx σ κ ε β) :
    (raise e : Tx σ κ ε α).bind g = raise e := rfl

theorem bind_assoc {γ : Type*} (p : Tx σ κ ε α) (f : α → Tx σ κ ε β)
    (g : β → Tx σ κ ε γ) : (p.bind f).bind g = p.bind fun a => (f a).bind g := by
  induction p with
  | pure a => rfl
  | throw e => rfl
  | read k ih => exact congrArg read (funext ih)
  | write f k ih => exact congrArg (write f) ih
  | lock key k ih => exact congrArg (lock key) ih
  | tryLock key k ih => exact congrArg (tryLock key) (funext ih)
  | probe key c k ih => exact congrArg (probe key c) (funext ih)
  | fresh k ih => exact congrArg fresh (funext ih)

theorem bind_pure (p : Tx σ κ ε α) : p.bind pure = p := by
  induction p with
  | pure a => rfl
  | throw e => rfl
  | read k ih => exact congrArg read (funext ih)
  | write f k ih => exact congrArg (write f) ih
  | lock key k ih => exact congrArg (lock key) ih
  | tryLock key k ih => exact congrArg (tryLock key) (funext ih)
  | probe key c k ih => exact congrArg (probe key c) (funext ih)
  | fresh k ih => exact congrArg fresh (funext ih)

end Tx

/-- What a running transaction stands on.

A statement does not see the store of the system, but what is committed with the queued writes of
the transaction on top.  Postconditions speak of views too, and not of stores, because what a
program knows at its end depends on the locks it holds: a row that it has locked is as it was read,
and any other row may have changed in the meantime. -/
structure View (σ : Type u) (κ : Type v) where
  /-- The committed store. -/
  db : σ
  /-- The next sequence number. -/
  seq : ℕ
  /-- The own writes, queued for the commit. -/
  pending : σ → σ
  /-- The resources held. -/
  held : Set (Resource κ)

namespace View

variable {σ : Type u} {κ : Type v}

/-- The store a statement of the transaction sees. -/
def snapshot (v : View σ κ) : σ := v.pending v.db

/-- Queue a write behind the earlier ones. -/
def queue (v : View σ κ) (f : σ → σ) : View σ κ := { v with pending := f ∘ v.pending }

/-- Hold one more resource. -/
def hold (v : View σ κ) (r : Resource κ) : View σ κ := { v with held := insert r v.held }

/-- Use up the next sequence number and hold it. -/
def draw (v : View σ κ) : View σ κ :=
  { v with seq := v.seq + 1, held := insert (.serial v.seq) v.held }

@[simp] theorem queue_db (v : View σ κ) (f : σ → σ) : (v.queue f).db = v.db := rfl
@[simp] theorem queue_seq (v : View σ κ) (f : σ → σ) : (v.queue f).seq = v.seq := rfl
@[simp] theorem queue_held (v : View σ κ) (f : σ → σ) : (v.queue f).held = v.held := rfl
@[simp] theorem queue_pending (v : View σ κ) (f : σ → σ) :
    (v.queue f).pending = f ∘ v.pending := rfl

@[simp] theorem hold_db (v : View σ κ) (r : Resource κ) : (v.hold r).db = v.db := rfl
@[simp] theorem hold_seq (v : View σ κ) (r : Resource κ) : (v.hold r).seq = v.seq := rfl
@[simp] theorem hold_pending (v : View σ κ) (r : Resource κ) :
    (v.hold r).pending = v.pending := rfl
@[simp] theorem hold_held (v : View σ κ) (r : Resource κ) :
    (v.hold r).held = insert r v.held := rfl

@[simp] theorem draw_db (v : View σ κ) : v.draw.db = v.db := rfl
@[simp] theorem draw_seq (v : View σ κ) : v.draw.seq = v.seq + 1 := rfl
@[simp] theorem draw_pending (v : View σ κ) : v.draw.pending = v.pending := rfl
@[simp] theorem draw_held (v : View σ κ) :
    v.draw.held = insert (.serial v.seq) v.held := rfl

end View

/-- **Interference**: what the other transactions may do to the committed store and
the sequence while a transaction holds the resources `K`.

The relation is indexed by what is held.  With no lock the others may do whatever their contracts
allow; with a lock they may still do so, except where it takes that lock.  `anti` is the frame rule
in this setting: what is known under few locks is known under more. -/
structure Interference (σ : Type u) (κ : Type v) where
  /-- `rel K (d, n) (d', n')`: the others may move `(d, n)` to `(d', n')`. -/
  rel : Set (Resource κ) → σ × ℕ → σ × ℕ → Prop
  refl : ∀ K s, rel K s s
  trans : ∀ {K s s' s''}, rel K s s' → rel K s' s'' → rel K s s''
  /-- Holding more leaves the others less to do. -/
  anti : ∀ {K K' s s'}, K ⊆ K' → rel K' s s' → rel K s s'

namespace Interference

variable {σ : Type u} {κ : Type v}

/-- The others move the store under a view; its own part stays. -/
def Moves (R : Interference σ κ) (v v' : View σ κ) : Prop :=
  R.rel v.held (v.db, v.seq) (v'.db, v'.seq) ∧
    v'.pending = v.pending ∧ v'.held = v.held

variable (R : Interference σ κ)

theorem Moves.refl (v : View σ κ) : R.Moves v v := ⟨R.refl _ _, rfl, rfl⟩

variable {R}

theorem Moves.trans {v v' v'' : View σ κ} (h : R.Moves v v') (h' : R.Moves v' v'') :
    R.Moves v v'' := by
  obtain ⟨h, hp, hh⟩ := h
  obtain ⟨h', hp', hh'⟩ := h'
  refine ⟨R.trans h ?_, hp'.trans hp, hh'.trans hh⟩
  rw [← hh]
  exact h'

theorem Moves.pending {v v' : View σ κ} (h : R.Moves v v') : v'.pending = v.pending :=
  h.2.1

theorem Moves.held {v v' : View σ κ} (h : R.Moves v v') : v'.held = v.held := h.2.2

theorem Moves.rel {v v' : View σ κ} (h : R.Moves v v') :
    R.rel v.held (v.db, v.seq) (v'.db, v'.seq) := h.1

end Interference

namespace Tx

variable {σ : Type u} {κ : Type v} {ε : Type w} {α : Type x} {β : Type y}

/-- **The program logic.**  Run from the view `v`, with the others interfering by
`R` before every statement and before the end, the program ends only in a result and
a view that satisfy `Q`. -/
def Ensures (R : Interference σ κ) (Q : Except ε α → View σ κ → Prop) :
    Tx σ κ ε α → View σ κ → Prop
  | pure a, v => ∀ v', R.Moves v v' → Q (.ok a) v'
  | throw e, v => ∀ v', R.Moves v v' → Q (.error e) v'
  | read k, v => ∀ v', R.Moves v v' → (k v'.snapshot).Ensures R Q v'
  | write f k, v => ∀ v', R.Moves v v' → k.Ensures R Q (v'.queue f)
  | lock key k, v => ∀ v', R.Moves v v' → k.Ensures R Q (v'.hold (.key key))
  | tryLock key k, v => ∀ v', R.Moves v v' →
      (k true).Ensures R Q (v'.hold (.key key)) ∧ (k false).Ensures R Q v'
  | probe key c k, v => ∀ v', R.Moves v v' →
      (c v'.snapshot = true → (k true).Ensures R Q (v'.hold (.key key))) ∧
        (c v'.snapshot = false → (k false).Ensures R Q v')
  | fresh k, v => ∀ v', R.Moves v v' → (k v'.seq).Ensures R Q v'.draw

variable {R : Interference σ κ} {Q Q' : Except ε α → View σ κ → Prop}

/-- What is ensured stays ensured while the others move. -/
theorem Ensures.moves {p : Tx σ κ ε α} {v v' : View σ κ} (h : p.Ensures R Q v)
    (hv : R.Moves v v') : p.Ensures R Q v' := by
  cases p <;> exact fun v'' hv' => h v'' (hv.trans hv')

theorem Ensures.mono {p : Tx σ κ ε α} (hQ : ∀ r v, Q r v → Q' r v) :
    ∀ {v : View σ κ}, p.Ensures R Q v → p.Ensures R Q' v := by
  induction p with
  | pure a => exact fun h v' hv => hQ _ _ (h v' hv)
  | throw e => exact fun h v' hv => hQ _ _ (h v' hv)
  | read k ih => exact fun h v' hv => ih _ (h v' hv)
  | write f k ih => exact fun h v' hv => ih (h v' hv)
  | lock key k ih => exact fun h v' hv => ih (h v' hv)
  | tryLock key k ih => exact fun h v' hv => ⟨ih _ (h v' hv).1, ih _ (h v' hv).2⟩
  | probe key c k ih =>
      exact fun h v' hv => ⟨fun hc => ih _ ((h v' hv).1 hc), fun hc => ih _ ((h v' hv).2 hc)⟩
  | fresh k ih => exact fun h v' hv => ih _ (h v' hv)

/-- A postcondition that always holds is ensured. -/
theorem Ensures.trivial {p : Tx σ κ ε α} (hQ : ∀ r v, Q r v) :
    ∀ v : View σ κ, p.Ensures R Q v := by
  induction p with
  | pure a => exact fun v v' _ => hQ _ _
  | throw e => exact fun v v' _ => hQ _ _
  | read k ih => exact fun v v' _ => ih _ _
  | write f k ih => exact fun v v' _ => ih _
  | lock key k ih => exact fun v v' _ => ih _
  | tryLock key k ih => exact fun v v' _ => ⟨ih _ _, ih _ _⟩
  | probe key c k ih => exact fun v v' _ => ⟨fun _ => ih _ _, fun _ => ih _ _⟩
  | fresh k ih => exact fun v v' _ => ih _ _

/-- A conjunction of postconditions may be established in two passes. -/
theorem Ensures.and {p : Tx σ κ ε α} :
    ∀ {v : View σ κ}, p.Ensures R Q v → p.Ensures R Q' v →
      p.Ensures R (fun r v => Q r v ∧ Q' r v) v := by
  induction p with
  | pure a => exact fun h h' v' hv => ⟨h v' hv, h' v' hv⟩
  | throw e => exact fun h h' v' hv => ⟨h v' hv, h' v' hv⟩
  | read k ih => exact fun h h' v' hv => ih _ (h v' hv) (h' v' hv)
  | write f k ih => exact fun h h' v' hv => ih (h v' hv) (h' v' hv)
  | lock key k ih => exact fun h h' v' hv => ih (h v' hv) (h' v' hv)
  | tryLock key k ih =>
      exact fun h h' v' hv =>
        ⟨ih _ (h v' hv).1 (h' v' hv).1, ih _ (h v' hv).2 (h' v' hv).2⟩
  | probe key c k ih =>
      exact fun h h' v' hv =>
        ⟨fun hc => ih _ ((h v' hv).1 hc) ((h' v' hv).1 hc),
          fun hc => ih _ ((h v' hv).2 hc) ((h' v' hv).2 hc)⟩
  | fresh k ih => exact fun h h' v' hv => ih _ (h v' hv) (h' v' hv)

/-- **The bind rule**: the first part's postcondition is the second part's
precondition, and an exception of the first part ends the whole. -/
theorem Ensures.bind {p : Tx σ κ ε α} {g : α → Tx σ κ ε β}
    {Q : Except ε β → View σ κ → Prop} :
    ∀ {v : View σ κ},
      p.Ensures R (fun r v => match r with
        | .ok a => (g a).Ensures R Q v
        | .error e => Q (.error e) v) v →
      (p.bind g).Ensures R Q v := by
  induction p with
  | pure a =>
      intro v h
      exact h v (.refl R v)
  | throw e => exact fun h => h
  | read k ih => exact fun h v' hv => ih _ (h v' hv)
  | write f k ih => exact fun h v' hv => ih (h v' hv)
  | lock key k ih => exact fun h v' hv => ih (h v' hv)
  | tryLock key k ih => exact fun h v' hv => ⟨ih _ (h v' hv).1, ih _ (h v' hv).2⟩
  | probe key c k ih =>
      exact fun h v' hv => ⟨fun hc => ih _ ((h v' hv).1 hc), fun hc => ih _ ((h v' hv).2 hc)⟩
  | fresh k ih => exact fun h v' hv => ih _ (h v' hv)

/-! ## Statements that may raise -/

section Statements

variable {Q : Except ε β → View σ κ → Prop} {v : View σ κ}

theorem Ensures.require_bind {c : Bool} {e : ε} {g : PUnit → Tx σ κ ε β}
    (h : c = true → (g ⟨⟩).Ensures R Q v)
    (he : c = false → ∀ v', R.Moves v v' → Q (.error e) v') :
    ((Tx.require c e).bind g).Ensures R Q v := by
  cases c with
  | true => exact h rfl
  | false => exact he rfl

theorem Ensures.expect_bind {γ : Type x} {o : Option γ} {e : ε} {g : γ → Tx σ κ ε β}
    (h : ∀ a, o = some a → (g a).Ensures R Q v)
    (he : o = none → ∀ v', R.Moves v v' → Q (.error e) v') :
    ((Tx.expect o e).bind g).Ensures R Q v := by
  cases o with
  | some a => exact h a rfl
  | none => exact he rfl

end Statements

end Tx

end ReadCommitted
