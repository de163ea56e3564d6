import BindPlane.ReadCommitted.Program
import Mathlib.Data.Set.Finite.Basic
import Mathlib.Logic.Function.Basic
import Mathlib.Logic.Relation

/-!
# Interleaved transactions

Any number of transactions over one committed store.  A client *requests* an
operation, the operation *begins* at a time of the clock's choosing and builds its
program from that time, and the running programs *advance* one statement at a time
in any order; a transaction may *abort* at any point before its commit.  `step` is
the executable semantics of one such action.

What a step can do is said once, by who is looking: `step_others` for the
transactions that did not move, `step_store` for the committed store, and
`advance_ensures` for the program logic of the transaction that did.

**What is not modelled.**  A statement is atomic.  A statement of PostgreSQL that waits for a lock
and then reads again is written as the two or three statements of a program that do so, with a point
of interference between them; a single statement that touches several rows takes its snapshot once,
as in PostgreSQL.  Deadlock detection is an abort, and a lost connection is one as well.
-/

namespace ReadCommitted

universe u

variable {τ σ κ ο θ ε ρ : Type u}

/-- Where a transaction stands.

A transaction that has been requested has no time yet; one that is active carries its writes and the
rest of its program; and one that has ended keeps what it was asked for and how it ended.  Nothing
ever removes these records, and so a state of the system tells its own history: who has committed,
with which reply and begun at what time. -/
inductive Fate (σ κ ο θ ε ρ : Type u) : Type u
  | absent
  | requested (op : ο)
  | active (op : ο) (now : θ) (pending : σ → σ) (rest : Tx σ κ ε ρ)
  | committed (op : ο) (now : θ) (r : ρ)
  | rolledBack (op : ο) (now : θ) (e : ε)
  | aborted (op : ο)

/-- The operation a transaction was requested for. -/
def Fate.op? : Fate σ κ ο θ ε ρ → Option ο
  | absent => none
  | requested op | active op _ _ _ | committed op _ _ | rolledBack op _ _
  | aborted op => some op

theorem Fate.op?_eq_none {f : Fate σ κ ο θ ε ρ} : f.op? = none ↔ f = .absent := by
  cases f <;> simp [op?]

/-- The committed store, the sequence, the lock table and the transactions.

Only `db` is shared.  The lock table says who holds a resource, and the sequence the next number to
be drawn; a number that was drawn stays with its transaction, whether or not it commits, as a
sequence of PostgreSQL does. -/
structure Sys (τ σ κ ο θ ε ρ : Type u) : Type u where
  db : σ
  seq : ℕ
  locks : Resource κ → Option τ
  txns : τ → Fate σ κ ο θ ε ρ

/-- What can happen next. -/
inductive Action (τ ο θ : Type u) : Type u
  | request (t : τ) (op : ο)
  | begin (t : τ) (now : θ)
  | advance (t : τ)
  | abort (t : τ)

/-- The transaction an action is about. -/
def Action.txn : Action τ ο θ → τ
  | request t _ | begin t _ | advance t | abort t => t

namespace Sys

/-- Nobody has asked for anything yet. -/
def init (db : σ) (seq : ℕ) : Sys τ σ κ ο θ ε ρ := ⟨db, seq, fun _ => none, fun _ => .absent⟩

/-- The resources a transaction holds. -/
def heldBy (s : Sys τ σ κ ο θ ε ρ) (t : τ) : Set (Resource κ) := {r | s.locks r = some t}

/-- What transaction `t` stands on when its queued writes are `w`. -/
def view (s : Sys τ σ κ ο θ ε ρ) (t : τ) (w : σ → σ) : View σ κ :=
  ⟨s.db, s.seq, w, s.heldBy t⟩

section Moves

variable [DecidableEq τ]

/-- Move one transaction on. -/
def set (s : Sys τ σ κ ο θ ε ρ) (t : τ) (f : Fate σ κ ο θ ε ρ) : Sys τ σ κ ο θ ε ρ :=
  { s with txns := Function.update s.txns t f }

/-- Let a transaction take a resource. -/
def take [DecidableEq κ] (s : Sys τ σ κ ο θ ε ρ) (t : τ) (r : Resource κ) : Sys τ σ κ ο θ ε ρ :=
  { s with locks := Function.update s.locks r (some t) }

/-- Let go of everything a transaction holds. -/
def drop (s : Sys τ σ κ ο θ ε ρ) (t : τ) : Sys τ σ κ ο θ ε ρ :=
  { s with locks := fun r => if s.locks r = some t then none else s.locks r }

@[simp] theorem set_db (s : Sys τ σ κ ο θ ε ρ) (t : τ) (f : Fate σ κ ο θ ε ρ) :
    (s.set t f).db = s.db := rfl
@[simp] theorem set_seq (s : Sys τ σ κ ο θ ε ρ) (t : τ) (f : Fate σ κ ο θ ε ρ) :
    (s.set t f).seq = s.seq := rfl
@[simp] theorem set_locks (s : Sys τ σ κ ο θ ε ρ) (t : τ) (f : Fate σ κ ο θ ε ρ) :
    (s.set t f).locks = s.locks := rfl
@[simp] theorem set_txns (s : Sys τ σ κ ο θ ε ρ) (t : τ) (f : Fate σ κ ο θ ε ρ) :
    (s.set t f).txns = Function.update s.txns t f := rfl
@[simp] theorem drop_db (s : Sys τ σ κ ο θ ε ρ) (t : τ) : (s.drop t).db = s.db := rfl
@[simp] theorem drop_seq (s : Sys τ σ κ ο θ ε ρ) (t : τ) : (s.drop t).seq = s.seq := rfl
@[simp] theorem drop_txns (s : Sys τ σ κ ο θ ε ρ) (t : τ) : (s.drop t).txns = s.txns := rfl

/-- Dropping takes nothing from the others and leaves nothing to `t`. -/
theorem drop_locks_iff (s : Sys τ σ κ ο θ ε ρ) (t t' : τ) (r : Resource κ) :
    (s.drop t).locks r = some t' ↔ s.locks r = some t' ∧ t' ≠ t := by
  simp only [drop]
  split
  · next h => simp only [h, reduceCtorEq, Option.some.injEq, false_iff]; grind
  · next h => grind

end Moves

section Takes

variable [DecidableEq κ]

@[simp] theorem take_db (s : Sys τ σ κ ο θ ε ρ) (t : τ) (r : Resource κ) :
    (s.take t r).db = s.db := rfl
@[simp] theorem take_seq (s : Sys τ σ κ ο θ ε ρ) (t : τ) (r : Resource κ) :
    (s.take t r).seq = s.seq := rfl
@[simp] theorem take_locks (s : Sys τ σ κ ο θ ε ρ) (t : τ) (r : Resource κ) :
    (s.take t r).locks = Function.update s.locks r (some t) := rfl
@[simp] theorem take_txns (s : Sys τ σ κ ο θ ε ρ) (t : τ) (r : Resource κ) :
    (s.take t r).txns = s.txns := rfl

end Takes

variable [DecidableEq τ] [DecidableEq κ]

/-- One statement of the running transaction `t`.

A commit applies the queued writes to the store as it is now, and not as it was when they were
queued, and releases all locks in the same step.  A lock that another transaction holds blocks:
there is no step then, so that a deadlock is a state in which nobody can move.  `tryLock` is `FOR
UPDATE SKIP LOCKED` or a lock with a timeout, which learns that it has not got the lock, and `probe`
a unique index, where an insert waits for whoever has an uncommitted entry. -/
def advance (s : Sys τ σ κ ο θ ε ρ) (t : τ) (op : ο) (now : θ) (w : σ → σ) :
    Tx σ κ ε ρ → Option (Sys τ σ κ ο θ ε ρ)
  | .pure r => some { (s.drop t).set t (.committed op now r) with db := w s.db }
  | .throw e => some ((s.drop t).set t (.rolledBack op now e))
  | .read k => some (s.set t (.active op now w (k (w s.db))))
  | .write f k => some (s.set t (.active op now (f ∘ w) k))
  | .lock key k =>
      match s.locks (.key key) with
      | none => some ((s.take t (.key key)).set t (.active op now w k))
      | some t' => if t' = t then some (s.set t (.active op now w k)) else none
  | .tryLock key k =>
      match s.locks (.key key) with
      | none => some ((s.take t (.key key)).set t (.active op now w (k true)))
      | some t' => some (s.set t (.active op now w (k (t' = t))))
  | .probe key c k =>
      match s.locks (.key key) with
      | none =>
          if c (w s.db) then some ((s.take t (.key key)).set t (.active op now w (k true)))
          else some (s.set t (.active op now w (k false)))
      | some t' => if t' = t then some (s.set t (.active op now w (k (c (w s.db))))) else none
  | .fresh k =>
      some { (s.take t (.serial s.seq)).set t (.active op now w (k s.seq)) with
        seq := s.seq + 1 }

/-- The executable semantics of one action; `none` when it cannot happen.

An action names a transaction, and everything else is determined: the semantics is a function of the
state and the action, and all that is left open is which action comes next.  A run is any sequence
of actions, so that a theorem about `Steps` is one about every interleaving of the statements of all
transactions, with aborts in any place.  The time at which an operation begins is chosen by the
action, and no assumption is made on it here: clocks may go back. -/
def step (body : ο → θ → Tx σ κ ε ρ) (s : Sys τ σ κ ο θ ε ρ) :
    Action τ ο θ → Option (Sys τ σ κ ο θ ε ρ)
  | .request t op =>
      match s.txns t with
      | .absent => some (s.set t (.requested op))
      | _ => none
  | .begin t now =>
      match s.txns t with
      | .requested op => some (s.set t (.active op now id (body op now)))
      | _ => none
  | .advance t =>
      match s.txns t with
      | .active op now w p => s.advance t op now w p
      | _ => none
  | .abort t =>
      match s.txns t with
      | .requested op => some (s.set t (.aborted op))
      | .active op _ _ _ => some ((s.drop t).set t (.aborted op))
      | _ => none

/-- Any number of actions.

Most results about a system are of one of two kinds: what holds in every state that is reached from
the first one, and what a run from one reachable state to another one can have changed.  Both are
inductions over this relation, and `Contract` does them once and for all. -/
def Steps (body : ο → θ → Tx σ κ ε ρ) : Sys τ σ κ ο θ ε ρ → Sys τ σ κ ο θ ε ρ → Prop :=
  Relation.ReflTransGen fun s s' => ∃ a, s.step body a = some s'

/-- One transaction by itself, statement after statement. -/
def Advances (body : ο → θ → Tx σ κ ε ρ) (t : τ) :
    Sys τ σ κ ο θ ε ρ → Sys τ σ κ ο θ ε ρ → Prop :=
  Relation.ReflTransGen fun s s' => s.step body (.advance t) = some s'

theorem Advances.steps {body : ο → θ → Tx σ κ ε ρ} {t : τ} {s s' : Sys τ σ κ ο θ ε ρ}
    (h : Advances body t s s') : Steps body s s' :=
  Relation.ReflTransGen.mono (fun _ _ hs => ⟨_, hs⟩) _ _ h

/-- A given list of actions, one after the other. -/
def run (body : ο → θ → Tx σ κ ε ρ) (s : Sys τ σ κ ο θ ε ρ) :
    List (Action τ ο θ) → Option (Sys τ σ κ ο θ ε ρ)
  | [] => some s
  | a :: as => (s.step body a).bind fun s' => s'.run body as

theorem run_steps {body : ο → θ → Tx σ κ ε ρ} :
    ∀ {as : List (Action τ ο θ)} {s s' : Sys τ σ κ ο θ ε ρ},
      s.run body as = some s' → Steps body s s' := by
  intro as
  induction as with
  | nil => intro s s' h; cases h; exact .refl
  | cons a as ih =>
      intro s s' h
      rw [run, Option.bind_eq_some_iff] at h
      obtain ⟨s₁, h₁, h⟩ := h
      exact .head ⟨a, h₁⟩ (ih h)

/-- Advance `t` until it has ended, waits, or the fuel is spent. -/
def advances (body : ο → θ → Tx σ κ ε ρ) (t : τ) : ℕ → Sys τ σ κ ο θ ε ρ → Sys τ σ κ ο θ ε ρ
  | 0, s => s
  | n + 1, s =>
      match s.step body (.advance t) with
      | some s' => advances body t n s'
      | none => s

/-- Request, begin and advance one transaction with nobody in between. -/
def perform (body : ο → θ → Tx σ κ ε ρ) (fuel : ℕ) (t : τ) (op : ο) (now : θ)
    (s : Sys τ σ κ ο θ ε ρ) : Sys τ σ κ ο θ ε ρ :=
  match s.run body [.request t op, .begin t now] with
  | some s' => advances body t fuel s'
  | none => s

theorem advances_steps {body : ο → θ → Tx σ κ ε ρ} (t : τ) (fuel : ℕ) :
    ∀ s : Sys τ σ κ ο θ ε ρ, Steps body s (advances body t fuel s) := by
  induction fuel with
  | zero => exact fun _ => .refl
  | succ n ih =>
      intro s
      rw [advances]
      split
      · next s' hs => exact .head ⟨_, hs⟩ (ih s')
      · exact .refl

theorem perform_steps (body : ο → θ → Tx σ κ ε ρ) (fuel : ℕ) (t : τ) (op : ο) (now : θ)
    (s : Sys τ σ κ ο θ ε ρ) : Steps body s (perform body fuel t op now s) := by
  rw [perform]
  split
  · next s' hs => exact (run_steps hs).trans (advances_steps t fuel s')
  · exact .refl

/-! ## What a step can do -/

section Inversion

variable {body : ο → θ → Tx σ κ ε ρ} {s s' : Sys τ σ κ ο θ ε ρ}

/-- Numbers not drawn yet are held by nobody. -/
def Undrawn (s : Sys τ σ κ ο θ ε ρ) : Prop := ∀ n, s.seq ≤ n → s.locks (.serial n) = none

omit [DecidableEq κ] in
private theorem drop_heldBy {t t' : τ} (h : t' ≠ t) : (s.drop t).heldBy t' = s.heldBy t' := by
  ext r
  exact (s.drop_locks_iff t t' r).trans (and_iff_left h)

omit [DecidableEq τ] in
private theorem take_heldBy {t t' : τ} {r : Resource κ} (h : t' ≠ t)
    (hfree : s.locks r = none) : (s.take t r).heldBy t' = s.heldBy t' := by
  ext r'
  by_cases hr : r' = r
  · subst hr
    simp [heldBy, hfree, h.symm]
  · simp [heldBy, Function.update_of_ne hr]

omit [DecidableEq τ] in
private theorem take_heldBy_self (t : τ) (r : Resource κ) :
    (s.take t r).heldBy t = insert r (s.heldBy t) := by
  ext r'
  by_cases hr : r' = r
  · subst hr
    simp [heldBy]
  · simp [heldBy, hr]

/-- **Everybody else** stays where they were, with what they held.

An action names one transaction.  Every other one keeps its program, its writes and its locks, and
can only notice that the committed store has changed. -/
theorem step_others {a : Action τ ο θ} (hU : s.Undrawn) (hs : s.step body a = some s')
    {t : τ} (ht : t ≠ a.txn) : s'.txns t = s.txns t ∧ s'.heldBy t = s.heldBy t := by
  cases a with
  | request t₀ op =>
      simp only [step] at hs
      split at hs <;> cases hs
      exact ⟨Function.update_of_ne ht _ _, rfl⟩
  | begin t₀ now =>
      simp only [step] at hs
      split at hs <;> cases hs
      exact ⟨Function.update_of_ne ht _ _, rfl⟩
  | abort t₀ =>
      simp only [step] at hs
      split at hs <;> cases hs
      · exact ⟨Function.update_of_ne ht _ _, rfl⟩
      · exact ⟨Function.update_of_ne ht _ _, drop_heldBy ht⟩
  -- a lock that is taken was free, so nobody else loses it
  | advance t₀ =>
      simp only [step] at hs
      split at hs
      · next op now w p _ =>
          cases p with
          | pure r => cases hs; exact ⟨Function.update_of_ne ht _ _, drop_heldBy ht⟩
          | throw e => cases hs; exact ⟨Function.update_of_ne ht _ _, drop_heldBy ht⟩
          | read k => cases hs; exact ⟨Function.update_of_ne ht _ _, rfl⟩
          | write f k => cases hs; exact ⟨Function.update_of_ne ht _ _, rfl⟩
          | lock key k =>
              simp only [Sys.advance] at hs
              split at hs
              · next hfree =>
                  cases hs
                  exact ⟨Function.update_of_ne ht _ _, take_heldBy ht hfree⟩
              · split at hs <;> cases hs
                exact ⟨Function.update_of_ne ht _ _, rfl⟩
          | tryLock key k =>
              simp only [Sys.advance] at hs
              split at hs <;> cases hs
              · next hfree => exact ⟨Function.update_of_ne ht _ _, take_heldBy ht hfree⟩
              · exact ⟨Function.update_of_ne ht _ _, rfl⟩
          | probe key c k =>
              simp only [Sys.advance] at hs
              split at hs
              · next hfree =>
                  split at hs <;> cases hs
                  · exact ⟨Function.update_of_ne ht _ _, take_heldBy ht hfree⟩
                  · exact ⟨Function.update_of_ne ht _ _, rfl⟩
              · split at hs <;> cases hs
                exact ⟨Function.update_of_ne ht _ _, rfl⟩
          | fresh k =>
              cases hs
              exact ⟨Function.update_of_ne ht _ _, take_heldBy ht (hU _ le_rfl)⟩
      · cases hs

/-- **The store** moves only by the commit of a program that has ended.

Of a step nothing else matters to the store: requests, locks, reads and writes into the own
transaction are all quiet, and so is a rollback. -/
inductive Moved (s s' : Sys τ σ κ ο θ ε ρ) (t : τ) : Prop
  | quiet (hdb : s'.db = s.db) (f : Fate σ κ ο θ ε ρ)
      (htxns : s'.txns = Function.update s.txns t f)
      (hf : ∀ op now r, f ≠ .committed op now r)
      (hs : ∀ op now r, s.txns t ≠ .committed op now r)
      (hop : ∀ op, (s.txns t).op? = some op → f.op? = some op)
  | commit (op : ο) (now : θ) (r : ρ) (w : σ → σ)
      (hrun : s.txns t = .active op now w (.pure r)) (hdb : s'.db = w s.db)
      (htxns : s'.txns = Function.update s.txns t (.committed op now r))

omit [DecidableEq κ] in
private theorem Moved.ofSet {t : τ} {f : Fate σ κ ο θ ε ρ} (hdb : s'.db = s.db)
    (htxns : s'.txns = Function.update s.txns t f)
    (hf : ∀ op now r, f ≠ .committed op now r) {g : Fate σ κ ο θ ε ρ}
    (hg : s.txns t = g) (hg' : ∀ op now r, g ≠ .committed op now r)
    (hop : ∀ op, g.op? = some op → f.op? = some op) : Moved s s' t :=
  .quiet hdb f htxns hf (by rw [hg]; exact hg') (by rw [hg]; exact hop)

theorem step_moved {a : Action τ ο θ} (hs : s.step body a = some s') :
    Moved s s' a.txn := by
  cases a with
  | request t op =>
      simp only [step] at hs
      split at hs <;> cases hs
      next ht => exact .ofSet rfl rfl (by simp) ht (by simp) (by simp [Fate.op?])
  | begin t now =>
      simp only [step] at hs
      split at hs <;> cases hs
      next ht => exact .ofSet rfl rfl (by simp) ht (by simp) (by simp [Fate.op?])
  | abort t =>
      simp only [step] at hs
      split at hs <;> cases hs
      · next ht => exact .ofSet rfl rfl (by simp) ht (by simp) (by simp [Fate.op?])
      · next ht => exact .ofSet rfl rfl (by simp) ht (by simp) (by simp [Fate.op?])
  | advance t =>
      simp only [step] at hs
      split at hs
      · next op now w p ht =>
          cases p with
          | pure r => cases hs; exact .commit op now r w ht rfl rfl
          | throw e => cases hs; exact .ofSet rfl rfl (by simp) ht (by simp) (by simp [Fate.op?])
          | read k => cases hs; exact .ofSet rfl rfl (by simp) ht (by simp) (by simp [Fate.op?])
          | write f k => cases hs; exact .ofSet rfl rfl (by simp) ht (by simp) (by simp [Fate.op?])
          | lock key k =>
              simp only [Sys.advance] at hs
              split at hs
              · cases hs; exact .ofSet rfl rfl (by simp) ht (by simp) (by simp [Fate.op?])
              · split at hs <;> cases hs
                exact .ofSet rfl rfl (by simp) ht (by simp) (by simp [Fate.op?])
          | tryLock key k =>
              simp only [Sys.advance] at hs
              split at hs <;> cases hs
              · exact .ofSet rfl rfl (by simp) ht (by simp) (by simp [Fate.op?])
              · exact .ofSet rfl rfl (by simp) ht (by simp) (by simp [Fate.op?])
          | probe key c k =>
              simp only [Sys.advance] at hs
              split at hs
              · split at hs <;> cases hs
                · exact .ofSet rfl rfl (by simp) ht (by simp) (by simp [Fate.op?])
                · exact .ofSet rfl rfl (by simp) ht (by simp) (by simp [Fate.op?])
              · split at hs <;> cases hs
                exact .ofSet rfl rfl (by simp) ht (by simp) (by simp [Fate.op?])
          | fresh k => cases hs; exact .ofSet rfl rfl (by simp) ht (by simp) (by simp [Fate.op?])
      · cases hs

/-- Only an advance commits. -/
theorem step_commits {a : Action τ ο θ} (hs : s.step body a = some s') {op : ο} {now : θ} {r : ρ}
    (h : s'.txns a.txn = .committed op now r) (hold : s.txns a.txn ≠ .committed op now r) :
    a = .advance a.txn := by
  cases a with
  | advance t => rfl
  | request t op =>
      simp only [step] at hs
      split at hs <;> cases hs
      simp [Action.txn] at h
  | begin t now =>
      simp only [step] at hs
      split at hs <;> cases hs
      simp [Action.txn] at h
  | abort t =>
      simp only [step] at hs
      split at hs <;> cases hs <;> simp [Action.txn] at h

omit [DecidableEq κ] in
/-- A transaction keeps the operation it was requested for. -/
theorem Moved.op {t₀ : τ} (h : Moved s s' t₀) {t : τ} {op : ο}
    (ht : (s.txns t).op? = some op) : (s'.txns t).op? = some op := by
  by_cases h₀ : t = t₀
  · subst h₀
    cases h with
    | quiet hdb f htxns hf hs hop => rw [htxns, Function.update_self]; exact hop op ht
    | commit op' now r w hrun hdb htxns =>
        rw [hrun] at ht
        rw [htxns, Function.update_self]
        exact ht
  · cases h with
    | quiet hdb f htxns => rw [htxns, Function.update_of_ne h₀]; exact ht
    | commit op' now r w hrun hdb htxns => rw [htxns, Function.update_of_ne h₀]; exact ht

theorem Steps.op (h : Steps body s s') {t : τ} {op : ο} (ht : (s.txns t).op? = some op) :
    (s'.txns t).op? = some op := by
  induction h with
  | refl => exact ht
  | tail _ hstep ih =>
      obtain ⟨a, ha⟩ := hstep
      exact (step_moved ha).op ih

/-- A request is for a number nobody has used. -/
theorem step_request {t : τ} {op : ο} (hs : s.step body (.request t op) = some s') :
    s.txns t = .absent ∧ s' = s.set t (.requested op) := by
  simp only [step] at hs
  split at hs
  · next ht => exact ⟨ht, (Option.some.inj hs).symm⟩
  · cases hs

/-- Only a request gives a transaction its operation. -/
theorem step_op_back {a : Action τ ο θ} (hs : s.step body a = some s') {t : τ} {op : ο}
    (ht : (s'.txns t).op? = some op) : (s.txns t).op? = some op ∨ a = .request t op := by
  cases hop : (s.txns t).op? with
  | some op' =>
      rw [(step_moved hs).op hop] at ht
      exact .inl ht
  | none =>
      refine .inr ?_
      have habsent := Fate.op?_eq_none.mp hop
      by_cases ha : t = a.txn
      · subst ha
        cases a with
        | request t op' =>
            simp only [step, Action.txn] at hs habsent
            rw [habsent] at hs
            cases hs
            simp only [Action.txn, set_txns, Function.update_self, Fate.op?,
              Option.some.injEq] at ht
            rw [ht]
            rfl
        | begin t now => simp only [step, Action.txn] at hs habsent; simp [habsent] at hs
        | advance t => simp only [step, Action.txn] at hs habsent; simp [habsent] at hs
        | abort t => simp only [step, Action.txn] at hs habsent; simp [habsent] at hs
      · have hsame : s'.txns t = s.txns t := by
          cases step_moved hs with
          | quiet _ _ htxns => rw [htxns, Function.update_of_ne ha]
          | commit _ _ _ _ _ _ htxns => rw [htxns, Function.update_of_ne ha]
        rw [hsame, hop] at ht
        cases ht

/-- A statement leaves a running program its operation and its time. -/
private theorem advance_active {t : τ} {op op' : ο} {now now' : θ} {w w' : σ → σ}
    {p p' : Tx σ κ ε ρ} (hs : s.advance t op now w p = some s')
    (ht : s'.txns t = .active op' now' w' p') : op = op' ∧ now = now' := by
  have hself : ∀ {g : τ → Fate σ κ ο θ ε ρ} {v : σ → σ} {q : Tx σ κ ε ρ},
      Function.update g t (.active op now v q) t = .active op' now' w' p' →
        op = op' ∧ now = now' := by
    intro g v q h
    rw [Function.update_self] at h
    cases h
    exact ⟨rfl, rfl⟩
  cases p <;> simp only [advance] at hs
  case pure => cases hs; simp at ht
  case throw => cases hs; simp at ht
  case lock => split at hs <;> (try split at hs) <;> cases hs <;> exact hself ht
  case tryLock => split at hs <;> cases hs <;> exact hself ht
  case probe => split at hs <;> split at hs <;> cases hs <;> exact hself ht
  all_goals cases hs; exact hself ht

/-- A transaction that runs has run before the step, or the step has begun it and nothing else. -/
theorem step_active_back {a : Action τ ο θ} (hs : s.step body a = some s') {t : τ} {op : ο}
    {now : θ} {w : σ → σ} {p : Tx σ κ ε ρ} (ht : s'.txns t = .active op now w p) :
    (∃ w' p', s.txns t = .active op now w' p') ∨ s.txns t = .requested op ∧ s'.db = s.db := by
  by_cases ha : t = a.txn
  · subst ha
    cases a with
    | request t op' =>
        simp only [step] at hs
        split at hs <;> cases hs
        simp [Action.txn] at ht
    | begin t now' =>
        simp only [step] at hs
        split at hs
        · next op' hreq =>
            cases hs
            simp only [Action.txn, set_txns, Function.update_self] at ht
            cases ht
            exact .inr ⟨hreq, rfl⟩
        · cases hs
    | abort t =>
        simp only [step] at hs
        split at hs <;> cases hs <;> simp [Action.txn] at ht
    | advance t =>
        simp only [step] at hs
        split at hs
        · next op' now' w' p' hrun =>
            obtain ⟨rfl, rfl⟩ := advance_active hs ht
            exact .inl ⟨w', p', hrun⟩
        · cases hs
  · refine .inl ⟨w, p, ?_⟩
    rw [← ht]
    cases step_moved hs with
    | quiet _ _ htxns => rw [htxns, Function.update_of_ne ha]
    | commit _ _ _ _ _ _ htxns => rw [htxns, Function.update_of_ne ha]

/-- A given list of actions asks for what it asks for. -/
theorem run_op_back {as : List (Action τ ο θ)} (hrun : s.run body as = some s') {t : τ} {op : ο}
    (ht : (s'.txns t).op? = some op) : (s.txns t).op? = some op ∨ .request t op ∈ as := by
  induction as generalizing s with
  | nil =>
      cases hrun
      exact .inl ht
  | cons a as ih =>
      rw [run, Option.bind_eq_some_iff] at hrun
      obtain ⟨s₁, h₁, hrun⟩ := hrun
      rcases ih hrun with hop | hmem
      · rcases step_op_back h₁ hop with hop | rfl
        · exact .inl hop
        · exact .inr List.mem_cons_self
      · exact .inr (List.mem_cons_of_mem _ hmem)

/-- Finitely many transactions have been asked for, so that there is always a next one. -/
theorem Steps.exists_absent [Infinite τ] {db : σ} {seq : ℕ}
    (h : Steps body (init db seq) s) : ∃ t, s.txns t = .absent := by
  have hfinite : {t | s.txns t ≠ .absent}.Finite := by
    induction h with
    | refl => exact Set.finite_empty.subset fun t ht => ht rfl
    | tail _ hstep ih =>
        obtain ⟨a, ha⟩ := hstep
        refine (ih.insert a.txn).subset fun t ht => ?_
        by_cases hat : t = a.txn
        · exact .inl hat
        · refine .inr fun habsent => ht ?_
          cases step_moved ha with
          | quiet _ _ htxns => rw [htxns, Function.update_of_ne hat, habsent]
          | commit _ _ _ _ _ _ htxns => rw [htxns, Function.update_of_ne hat, habsent]
  obtain ⟨t, ht⟩ := hfinite.exists_notMem
  exact ⟨t, not_not.mp ht⟩

/-- **The transaction that moved**: its program still ensures what it ensured, from
where it now stands, or it has ended in a result that satisfies the postcondition. -/
inductive Advanced (R : Interference σ κ) (Q : Except ε ρ → View σ κ → Prop)
    (s s' : Sys τ σ κ ο θ ε ρ) (t : τ) (op : ο) (now : θ) (w : σ → σ) : Prop
  | runs (w' : σ → σ) (p' : Tx σ κ ε ρ) (htxns : s'.txns t = .active op now w' p')
      (h : p'.Ensures R Q (s'.view t w'))
  | commits (r : ρ) (htxns : s'.txns t = .committed op now r) (hdb : s'.db = w s.db)
      (h : Q (.ok r) (s.view t w)) (hheld : s'.heldBy t = ∅)
  | raises (e : ε) (htxns : s'.txns t = .rolledBack op now e)
      (h : Q (.error e) (s.view t w)) (hheld : s'.heldBy t = ∅)

omit [DecidableEq κ] in
theorem drop_heldBy_self (s : Sys τ σ κ ο θ ε ρ) (t : τ) :
    (s.drop t).heldBy t = ∅ := by
  ext r
  simp only [heldBy, Set.mem_ofPred_eq, drop_locks_iff, Set.mem_empty_iff_false, iff_false]
  exact fun h => h.2 rfl

omit [DecidableEq τ] [DecidableEq κ] in
private theorem hold_held {t : τ} {w : σ → σ} {r : Resource κ} (h : s.locks r = some t) :
    (s.view t w).hold r = s.view t w := by
  have : r ∈ s.heldBy t := h
  simp [View.hold, view, Set.insert_eq_of_mem this]

theorem advance_ensures {R : Interference σ κ} {Q : Except ε ρ → View σ κ → Prop}
    {t : τ} {op : ο} {now : θ} {w : σ → σ} {p : Tx σ κ ε ρ}
    (hp : p.Ensures R Q (s.view t w)) (hs : s.advance t op now w p = some s') :
    Advanced R Q s s' t op now w := by
  have hself : ∀ (g : τ → Fate σ κ ο θ ε ρ) f, Function.update g t f t = f :=
    fun g f => Function.update_self ..
  cases p with
  | pure r => cases hs; exact .commits r (hself ..) rfl (hp _ (.refl R _)) (drop_heldBy_self s t)
  | throw e => cases hs; exact .raises e (hself ..) (hp _ (.refl R _)) (drop_heldBy_self s t)
  | read k => cases hs; exact .runs _ _ (hself ..) (hp _ (.refl R _))
  | write f k => cases hs; exact .runs _ _ (hself ..) (hp _ (.refl R _))
  | lock key k =>
      have hnext := hp _ (.refl R _)
      simp only [advance] at hs
      split at hs
      · cases hs
        refine .runs _ _ (hself ..) ?_
        -- what the program is promised is what the state shows once the lock is taken
        have hview : (s.view t w).hold (.key key) = (s.take t (.key key)).view t w := by
          simp [View.hold, view, take_heldBy_self]
        rwa [hview] at hnext
      · -- the lock has a holder: the transaction goes on only if it is the one
        next t' hheld =>
          split at hs
          · next ht =>
              subst ht
              cases hs
              rw [hold_held hheld] at hnext
              exact .runs _ _ (hself ..) hnext
          · cases hs
  | tryLock key k =>
      obtain ⟨hgot, hbusy⟩ := hp _ (.refl R _)
      simp only [advance] at hs
      split at hs
      · cases hs
        refine .runs _ _ (hself ..) ?_
        have hview : (s.view t w).hold (.key key) = (s.take t (.key key)).view t w := by
          simp [View.hold, view, take_heldBy_self]
        rwa [hview] at hgot
      · next t' hheld =>
          cases hs
          refine .runs _ _ (hself ..) ?_
          by_cases ht : t' = t
          · subst ht
            rw [hold_held hheld] at hgot
            rw [decide_eq_true rfl]
            exact hgot
          · rw [decide_eq_false ht]
            exact hbusy
  | probe key c k =>
      obtain ⟨hgot, hnot⟩ := hp _ (.refl R _)
      have hview : (s.view t w).hold (.key key) = (s.take t (.key key)).view t w := by
        simp [View.hold, view, take_heldBy_self]
      simp only [advance] at hs
      split at hs
      · split at hs <;> cases hs
        · next hc => exact .runs _ _ (hself ..) (hview ▸ hgot hc)
        · next hc => exact .runs _ _ (hself ..) (hnot (Bool.eq_false_iff.mpr hc))
      · next t' hheld =>
          split at hs <;> cases hs
          next ht =>
          subst ht
          rw [hold_held hheld] at hgot
          refine .runs _ _ (hself ..) ?_
          cases hc : c (w s.db) with
          | true => exact hgot hc
          | false => exact hnot hc
  -- a number that is drawn counts among what the transaction holds
  | fresh k =>
      cases hs
      refine .runs _ _ (hself ..) ?_
      have hview : (s.view t w).draw =
          { (s.take t (.serial s.seq)).view t w with seq := s.seq + 1 } := by
        simp [View.draw, view, take_heldBy_self]
      have hnext := hp _ (.refl R _)
      rwa [hview] at hnext

theorem step_seq {a : Action τ ο θ} (hs : s.step body a = some s') : s.seq ≤ s'.seq := by
  cases a with
  | request t op => simp only [step] at hs; split at hs <;> cases hs; exact le_rfl
  | begin t now => simp only [step] at hs; split at hs <;> cases hs; exact le_rfl
  | abort t => simp only [step] at hs; split at hs <;> cases hs <;> exact le_rfl
  | advance t =>
      simp only [step] at hs
      split at hs
      · next op now w p _ =>
          cases p <;> simp only [advance] at hs
          case lock => split at hs <;> (try split at hs) <;> cases hs <;> exact le_rfl
          case tryLock => split at hs <;> cases hs <;> exact le_rfl
          case probe => split at hs <;> split at hs <;> cases hs <;> exact le_rfl
          case fresh => cases hs; exact Nat.le_succ _
          all_goals cases hs; exact le_rfl
      · cases hs

/-- The number has been drawn, and whoever drew it has ended. -/
def Retired (s : Sys τ σ κ ο θ ε ρ) (n : ℕ) : Prop := n < s.seq ∧ s.locks (.serial n) = none

/-- Nobody holds a retired number again. -/
theorem step_retired {a : Action τ ο θ} (hs : s.step body a = some s') {n : ℕ}
    (h : s.Retired n) : s'.Retired n := by
  refine ⟨h.1.trans_le (step_seq hs), ?_⟩
  have hdrop : ∀ t, (s.drop t).locks (.serial n) = none := fun t => by simp [drop, h.2]
  cases a with
  | request t op => simp only [step] at hs; split at hs <;> cases hs; exact h.2
  | begin t now => simp only [step] at hs; split at hs <;> cases hs; exact h.2
  | abort t =>
      simp only [step] at hs
      split at hs <;> cases hs
      · exact h.2
      · exact hdrop t
  | advance t =>
      simp only [step] at hs
      split at hs
      · next op now w p _ =>
          cases p <;> simp only [advance] at hs
          case pure => cases hs; exact hdrop t
          case throw => cases hs; exact hdrop t
          case lock => split at hs <;> (try split at hs) <;> cases hs <;> simp [h.2]
          case tryLock => split at hs <;> cases hs <;> simp [h.2]
          case probe => split at hs <;> split at hs <;> cases hs <;> simp [h.2]
          case fresh =>
            cases hs
            have hne : n ≠ s.seq := h.1.ne
            simp [h.2, hne]
          all_goals cases hs; exact h.2
      · cases hs

theorem steps_retired (hs : Steps body s s') {n : ℕ} (h : s.Retired n) : s'.Retired n := by
  induction hs with
  | refl => exact h
  | tail _ hstep ih =>
      obtain ⟨a, ha⟩ := hstep
      exact step_retired ha ih

/-- The numbers a transaction holds retire with its commit. -/
theorem retires {a : Action τ ο θ} (hU : s.Undrawn) (hs : s.step body a = some s') {op : ο}
    {now : θ} {w : σ → σ} {r : ρ} (ht : s.txns a.txn = .active op now w (.pure r)) {n : ℕ}
    (hn : .serial n ∈ s.heldBy a.txn) (hcommit : s'.txns a.txn = .committed op now r) :
    s'.Retired n := by
  cases a with
  | request t op' => simp only [step, Action.txn] at hs ht; simp [ht] at hs
  | begin t now' => simp only [step, Action.txn] at hs ht; simp [ht] at hs
  | abort t =>
      simp only [step, Action.txn] at hs ht
      rw [ht] at hs
      cases hs
      simp [Action.txn] at hcommit
  | advance t =>
      simp only [step, Action.txn] at hs ht hn
      rw [ht] at hs
      cases hs
      refine ⟨?_, if_pos hn⟩
      by_contra hle
      have hnone := hU n (not_lt.mp hle)
      simp [heldBy, hnone] at hn

end Inversion

end Sys

end ReadCommitted
