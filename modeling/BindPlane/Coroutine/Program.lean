import Mathlib.Data.List.Basic

/-!
# Coroutines and their journal

A coroutine is a sequential program that suspends on calls `q : Q` and resumes with a result
`R q` or an exception, as one of an event loop, or the body of a thread, does.
What answers a call is not part of the program: it may be anything, at any time, or nothing
at all.

* `Prog` is the syntax, with the two constructs a fault travels through:
  `try … except` (`Prog.tryCatch`) and `try … finally` (`Prog.andFinally`).
* The *journal* of a program lists, newest first, the calls it has made and the answers it
  got.  A call enters the journal before its answer, so that a program which is paused
  or dies inside a call has made it.
* `Prog.Safe G H` is the program logic: whatever the answers, every call is one that the
  guard `G` allows behind the journal so far, and the program ends as `H` says.

Safety is stated over journals and not over states, because a program of this kind has no state of
its own that others could see: what it has asked and heard is all there is to it.  A guard on calls
is then a guard on journals, and two facts about one program are combined by speaking of the same
journal.
-/

namespace Coroutine

universe u v w x

variable {Q : Type u} {R : Q → Type v} {ε : Type w} {α β : Type x}

/-- A program with result `α` and exceptions `ε` that makes calls `q : Q`.

A program says only what it asks and how it goes on; who answers is left open, and so the same
program can be run against a store, against a device that lies, or against nobody.  A fault is an
answer like any other, which is why `tryCatch` and `andFinally` are functions on programs and not
nodes of the tree. -/
inductive Prog (R : Q → Type v) (ε : Type w) (α : Type x) : Type (max u v w x)
  /-- Return. -/
  | pure (a : α)
  /-- Raise. -/
  | throw (e : ε)
  /-- Call, and go on from the answer. -/
  | call (q : Q) (k : Except ε (R q) → Prog R ε α)

/-- An entry of a journal. -/
inductive Event (R : Q → Type v) (ε : Type w) : Type (max u v w)
  | called (q : Q)
  | returned (q : Q) (r : Except ε (R q))

namespace Prog

/-- Sequential composition. -/
def bind : Prog R ε α → (α → Prog R ε β) → Prog R ε β
  | pure a, g => g a
  | throw e, _ => throw e
  | call q k, g => call q fun r => (k r).bind g

instance : Monad (Prog R ε) where
  pure := Prog.pure
  bind := Prog.bind

/-- `try p except Exception as e: f e`. -/
def tryCatch : Prog R ε α → (ε → Prog R ε α) → Prog R ε α
  | pure a, _ => pure a
  | throw e, f => f e
  | call q k, f => call q fun r => (k r).tryCatch f

/-- `try p finally f`: whichever way `p` ends, unless `f` raises. -/
def andFinally : Prog R ε α → Prog R ε PUnit → Prog R ε α
  | pure a, f => f.bind fun _ => pure a
  | throw e, f => f.bind fun _ => throw e
  | call q k, f => call q fun r => (k r).andFinally f

/-- Call, and raise what the call raises. -/
def perform (q : Q) : Prog R ε (R q) :=
  call q fun
    | .ok a => pure a
    | .error e => throw e

/-- Raise. -/
def raise (e : ε) : Prog R ε α := throw e

/-- The value of a computation that may raise. -/
def ofExcept : Except ε α → Prog R ε α
  | .ok a => pure a
  | .error e => throw e

@[simp] theorem pure_eq (a : α) : (Pure.pure a : Prog R ε α) = pure a := rfl

@[simp] theorem bind_eq {α β : Type x} (p : Prog R ε α) (g : α → Prog R ε β) :
    (p >>= g) = p.bind g := rfl

@[simp] theorem pure_bind (a : α) (g : α → Prog R ε β) :
    (pure a : Prog R ε α).bind g = g a := rfl

@[simp] theorem raise_bind (e : ε) (g : α → Prog R ε β) :
    (raise e : Prog R ε α).bind g = raise e := rfl

theorem bind_assoc {α β γ : Type x} (p : Prog R ε α) (g : α → Prog R ε β)
    (g' : β → Prog R ε γ) : (p.bind g).bind g' = p.bind fun a => (g a).bind g' := by
  induction p with
  | pure a => rfl
  | throw e => rfl
  | call q k ih =>
      show call q _ = call q _
      exact congrArg (call q) (funext ih)

theorem bind_pure (p : Prog R ε α) : p.bind pure = p := by
  induction p with
  | pure a => rfl
  | throw e => rfl
  | call q k ih =>
      show call q _ = call q _
      exact congrArg (call q) (funext ih)

/-- **The program logic.**  Behind the journal `h`, every call the program makes is one `G`
allows, and it returns or raises only as `H` says. -/
def Safe (G : List (Event R ε) → Q → Prop) (H : List (Event R ε) → Except ε α → Prop) :
    Prog R ε α → List (Event R ε) → Prop
  | pure a, h => H h (.ok a)
  | throw e, h => H h (.error e)
  | call q k, h => G h q ∧ ∀ r, (k r).Safe G H (.returned q r :: .called q :: h)

variable {G : List (Event R ε) → Q → Prop} {h : List (Event R ε)}

theorem Safe.mono {H H' : List (Event R ε) → Except ε α → Prop} {p : Prog R ε α}
    (hH : ∀ h r, H h r → H' h r) : ∀ {h}, p.Safe G H h → p.Safe G H' h := by
  induction p with
  | pure a => exact fun hp => hH _ _ hp
  | throw e => exact fun hp => hH _ _ hp
  | call q k ih => exact fun hp => ⟨hp.1, fun r => ih r (hp.2 r)⟩

/-- Sequential composition: an exception of the first part ends the whole. -/
theorem Safe.bind {H : List (Event R ε) → Except ε β → Prop} {p : Prog R ε α}
    {g : α → Prog R ε β} :
    ∀ {h}, p.Safe G (fun h r => match r with
        | .ok a => (g a).Safe G H h
        | .error e => H h (.error e)) h →
      (p.bind g).Safe G H h := by
  induction p with
  | pure a => exact fun hp => hp
  | throw e => exact fun hp => hp
  | call q k ih => exact fun hp => ⟨hp.1, fun r => ih r (hp.2 r)⟩

/-- The handler goes on from wherever the body raised. -/
theorem Safe.tryCatch {H : List (Event R ε) → Except ε α → Prop} {p : Prog R ε α}
    {f : ε → Prog R ε α} :
    ∀ {h}, p.Safe G (fun h r => match r with
        | .ok a => H h (.ok a)
        | .error e => (f e).Safe G H h) h →
      (p.tryCatch f).Safe G H h := by
  induction p with
  | pure a => exact fun hp => hp
  | throw e => exact fun hp => hp
  | call q k ih => exact fun hp => ⟨hp.1, fun r => ih r (hp.2 r)⟩

/-- The final part runs from either end of the body, and only its own exception replaces
the body's outcome. -/
theorem Safe.andFinally {H : List (Event R ε) → Except ε α → Prop} {p : Prog R ε α}
    {f : Prog R ε PUnit} :
    ∀ {h}, p.Safe G (fun h r => f.Safe G (fun h' r' => match r' with
        | .ok _ => H h' r
        | .error e => H h' (.error e)) h) h →
      (p.andFinally f).Safe G H h := by
  induction p with
  | pure a =>
      intro h hp
      refine Safe.bind (Safe.mono ?_ hp)
      rintro h' (e | a') hr
      · exact hr
      · exact hr
  | throw e =>
      intro h hp
      refine Safe.bind (Safe.mono ?_ hp)
      rintro h' (e | a') hr
      · exact hr
      · exact hr
  | call q k ih => exact fun hp => ⟨hp.1, fun r => ih r (hp.2 r)⟩

/-- One call and what follows it. -/
theorem Safe.perform_bind {q : Q} {β : Type v} {H : List (Event R ε) → Except ε β → Prop}
    {g : R q → Prog R ε β} (hq : G h q)
    (hok : ∀ a, (g a).Safe G H (.returned q (.ok a) :: .called q :: h))
    (herror : ∀ e, H (.returned q (.error e) :: .called q :: h) (.error e)) :
    ((perform q).bind g).Safe G H h := by
  refine ⟨hq, fun r => ?_⟩
  cases r with
  | ok a => exact hok a
  | error e => exact herror e

/-- A computation that may raise, and what follows it. -/
theorem Safe.ofExcept_bind {H : List (Event R ε) → Except ε β → Prop} {o : Except ε α}
    {g : α → Prog R ε β} (hok : ∀ a, o = .ok a → (g a).Safe G H h)
    (herror : ∀ e, o = .error e → H h (.error e)) :
    ((ofExcept o).bind g).Safe G H h := by
  cases o with
  | ok a => exact hok a rfl
  | error e => exact herror e rfl

end Prog

/-- Every call of the journal was allowed when it was made. -/
def Allowed (G : List (Event R ε) → Q → Prop) : List (Event R ε) → Prop
  | [] => True
  | .called q :: h => G h q ∧ Allowed G h
  | .returned _ _ :: h => Allowed G h

/-- A call in the journal was allowed behind what stood there before it. -/
theorem Allowed.guard {G : List (Event R ε) → Q → Prop} {h : List (Event R ε)}
    (hh : Allowed G h) {q : Q} (hq : .called q ∈ h) : ∃ h₀, .called q :: h₀ <:+ h ∧ G h₀ q := by
  induction h with
  | nil => cases hq
  | cons e h ih =>
      rcases List.mem_cons.mp hq with heq | hq
      · subst heq
        exact ⟨h, List.suffix_rfl, hh.1⟩
      · have hh' : Allowed G h := by
          cases e with
          | called q' => exact hh.2
          | returned q' r => exact hh
        obtain ⟨h₀, hsuf, hG⟩ := ih hh' hq
        exact ⟨h₀, hsuf.trans (List.suffix_cons e h), hG⟩

/-- Of two different calls in the journal, one was made when the other stood there. -/
theorem Allowed.guard_guard {G : List (Event R ε) → Q → Prop} {h : List (Event R ε)}
    (hh : Allowed G h) {q q' : Q} (hq : .called q ∈ h) (hq' : .called q' ∈ h) (hne : q ≠ q') :
    ∃ h₀ h₀', h₀ ⊆ h ∧ h₀' ⊆ h ∧ G h₀ q ∧ G h₀' q' ∧
      (.called q ∈ h₀' ∨ .called q' ∈ h₀) := by
  obtain ⟨h₀, hsuf, hG⟩ := hh.guard hq
  obtain ⟨h₀', hsuf', hG'⟩ := hh.guard hq'
  refine ⟨h₀, h₀', ?_, ?_, hG, hG', ?_⟩
  · exact fun _ hm => hsuf.subset (.tail _ hm)
  · exact fun _ hm => hsuf'.subset (.tail _ hm)
  · rcases List.suffix_or_suffix_of_suffix hsuf hsuf' with hs | hs
    · rcases List.suffix_cons_iff.mp hs with heq | hs
      · exact absurd (Event.called.inj (List.cons.inj heq).1) hne
      · exact .inl (hs.subset (.head _))
    · rcases List.suffix_cons_iff.mp hs with heq | hs
      · exact absurd (Event.called.inj (List.cons.inj heq).1).symm hne
      · exact .inr (hs.subset (.head _))

end Coroutine
