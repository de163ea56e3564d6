import BindPlane.Coroutine.Program

/-!
# Coroutines over a shared state

Any number of coroutines run beside each other over a state that they share.  A call is atomic,
and between two calls of one coroutine the others make any number of theirs.

* `React` says what a call does to the state and what answers it.  It may depend on a choice `c`
  of the world (a fault, a fresh value), on the number of the process and on the argument the
  process was started with.
* `Pool` is a state with its processes; `Pool.run` takes a list of steps.  A process that is
  never moved again has died.
* `Rules` fixes an invariant and what a process may do to the state; `Prog.Keeps` is the program
  logic for one process under it.  `Pool.Sound` follows all of them: the invariant holds in
  every state that a run reaches, and whatever a program was shown to leave behind is there when
  it has ended (`Pool.Sound.run`).
-/

namespace Coroutine

universe u v

variable {Q : Type u} {R : Q → Type v} {ε α β : Type v} {S A C : Type v}

/-- Call, and go on from the answer, whichever it is. -/
def Prog.attempt (q : Q) : Prog R ε (Except ε (R q)) := .call q .pure

/-- What a call of process `i`, started with `a`, does to the state, and its answer.  `none`
where the choice does not apply. -/
abbrev React (S A C : Type v) (R : Q → Type v) (ε : Type v) :=
  S → ℕ → A → (q : Q) → C → Option (S × Except ε (R q))

/-- The invariant of the state, what process `i` may do to it, and what it may rely on.

`moves` and `rely` are two views of one thing: what a process may do is what the others have to put
up with (`rely_of_moves`).  The index of the process stays in both, since what a process owns, a row
that it has inserted or a lock, is known by its number. -/
structure Rules (S A : Type v) where
  inv : S → Prop
  moves : ℕ → S → S → Prop
  rely : ℕ → S → S → Prop
  /-- Process `i` has left no trace. -/
  fresh : ℕ → S → Prop
  rely_refl : ∀ i s, rely i s s
  rely_trans : ∀ {i s s' s''}, rely i s s' → rely i s' s'' → rely i s s''
  rely_of_moves : ∀ {i j s s'}, i ≠ j → moves j s s' → rely i s s'
  fresh_of_moves : ∀ {i j s s'}, i ≠ j → moves j s s' → fresh i s → fresh i s'

variable (react : React S A C R ε) (rules : Rules S A)

/-! ## One process -/

namespace Prog

/-- **The program logic.**  Wherever the others have taken the state, every call of process `i`
keeps the invariant and is a move it may make, and the program ends as `post` says. -/
def Keeps (i : ℕ) (a : A) (post : Except ε α → S → Prop) : Prog R ε α → S → Prop
  | pure x, s => post (.ok x) s
  | throw e, s => post (.error e) s
  | call q k, s => ∀ s', rules.rely i s s' → rules.inv s' →
      ∀ c s'' r, react s' i a q c = some (s'', r) →
        rules.inv s'' ∧ rules.moves i s' s'' ∧ (k r).Keeps i a post s''

variable {react rules} {i : ℕ} {a : A} {s s' : S}

theorem Keeps.mono {post post' : Except ε α → S → Prop} (h : ∀ r s, post r s → post' r s)
    {p : Prog R ε α} : ∀ {s}, p.Keeps react rules i a post s → p.Keeps react rules i a post' s := by
  induction p with
  | pure x => exact h _ _
  | throw e => exact h _ _
  | call q k ih =>
      intro s hp s' hrely hinv c s'' r hreact
      obtain ⟨hinv', hmoves, hk⟩ := hp s' hrely hinv c s'' r hreact
      exact ⟨hinv', hmoves, ih r hk⟩

/-- Sequential composition: an exception of the first part ends the whole. -/
theorem Keeps.bind {post : Except ε β → S → Prop} {g : α → Prog R ε β} {p : Prog R ε α} :
    ∀ {s}, p.Keeps react rules i a (fun r s => match r with
        | .ok x => (g x).Keeps react rules i a post s
        | .error e => post (.error e) s) s →
      (p.bind g).Keeps react rules i a post s := by
  induction p with
  | pure x => exact fun hp => hp
  | throw e => exact fun hp => hp
  | call q k ih =>
      intro s hp s' hrely hinv c s'' r hreact
      obtain ⟨hinv', hmoves, hk⟩ := hp s' hrely hinv c s'' r hreact
      exact ⟨hinv', hmoves, ih r hk⟩

/-- What the others do does not hurt, if it does not hurt the end. -/
theorem Keeps.relied {post : Except ε α → S → Prop} (hrely : rules.rely i s s')
    (hpost : ∀ r, post r s → post r s') {p : Prog R ε α}
    (h : p.Keeps react rules i a post s) : p.Keeps react rules i a post s' := by
  cases p with
  | pure x => exact hpost _ h
  | throw e => exact hpost _ h
  | call q k => exact fun t ht => h t (rules.rely_trans hrely ht)

end Prog

/-! ## Pools of processes -/

/-- A state with the processes over it: what each was started with, and what is left of it. -/
structure Pool (S A : Type v) (R : Q → Type v) (ε α : Type v) where
  shared : S
  procs : List (A × Prog R ε α)

/-- One step of a pool. -/
inductive Act (A C : Type v)
  /-- A process starts. -/
  | spawn (a : A)
  /-- Process `i` makes its call. -/
  | move (i : ℕ) (c : C)

namespace Pool

variable (body : A → Prog R ε α)

/-- One step. -/
def step (p : Pool S A R ε α) : Act A C → Option (Pool S A R ε α)
  | .spawn a => some { p with procs := p.procs ++ [(a, body a)] }
  | .move i c =>
      match p.procs[i]? with
      | some (a, .call q k) =>
          (react p.shared i a q c).map fun (s, r) => ⟨s, p.procs.set i (a, k r)⟩
      | _ => none

/-- A list of steps. -/
def run : Pool S A R ε α → List (Act A C) → Option (Pool S A R ε α)
  | p, [] => some p
  | p, act :: acts => (p.step react body act).bind fun p => p.run acts

variable {react rules body} {post : ℕ → A → Except ε α → S → Prop} {p p' : Pool S A R ε α}

variable (react rules post) in
/-- The invariant holds, and all processes keep their rules.

This is kept by every step of a pool.  A process that has not started has left nothing behind, and
one that has started still keeps its rules from where it stands, so that its next call is one that
the others can bear. -/
structure Sound (p : Pool S A R ε α) : Prop where
  inv : rules.inv p.shared
  fresh : ∀ i, p.procs.length ≤ i → rules.fresh i p.shared
  keeps : ∀ {i : ℕ} {a : A} {prog : Prog R ε α}, p.procs[i]? = some (a, prog) →
    prog.Keeps react rules i a (post i a) p.shared

/-- A move of one process is relied upon by all the others. -/
theorem Sound.step {act : Act A C} (h : Sound react rules post p)
    (hbody : ∀ i a s, rules.inv s → rules.fresh i s → (body a).Keeps react rules i a (post i a) s)
    (hpost : ∀ i a r s s', rules.rely i s s' → post i a r s → post i a r s')
    (hstep : p.step react body act = some p') : Sound react rules post p' := by
  cases act with
  | spawn a =>
      obtain rfl := Option.some.inj hstep
      refine ⟨h.inv, fun i hi => h.fresh i (by simp at hi; omega), fun {i b prog} hi => ?_⟩
      obtain hlt | rfl | hgt := Nat.lt_trichotomy i p.procs.length
      · exact h.keeps (by rwa [List.getElem?_append_left hlt] at hi)
      · rw [List.getElem?_concat_length] at hi
        obtain ⟨rfl, rfl⟩ := Prod.mk.inj (Option.some.inj hi)
        exact hbody _ _ _ h.inv (h.fresh _ (Nat.le_refl _))
      · have hnone : (p.procs ++ [(a, body a)])[i]? = none :=
          List.getElem?_eq_none (by simp; omega)
        cases hnone.symm.trans hi
  | move i c =>
      simp only [Pool.step] at hstep
      split at hstep
      next a q k hproc =>
        obtain ⟨⟨s, r⟩, hreact, rfl⟩ := Option.map_eq_some_iff.mp hstep
        obtain ⟨hinv, hmoves, hk⟩ :=
          h.keeps hproc p.shared (rules.rely_refl i _) h.inv c s r hreact
        have hi : i < p.procs.length := (List.getElem?_eq_some_iff.mp hproc).1
        refine ⟨hinv, fun j hj => ?_, fun {j b prog} hj => ?_⟩
        · rw [List.length_set] at hj
          exact rules.fresh_of_moves (by omega) hmoves (h.fresh j hj)
        · by_cases hij : i = j
          · subst hij
            rw [List.getElem?_set_self hi] at hj
            obtain ⟨rfl, rfl⟩ := Prod.mk.inj (Option.some.inj hj)
            exact hk
          · rw [List.getElem?_set_ne hij] at hj
            have hrely := rules.rely_of_moves (Ne.symm hij) hmoves
            exact (h.keeps hj).relied hrely fun r => hpost j b r _ _ hrely
      next => cases hstep

/-- **Soundness.**  A run keeps the invariant and the rules of all processes.

The list of steps is arbitrary, and so are the choices of the world in them.  That one process stops
for ever is the special case in which it has no further steps. -/
theorem Sound.run {acts : List (Act A C)}
    (hbody : ∀ i a s, rules.inv s → rules.fresh i s → (body a).Keeps react rules i a (post i a) s)
    (hpost : ∀ i a r s s', rules.rely i s s' → post i a r s → post i a r s') :
    ∀ {p : Pool S A R ε α}, Sound react rules post p → p.run react body acts = some p' →
      Sound react rules post p' := by
  induction acts with
  | nil =>
      intro p h hrun
      exact Option.some.inj hrun ▸ h
  | cons act acts ih =>
      intro p h hrun
      obtain ⟨q, hstep, hrun⟩ := Option.bind_eq_some_iff.mp hrun
      exact ih (h.step hbody hpost hstep) hrun

end Pool

end Coroutine
