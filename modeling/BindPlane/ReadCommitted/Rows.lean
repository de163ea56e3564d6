import BindPlane.ReadCommitted.Contract
import BindPlane.ReadCommitted.Table

/-!
# Locking reads

The statements with which a transaction reads the rows it is going to write: `SELECT … FOR UPDATE`
of one row by its key or by a condition, of one row after the other, and of those rows that are
free.  Under READ COMMITTED each of them sees the store of its beginning, waits for the lock, and
reads the row once more behind it.

Each has one rule under an arbitrary contract: which lock is held behind it, and what was read
(`Behind`).
-/

namespace ReadCommitted

variable {σ κ ο θ ε ρ τ α β : Type}

namespace Tx

/-- `SELECT … WHERE id=$1 FOR UPDATE`; raise if there is no such row. -/
def selectForUpdate (table : σ → Table τ) (key : ℕ → κ) (e : ε) (id : ℕ) : Tx σ κ ε τ := do
  let s ← Tx.snapshot
  let _ ← Tx.expect ((table s).get? id) e
  Tx.acquire (key id)
  let latest ← Tx.snapshot
  Tx.expect ((table latest).get? id) e

/-- `SELECT … WHERE p FOR UPDATE`, of one row at most.  What `p` reads of other tables it reads when
the statement begins. -/
def findForUpdate (table : σ → Table τ) (key : ℕ → κ) (p : σ → ℕ → τ → Bool) :
    Tx σ κ ε (Option (ℕ × τ)) := do
  let s ← Tx.snapshot
  match (table s).find? (p s) with
  | none => Tx.pure none
  | some (id, _) => do
      Tx.acquire (key id)
      let latest ← Tx.snapshot
      Tx.pure ((((table latest).get? id).filter (p s id)).map fun r => (id, r))

/-- One `SELECT … WHERE id=$1 FOR UPDATE` after the other. -/
def lockAll (table : σ → Table τ) (key : ℕ → κ) (e : ε) : List ℕ → Tx σ κ ε Unit
  | [] => Tx.pure ()
  | id :: ids => do
      let _ ← selectForUpdate table key e id
      lockAll table key e ids

/-- Wait for one lock after the other. -/
def acquireAll (key : α → κ) : List α → Tx σ κ ε Unit
  | [] => Tx.pure ()
  | x :: xs => do
      Tx.acquire (key x)
      acquireAll key xs

/-- `FOR UPDATE SKIP LOCKED LIMIT n`: the rows that are free and, where they have changed since the
statement began, still satisfy its condition. -/
def pickForUpdate [DecidableEq τ] (table : σ → Table τ) (key : ℕ → κ) (p : σ → τ → Bool) :
    List (ℕ × τ) → ℕ → Tx σ κ ε (List (ℕ × τ))
  | _, 0 => Tx.pure []
  | [], _ => Tx.pure []
  | (id, r) :: rest, n + 1 => do
      let got ← Tx.tryAcquire (key id)
      let latest ← Tx.snapshot
      match ((table latest).get? id).filter fun u => got && (u = r || p latest u) with
      | some u => do
          let more ← pickForUpdate table key p rest n
          Tx.pure ((id, u) :: more)
      | none => pickForUpdate table key p rest (n + 1)

/-- The rows that an `UPDATE … WHERE p` or a `DELETE … WHERE p` writes: each of them is waited for
and, where it has changed since the statement began, looked at once more. -/
def collectForUpdate [DecidableEq τ] (table : σ → Table τ) (key : ℕ → κ) (p : σ → τ → Bool) :
    List (ℕ × τ) → Tx σ κ ε (List ℕ)
  | [] => Tx.pure []
  | (id, r) :: rest => do
      Tx.acquire (key id)
      let latest ← Tx.snapshot
      let more ← collectForUpdate table key p rest
      Tx.pure (if ((table latest).get? id).any fun u => u = r || p latest u then id :: more else more)

end Tx

namespace Contract

variable {C : Contract σ κ ο θ ρ} {table : σ → Table τ} {key : ℕ → κ}
  {Q : Except ε β → View σ κ → Prop} {v : View σ κ}

/-- **A row read behind its lock**, at some moment `w` before `v'`.

What has been read behind a lock is still so at the commit, but only for the row: the rest of the
store has moved on.  `w` is the moment of the reading; `after` allows the others anything since then
that does not need the lock. -/
structure Behind (C : Contract σ κ ο θ ρ) (table : σ → Table τ) (key : ℕ → κ)
    (v' : View σ κ) (id : ℕ) (r : τ) (w : View σ κ) : Prop where
  good : C.Good w
  after : C.Later w v'
  held : .key (key id) ∈ w.held
  row : (table w.snapshot).get? id = some r

theorem Behind.later {v' v'' w : View σ κ} {id : ℕ} {r : τ}
    (h : C.Behind table key v' id r w) (hl : C.Later v' v'') : C.Behind table key v'' id r w :=
  ⟨h.good, h.after.trans hl, h.held, h.row⟩

theorem Good.selectForUpdate (hv : C.Good v) {id : ℕ} {e : ε} {g : τ → Tx σ κ ε β}
    (he : ∀ v', C.Later v v' → Q (.error e) v')
    (h : ∀ r v', C.Later v v' → C.Good v' → .key (key id) ∈ v'.held →
      (table v'.snapshot).get? id = some r → (g r).Ensures C.interference Q v') :
    ((Tx.selectForUpdate table key e id).bind g).Ensures C.interference Q v := by
  simp only [Tx.selectForUpdate, Tx.bind_eq, Tx.bind_assoc]
  refine hv.snapshot fun v₁ h₁ hv₁ => ?_
  refine Tx.Ensures.expect_bind (fun _ _ => ?_) fun _ v₂ hm => he _ ?_
  · refine hv₁.acquire fun v₂ h₂ hv₂ hkey => hv₂.snapshot fun v₃ h₃ hv₃ => ?_
    have hl := (h₁.trans h₂).trans h₃
    refine Tx.Ensures.expect_bind (fun r hr => ?_) fun _ v₄ hm => he _ ?_
    · exact h r v₃ hl hv₃ (h₃.held hkey) hr
    · exact hl.trans ⟨⟨hm.rel, hm.held.symm.subset⟩, hm.pending⟩
  · exact h₁.trans ⟨⟨hm.rel, hm.held.symm.subset⟩, hm.pending⟩

/-- What a search for a row has found, whether or not the row is still there behind its lock. -/
theorem Good.findForUpdate_rec (hv : C.Good v) {p : σ → ℕ → τ → Bool}
    {g : Option (ℕ × τ) → Tx σ κ ε β}
    (hnone : ∀ v', C.Later v v' → C.Good v' → (table v'.snapshot).find? (p v'.snapshot) = none →
      (g none).Ensures C.interference Q v')
    (hlost : ∀ id r w v', C.Later v w → C.Good w → C.Later w v' → C.Good v' →
      .key (key id) ∈ v'.held → (table w.snapshot).find? (p w.snapshot) = some (id, r) →
      ((table v'.snapshot).get? id).filter (p w.snapshot id) = none →
      (g none).Ensures C.interference Q v')
    (hsome : ∀ id r w v', C.Later v w → C.Good w → C.Later w v' → C.Good v' →
      .key (key id) ∈ v'.held → (table v'.snapshot).get? id = some r → p w.snapshot id r = true →
      (g (some (id, r))).Ensures C.interference Q v') :
    ((Tx.findForUpdate table key p).bind g).Ensures C.interference Q v := by
  simp only [Tx.findForUpdate, Tx.bind_eq, Tx.bind_assoc]
  refine hv.snapshot fun v₁ h₁ hv₁ => ?_
  split
  · next hnothing => exact hnone v₁ h₁ hv₁ hnothing
  · next id r hfound =>
      simp only [Tx.bind_assoc]
      refine hv₁.acquire fun v₂ h₂ hv₂ hkey => hv₂.snapshot fun v₃ h₃ hv₃ => ?_
      rw [Tx.pure_bind]
      cases hrow : ((table v₃.snapshot).get? id).filter (p v₁.snapshot id) with
      | none => exact hlost id r v₁ v₃ h₁ hv₁ (h₂.trans h₃) hv₃ (h₃.held hkey) hfound hrow
      | some r' =>
          obtain ⟨hr', hp⟩ := Option.filter_eq_some_iff.mp hrow
          exact hsome id r' v₁ v₃ h₁ hv₁ (h₂.trans h₃) hv₃ (h₃.held hkey) hr' hp

theorem Good.findForUpdate (hv : C.Good v) {p : σ → ℕ → τ → Bool}
    {g : Option (ℕ × τ) → Tx σ κ ε β}
    (hnone : ∀ v', C.Later v v' → C.Good v' → (g none).Ensures C.interference Q v')
    (hsome : ∀ id r w v', C.Later v w → C.Good w → C.Later w v' → C.Good v' →
      .key (key id) ∈ v'.held → (table v'.snapshot).get? id = some r → p w.snapshot id r = true →
      (g (some (id, r))).Ensures C.interference Q v') :
    ((Tx.findForUpdate table key p).bind g).Ensures C.interference Q v :=
  hv.findForUpdate_rec (fun v' hl hv' _ => hnone v' hl hv')
    (fun _ _ _ v' hw _ hl hv' _ _ _ => hnone v' (hw.trans hl) hv') hsome

theorem Good.lockAll {e : ε} {ids : List ℕ} {g : Unit → Tx σ κ ε β} (hv : C.Good v)
    (he : ∀ v', C.Later v v' → Q (.error e) v')
    (h : ∀ v', C.Later v v' → C.Good v' →
      (∀ id ∈ ids, ∃ r w, C.Later v w ∧ C.Behind table key v' id r w) →
      (g ()).Ensures C.interference Q v') :
    ((Tx.lockAll table key e ids).bind g).Ensures C.interference Q v := by
  induction ids generalizing v with
  | nil => exact h v (Later.refl v) hv nofun
  | cons id ids ih =>
      simp only [Tx.lockAll, Tx.bind_eq, Tx.bind_assoc]
      refine hv.selectForUpdate he fun r v₁ h₁ hv₁ hkey hr => ?_
      refine ih hv₁ (fun v' hl => he v' (h₁.trans hl)) fun v₂ h₂ hv₂ hall => ?_
      refine h v₂ (h₁.trans h₂) hv₂ fun i hi => ?_
      rcases List.mem_cons.mp hi with rfl | hi
      · exact ⟨r, v₁, h₁, hv₁, h₂, hkey, hr⟩
      · obtain ⟨r, w, hw, hb⟩ := hall i hi
        exact ⟨r, w, h₁.trans hw, hb⟩

theorem Good.acquireAll {key : α → κ} {xs : List α} {g : Unit → Tx σ κ ε β} (hv : C.Good v)
    (h : ∀ v', C.Later v v' → C.Good v' → (∀ x ∈ xs, .key (key x) ∈ v'.held) →
      (g ()).Ensures C.interference Q v') :
    ((Tx.acquireAll key xs).bind g).Ensures C.interference Q v := by
  induction xs generalizing v with
  | nil => exact h v (Later.refl v) hv nofun
  | cons x xs ih =>
      simp only [Tx.acquireAll, Tx.bind_eq, Tx.bind_assoc]
      refine hv.acquire fun v₁ h₁ hv₁ hkey => ih hv₁ fun v₂ h₂ hv₂ hall => ?_
      refine h v₂ (h₁.trans h₂) hv₂ fun y hy => ?_
      rcases List.mem_cons.mp hy with rfl | hy
      · exact h₂.held hkey
      · exact hall y hy

theorem Good.pickForUpdate [DecidableEq τ] {p : σ → τ → Bool} {rows : List (ℕ × τ)} {n : ℕ}
    {g : List (ℕ × τ) → Tx σ κ ε β} (hv : C.Good v)
    (h : ∀ picked v', C.Later v v' → C.Good v' →
      (∀ x ∈ picked, ∃ w, C.Later v w ∧ C.Behind table key v' x.1 x.2 w ∧
        (x ∈ rows ∨ p w.snapshot x.2 = true)) →
      (g picked).Ensures C.interference Q v') :
    ((Tx.pickForUpdate table key p rows n).bind g).Ensures C.interference Q v := by
  induction rows generalizing n g v with
  | nil => cases n <;> exact h [] v (Later.refl v) hv nofun
  | cons x rows ih =>
      obtain ⟨id, r⟩ := x
      cases n with
      | zero => exact h [] v (Later.refl v) hv nofun
      | succ n =>
          -- a row that is passed over leaves those behind it
          have hskip : ∀ v₂, C.Later v v₂ → C.Good v₂ →
              ((Tx.pickForUpdate table key p rows (n + 1)).bind g).Ensures C.interference Q
                v₂ := by
            intro v₂ hl hv₂
            refine ih hv₂ fun picked v₃ h₃ hv₃ hpicked => ?_
            refine h picked v₃ (hl.trans h₃) hv₃ fun x hx => ?_
            obtain ⟨w, hw, hb, hp⟩ := hpicked x hx
            exact ⟨w, hl.trans hw, hb, hp.imp_left (List.mem_cons_of_mem _)⟩
          simp only [Tx.pickForUpdate, Tx.bind_eq, Tx.bind_assoc]
          refine hv.tryAcquire (fun v₁ h₁ hv₁ hkey => ?_) fun v₁ h₁ hv₁ => ?_
          · refine hv₁.snapshot fun v₂ h₂ hv₂ => ?_
            have hl := h₁.trans h₂
            split
            · next u hu =>
                obtain ⟨hu, hc⟩ := Option.filter_eq_some_iff.mp hu
                rw [Tx.bind_assoc]
                refine ih hv₂ fun picked v₃ h₃ hv₃ hpicked => ?_
                rw [Tx.pure_bind]
                refine h _ v₃ (hl.trans h₃) hv₃ fun x hx => ?_
                rcases List.mem_cons.mp hx with rfl | hx
                · refine ⟨v₂, hl, ⟨hv₂, h₃, h₂.held hkey, hu⟩, ?_⟩
                  rw [Bool.true_and, Bool.or_eq_true, decide_eq_true_eq] at hc
                  refine hc.imp_left fun heq => ?_
                  rw [heq]
                  exact List.mem_cons_self
                · obtain ⟨w, hw, hb, hp⟩ := hpicked x hx
                  exact ⟨w, hl.trans hw, hb, hp.imp_left (List.mem_cons_of_mem _)⟩
            · exact hskip v₂ hl hv₂
          · refine hv₁.snapshot fun v₂ h₂ hv₂ => ?_
            split
            · next u hu => cases (Option.filter_eq_some_iff.mp hu).2
            · exact hskip v₂ (h₁.trans h₂) hv₂

/-- The rows that a statement is going to write are locked and still there, and each of them was a
candidate or satisfies the condition behind its lock. -/
theorem Good.collectForUpdate [DecidableEq τ] {p : σ → τ → Bool} {rows : List (ℕ × τ)}
    {g : List ℕ → Tx σ κ ε β} (hv : C.Good v)
    (h : ∀ ids v', C.Later v v' → C.Good v' →
      (∀ id ∈ ids, ∃ u w, C.Later v w ∧ C.Behind table key v' id u w ∧
        ((id, u) ∈ rows ∨ p w.snapshot u = true)) →
      (g ids).Ensures C.interference Q v') :
    ((Tx.collectForUpdate table key p rows).bind g).Ensures C.interference Q v := by
  induction rows generalizing g v with
  | nil => exact h [] v (Later.refl v) hv nofun
  | cons x rows ih =>
      obtain ⟨id, r⟩ := x
      simp only [Tx.collectForUpdate, Tx.bind_eq, Tx.bind_assoc]
      refine hv.acquire fun v₁ h₁ hv₁ hkey => hv₁.snapshot fun v₂ h₂ hv₂ => ?_
      refine ih hv₂ fun ids v₃ h₃ hv₃ hids => ?_
      have hl := h₁.trans h₂
      have hrest : ∀ i ∈ ids, ∃ u w, C.Later v w ∧ C.Behind table key v₃ i u w ∧
          ((i, u) ∈ (id, r) :: rows ∨ p w.snapshot u = true) := by
        intro i hi
        obtain ⟨u, w, hw, hb, hp⟩ := hids i hi
        exact ⟨u, w, hl.trans hw, hb, hp.imp_left (List.mem_cons_of_mem _)⟩
      rw [Tx.pure_bind]
      split_ifs with hc
      · refine h _ v₃ (hl.trans h₃) hv₃ fun i hi => ?_
        rcases List.mem_cons.mp hi with rfl | hi
        · obtain ⟨u, hu, hc⟩ := (Option.any_eq_true _ _).mp hc
          rw [Bool.or_eq_true, decide_eq_true_eq] at hc
          refine ⟨u, v₂, hl, ⟨hv₂, h₃, h₂.held hkey, hu⟩, hc.imp_left fun heq => ?_⟩
          rw [heq]
          exact List.mem_cons_self
        · exact hrest i hi
      · exact h ids v₃ (hl.trans h₃) hv₃ hrest

end Contract

end ReadCommitted
