import Mathlib.Data.Finset.Card
import Mathlib.Data.Finset.SDiff
import Mathlib.Logic.Relation

/-!
# Descending a relation along a path

A descent from a node visits everything below it again and again, once for each way down, and
keeps nothing but the path it came by.  It is *clear* if no node is met that is already on the
path.

**What a clear descent says.**  On a relation with finitely many sources a descent is clear exactly
if no cycle is reachable from its start and nothing reachable is on the path (`clear_iff`).  A node
that is met twice on different ways down is not on the path when it is met again, so it is no
obstacle.

**Why it ends.**  Each step down puts a source on the path that was not on it, so that fewer sources
are off the path (`card_off_insert`).

**Use.**  A program of this shape has no set of visited nodes, and is exponential in the worst case.
What can be said of it is what can be said of the relation: whether it returns depends on cycles
only, and what it returns is what is reachable.
-/

namespace BindPlane.Descent

open Relation

variable {α : Type} [DecidableEq α] {r : α → α → Prop}

/-- No node is below itself. -/
def Acyclic (r : α → α → Prop) : Prop := ∀ a, ¬ TransGen r a a

/-- No way down from a node meets the path to it. -/
inductive Clear (r : α → α → Prop) : Finset α → α → Prop
  | intro {path : Finset α} {a : α} (off : a ∉ path)
      (below : ∀ b, r a b → Clear r (insert a path) b) : Clear r path a

namespace Clear

variable {path : Finset α} {a b x : α}

theorem off (h : Clear r path a) : a ∉ path := by
  obtain ⟨hoff, -⟩ := h
  exact hoff

theorem step (h : Clear r path a) (hab : r a b) : Clear r (insert a path) b := by
  obtain ⟨-, hbelow⟩ := h
  exact hbelow b hab

/-- Nothing reachable is on the path. -/
theorem avoids (h : Clear r path a) (hx : ReflTransGen r a x) : x ∉ path := by
  induction hx using ReflTransGen.head_induction_on generalizing path with
  | refl => exact h.off
  | head hstep _ ih =>
      intro hmem
      exact ih (h.step hstep) (Finset.mem_insert_of_mem hmem)

/-- The start itself is not below it. -/
theorem not_below (h : Clear r path a) : ¬ TransGen r a a := by
  intro hcycle
  obtain ⟨b, hab, hba⟩ := TransGen.head'_iff.mp hcycle
  exact (h.step hab).avoids hba (Finset.mem_insert_self a path)

/-- No cycle is reachable. -/
theorem acyclic (h : Clear r path a) (hx : ReflTransGen r a x) : ¬ TransGen r x x := by
  induction hx using ReflTransGen.head_induction_on generalizing path with
  | refl => exact h.not_below
  | head hstep _ ih => exact ih (h.step hstep)

end Clear

/-! ## The measure -/

/-- A step down leaves one source less off the path. -/
theorem card_off_insert {nodes path : Finset α} {a : α} (hnode : a ∈ nodes) (hoff : a ∉ path) :
    (nodes \ insert a path).card + 1 = (nodes \ path).card := by
  have hmem : a ∈ nodes \ path := Finset.mem_sdiff.mpr ⟨hnode, hoff⟩
  rw [Finset.sdiff_insert]
  exact Finset.card_erase_add_one hmem

/-- **A descent is clear** exactly if no cycle is reachable from its start and nothing reachable is
on the path.

From right to left the induction is on the number of sources that are not on the path: it grows
smaller with every step down, so that a clear descent is also finite. -/
theorem clear_iff {nodes : Finset α} (hnodes : ∀ a b, r a b → a ∈ nodes) {path : Finset α} {a : α} :
    Clear r path a ↔ ∀ x, ReflTransGen r a x → x ∉ path ∧ ¬ TransGen r x x := by
  constructor
  · intro h x hx
    exact ⟨h.avoids hx, h.acyclic hx⟩
  · intro h
    induction hcard : (nodes \ path).card using Nat.strongRecOn generalizing path a with
    | ind card ih =>
        have hoff : a ∉ path := (h a .refl).1
        refine .intro hoff fun b hab => ?_
        have hless := card_off_insert (hnodes a b hab) hoff
        refine ih _ (by omega) (fun x hx => ⟨?_, (h x (hx.head hab)).2⟩) rfl
        intro hmem
        rcases Finset.mem_insert.mp hmem with heq | hmem
        · -- back at the start, which closes a cycle
          exact (h a .refl).2 (TransGen.head' hab (heq ▸ hx))
        · exact (h x (hx.head hab)).1 hmem

/-- With nothing on the path, every source descends clear exactly if there is no cycle. -/
theorem acyclic_iff {nodes : Finset α} (hnodes : ∀ a b, r a b → a ∈ nodes) :
    Acyclic r ↔ ∀ a ∈ nodes, Clear r ∅ a := by
  constructor
  · intro h a _
    exact (clear_iff hnodes).mpr fun x _ => ⟨Finset.notMem_empty x, h x⟩
  · intro h a hcycle
    obtain ⟨b, hab, -⟩ := TransGen.head'_iff.mp hcycle
    exact (h a (hnodes a b hab)).not_below hcycle

end BindPlane.Descent
