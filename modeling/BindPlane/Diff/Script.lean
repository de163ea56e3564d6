import Mathlib.Data.Nat.Find
import Mathlib.Data.Nat.Notation
import Mathlib.Order.Bounds.Defs
import Mathlib.Tactic.Common

/-!
# Edit scripts

A script aligns two lists: it keeps, deletes and inserts elements, and it reads its source and
writes its target in one pass.

**Edits.**  `Edits n l l'` says, without an alignment, that `n` insertions and deletions of single
elements turn `l` into `l'`.  A script of `n` changes is such a sequence (`Edits.of_script`), and a
sequence of `n` edits has a script with no more changes (`Edits.script`), so the least number of
edits is the least number of changes of a script.

**Common ends.**  What two lists share at their ends costs nothing: `Edits.frame` adds it, and
`Edits.strip` takes it away, so they do not change the least number of edits (`isLeast_strip`).

**Which costs.**  Only insertions and deletions are counted; a line that is replaced counts twice.
Two scripts of the same cost may align different lines, and nothing prefers one of them.
-/

namespace BindPlane.Diff

/-- What a script does with an element. -/
inductive Change
  | keep | delete | insert
  deriving DecidableEq

/-- One step of a script. -/
structure Edit (α : Type) where
  change : Change
  item : α
  deriving DecidableEq

section Scripts

variable {α : Type}

/-- The list that a script reads. -/
def source (script : List (Edit α)) : List α :=
  (script.filter (·.change ≠ .insert)).map (·.item)

/-- The list that a script writes. -/
def target (script : List (Edit α)) : List α :=
  (script.filter (·.change ≠ .delete)).map (·.item)

/-- The number of elements that a script deletes or inserts. -/
def cost (script : List (Edit α)) : ℕ := script.countP (·.change ≠ .keep)

@[simp] theorem source_nil : source ([] : List (Edit α)) = [] := rfl

@[simp] theorem target_nil : target ([] : List (Edit α)) = [] := rfl

@[simp] theorem cost_nil : cost ([] : List (Edit α)) = 0 := rfl

@[simp] theorem source_append (s s' : List (Edit α)) :
    source (s ++ s') = source s ++ source s' := by
  simp [source]

@[simp] theorem target_append (s s' : List (Edit α)) :
    target (s ++ s') = target s ++ target s' := by
  simp [target]

@[simp] theorem cost_append (s s' : List (Edit α)) : cost (s ++ s') = cost s + cost s' := by
  simp [cost]

@[simp] theorem source_keep (x : α) (s : List (Edit α)) :
    source (⟨.keep, x⟩ :: s) = x :: source s := rfl

@[simp] theorem source_delete (x : α) (s : List (Edit α)) :
    source (⟨.delete, x⟩ :: s) = x :: source s := rfl

@[simp] theorem source_insert (x : α) (s : List (Edit α)) :
    source (⟨.insert, x⟩ :: s) = source s := rfl

@[simp] theorem target_keep (x : α) (s : List (Edit α)) :
    target (⟨.keep, x⟩ :: s) = x :: target s := rfl

@[simp] theorem target_delete (x : α) (s : List (Edit α)) :
    target (⟨.delete, x⟩ :: s) = target s := rfl

@[simp] theorem target_insert (x : α) (s : List (Edit α)) :
    target (⟨.insert, x⟩ :: s) = x :: target s := rfl

@[simp] theorem cost_keep (x : α) (s : List (Edit α)) : cost (⟨.keep, x⟩ :: s) = cost s := by
  simp [cost]

@[simp] theorem cost_delete (x : α) (s : List (Edit α)) :
    cost (⟨.delete, x⟩ :: s) = cost s + 1 := by
  simp [cost]

@[simp] theorem cost_insert (x : α) (s : List (Edit α)) :
    cost (⟨.insert, x⟩ :: s) = cost s + 1 := by
  simp [cost]

/-- A script that does the same with every element. -/
def each (change : Change) (l : List α) : List (Edit α) := l.map (Edit.mk change)

@[simp] theorem each_append (change : Change) (l l' : List α) :
    each change (l ++ l') = each change l ++ each change l' :=
  List.map_append

@[simp] theorem source_each_keep (l : List α) : source (each .keep l) = l := by
  simp [source, each, List.filter_map, Function.comp_def]

@[simp] theorem target_each_keep (l : List α) : target (each .keep l) = l := by
  simp [target, each, List.filter_map, Function.comp_def]

@[simp] theorem cost_each_keep (l : List α) : cost (each .keep l) = 0 := by
  simp [cost, each, List.countP_map, Function.comp_def]

@[simp] theorem length_each (change : Change) (l : List α) : (each change l).length = l.length :=
  List.length_map _

@[simp] theorem source_each_delete (l : List α) : source (each .delete l) = l := by
  simp [source, each, List.filter_map, Function.comp_def]

@[simp] theorem target_each_delete (l : List α) : target (each .delete l) = [] := by
  simp [target, each, List.filter_map, Function.comp_def]

@[simp] theorem source_each_insert (l : List α) : source (each .insert l) = [] := by
  simp [source, each, List.filter_map, Function.comp_def]

@[simp] theorem target_each_insert (l : List α) : target (each .insert l) = l := by
  simp [target, each, List.filter_map, Function.comp_def]

/-- Each step of a script reads or writes an element. -/
theorem length_le (s : List (Edit α)) : s.length ≤ (source s).length + (target s).length := by
  induction s with
  | nil => exact Nat.le_refl 0
  | cons e s ih =>
      obtain ⟨change, x⟩ := e
      rw [List.length_cons]
      cases change with
      | keep =>
          rw [source_keep, target_keep, List.length_cons, List.length_cons]
          omega
      | delete =>
          rw [source_delete, target_delete, List.length_cons]
          omega
      | insert =>
          rw [source_insert, target_insert, List.length_cons]
          omega

/-- The changes are the deletions and the insertions. -/
theorem cost_eq (s : List (Edit α)) :
    cost s = s.countP (·.change = .insert) + s.countP (·.change = .delete) := by
  induction s with
  | nil => rfl
  | cons e s ih =>
      obtain ⟨change, x⟩ := e
      cases change with
      | keep => simp [ih]
      | delete => simp [ih, Nat.add_assoc]
      | insert => simp [ih, Nat.add_right_comm]

/-- Where the target is cut in two, so is the script. -/
theorem target_split {s : List (Edit α)} {u v : List α} (h : target s = u ++ v) :
    ∃ s₁ s₂, s = s₁ ++ s₂ ∧ target s₁ = u ∧ target s₂ = v := by
  obtain ⟨l₁, l₂, hfilter, rfl, rfl⟩ := List.map_eq_append_iff.mp h
  obtain ⟨s₁, s₂, rfl, rfl, rfl⟩ := List.filter_eq_append_iff.mp hfilter
  exact ⟨s₁, s₂, rfl, rfl, rfl⟩

end Scripts

/-! ## Single edits -/

/-- `n` insertions and deletions of single elements turn one list into another. -/
inductive Edits {α : Type} : ℕ → List α → List α → Prop
  | refl (l : List α) : Edits 0 l l
  | insert {n : ℕ} {l : List α} (u v : List α) (x : α) :
      Edits n l (u ++ v) → Edits (n + 1) l (u ++ x :: v)
  | delete {n : ℕ} {l : List α} (u v : List α) (x : α) :
      Edits n l (u ++ x :: v) → Edits (n + 1) l (u ++ v)

namespace Edits

variable {α : Type} {n m : ℕ} {a b c : List α} {x : α}

theorem trans (h : Edits n a b) (h' : Edits m b c) : Edits (n + m) a c := by
  induction h' with
  | refl => exact h
  | insert u v x _ ih => exact .insert u v x (ih h)
  | delete u v x _ ih => exact .delete u v x (ih h)

/-- Equal ends change nothing. -/
theorem frame (p q : List α) (h : Edits n a b) : Edits n (p ++ a ++ q) (p ++ b ++ q) := by
  induction h with
  | refl => exact .refl _
  | insert u v x _ ih =>
      have h := Edits.insert (p ++ u) (v ++ q) x (by simpa using ih)
      simpa using h
  | delete u v x _ ih =>
      have h := Edits.delete (p ++ u) (v ++ q) x (by simpa using ih)
      simpa using h

theorem reverse (h : Edits n a b) : Edits n a.reverse b.reverse := by
  induction h with
  | refl => exact .refl _
  | insert u v x _ ih =>
      have h := Edits.insert v.reverse u.reverse x (by simpa using ih)
      simpa using h
  | delete u v x _ ih =>
      have h := Edits.delete v.reverse u.reverse x (by simpa using ih)
      simpa using h

theorem cons (x : α) (h : Edits n a b) : Edits n (x :: a) (x :: b) := by
  simpa using h.frame [x] []

/-- A script is a sequence of edits. -/
theorem of_script (script : List (Edit α)) :
    Edits (cost script) (source script) (target script) := by
  induction script with
  | nil => exact .refl []
  | cons e script ih =>
      obtain ⟨change, x⟩ := e
      cases change with
      | keep =>
          rw [cost_keep]
          exact ih.cons x
      | delete =>
          rw [cost_delete]
          exact .delete [] (target script) x (ih.cons x)
      | insert =>
          rw [cost_insert]
          exact .insert [] (target script) x ih

/-- A sequence of edits has a script with no more changes. -/
theorem script (h : Edits n a b) : ∃ s, source s = a ∧ target s = b ∧ cost s ≤ n := by
  induction h with
  | refl l => exact ⟨each .keep l, by simp, by simp, by simp⟩
  | insert u v x _ ih =>
      obtain ⟨s, rfl, htarget, hcost⟩ := ih
      obtain ⟨s₁, s₂, rfl, rfl, rfl⟩ := target_split htarget
      refine ⟨s₁ ++ ⟨.insert, x⟩ :: s₂, by simp, by simp, ?_⟩
      rw [cost_append] at hcost ⊢
      rw [cost_insert]
      omega
  | delete u v x _ ih =>
      obtain ⟨s, rfl, htarget, hcost⟩ := ih
      obtain ⟨s₁, s₂, rfl, rfl, htail⟩ := target_split htarget
      -- The element that goes was kept, and is deleted now, or inserted, and is not any more.
      obtain ⟨e, t₁, t₂, rfl, hnone, hitem, hlast, hrest⟩ :
          ∃ e t₁ t₂, s₂ = t₁ ++ e :: t₂ ∧ target t₁ = [] ∧ e.item = x ∧ e.change ≠ .delete ∧
            target t₂ = v := by
        obtain ⟨t, s₃, rfl, ht, hv⟩ := target_split (u := [x]) (v := v) htail
        obtain ⟨e, hfilter, rfl⟩ := List.map_eq_singleton_iff.mp ht
        obtain ⟨t₁, t₂, rfl, h₁, hkeep, h₂⟩ := List.filter_eq_cons_iff.mp hfilter
        refine ⟨e, t₁, t₂ ++ s₃, by simp, ?_, rfl, of_decide_eq_true hkeep, ?_⟩
        · exact congrArg _ (List.filter_eq_nil_iff.mpr h₁)
        · rw [target_append, hv]
          exact congrArg (List.map _ · ++ v) h₂
      obtain ⟨change, x⟩ := e
      obtain rfl := hitem
      cases change with
      | keep =>
          refine ⟨s₁ ++ (t₁ ++ ⟨.delete, x⟩ :: t₂), by simp, by simp [hnone, hrest], ?_⟩
          simp only [cost_append, cost_keep, cost_delete] at hcost ⊢
          omega
      | delete => exact absurd rfl hlast
      | insert =>
          refine ⟨s₁ ++ (t₁ ++ t₂), by simp, by simp [hnone, hrest], ?_⟩
          simp only [cost_append, cost_insert] at hcost ⊢
          omega

/-- A common head may be taken away. -/
theorem strip_head (h : Edits n (x :: a) (x :: b)) : ∃ m ≤ n, Edits m a b := by
  obtain ⟨s, hsource, htarget, hcost⟩ := h.script
  cases s with
  | nil => contradiction
  | cons e s =>
      obtain ⟨change, y⟩ := e
      have hs := of_script s
      cases change with
      | keep =>
          rw [source_keep] at hsource
          rw [target_keep] at htarget
          obtain ⟨-, rfl⟩ := List.cons.inj hsource
          obtain ⟨-, rfl⟩ := List.cons.inj htarget
          exact ⟨cost s, cost_keep y s ▸ hcost, hs⟩
      | delete =>
          rw [source_delete] at hsource
          rw [target_delete] at htarget
          obtain ⟨-, rfl⟩ := List.cons.inj hsource
          rw [htarget] at hs
          exact ⟨cost s + 1, cost_delete y s ▸ hcost, .delete [] b x hs⟩
      | insert =>
          rw [source_insert] at hsource
          rw [target_insert] at htarget
          obtain ⟨-, rfl⟩ := List.cons.inj htarget
          rw [hsource] at hs
          have hfirst : Edits 1 a (x :: a) := .insert [] a x (.refl a)
          refine ⟨1 + cost s, ?_, hfirst.trans hs⟩
          rw [cost_insert] at hcost
          omega

theorem strip_left (p : List α) (h : Edits n (p ++ a) (p ++ b)) : ∃ m ≤ n, Edits m a b := by
  induction p generalizing n with
  | nil => exact ⟨n, Nat.le_refl n, h⟩
  | cons x p ih =>
      obtain ⟨m, hm, h⟩ := strip_head h
      obtain ⟨m', hm', h⟩ := ih h
      exact ⟨m', Nat.le_trans hm' hm, h⟩

/-- Common ends may be taken away. -/
theorem strip (p q : List α) (h : Edits n (p ++ a ++ q) (p ++ b ++ q)) : ∃ m ≤ n, Edits m a b := by
  have h := h.reverse
  simp only [List.append_assoc, List.reverse_append] at h
  obtain ⟨m, hm, h⟩ := strip_left q.reverse h
  have h := h.reverse
  simp only [List.reverse_append, List.reverse_reverse] at h
  obtain ⟨m', hm', h⟩ := strip_left p h
  exact ⟨m', Nat.le_trans hm' hm, h⟩

end Edits

/-! ## The least number of edits -/

section Least

variable {α : Type}

/-- Some number of edits is the least. -/
theorem exists_isLeast_edits (a b : List α) : ∃ n, IsLeast {n | Edits n a b} n := by
  classical
  have hall : ∃ n, Edits n a b :=
    ⟨_, by simpa using Edits.of_script (each .delete a ++ each .insert b)⟩
  exact ⟨Nat.find hall, Nat.find_spec hall, fun n hn => Nat.find_min' hall hn⟩

/-- Common ends do not change the least number. -/
theorem isLeast_strip {p q a b : List α} {n : ℕ}
    (h : IsLeast {n | Edits n (p ++ a ++ q) (p ++ b ++ q)} n) : IsLeast {n | Edits n a b} n := by
  obtain ⟨m, hm, hedits⟩ := Edits.strip p q h.1
  obtain rfl := Nat.le_antisymm hm (h.2 (hedits.frame p q))
  exact ⟨hedits, fun k hk => h.2 (hk.frame p q)⟩

end Least

end BindPlane.Diff
