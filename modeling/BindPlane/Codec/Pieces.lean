import Mathlib.Data.List.Basic

/-!
# The pieces of a list

`List.splitOnP` cuts a list at the elements of `p`.  An element that is no separator lies in one
piece or other (`mem_piece`); on a list where two predicates agree they cut the same pieces
(`splitOnP_congr`); and what is appended behind a separator adds its pieces (`splitOn_append`).
-/

namespace Pieces

variable {α : Type} {p q : α → Bool} {l : List α} {x : α}

theorem splitOnP_congr (h : ∀ x ∈ l, p x = q x) : l.splitOnP p = l.splitOnP q := by
  induction l with
  | nil => rfl
  | cons y l ih =>
      rw [List.splitOnP_cons_eq_if_modifyHead, List.splitOnP_cons_eq_if_modifyHead,
        h y List.mem_cons_self, ih fun x hx => h x (List.mem_cons_of_mem y hx)]

/-- What is no separator lies in a piece. -/
theorem mem_piece (hx : x ∈ l) (hp : p x = false) : ∃ f ∈ l.splitOnP p, x ∈ f := by
  induction l with
  | nil => cases hx
  | cons y l ih =>
      rw [List.splitOnP_cons_eq_if_modifyHead]
      rcases List.mem_cons.mp hx with rfl | hx
      · rw [if_neg (by simp [hp])]
        obtain ⟨head, rest, hsplit⟩ := List.exists_cons_of_ne_nil (List.splitOnP_ne_nil p l)
        rw [hsplit]
        exact ⟨x :: head, List.mem_cons_self, List.mem_cons_self⟩
      · obtain ⟨f, hf, hxf⟩ := ih hx
        split
        · exact ⟨f, List.mem_cons_of_mem _ hf, hxf⟩
        · obtain ⟨head, rest, hsplit⟩ := List.exists_cons_of_ne_nil (List.splitOnP_ne_nil p l)
          rw [hsplit] at hf ⊢
          rcases List.mem_cons.mp hf with rfl | hf
          · exact ⟨y :: f, List.mem_cons_self, List.mem_cons_of_mem y hxf⟩
          · exact ⟨f, List.mem_cons_of_mem _ hf, hxf⟩

/-- The pieces of an appended list. -/
theorem splitOn_append [DecidableEq α] {sep : α} (l l' : List α) :
    (l ++ sep :: l').splitOn sep = l.splitOn sep ++ l'.splitOn sep :=
  List.splitOnP_append_cons l l' (beq_self_eq_true sep)

end Pieces
