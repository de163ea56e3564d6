import BindPlane.Diff.Script
import Mathlib.Order.Basic

/-!
# The edit graph

A point of the edit graph of two lists says how much of each has been read.  A step to the right
deletes an element, a step down inserts one, and a diagonal step keeps an element that both lists
have; `Path a b d x y` reaches the point with `d` steps to the right or down.  These may leave the
grid: it is a search that does so, and not a script.

**Clipping.**  A path that has left the grid has paid for each step outside, so it can be cut back
to the border (`Path.clip`), and the first path over the far corner ends in it (`Path.corner`).

**Furthest points.**  On each diagonal the furthest point with `d + 1` edits is one step from the
furthest point with `d` edits on a neighbouring diagonal, followed by all the elements that agree
there (`Furthest.down`, `Furthest.right`).

**Search and script.**  A search explores diagonals, and it is convenient to let it run out of the
grid, because then every row of the search has the same shape.  A script cannot do so.  The lemmas
about clipping say that nothing is lost by the difference: the first hit is a point of the grid, and
its number of edits is that of a least script.
-/

namespace BindPlane.Diff

section Graph

variable {α : Type} {a b : List α} {d x y : ℕ}

/-- Both lists have the same element at these places. -/
def Match (a b : List α) (x y : ℕ) : Prop := ∃ c, a[x]? = some c ∧ b[y]? = some c

/-- A point that can be reached with a number of steps to the right or down. -/
inductive Path (a b : List α) : ℕ → ℕ → ℕ → Prop
  | start : Path a b 0 0 0
  | right {d x y : ℕ} : Path a b d x y → Path a b (d + 1) (x + 1) y
  | down {d x y : ℕ} : Path a b d x y → Path a b (d + 1) x (y + 1)
  | diagonal {d x y : ℕ} : Path a b d x y → Match a b x y → Path a b d (x + 1) (y + 1)

theorem Match.lt (h : Match a b x y) : x < a.length ∧ y < b.length := by
  obtain ⟨c, ha, hb⟩ := h
  exact ⟨(List.getElem?_eq_some_iff.mp ha).1, (List.getElem?_eq_some_iff.mp hb).1⟩

theorem match_drop {i : ℕ} : Match (a.drop x) (b.drop y) i i ↔ Match a b (x + i) (y + i) := by
  unfold Match
  rw [List.getElem?_drop, List.getElem?_drop]

namespace Path

theorem slide (h : Path a b d x y) (s : ℕ) (hs : ∀ i < s, Match a b (x + i) (y + i)) :
    Path a b d (x + s) (y + s) := by
  induction s with
  | zero => exact h
  | succ s ih =>
      exact .diagonal (ih fun i hi => hs i (Nat.lt_succ_of_lt hi)) (hs s (Nat.lt_succ_self s))

/-- A path does not leave its diagonals. -/
theorem bounds (h : Path a b d x y) : x ≤ y + d ∧ y ≤ x + d ∧ (x + y + d) % 2 = 0 := by
  induction h with
  | start => exact ⟨Nat.le_refl 0, Nat.le_refl 0, rfl⟩
  | right _ ih | down _ ih | diagonal _ _ ih =>
      obtain ⟨h₁, h₂, h₃⟩ := ih
      refine ⟨?_, ?_, ?_⟩ <;> omega

/-- A path without edits. -/
theorem of_zero (h : Path a b 0 x y) : x = y ∧ ∀ i < x, Match a b i i := by
  generalize hd : 0 = d at h
  induction h with
  | start => exact ⟨rfl, fun i hi => absurd hi (Nat.not_lt_zero i)⟩
  | right _ _ | down _ _ => omega
  | diagonal _ hmatch ih =>
      obtain ⟨rfl, hall⟩ := ih hd
      refine ⟨rfl, fun i hi => ?_⟩
      obtain hi | rfl := Nat.lt_succ_iff_lt_or_eq.mp hi
      · exact hall i hi
      · exact hmatch

/-- The last edit of a path, and the elements that are kept behind it. -/
theorem last (h : Path a b (d + 1) x y) :
    ∃ x₀ y₀ s, x = x₀ + s ∧ y = y₀ + s ∧ (∀ i < s, Match a b (x₀ + i) (y₀ + i)) ∧
      ((∃ x', x₀ = x' + 1 ∧ Path a b d x' y₀) ∨ ∃ y', y₀ = y' + 1 ∧ Path a b d x₀ y') := by
  generalize hd : d + 1 = e at h
  induction h with
  | start => omega
  | @right _ x y h _ =>
      obtain rfl := Nat.succ.inj hd
      exact ⟨x + 1, y, 0, rfl, rfl, fun i hi => absurd hi (Nat.not_lt_zero i), .inl ⟨x, rfl, h⟩⟩
  | @down _ x y h _ =>
      obtain rfl := Nat.succ.inj hd
      exact ⟨x, y + 1, 0, rfl, rfl, fun i hi => absurd hi (Nat.not_lt_zero i), .inr ⟨y, rfl, h⟩⟩
  | diagonal _ hmatch ih =>
      obtain ⟨x₀, y₀, s, rfl, rfl, hall, hlast⟩ := ih hd
      refine ⟨x₀, y₀, s + 1, rfl, rfl, fun i hi => ?_, hlast⟩
      obtain hi | rfl := Nat.lt_succ_iff_lt_or_eq.mp hi
      · exact hall i hi
      · exact hmatch

/-- A path that leaves the grid has paid for it. -/
theorem clip (h : Path a b d x y) :
    ∃ d', Path a b d' (min x a.length) (min y b.length) ∧
      d' + (x - a.length) + (y - b.length) ≤ d := by
  induction h with
  | start => exact ⟨0, by rw [Nat.zero_min, Nat.zero_min]; exact .start, by omega⟩
  | @right d x y _ ih =>
      obtain ⟨d', hpath, hd⟩ := ih
      obtain hx | hx := Nat.lt_or_ge x a.length
      · rw [Nat.min_eq_left (Nat.le_of_lt hx)] at hpath
        rw [Nat.min_eq_left hx]
        exact ⟨d' + 1, .right hpath, by omega⟩
      · rw [Nat.min_eq_right hx] at hpath
        rw [Nat.min_eq_right (Nat.le_succ_of_le hx)]
        exact ⟨d', hpath, by omega⟩
  | @down d x y _ ih =>
      obtain ⟨d', hpath, hd⟩ := ih
      obtain hy | hy := Nat.lt_or_ge y b.length
      · rw [Nat.min_eq_left (Nat.le_of_lt hy)] at hpath
        rw [Nat.min_eq_left hy]
        exact ⟨d' + 1, .down hpath, by omega⟩
      · rw [Nat.min_eq_right hy] at hpath
        rw [Nat.min_eq_right (Nat.le_succ_of_le hy)]
        exact ⟨d', hpath, by omega⟩
  | @diagonal d x y _ hmatch ih =>
      obtain ⟨d', hpath, hd⟩ := ih
      obtain ⟨hx, hy⟩ := hmatch.lt
      rw [Nat.min_eq_left (Nat.le_of_lt hx), Nat.min_eq_left (Nat.le_of_lt hy)] at hpath
      rw [Nat.min_eq_left hx, Nat.min_eq_left hy]
      exact ⟨d', .diagonal hpath hmatch, by omega⟩

/-- Beyond the far corner with as few edits as possible is the far corner. -/
theorem corner (h : Path a b d x y) (hx : a.length ≤ x) (hy : b.length ≤ y)
    (hleast : ∀ d' < d, ¬Path a b d' a.length b.length) : x = a.length ∧ y = b.length := by
  obtain ⟨d', hpath, hd⟩ := h.clip
  rw [Nat.min_eq_right hx, Nat.min_eq_right hy] at hpath
  have hge : d ≤ d' := Nat.le_of_not_lt fun hlt => hleast d' hlt hpath
  omega

/-- A script is a path. -/
theorem of_script {s : List (Edit α)} (h : Path a b d x y) (ha : a.drop x = source s)
    (hb : b.drop y = target s) (hx : x ≤ a.length) (hy : y ≤ b.length) :
    Path a b (d + cost s) a.length b.length := by
  have hhead {l rest : List α} {i : ℕ} {c : α} (h : l.drop i = c :: rest) :
      l[i]? = some c ∧ l.drop (i + 1) = rest ∧ i + 1 ≤ l.length := by
    have hi : i < l.length := by
      rw [← Nat.not_le]
      intro hle
      rw [List.drop_eq_nil_of_le hle] at h
      contradiction
    rw [List.drop_eq_getElem_cons hi] at h
    obtain ⟨rfl, rfl⟩ := List.cons.inj h
    exact ⟨List.getElem?_eq_getElem hi, rfl, hi⟩
  induction s generalizing d x y with
  | nil =>
      obtain rfl : x = a.length := Nat.le_antisymm hx (List.drop_eq_nil_iff.mp ha)
      obtain rfl : y = b.length := Nat.le_antisymm hy (List.drop_eq_nil_iff.mp hb)
      exact h
  | cons e s ih =>
      obtain ⟨change, c⟩ := e
      cases change with
      | keep =>
          obtain ⟨hac, ha, hx⟩ := hhead (ha.trans (source_keep c s))
          obtain ⟨hbc, hb, hy⟩ := hhead (hb.trans (target_keep c s))
          rw [cost_keep]
          exact ih (.diagonal h ⟨c, hac, hbc⟩) ha hb hx hy
      | delete =>
          obtain ⟨-, ha, hx⟩ := hhead (ha.trans (source_delete c s))
          rw [cost_delete, ← Nat.add_assoc, Nat.add_right_comm]
          exact ih (.right h) ha (hb.trans (target_delete c s)) hx hy
      | insert =>
          obtain ⟨-, hb, hy⟩ := hhead (hb.trans (target_insert c s))
          rw [cost_insert, ← Nat.add_assoc, Nat.add_right_comm]
          exact ih (.down h) (ha.trans (source_insert c s)) hb hx hy

end Path

/-! ## Furthest points -/

/-- No point on the diagonal is further with as many edits.

There is at most one furthest point on a diagonal (`Furthest.unique`), and the next one is computed
from two of them.  This is all that the greedy search uses: it never looks at points that are not
furthest. -/
def Furthest (a b : List α) (d x y : ℕ) : Prop :=
  Path a b d x y ∧ ∀ x' y', Path a b d x' y' → x' + y = x + y' → x' ≤ x

theorem Furthest.unique {x' y' : ℕ} (h : Furthest a b d x y) (h' : Furthest a b d x' y')
    (hdiagonal : x + y' = x' + y) : x = x' ∧ y = y' := by
  have hle := h.2 x' y' h'.1 hdiagonal.symm
  have hge := h'.2 x y h.1 hdiagonal
  omega

end Graph

section Agree

variable {α : Type} [DecidableEq α] {a b : List α} {d x y : ℕ}

/-- The number of elements at the front in which two lists agree. -/
def agree : List α → List α → ℕ
  | x :: a, y :: b => if x = y then agree a b + 1 else 0
  | _, _ => 0

theorem match_agree (a b : List α) : ∀ i < agree a b, Match a b i i := by
  induction a generalizing b with
  | nil => exact fun i hi => absurd hi (Nat.not_lt_zero i)
  | cons x a ih =>
      cases b with
      | nil => exact fun i hi => absurd hi (Nat.not_lt_zero i)
      | cons y b =>
          intro i hi
          unfold agree at hi
          split_ifs at hi with hxy
          · subst hxy
            cases i with
            | zero => exact ⟨x, rfl, rfl⟩
            | succ i =>
                obtain ⟨c, ha, hb⟩ := ih b i (Nat.lt_of_succ_lt_succ hi)
                exact ⟨c, ha, hb⟩
          · exact absurd hi (Nat.not_lt_zero i)

theorem not_match_agree (a b : List α) : ¬Match a b (agree a b) (agree a b) := by
  induction a generalizing b with
  | nil => exact fun h => absurd h.lt.1 (Nat.not_lt_zero _)
  | cons x a ih =>
      cases b with
      | nil => exact fun h => absurd h.lt.2 (Nat.not_lt_zero _)
      | cons y b =>
          unfold agree
          split_ifs with hxy
          · exact fun ⟨c, ha, hb⟩ => ih b ⟨c, ha, hb⟩
          · exact fun ⟨c, ha, hb⟩ => hxy ((Option.some.inj ha).trans (Option.some.inj hb).symm)

/-- The number of elements in which two lists agree from two places on. -/
def run (a b : List α) (x y : ℕ) : ℕ := agree (a.drop x) (b.drop y)

theorem match_run (a b : List α) (x y : ℕ) : ∀ i < run a b x y, Match a b (x + i) (y + i) :=
  fun i hi => match_drop.mp (match_agree _ _ i hi)

/-- As long as the elements agree, they belong to the run. -/
theorem le_run {s : ℕ} (hs : ∀ i < s, Match a b (x + i) (y + i)) : s ≤ run a b x y :=
  Nat.le_of_not_lt fun hlt => not_match_agree _ _ (match_drop.mpr (hs _ hlt))

/-- The start of the last run decides how far a path goes. -/
theorem furthest_of_start {x₀ y₀ : ℕ} (h : Path a b (d + 1) x₀ y₀)
    (hright : ∀ x' y', Path a b d x' y' → x' + 1 + y₀ = x₀ + y' → x' + 1 ≤ x₀)
    (hdown : ∀ x' y', Path a b d x' y' → x' + y₀ = x₀ + (y' + 1) → x' ≤ x₀) :
    Furthest a b (d + 1) (x₀ + run a b x₀ y₀) (y₀ + run a b x₀ y₀) := by
  refine ⟨h.slide _ (match_run a b x₀ y₀), fun x' y' h' hdiagonal => ?_⟩
  obtain ⟨x₁, y₁, s, rfl, rfl, hmatch, hlast⟩ := h'.last
  have hstart : x₁ ≤ x₀ := by
    obtain ⟨x', rfl, hpath⟩ | ⟨y', rfl, hpath⟩ := hlast
    · exact hright x' y₁ hpath (by omega)
    · exact hdown x₁ y' hpath (by omega)
  by_cases hlt : x₀ < x₁ + s
  · -- The path passes the start, and keeps elements from there on.
    have hrun : x₁ + s - x₀ ≤ run a b x₀ y₀ := by
      refine le_run fun i hi => ?_
      have h := hmatch (x₀ - x₁ + i) (by omega)
      rw [← Nat.add_assoc, ← Nat.add_assoc, Nat.add_sub_cancel' hstart] at h
      rwa [show y₁ + (x₀ - x₁) + i = y₀ + i by omega] at h
    omega
  · omega

theorem furthest_zero (a b : List α) : Furthest a b 0 (run a b 0 0) (run a b 0 0) := by
  refine ⟨?_, fun x' y' h hdiagonal => ?_⟩
  · have h := Path.slide .start (run a b 0 0) (match_run a b 0 0)
    rwa [Nat.zero_add] at h
  · obtain ⟨rfl, hmatch⟩ := h.of_zero
    refine le_run fun i hi => ?_
    rw [Nat.zero_add]
    exact hmatch i hi

/-- Down from the furthest point of the diagonal above, which is further than its neighbour. -/
theorem Furthest.down (h : Furthest a b d x y)
    (hother : ∀ x' y', Path a b d x' y' → x' + 1 + (y + 1) = x + y' → x' < x) :
    Furthest a b (d + 1) (x + run a b x (y + 1)) (y + 1 + run a b x (y + 1)) := by
  refine furthest_of_start (.down h.1) (fun x' y' h' hd => hother x' y' h' hd) ?_
  intro x' y' h' hd
  exact h.2 x' y' h' (by omega)

/-- To the right from the furthest point of the diagonal below, which is at least as far. -/
theorem Furthest.right (h : Furthest a b d x y)
    (hother : ∀ x' y', Path a b d x' y' → x' + y = x + 1 + (y' + 1) → x' ≤ x) :
    Furthest a b (d + 1) (x + 1 + run a b (x + 1) y) (y + run a b (x + 1) y) := by
  refine furthest_of_start (.right h.1) ?_ ?_
  · intro x' y' h' hd
    exact Nat.succ_le_succ (h.2 x' y' h' (by omega))
  · intro x' y' h' hd
    exact Nat.le_succ_of_le (hother x' y' h' hd)

end Agree

end BindPlane.Diff
