import BindPlane.Release.Diff
import Mathlib.Data.List.Basic
import Mathlib.Tactic.SplitIfs

/-!
# The alignment of `DiffLines`

**Rows.**  A row of the trace holds the furthest point of each diagonal (`Row`).  The next row
follows from it (`Row.next`), and `sweep` computes it, or finds a point beyond the end of both
lists (`sweep_spec`).

**The search.**  The rows before a hit show that no fewer edits reach the end, so the hit is in the
corner of the grid and the trace leads back from it: `backtrackFrom_spec` reads a script off the
rows, with one edit for each of them.

**Minimality.**  `myers` gives up exactly if more than `maxDiffEdits` edits are needed, and what it
returns has as few as possible (`myers_spec`).  The common ends that were trimmed cost nothing
(`diffLines_least`).
-/

namespace BindPlane.ConfigDiff

open Diff

/-! ## Slices -/

section Slices

variable {α : Type} {l : List α}

theorem goIndex_ofNat (l : List α) (i : ℕ) : goIndex l (i : ℤ) = l[i]? := by
  unfold goIndex
  rw [if_neg (by omega), Int.toNat_natCast]

theorem goStore_ofNat {i : ℕ} (v : α) (h : i < l.length) :
    goStore l (i : ℤ) v = some (l.set i v) := by
  unfold goStore
  rw [if_pos (by omega), Int.toNat_natCast]

theorem goSlice_ofNat {lo hi : ℕ} (hlo : lo ≤ hi) (hhi : hi ≤ l.length) :
    goSlice l (lo : ℤ) (hi : ℤ) = some ((l.take hi).drop lo) := by
  unfold goSlice
  rw [if_pos (by omega), Int.toNat_natCast, Int.toNat_natCast]

end Slices

/-! ## Rows of furthest points -/

section Rows

variable {a b : List String} {prev : List ℤ} {d j : ℕ}

/-- A row of the trace: the furthest points of the diagonals, none of them behind the end of both
lists.

A point of the row is where the greedy search has come to on its diagonal with `d` edits.  That it
is the furthest such point is the invariant of the search; the rest of the structure is about how
the array of the source lays the diagonals out, every second index, from `-d` to `d`. -/
structure Row (a b : List String) (d : ℕ) (row : List ℤ) : Prop where
  length : row.length = 2 * d + 1
  points : ∀ j ≤ d, ∃ x y : ℕ, row[2 * j]? = some (x : ℤ) ∧ (x : ℤ) - y = 2 * (j : ℤ) - d ∧
    Furthest a b d x y ∧ ¬(a.length ≤ x ∧ b.length ≤ y)

/-- The point on diagonal `j` of the next row comes from one of its neighbours, and the condition
of the source says from which. -/
theorem Row.next (h : Row a b d prev) (hj : j ≤ d + 1) {k : ℤ} (hk : k = 2 * (j : ℤ) - (d + 1)) :
    (∃ x y : ℕ, fromAbove prev (d + 1) k = some true ∧
        goIndex prev (k + 1 + (d + 1) - 1) = some (x : ℤ) ∧ (x : ℤ) - y = k + 1 ∧
        Furthest a b d x y ∧
        Furthest a b (d + 1) (x + run a b x (y + 1)) (y + 1 + run a b x (y + 1))) ∨
    ∃ x y : ℕ, fromAbove prev (d + 1) k = some false ∧
        goIndex prev (k - 1 + (d + 1) - 1) = some (x : ℤ) ∧ (x : ℤ) - y = k - 1 ∧
        Furthest a b d x y ∧
        Furthest a b (d + 1) (x + 1 + run a b (x + 1) y) (y + run a b (x + 1) y) := by
  have hread {i : ℕ} {m : ℤ} (hm : m = 2 * (i : ℤ)) {x : ℕ} (hx : prev[2 * i]? = some (x : ℤ)) :
      goIndex prev m = some (x : ℤ) := by
    rw [hm, ← hx]
    exact goIndex_ofNat prev (2 * i)
  unfold fromAbove
  obtain rfl | hpos := Nat.eq_zero_or_pos j
  · -- The first diagonal has no neighbour below.
    obtain ⟨x, y, hrow, hdiagonal, hfar, -⟩ := h.points 0 (Nat.zero_le d)
    refine .inl ⟨x, y, if_pos (by omega), hread (by omega) hrow, by omega, hfar, hfar.down ?_⟩
    intro x' y' hpath hd
    have hbounds := hpath.bounds
    omega
  · obtain rfl | hlt := Nat.eq_or_lt_of_le hj
    · -- The last diagonal has no neighbour above.
      obtain ⟨x, y, hrow, hdiagonal, hfar, -⟩ := h.points d (Nat.le_refl d)
      refine .inr ⟨x, y, ?_, hread (by omega) hrow, by omega, hfar, hfar.right ?_⟩
      · rw [if_neg (by omega), if_pos (by omega)]
      · intro x' y' hpath hd
        have hbounds := hpath.bounds
        omega
    · obtain ⟨l, yl, hleft, hdl, hfarl, -⟩ := h.points (j - 1) (by omega)
      obtain ⟨r, yr, hright, hdr, hfarr, -⟩ := h.points j (by omega)
      have hleft' : goIndex prev (k - 1 + (d + 1) - 1) = some (l : ℤ) := hread (by omega) hleft
      have hright' : goIndex prev (k + 1 + (d + 1) - 1) = some (r : ℤ) := hread (by omega) hright
      rw [if_neg (by omega), if_neg (by omega), hleft', hright']
      -- the neighbour that has come further is followed, and the other could not have come as far
      by_cases hlr : l < r
      · refine .inl ⟨r, yr, ?_, rfl, by omega, hfarr, hfarr.down fun x' y' hpath hd => ?_⟩
        · show some (decide ((l : ℤ) < r)) = _
          rw [decide_eq_true (by omega)]
        · have hle := hfarl.2 x' y' hpath (by omega)
          omega
      · refine .inr ⟨l, yl, ?_, rfl, by omega, hfarl, hfarl.right fun x' y' hpath hd => ?_⟩
        · show some (decide ((l : ℤ) < r)) = _
          rw [decide_eq_false (by omega)]
        · have hle := hfarr.2 x' y' hpath (by omega)
          omega

theorem slide_ofNat (a b : List String) (x y : ℕ) :
    slide a b x y = some (((x + run a b x y : ℕ) : ℤ), ((y + run a b x y : ℕ) : ℤ)) := by
  unfold slide
  split_ifs with hin hneg
  · omega
  · rw [Int.toNat_natCast, Int.toNat_natCast, Int.natCast_add, Int.natCast_add]
  · have hzero : run a b x y = 0 := by
      refine Nat.eq_zero_of_not_pos fun hpos => hin ?_
      have hlt := (match_run a b x y 0 hpos).lt
      omega
    rw [hzero]
    rfl

/-- What the body of the loop computes on a diagonal. -/
theorem entry_spec (hprev : ∀ d', d = d' + 1 → Row a b d' prev) (hj : j ≤ d) {k : ℤ}
    (hk : k = 2 * (j : ℤ) - d) :
    ∃ (x₀ : ℤ) (x y : ℕ), startOf prev d k = some x₀ ∧
      slide a b x₀ (x₀ - k) = some ((x : ℤ), (y : ℤ)) ∧ (x : ℤ) - y = k ∧ Furthest a b d x y := by
  unfold startOf
  cases d with
  | zero =>
      obtain rfl : k = 0 := by omega
      refine ⟨0, run a b 0 0, run a b 0 0, if_pos rfl, ?_, by omega, furthest_zero a b⟩
      have h := slide_ofNat a b 0 0
      rw [Nat.zero_add] at h
      exact h
  | succ d =>
      have hne : ¬((d + 1 : ℕ) : ℤ) = 0 := by omega
      rw [if_neg hne, Int.natCast_add, Int.natCast_one]
      obtain ⟨x, y, habove, hread, hdiagonal, -, hfar⟩ |
          ⟨x, y, habove, hread, hdiagonal, -, hfar⟩ :=
        (hprev d rfl).next hj (k := k) (by omega)
      · refine ⟨x, _, _, ?_, ?_, ?_, hfar⟩
        · rw [habove]
          exact hread
        · rw [show (x : ℤ) - k = ((y + 1 : ℕ) : ℤ) by omega]
          exact slide_ofNat a b x (y + 1)
        · omega
      · refine ⟨((x + 1 : ℕ) : ℤ), _, _, ?_, ?_, ?_, hfar⟩
        · rw [habove]
          show (goIndex prev _).bind _ = _
          rw [hread]
          rfl
        · rw [show ((x + 1 : ℕ) : ℤ) - k = (y : ℤ) by omega]
          exact slide_ofNat a b (x + 1) y
        · omega

/-- The loop over the diagonals that are left. -/
theorem sweep_from (hprev : ∀ d', d = d' + 1 → Row a b d' prev) (n j : ℕ) (cur : List ℤ)
    (hn : j + n = d + 1) (hlength : cur.length = 2 * d + 1)
    (hdone : ∀ i < j, ∃ x y : ℕ, cur[2 * i]? = some (x : ℤ) ∧ (x : ℤ) - y = 2 * (i : ℤ) - d ∧
      Furthest a b d x y ∧ ¬(a.length ≤ x ∧ b.length ≤ y)) :
    ∃ row found,
      sweep a b prev d ((List.range' j n).map fun j : ℕ => 2 * (j : ℤ) - d) cur =
        some (row, found) ∧
      (found = false ∧ Row a b d row ∨
        found = true ∧ ∃ x y, Furthest a b d x y ∧ a.length ≤ x ∧ b.length ≤ y) := by
  induction n generalizing j cur with
  | zero => exact ⟨cur, false, rfl, .inl ⟨rfl, hlength, fun i hi => hdone i (by omega)⟩⟩
  | succ n ih =>
      obtain ⟨x₀, x, y, hstart, hslide, hdiagonal, hfar⟩ :=
        entry_spec hprev (j := j) (by omega) rfl
      have hstore : goStore cur (2 * (j : ℤ) - d + d) (x : ℤ) = some (cur.set (2 * j) (x : ℤ)) := by
        rw [show 2 * (j : ℤ) - d + d = ((2 * j : ℕ) : ℤ) by omega]
        exact goStore_ofNat (x : ℤ) (by omega)
      have hone : sweep a b prev d ((List.range' j (n + 1)).map fun j : ℕ => 2 * (j : ℤ) - d) cur =
          if (a.length : ℤ) ≤ x ∧ (b.length : ℤ) ≤ y then some (cur.set (2 * j) (x : ℤ), true)
          else sweep a b prev d ((List.range' (j + 1) n).map fun j : ℕ => 2 * (j : ℤ) - d)
            (cur.set (2 * j) (x : ℤ)) := by
        show (startOf prev d (2 * (j : ℤ) - d)).bind _ = _
        rw [hstart, Option.bind_some]
        show (slide a b x₀ (x₀ - (2 * (j : ℤ) - d))).bind _ = _
        rw [hslide, Option.bind_some]
        show (goStore cur (2 * (j : ℤ) - d + d) (x : ℤ)).bind _ = _
        rw [hstore, Option.bind_some]
      rw [hone]
      by_cases hhit : (a.length : ℤ) ≤ x ∧ (b.length : ℤ) ≤ y
      · rw [if_pos hhit]
        exact ⟨_, true, rfl, .inr ⟨rfl, x, y, hfar, by omega, by omega⟩⟩
      · rw [if_neg hhit]
        refine ih (j + 1) _ (by omega) (by rw [List.length_set, hlength]) fun i hi => ?_
        obtain hi | rfl := Nat.lt_succ_iff_lt_or_eq.mp hi
        · rw [List.getElem?_set_ne (by omega)]
          exact hdone i hi
        · rw [List.getElem?_set_self (by omega)]
          exact ⟨x, y, rfl, hdiagonal, hfar, by omega⟩

/-- A round of `myers`: the next row, or a point behind the end of both lists. -/
theorem sweep_spec (hprev : ∀ d', d = d' + 1 → Row a b d' prev) :
    ∃ row found, sweep a b prev d (diagonals d) (List.replicate (2 * d + 1) 0) =
        some (row, found) ∧
      (found = false ∧ Row a b d row ∨
        found = true ∧ ∃ x y, Furthest a b d x y ∧ a.length ≤ x ∧ b.length ≤ y) :=
  sweep_from hprev (d + 1) 0 _ (Nat.zero_add _) List.length_replicate
    fun i hi => absurd hi (Nat.not_lt_zero i)

/-- A row without a hit: as many edits do not reach the end. -/
theorem Row.not_path {row : List ℤ} (h : Row a b d row) : ¬Path a b d a.length b.length := by
  intro hpath
  obtain ⟨h₁, h₂, h₃⟩ := hpath.bounds
  obtain ⟨x, y, -, hdiagonal, hfar, hno⟩ := h.points ((a.length + d - b.length) / 2) (by omega)
  have hle := hfar.2 _ _ hpath (by omega)
  omega

end Rows

/-! ## The way back -/

section Back

variable {a b : List String}

/-- The loop back over a run emits its lines. -/
theorem unwind_spec {x s : ℕ} (hx : x + s ≤ a.length) (y : ℕ) (ops : List DiffOp) :
    unwind a s ((x + s : ℕ) : ℤ) ((y + s : ℕ) : ℤ) ops =
      some ((x : ℤ), (y : ℤ), each .keep ((a.drop x).take s) ++ ops) := by
  induction s generalizing ops with
  | zero => rfl
  | succ s ih =>
      have hlt : x + s < a.length := by omega
      have hback (z : ℕ) : ((z + (s + 1) : ℕ) : ℤ) - 1 = ((z + s : ℕ) : ℤ) := by omega
      show (goIndex a (((x + (s + 1) : ℕ) : ℤ) - 1)).bind _ = _
      rw [hback x, goIndex_ofNat, List.getElem?_eq_getElem hlt, Option.bind_some, hback y,
        ih (by omega)]
      have htake : (a.drop x).take (s + 1) = (a.drop x).take s ++ [a[x + s]] := by
        rw [List.take_add_one, List.getElem?_drop, List.getElem?_eq_getElem hlt]
        rfl
      rw [htake, each_append, List.append_assoc]
      rfl

theorem take_run {x s : ℕ} (l : List String) : l.take x ++ (l.drop x).take s = l.take (x + s) :=
  (List.take_add).symm

/-- Lines that agree are the same lines of both lists. -/
theorem take_drop_eq {x y s : ℕ} (h : ∀ i < s, Match a b (x + i) (y + i)) :
    (a.drop x).take s = (b.drop y).take s := by
  refine List.ext_getElem? fun i => ?_
  rw [List.getElem?_take, List.getElem?_take]
  split_ifs with hi
  · obtain ⟨c, ha, hb⟩ := h i hi
    rw [List.getElem?_drop, List.getElem?_drop, ha, hb]
  · rfl

/-- From the furthest point of a diagonal, the rows lead back to the start, and the operations on
the way are a script with one edit for each row. -/
theorem backtrackFrom_spec {rows : List (List ℤ)} {d x y : ℕ}
    (hrows : ∀ i < d, ∃ row, rows[i]? = some row ∧ Row a b i row) (h : Furthest a b d x y)
    (hx : x ≤ a.length) (hy : y ≤ b.length) (ops : List DiffOp) :
    ∃ script, backtrackFrom a b rows d x y ops = some (script ++ ops) ∧
      source script = a.take x ∧ target script = b.take y ∧ cost script = d := by
  induction d generalizing x y ops with
  -- without an edit the script keeps everything
  | zero =>
      obtain ⟨rfl, hmatch⟩ := h.1.of_zero
      have hunwind := unwind_spec (a := a) (x := 0) (s := x) (by omega) 0 ops
      rw [Nat.zero_add, List.drop_zero] at hunwind
      refine ⟨each .keep (a.take x), ?_, source_each_keep _, ?_, cost_each_keep _⟩
      · show (unwind a (min (x : ℤ) x).toNat x x ops).bind _ = _
        rw [Int.min_self, Int.toNat_natCast, hunwind]
        rfl
      · rw [target_each_keep]
        refine take_drop_eq (a := a) (b := b) (x := 0) (y := 0) (s := x) fun i hi => ?_
        rw [Nat.zero_add]
        exact hmatch i hi
  | succ d ih =>
      obtain ⟨row, htrace, hrow⟩ := hrows d (Nat.lt_succ_self d)
      obtain ⟨h₁, h₂, h₃⟩ := h.1.bounds
      have hd : (((d + 1 : ℕ) : ℤ)) = (d : ℤ) + 1 := by omega
      have hrest {x y : ℕ} (h : Furthest a b d x y) (hx : x ≤ a.length) (hy : y ≤ b.length)
          (ops : List DiffOp) := ih (fun i hi => hrows i (Nat.lt_succ_of_lt hi)) h hx hy ops
      -- the last edit was a step down or a step to the right, as `backtrack` reads off the row
      obtain ⟨x', y', habove, hread, hdiagonal, hfar, hnext⟩ |
          ⟨x', y', habove, hread, hdiagonal, hfar, hnext⟩ :=
        hrow.next (j := (x + (d + 1) - y) / 2) (k := (x : ℤ) - y) (by omega) (by omega)
      · -- Down: the rest of the run is unwound to the point, and one line of `b` is inserted.
        obtain ⟨rfl, rfl⟩ := h.unique hnext (by omega)
        have hlines := take_drop_eq (match_run a b x' (y' + 1))
        generalize run a b x' (y' + 1) = s at *
        have hlt : y' < b.length := by omega
        obtain ⟨script, hback, hsource, htarget, hcost⟩ := hrest hfar (by omega) (by omega)
          (⟨.insert, b[y']⟩ :: (each .keep ((a.drop x').take s) ++ ops))
        refine ⟨script ++ ⟨.insert, b[y']⟩ :: each .keep ((a.drop x').take s), ?_, ?_, ?_, ?_⟩
        · unfold backtrackFrom
          rw [goIndex_ofNat, htrace]
          simp only [Option.bind_eq_bind, Option.bind_some]
          rw [habove]
          simp only [Option.bind_some, if_pos]
          rw [hread]
          simp only [Option.bind_some]
          rw [show (min (((x' + s : ℕ) : ℤ) - x') (((y' + 1 + s : ℕ) : ℤ) -
            (x' - (((x' + s : ℕ) : ℤ) - ((y' + 1 + s : ℕ) : ℤ) + 1)))).toNat = s by omega,
            unwind_spec hx (y' + 1) ops]
          simp only [Option.bind_some, if_pos]
          rw [show ((y' + 1 : ℕ) : ℤ) - 1 = (y' : ℤ) by omega, goIndex_ofNat,
            List.getElem?_eq_getElem hlt, Option.bind_some, hback, List.append_assoc]
          rfl
        · rw [source_append, source_insert, source_each_keep, hsource, take_run]
        · rw [target_append, target_insert, target_each_keep, htarget, hlines,
            Nat.add_assoc, Nat.add_comm 1 s, ← take_run, List.drop_eq_getElem_cons hlt]
          rfl
        · rw [cost_append, cost_insert, cost_each_keep, hcost]
      · -- To the right: the run is unwound to the point behind, and one line of `a` is deleted.
        obtain ⟨rfl, rfl⟩ := h.unique hnext (by omega)
        have hlines := take_drop_eq (match_run a b (x' + 1) y')
        generalize run a b (x' + 1) y' = s at *
        have hlt : x' < a.length := by omega
        obtain ⟨script, hback, hsource, htarget, hcost⟩ := hrest hfar (by omega) (by omega)
          (⟨.delete, a[x']⟩ :: (each .keep ((a.drop (x' + 1)).take s) ++ ops))
        refine ⟨script ++ ⟨.delete, a[x']⟩ :: each .keep ((a.drop (x' + 1)).take s), ?_, ?_, ?_, ?_⟩
        · unfold backtrackFrom
          rw [goIndex_ofNat, htrace]
          simp only [Option.bind_eq_bind, Option.bind_some]
          rw [habove]
          simp only [Option.bind_some, Bool.false_eq_true, if_false]
          rw [hread]
          simp only [Option.bind_some]
          rw [show (min (((x' + 1 + s : ℕ) : ℤ) - x') (((y' + s : ℕ) : ℤ) -
            (x' - (((x' + 1 + s : ℕ) : ℤ) - ((y' + s : ℕ) : ℤ) - 1)))).toNat = s by omega,
            unwind_spec hx y' ops]
          simp only [Option.bind_some]
          rw [if_neg (by omega), show ((x' + 1 : ℕ) : ℤ) - 1 = (x' : ℤ) by omega, goIndex_ofNat,
            List.getElem?_eq_getElem hlt, Option.bind_some, hback, List.append_assoc]
          rfl
        · rw [source_append, source_delete, source_each_keep, hsource, Nat.add_assoc,
            Nat.add_comm 1 s, ← take_run, List.drop_eq_getElem_cons hlt]
          rfl
        · rw [target_append, target_delete, target_each_keep, htarget, hlines, take_run]
        · rw [cost_append, cost_delete, cost_each_keep, hcost]

/-! ## The search -/

/-- `search` gives up if no number of edits within its fuel reaches the end, and else it returns a
script with the least number. -/
theorem search_spec (fuel d : ℕ) {rows : List (List ℤ)} {prev : List ℤ} (hlength : rows.length = d)
    (hrows : ∀ i < d, ∃ row, rows[i]? = some row ∧ Row a b i row)
    (hprev : ∀ d', d = d' + 1 → Row a b d' prev) :
    (search a b fuel d rows prev = some none ∧
        ∀ e < d + fuel, ¬Path a b e a.length b.length) ∨
      ∃ script, search a b fuel d rows prev = some (some script) ∧ source script = a ∧
        target script = b ∧ cost script < d + fuel ∧
        ∀ e < cost script, ¬Path a b e a.length b.length := by
  induction fuel generalizing d rows prev with
  -- every row so far stands on points in front of the end, and so does what it reaches
  | zero =>
      refine .inl ⟨rfl, fun e he => ?_⟩
      obtain ⟨row, -, hrow⟩ := hrows e he
      exact hrow.not_path
  | succ fuel ih =>
      obtain ⟨row, found, hsweep, hend⟩ := sweep_spec hprev
      have hrows' : ∀ i < d, ∃ row', (rows ++ [row])[i]? = some row' ∧ Row a b i row' := by
        intro i hi
        rw [List.getElem?_append_left (by omega)]
        exact hrows i hi
      unfold search
      rw [hsweep]
      simp only [Option.bind_eq_bind, Option.bind_some]
      -- the sweep has filled the row, or found a point beyond the end of both lists
      obtain ⟨rfl, hrow⟩ | ⟨rfl, x, y, hfar, hx, hy⟩ := hend
      · rw [if_neg Bool.false_ne_true, show d + (fuel + 1) = d + 1 + fuel by omega]
        refine ih (d + 1) (by rw [List.length_append, hlength]; rfl) ?_ ?_
        · intro i hi
          obtain hi | rfl := Nat.lt_succ_iff_lt_or_eq.mp hi
          · exact hrows' i hi
          · refine ⟨row, ?_, hrow⟩
            rw [List.getElem?_append_right (by omega), hlength, Nat.sub_self]
            rfl
        · intro d' hd
          obtain rfl := Nat.succ.inj hd
          exact hrow
      · -- The rows before have no hit, so this one is in the corner of the grid.
        have hleast : ∀ e < d, ¬Path a b e a.length b.length := by
          intro e he
          obtain ⟨row', -, hrow'⟩ := hrows e he
          exact hrow'.not_path
        obtain ⟨rfl, rfl⟩ := hfar.1.corner hx hy hleast
        obtain ⟨script, hback, hsource, htarget, rfl⟩ :=
          backtrackFrom_spec hrows' hfar (Nat.le_refl _) (Nat.le_refl _) []
        refine .inr ⟨script, ?_, ?_, ?_, by omega, hleast⟩
        · rw [if_pos rfl]
          unfold backtrack
          rw [show (rows ++ [row]).length - 1 = cost script by
            rw [List.length_append, hlength]; rfl, hback, List.append_nil]
          rfl
        · rw [hsource, List.take_length]
        · rw [htarget, List.take_length]

/-- A script between the lists is a path to the corner. -/
theorem not_script {e : ℕ} (h : ¬Path a b e a.length b.length) {s : List (Edit String)}
    (hsource : source s = a) (htarget : target s = b) : cost s ≠ e := by
  rintro rfl
  have hpath := Path.of_script (a := a) (b := b) (s := s) .start (by rw [hsource]; rfl)
    (by rw [htarget]; rfl) (Nat.zero_le _) (Nat.zero_le _)
  rw [Nat.zero_add] at hpath
  exact h hpath

/-- `myers` gives up exactly if more edits are needed than it may use, and else it returns a script
with the least number of edits. -/
theorem myers_spec (a b : List String) (maxD : ℕ) :
    (myers a b maxD = some none ∧
        ∀ s, source s = a → target s = b → maxD < cost s) ∨
      ∃ script, myers a b maxD = some (some script) ∧ source script = a ∧ target script = b ∧
        cost script ≤ maxD ∧ ∀ s, source s = a → target s = b → cost script ≤ cost s := by
  unfold myers
  split_ifs with hempty
  · obtain rfl := List.length_eq_zero_iff.mp hempty.1
    obtain rfl := List.length_eq_zero_iff.mp hempty.2
    exact .inr ⟨[], rfl, rfl, rfl, Nat.zero_le _, fun _ _ _ => Nat.zero_le _⟩
  · obtain ⟨hsearch, hno⟩ | ⟨script, hsearch, hsource, htarget, hle, hleast⟩ :=
      search_spec (a := a) (b := b) (maxD + 1) 0 (List.length_nil (α := List ℤ))
        (fun i hi => absurd hi (Nat.not_lt_zero i))
        fun d' hd => absurd hd (Nat.succ_ne_zero d').symm
    · refine .inl ⟨hsearch, fun s hs ht => Nat.lt_of_not_le fun hle => ?_⟩
      exact not_script (hno (cost s) (by omega)) hs ht rfl
    · refine .inr ⟨script, hsearch, hsource, htarget, by omega, fun s hs ht => ?_⟩
      exact Nat.le_of_not_lt fun hlt => not_script (hleast (cost s) hlt) hs ht rfl

end Back

/-! ## The common ends -/

/-- Two lists that agree at the front share that front. -/
theorem take_agree (a b : List String) : a.take (agree a b) = b.take (agree a b) := by
  have h := take_drop_eq (x := 0) (y := 0) (s := agree a b) (a := a) (b := b) fun i hi => by
    rw [Nat.zero_add]
    exact match_agree a b i hi
  exact h

theorem agree_le (a b : List String) : agree a b ≤ a.length ∧ agree a b ≤ b.length := by
  cases hn : agree a b with
  | zero => exact ⟨Nat.zero_le _, Nat.zero_le _⟩
  | succ n => exact (match_agree a b n (by omega)).lt

/-- Behind the common front, two lists share what agrees from the end. -/
theorem drop_agree {a b : List String} {p q : ℕ}
    (hq : agree (a.drop p).reverse (b.drop p).reverse = q) (hp : p ≤ a.length ∧ p ≤ b.length) :
    p + q ≤ a.length ∧ p + q ≤ b.length ∧ a.drop (a.length - q) = b.drop (b.length - q) := by
  subst hq
  obtain ⟨hqa, hqb⟩ := agree_le (a.drop p).reverse (b.drop p).reverse
  have htake := take_agree (a.drop p).reverse (b.drop p).reverse
  generalize agree (a.drop p).reverse (b.drop p).reverse = q at *
  rw [List.length_reverse, List.length_drop] at hqa hqb
  refine ⟨by omega, by omega, ?_⟩
  rw [List.take_reverse, List.take_reverse, List.drop_drop, List.drop_drop, List.length_drop,
    List.length_drop] at htake
  rw [show a.length - q = p + (a.length - p - q) by omega,
    show b.length - q = p + (b.length - p - q) by omega]
  exact List.reverse_injective htake

theorem cut (l : List String) {p r : ℕ} (h : p ≤ r) :
    l = l.take p ++ (l.take r).drop p ++ l.drop r := by
  have htake : l.take p = (l.take r).take p := by rw [List.take_take, Nat.min_eq_left h]
  rw [htake, List.take_append_drop, List.take_append_drop]

/-- The lines in front of, between and behind the two places where `DiffLines` cuts. -/
theorem alignLines_cut (a b : List String) :
    ∃ front middleA middleB back, a = front ++ middleA ++ back ∧ b = front ++ middleB ++ back ∧
      alignLines a b = (myers middleA middleB maxDiffEdits).map fun found =>
        (each .keep front ++ found.getD (each .delete middleA ++ each .insert middleB) ++
          each .keep back, found.isSome) := by
  obtain ⟨hpa, hpb⟩ := agree_le a b
  have hfront := take_agree a b
  obtain ⟨hqa, hqb, hback⟩ := drop_agree (p := agree a b) rfl ⟨hpa, hpb⟩
  unfold alignLines
  dsimp only
  generalize agree (a.drop (agree a b)).reverse (b.drop (agree a b)).reverse = q at *
  generalize agree a b = p at *
  have hcutA := cut a (p := p) (r := a.length - q) (by omega)
  have hcutB := cut b (p := p) (r := b.length - q) (by omega)
  refine ⟨a.take p, (a.take (a.length - q)).drop p, (b.take (b.length - q)).drop p,
    a.drop (a.length - q), hcutA, ?_, ?_⟩
  · rw [hfront, hback]
    exact hcutB
  · have hmiddleA : goSlice a p ((a.length : ℤ) - q) = some ((a.take (a.length - q)).drop p) := by
      rw [show (a.length : ℤ) - q = ((a.length - q : ℕ) : ℤ) by omega]
      exact goSlice_ofNat (by omega) (by omega)
    have hmiddleB : goSlice b p ((b.length : ℤ) - q) = some ((b.take (b.length - q)).drop p) := by
      rw [show (b.length : ℤ) - q = ((b.length - q : ℕ) : ℤ) by omega]
      exact goSlice_ofNat (by omega) (by omega)
    have hhead : goSlice a 0 p = some (a.take p) := goSlice_ofNat (Nat.zero_le p) hpa
    have htail : goSlice a ((a.length : ℤ) - q) a.length = some (a.drop (a.length - q)) := by
      rw [show (a.length : ℤ) - q = ((a.length - q : ℕ) : ℤ) by omega,
        goSlice_ofNat (Nat.sub_le _ _) (Nat.le_refl _), List.take_length]
    rw [hmiddleA, hmiddleB, hhead, htail]
    simp only [Option.bind_eq_bind, Option.bind_some]
    cases myers ((a.take (a.length - q)).drop p) ((b.take (b.length - q)).drop p) maxDiffEdits with
    | none => rfl
    | some found => rfl

/-- The operations of `DiffLines` are a script between the lists.  If the lines were aligned then
it has the least number of changes, which is at most `maxDiffEdits`, and else no script has so
few. -/
theorem alignLines_spec (a b : List String) :
    ∃ ops ok, alignLines a b = some (ops, ok) ∧ source ops = a ∧ target ops = b ∧
      (ok = true → cost ops ≤ maxDiffEdits ∧ ∀ n, Edits n a b → cost ops ≤ n) ∧
      (ok = false → ∀ n, Edits n a b → maxDiffEdits < n) := by
  obtain ⟨front, middleA, middleB, back, rfl, rfl, halign⟩ := alignLines_cut a b
  -- Edits of the whole lists are no fewer than edits of what is between the common ends.
  have hstrip {n : ℕ} (h : Edits n (front ++ middleA ++ back) (front ++ middleB ++ back)) :
      ∃ s, source s = middleA ∧ target s = middleB ∧ cost s ≤ n := by
    obtain ⟨m, hm, h⟩ := Edits.strip front back h
    obtain ⟨s, hsource, htarget, hcost⟩ := h.script
    exact ⟨s, hsource, htarget, Nat.le_trans hcost hm⟩
  obtain ⟨hmyers, hno⟩ | ⟨script, hmyers, hsource, htarget, hle, hleast⟩ :=
    myers_spec middleA middleB maxDiffEdits
  · rw [hmyers] at halign
    refine ⟨_, false, halign, by simp, by simp, fun h => absurd h Bool.false_ne_true, ?_⟩
    intro _ n hn
    obtain ⟨s, hs, ht, hcost⟩ := hstrip hn
    exact Nat.lt_of_lt_of_le (hno s hs ht) hcost
  · rw [hmyers] at halign
    refine ⟨_, true, halign, by simp [hsource], by simp [htarget], ?_, fun h => nomatch h⟩
    intro _
    have hcost : cost (each .keep front ++ script ++ each .keep back) = cost script := by simp
    rw [Option.getD_some, hcost]
    refine ⟨hle, fun n hn => ?_⟩
    obtain ⟨s, hs, ht, hcost⟩ := hstrip hn
    exact Nat.le_trans (hleast s hs ht) hcost

end BindPlane.ConfigDiff
