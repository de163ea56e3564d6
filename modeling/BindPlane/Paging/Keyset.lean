import Mathlib.Data.List.Basic
import Mathlib.Data.List.Nodup
import Mathlib.Order.Basic

/-!
# Pages of a list

A list that does not change is read page by page.  The next page begins behind the last row of the
page before: it is what `cut` selects for that row, and a row more than the page holds says whether
there is another.

**Complete walks.**  The pages of a walk are the list, in its order and without repetition, exactly
if at the end of every full page `cut` selects what is left of the list (`complete_iff`).  That a
walk which selects something else may still end, with rows missing or repeated, or not end at all,
makes no difference to it.

**Cuts.**  The library knows a cursor by its effect only, as a predicate that selects what comes
behind a row.  For a cursor that holds the sort key this is a comparison, and a walk is complete if
the comparison agrees with the order of the list; for other cursors the condition has to be checked
at the ends of full pages, and nowhere else.
-/

namespace Keyset

variable {α : Type} (cut : α → α → Bool) (n : ℕ) (l : List α)

/-- What is behind a position; without one, everything. -/
def select : Option α → List α
  | none => l
  | some r => l.filter (cut r)

/-- A walk of a number of requests at most: the pages, if it ends. -/
def walk : ℕ → Option α → Option (List (List α))
  | 0, _ => none
  | fuel + 1, position =>
      let rows := (select cut l position).take (n + 1)
      if n < rows.length then
        match rows[n - 1]? with
        | some last => (walk fuel (some last)).map (rows.take n :: ·)
        | none => none
      else some [rows]

/-- **A complete walk**: it ends, and its pages are the list. -/
def Complete : Prop := ∃ fuel pages, walk cut n l fuel none = some pages ∧ pages.flatten = l

/-- `r` is the last row of a full page in front of `rest`. -/
def Ends (r : α) (rest : List α) : Prop :=
  ∃ front, l = front ++ r :: rest ∧ n ∣ front.length + 1 ∧ rest ≠ []

variable {cut n l} {lt : α → α → Prop} {position : Option α} {rest : List α} {r : α}

/-- Of a sorted list, a cut that is closed upwards selects an end. -/
theorem filter_suffix {p : α → Bool} (hsorted : l.Pairwise lt)
    (hclosed : ∀ x y, p x = true → lt x y → p y = true) : l.filter p <:+ l := by
  induction l with
  | nil => exact List.suffix_refl _
  | cons x l ih =>
      obtain ⟨hx, hl⟩ := List.pairwise_cons.mp hsorted
      by_cases hp : p x = true
      · have hall : (x :: l).filter p = x :: l := by
          refine List.filter_eq_self.mpr fun y hy => ?_
          rcases List.mem_cons.mp hy with rfl | hy
          · exact hp
          · exact hclosed x y hp (hx y hy)
        exact hall.symm ▸ List.suffix_refl (x :: l)
      · rw [List.filter_cons_of_neg hp]
        exact (ih hl).trans (List.suffix_cons x l)

/-- A request for a full page with rows behind it. -/
theorem walk_more {front : List α} {fuel : ℕ} (hselect : select cut l position = front ++ r :: rest)
    (hn : front.length + 1 = n) (hne : rest ≠ []) :
    walk cut n l (fuel + 1) position =
      (walk cut n l fuel (some r)).map ((front ++ [r]) :: ·) := by
  have hsplit : front ++ r :: rest = (front ++ [r]) ++ rest := by
    rw [List.append_assoc, List.singleton_append]
  have hfront : (front ++ [r]).length = n := by rw [List.length_append, List.length_singleton, hn]
  obtain ⟨x, rest, rfl⟩ := List.exists_cons_of_ne_nil hne
  have hrows : (select cut l position).take (n + 1) = (front ++ [r]) ++ [x] := by
    rw [hselect, hsplit, ← hfront, List.take_length_add_append]
    rfl
  have hlength : n < ((front ++ [r]) ++ [x]).length := by
    rw [List.length_append, hfront, List.length_singleton]
    exact Nat.lt_succ_self n
  have hlast : ((front ++ [r]) ++ [x])[n - 1]? = some r := by
    rw [← hn, Nat.add_sub_cancel, List.append_assoc, List.getElem?_append_right (Nat.le_refl _),
      Nat.sub_self]
    rfl
  rw [walk, hrows, if_pos hlength, hlast]
  have htake : ((front ++ [r]) ++ [x]).take n = front ++ [r] := by
    rw [← hfront, List.take_left]
  rw [htake]

/-- The last request. -/
theorem walk_last {fuel : ℕ} (hle : (select cut l position).length ≤ n) :
    walk cut n l (fuel + 1) position = some [select cut l position] := by
  have hrows : (select cut l position).take (n + 1) = select cut l position :=
    List.take_of_length_le (by omega)
  rw [walk, hrows, if_neg (by omega)]

/-- Where a walk has pages, the first of them are the first rows that are selected. -/
theorem walk_head {fuel : ℕ} {pages : List (List α)} {x : α} {rows : List α} (hn : 0 < n)
    (h : walk cut n l fuel position = some pages) (hpages : pages.flatten = x :: rows) :
    ∃ tail, select cut l position = x :: tail := by
  cases fuel with
  | zero => cases h
  | succ fuel =>
      by_cases hle : (select cut l position).length ≤ n
      · rw [walk_last hle] at h
        cases h
        rw [List.flatten_singleton] at hpages
        exact ⟨rows, hpages⟩
      · -- the first page is not empty
        obtain ⟨y, tail, hselect⟩ := List.exists_cons_of_length_pos
          (show 0 < (select cut l position).length by omega)
        refine ⟨tail, ?_⟩
        rw [walk, hselect] at h
        split at h
        · split at h
          · obtain ⟨pages', -, rfl⟩ := Option.map_eq_some_iff.mp h
            obtain ⟨n, rfl⟩ : ∃ n', n = n' + 1 := ⟨n - 1, by omega⟩
            rw [List.flatten_cons, List.take_succ_cons, List.take_succ_cons, List.cons_append] at hpages
            rw [hselect, (List.cons.inj hpages).1]
          · cases h
        · next hlt =>
            rw [← hselect, List.length_take] at hlt
            omega

/-- Two ends of a list without repetition that begin with the same row are the same. -/
theorem suffix_unique {x : α} {tail tail' : List α} (hnodup : l.Nodup) (h : x :: tail <:+ l)
    (h' : x :: tail' <:+ l) : tail = tail' := by
  obtain ⟨front, rfl⟩ := h
  obtain ⟨front', heq⟩ := h'
  obtain ⟨-, htail, hcross⟩ := List.nodup_append.mp hnodup
  exact ((List.append_cons_inj_of_notMem (fun hmem => hcross x hmem x List.mem_cons_self rfl)
    (List.nodup_cons.mp htail).1).mp heq.symm).2.2

/-- More rows than a page holds: the first page, its last row apart, and the rows behind it. -/
theorem exists_page (hn : 0 < n) (hlt : n < rest.length) :
    ∃ front r rest', rest = front ++ r :: rest' ∧ front.length + 1 = n ∧ rest' ≠ [] := by
  have hlast : n - 1 < rest.length := by omega
  refine ⟨rest.take (n - 1), rest[n - 1], rest.drop n, ?_, ?_, ?_⟩
  · conv_lhs => rw [← List.take_append_drop (n - 1) rest, List.drop_eq_getElem_cons hlast]
    rw [Nat.sub_add_cancel hn]
  · rw [List.length_take]
    omega
  · intro hnil
    have hlength := congrArg List.length hnil
    rw [List.length_drop, List.length_nil] at hlength
    omega

/-- A list of no more rows than a page holds has no full page in front of others. -/
theorem not_ends (hle : rest.length ≤ n) {post : List α} : ¬ Ends n rest r post := by
  rintro ⟨front, hsplit, hdvd, hne⟩
  have hlength := congrArg List.length hsplit
  rw [List.length_append, List.length_cons] at hlength
  have hpost := List.length_pos_of_ne_nil hne
  have hlow := Nat.le_of_dvd (Nat.succ_pos _) hdvd
  omega

/-- The full pages of a list are the first one and those of the rest. -/
theorem ends_iff {front post : List α} {r' : α} (hsplit : l = front ++ r :: rest)
    (hfront : front.length + 1 = n) (hne : rest ≠ []) :
    Ends n l r' post ↔ r' = r ∧ post = rest ∨ Ends n rest r' post := by
  have hpage : l = (front ++ [r]) ++ rest := by
    rw [hsplit, List.append_assoc, List.singleton_append]
  have hlength : (front ++ [r]).length = n := by
    rw [List.length_append, List.length_singleton, hfront]
  constructor
  · rintro ⟨front', hsplit', hdvd, hne'⟩
    by_cases hfirst : front'.length < n
    · -- the end of the first page
      have hsame : front'.length = front.length := by
        have hlow := Nat.le_of_dvd (Nat.succ_pos _) hdvd
        omega
      obtain ⟨-, hcons⟩ := List.append_inj (hsplit'.symm.trans hsplit) hsame
      exact Or.inl (List.cons.inj hcons)
    · -- the end of a later one
      have hboth : front' ++ r' :: post = (front ++ [r]) ++ rest := hsplit'.symm.trans hpage
      obtain ⟨middle, hmiddle⟩ : front ++ [r] <+: front' :=
        List.prefix_of_prefix_length_le ⟨rest, hboth.symm⟩ (List.prefix_append front' _) (by omega)
      rw [← hmiddle, List.append_assoc] at hboth
      refine Or.inr ⟨middle, (List.append_cancel_left hboth).symm, ?_, hne'⟩
      rw [← hmiddle, List.length_append, hlength, Nat.add_assoc] at hdvd
      exact (Nat.dvd_add_right (Nat.dvd_refl n)).mp hdvd
  · rintro (⟨rfl, rfl⟩ | ⟨front', rfl, hdvd, hne'⟩)
    · exact ⟨front, hsplit, ⟨1, by rw [hfront, Nat.mul_one]⟩, hne⟩
    · refine ⟨(front ++ [r]) ++ front', by rw [hpage, List.append_assoc (front ++ [r])], ?_, hne'⟩
      rw [List.length_append, hlength, Nat.add_assoc]
      exact Nat.dvd_add (Nat.dvd_refl n) hdvd

/-- **The walk from a position** has the rest of the list as its pages exactly if every full page of
the rest is cut right.

The induction is on what is left of the list, and the end of a full page is the only place at which
the cursor is used. -/
theorem walk_iff (hn : 0 < n) (hnodup : l.Nodup) (hcut : ∀ r ∈ l, l.filter (cut r) <:+ l)
    (hrest : rest <:+ l) (hselect : select cut l position = rest) :
    (∃ fuel pages, walk cut n l fuel position = some pages ∧ pages.flatten = rest) ↔
      ∀ r post, Ends n rest r post → l.filter (cut r) = post := by
  -- the induction is on what is left, which every full page shortens
  obtain ⟨k, hk⟩ : ∃ k, rest.length = k := ⟨_, rfl⟩
  induction k using Nat.strongRecOn generalizing rest position with
  | _ k ih =>
      by_cases hle : rest.length ≤ n
      · refine iff_of_true ⟨1, [rest], ?_, List.flatten_singleton⟩
          fun r post hends => absurd hends (not_ends hle)
        rw [← hselect] at hle
        rw [walk_last hle, hselect]
      · obtain ⟨front, r, rest', hsplit, hfront, hne⟩ := exists_page hn (Nat.lt_of_not_le hle)
        have hpage : rest = (front ++ [r]) ++ rest' := by
          rw [hsplit, List.append_assoc, List.singleton_append]
        have hr : r ∈ l := hrest.subset (by rw [hsplit]; simp)
        have hrest' : rest' <:+ l := List.IsSuffix.trans ⟨front ++ [r], hpage.symm⟩ hrest
        have hshorter : rest'.length < k := by
          rw [← hk, hpage, List.length_append, List.length_append, List.length_singleton]
          omega
        have hwalk : ∀ fuel, walk cut n l (fuel + 1) position =
            (walk cut n l fuel (some r)).map ((front ++ [r]) :: ·) :=
          fun fuel => walk_more (by rw [hselect, hsplit]) hfront hne
        simp only [ends_iff hsplit hfront hne]
        constructor
        · rintro ⟨fuel, pages, hpages, hflatten⟩
          obtain ⟨fuel, rfl⟩ : ∃ fuel', fuel = fuel' + 1 := by
            cases fuel with
            | zero => cases hpages
            | succ fuel => exact ⟨fuel, rfl⟩
          rw [hwalk] at hpages
          obtain ⟨pages', hpages', rfl⟩ := Option.map_eq_some_iff.mp hpages
          have hflatten' : pages'.flatten = rest' := by
            rw [List.flatten_cons, hpage] at hflatten
            exact List.append_cancel_left hflatten
          have hsame : select cut l (some r) = rest' := by
            obtain ⟨x, tail, hx⟩ := List.exists_cons_of_ne_nil hne
            obtain ⟨tail', htail⟩ := walk_head hn hpages' (hflatten'.trans hx)
            replace htail : l.filter (cut r) = x :: tail' := htail
            have hsuffix := hcut r hr
            rw [htail] at hsuffix
            rw [hx] at hrest'
            rw [hx, ← suffix_unique hnodup hsuffix hrest']
            exact htail
          rintro r' post (⟨rfl, rfl⟩ | hends)
          · exact hsame
          · exact (ih rest'.length hshorter hrest' hsame rfl).mp
              ⟨fuel, pages', hpages', hflatten'⟩ r' post hends
        · intro hall
          have hsame : select cut l (some r) = rest' := hall r rest' (Or.inl ⟨rfl, rfl⟩)
          obtain ⟨fuel, pages, hpages, hflatten⟩ :=
            (ih rest'.length hshorter hrest' hsame rfl).mpr
              fun r' post hends => hall r' post (Or.inr hends)
          refine ⟨fuel + 1, (front ++ [r]) :: pages, ?_, ?_⟩
          · rw [hwalk, hpages]
            rfl
          · rw [List.flatten_cons, hflatten, hpage]

/-- **When a walk is complete.** -/
theorem complete_iff (hn : 0 < n) (hnodup : l.Nodup) (hcut : ∀ r ∈ l, l.filter (cut r) <:+ l) :
    Complete cut n l ↔ ∀ r rest, Ends n l r rest → l.filter (cut r) = rest :=
  walk_iff hn hnodup hcut (List.suffix_refl l) rfl

/-- Of a sorted list, what is left behind a row is what is greater. -/
theorem filter_eq_rest_iff {front : List α} [DecidableRel lt] (hsorted : l.Pairwise lt)
    (hirrefl : ∀ x, ¬ lt x x) (hasymm : ∀ x y, lt x y → ¬ lt y x)
    (hsplit : l = front ++ r :: rest) :
    l.filter (cut r) = rest ↔ ∀ x ∈ l, cut r x = true ↔ lt r x := by
  have hbehind : l.filter (fun x => decide (lt r x)) = rest := by
    rw [hsplit] at hsorted ⊢
    obtain ⟨-, htail, hcross⟩ := List.pairwise_append.mp hsorted
    obtain ⟨hr, -⟩ := List.pairwise_cons.mp htail
    have hfront : front.filter (fun x => decide (lt r x)) = [] :=
      List.filter_eq_nil_iff.mpr fun x hx => by
        rw [decide_eq_true_eq]
        exact hasymm x r (hcross x hx r List.mem_cons_self)
    have hrest : rest.filter (fun x => decide (lt r x)) = rest :=
      List.filter_eq_self.mpr fun x hx => decide_eq_true (hr x hx)
    rw [List.filter_append, hfront, List.filter_cons_of_neg (by simpa using hirrefl r), hrest,
      List.nil_append]
  constructor
  · intro h x hx
    have hmem : x ∈ l.filter (cut r) ↔ x ∈ l.filter (fun x => decide (lt r x)) := by
      rw [h, hbehind]
    rw [List.mem_filter, List.mem_filter, decide_eq_true_eq] at hmem
    exact ⟨fun hcut => (hmem.mp ⟨hx, hcut⟩).2, fun hlt => (hmem.mpr ⟨hx, hlt⟩).2⟩
  · intro h
    rw [← hbehind]
    refine List.filter_congr fun x hx => ?_
    rw [Bool.eq_iff_iff, decide_eq_true_eq]
    exact h x hx

end Keyset
