import Mathlib.Data.List.Sort
import BindPlane.Paging.Keyset

/-!
# Pages of a table that changes

A reader lists a table page by page, the greatest position first, while others move the rows.  A
request has the rows behind those that were returned before, as the table is then.

**What stays.**  Nothing can be said of a row that comes or goes while the table is read.  A
position that has a row throughout is returned once: at every request it is among what was returned,
or behind all of it (`Progress`).
-/

namespace Moving

variable {α π : Type} [LinearOrder π] (pos : α → π) (n : ℕ)

/-! ## One page -/

/-- Rows in the order of the list. -/
def newest (rows : List α) : List α := rows.insertionSort fun a b => pos b ≤ pos a

/-- The page of some rows, one more than it holds, with its last row where there are more. -/
def pageOf (rows : List α) : List α × Option α :=
  if n < rows.length then (rows.take n, rows[n - 1]?) else (rows, none)

/-- A position is behind everything that was returned. -/
def Behind (returned : List α) (p : π) : Prop := ∀ r ∈ returned, p < pos r

instance (returned : List α) (p : π) : Decidable (Behind pos returned p) :=
  inferInstanceAs (Decidable (∀ r ∈ returned, p < pos r))

variable {pos n} {rows returned : List α}

theorem mem_newest {r : α} : r ∈ newest pos rows ↔ r ∈ rows := List.mem_insertionSort _

/-- Rows of different positions are in strict order. -/
theorem newest_sorted (h : (rows.map pos).Nodup) :
    ((newest pos rows).map pos).Pairwise (· > ·) := by
  have hle : (newest pos rows).Pairwise fun a b => pos b ≤ pos a :=
    List.pairwise_insertionSort (fun a b => pos b ≤ pos a) rows
  have hdiffer : ((newest pos rows).map pos).Nodup :=
    ((List.perm_insertionSort (fun a b => pos b ≤ pos a) rows).map pos).nodup_iff.mpr h
  rw [List.pairwise_map]
  refine (hle.and (List.pairwise_map.mp hdiffer)).imp fun {a b} hab => ?_
  exact lt_of_le_of_ne hab.1 (Ne.symm hab.2)

/-- A page is all there is, or the first rows. -/
theorem pageOf_cases (hn : 0 < n) (rows : List α) :
    pageOf n (rows.take (n + 1)) = (rows, none) ∨
      ∃ front r rest, rows = (front ++ [r]) ++ rest ∧
        pageOf n (rows.take (n + 1)) = (front ++ [r], some r) := by
  by_cases hle : rows.length ≤ n
  · refine Or.inl ?_
    rw [pageOf, List.take_of_length_le (by omega), if_neg (by omega)]
  · obtain ⟨front, r, rest, hsplit, hfront, hne⟩ := Keyset.exists_page hn (Nat.lt_of_not_le hle)
    have hpage : rows = (front ++ [r]) ++ rest := by
      rw [hsplit, List.append_assoc, List.singleton_append]
    have hlength : (front ++ [r]).length = n := by
      rw [List.length_append, List.length_singleton, hfront]
    refine Or.inr ⟨front, r, rest, hpage, ?_⟩
    have hmore : n < (rows.take (n + 1)).length := by
      rw [List.length_take]
      omega
    have htake : (rows.take (n + 1)).take n = front ++ [r] := by
      rw [List.take_take, Nat.min_eq_left (Nat.le_succ n), hpage, ← hlength, List.take_left]
    have hlast : (rows.take (n + 1))[n - 1]? = some r := by
      rw [List.getElem?_take_of_lt (by omega), hsplit, ← hfront, Nat.add_sub_cancel,
        List.getElem?_append_right (Nat.le_refl _), Nat.sub_self]
      rfl
    rw [pageOf, if_pos hmore, htake, hlast]

/-- To be behind rows in strict order is to be behind the last of them. -/
theorem behind_concat {r : α} {p : π} (hsorted : ((returned ++ [r]).map pos).Pairwise (· > ·)) :
    Behind pos (returned ++ [r]) p ↔ p < pos r := by
  constructor
  · intro h
    exact h r (List.mem_append_right _ (List.mem_singleton_self r))
  · intro h q hq
    rcases List.mem_append.mp hq with hq | hq
    · rw [List.map_append, List.pairwise_append] at hsorted
      exact h.trans (hsorted.2.2 (pos q) (List.mem_map_of_mem hq) (pos r)
        (List.mem_singleton_self _))
    · rw [List.mem_singleton.mp hq]
      exact h

/-! ## What was returned -/

/-- **How far a reader is.**  `K` are the positions that stay.

A position that stays cannot move from one side to the other: it is returned in the request that
reaches it, and was there then.  So the invariant speaks of the positions that stay and of what was
returned, and of no state. -/
structure Progress (pos : α → π) (K : π → Prop) (returned : List α) : Prop where
  sorted : (returned.map pos).Pairwise (· > ·)
  kept : ∀ p, K p → p ∈ returned.map pos ∨ Behind pos returned p

variable {K : π → Prop}

theorem Progress.nil : Progress pos K [] where
  sorted := List.Pairwise.nil
  kept _ _ := Or.inr (List.forall_mem_nil _)

theorem Progress.nodup (h : Progress pos K returned) : returned.Nodup :=
  List.Nodup.of_map pos (h.sorted.imp fun hgt => ne_of_gt hgt)

/-- What a request returns, of rows behind all that was returned. -/
theorem Progress.request (h : Progress pos K returned) (hn : 0 < n)
    (hnodup : (rows.map pos).Nodup) (hbehind : ∀ r ∈ rows, Behind pos returned (pos r))
    (hall : ∀ p, K p → Behind pos returned p → p ∈ rows.map pos) {items : List α}
    {last : Option α} (hpage : pageOf n ((newest pos rows).take (n + 1)) = (items, last)) :
    Progress pos K (returned ++ items) ∧ (∀ r ∈ items, r ∈ rows) ∧
      (last = none → ∀ p, K p → p ∈ (returned ++ items).map pos) ∧
        ∀ r ∈ last, ∃ front, returned ++ items = front ++ [r] ∧ r ∈ items := by
  -- what is listed is a part of the rows, and what is not is behind it
  have hmore : ∀ rest, newest pos rows = items ++ rest →
      Progress pos K (returned ++ items) ∧ ∀ r ∈ items, r ∈ rows := by
    intro rest hsplit
    have hsorted := newest_sorted hnodup
    rw [hsplit, List.map_append, List.pairwise_append] at hsorted
    obtain ⟨hitems, -, hcross⟩ := hsorted
    have hsub : ∀ r ∈ items, r ∈ rows := fun r hr =>
      mem_newest.mp (hsplit ▸ List.mem_append_left rest hr)
    refine ⟨⟨?_, fun p hp => ?_⟩, hsub⟩
    · rw [List.map_append, List.pairwise_append]
      refine ⟨h.sorted, hitems, fun q hq p hp => ?_⟩
      obtain ⟨r, hr, rfl⟩ := List.mem_map.mp hp
      obtain ⟨s, hs, rfl⟩ := List.mem_map.mp hq
      exact hbehind r (hsub r hr) s hs
    · rw [List.map_append, List.mem_append]
      rcases h.kept p hp with hmem | hlate
      · exact Or.inl (Or.inl hmem)
      · obtain ⟨r, hr, rfl⟩ := List.mem_map.mp (hall p hp hlate)
        have hfound : r ∈ newest pos rows := mem_newest.mpr hr
        rw [hsplit, List.mem_append] at hfound
        rcases hfound with hr | hr
        · exact Or.inl (Or.inr (List.mem_map_of_mem hr))
        · refine Or.inr fun q hq => ?_
          rcases List.mem_append.mp hq with hq | hq
          · exact hlate q hq
          · exact hcross (pos q) (List.mem_map_of_mem hq) (pos r) (List.mem_map_of_mem hr)
  rcases pageOf_cases hn (newest pos rows) with heq | ⟨front, r, rest, hsplit, heq⟩
  · obtain ⟨rfl, rfl⟩ := Prod.mk.inj (heq.symm.trans hpage)
    obtain ⟨hprogress, hsub⟩ := hmore [] (List.append_nil _).symm
    refine ⟨hprogress, hsub, fun _ p hp => ?_, fun r hr => by cases hr⟩
    rw [List.map_append, List.mem_append]
    refine (h.kept p hp).imp_right fun hlate => ?_
    obtain ⟨r, hr, rfl⟩ := List.mem_map.mp (hall p hp hlate)
    exact List.mem_map_of_mem (mem_newest.mpr hr)
  · obtain ⟨rfl, rfl⟩ := Prod.mk.inj (heq.symm.trans hpage)
    obtain ⟨hprogress, hsub⟩ := hmore rest hsplit
    refine ⟨hprogress, hsub, fun hnone => absurd hnone (Option.some_ne_none r), fun q hq => ?_⟩
    cases hq
    exact ⟨returned ++ front, (List.append_assoc _ _ _).symm,
      List.mem_append_right _ (List.mem_singleton_self r)⟩

/-! ## A reader among others -/

/-- A table that others move, and how it is listed.

The table is any state with moves of its own, and a page is a function of the state and a cursor.
What makes listings comparable is that every row has a position, and that the pages are those of the
greatest positions behind the cursor. -/
structure Source (σ ο γ α : Type) where
  move : ο → σ → Option σ
  /-- A request, without a cursor or with one: the rows of a page and the next cursor, or an
  error. -/
  list : Option γ → σ → Option (List α × Option γ)

/-- One that follows the cursors from the first page to the last. -/
inductive Reader (γ α : Type)
  | reading (returned : List α) (cursor : Option γ)
  | finished (returned : List α)
  | failed
  deriving DecidableEq

inductive Event (ο : Type)
  | move (o : ο)
  | request

variable {σ ο γ : Type} (S : Source σ ο γ α)

/-- What a request comes to. -/
def request (s : σ) : Reader γ α → Option (Reader γ α)
  | .reading returned cursor =>
      match S.list cursor s with
      | some (items, some next) => some (.reading (returned ++ items) (some next))
      | some (items, none) => some (.finished (returned ++ items))
      | none => some .failed
  | _ => none

def step : Event ο → σ × Reader γ α → Option (σ × Reader γ α)
  | .move o, (s, reader) => (S.move o s).map (·, reader)
  | .request, (s, reader) => (request S s reader).map (s, ·)

/-- **A run**, with the states that it passes. -/
inductive Passes : σ × Reader γ α → List (σ × Reader γ α) → σ × Reader γ α → Prop
  | here (s : σ × Reader γ α) : Passes s [s] s
  | next {s t u : σ × Reader γ α} {states : List (σ × Reader γ α)} (e : Event ο)
      (hstep : step S e s = some t) (hrest : Passes t states u) : Passes s (s :: states) u

/-- The run of some events: its states, and the last of them. -/
def run : σ × Reader γ α → List (Event ο) → Option (List (σ × Reader γ α) × (σ × Reader γ α))
  | s, [] => some ([s], s)
  | s, e :: events => (step S e s).bind fun t => (run t events).map fun r => (s :: r.1, r.2)

variable {S} {s t s' : σ × Reader γ α} {states : List (σ × Reader γ α)}

theorem run_passes {events : List (Event ο)} (h : run S s events = some (states, s')) :
    Passes S s states s' := by
  induction events generalizing s states with
  | nil =>
      cases h
      exact .here _
  | cons e events ih =>
      obtain ⟨t, hstep, hrest⟩ := Option.bind_eq_some_iff.mp h
      obtain ⟨⟨rest, u⟩, hrun, heq⟩ := Option.map_eq_some_iff.mp hrest
      cases heq
      exact .next e hstep (ih hrun)

theorem Passes.first (h : Passes S s states s') : s ∈ states := by
  cases h with
  | here => exact List.mem_singleton_self s
  | next => exact List.mem_cons_self

theorem Passes.last (h : Passes S s states s') : s' ∈ states := by
  induction h with
  | here s => exact List.mem_singleton_self s
  | next e hstep hrest ih => exact List.mem_cons_of_mem _ ih

/-- What every step keeps holds in every state of a run. -/
theorem Passes.keeps (h : Passes S s states s') {P : σ × Reader γ α → Prop} (hs : P s)
    (hstep : ∀ e t u, t ∈ states → u ∈ states → P t → step S e t = some u → P u) :
    P s' ∧ ∀ t ∈ states, P t := by
  induction h with
  | here s => exact ⟨hs, fun t ht => List.mem_singleton.mp ht ▸ hs⟩
  | @next s t u states e he hrest ih =>
      have ht : P t := hstep e s t List.mem_cons_self
        (List.mem_cons_of_mem _ hrest.first) hs he
      obtain ⟨hlast, hall⟩ := ih ht fun e a b ha hb =>
        hstep e a b (List.mem_cons_of_mem _ ha) (List.mem_cons_of_mem _ hb)
      refine ⟨hlast, fun a ha => ?_⟩
      rcases List.mem_cons.mp ha with rfl | ha
      · exact hs
      · exact hall a ha

/-- A reader that has failed goes no further. -/
theorem Passes.failed (h : Passes S s states s') (hs : s.2 = .failed) : s'.2 = .failed := by
  induction h with
  | here s => exact hs
  | @next s t u states e he hrest ih =>
      refine ih ?_
      obtain ⟨db, reader⟩ := s
      obtain rfl : reader = .failed := hs
      cases e with
      | move o =>
          obtain ⟨db', -, rfl⟩ := Option.map_eq_some_iff.mp he
          rfl
      | request => cases he

/-- The rest of a run. -/
theorem Passes.rest (h : Passes S s states s') (ht : t ∈ states) :
    ∃ rest, Passes S t rest s' := by
  induction h with
  | here s =>
      rw [List.mem_singleton.mp ht]
      exact ⟨_, .here s⟩
  | @next s t' u states e he hrest ih =>
      rcases List.mem_cons.mp ht with rfl | ht
      · exact ⟨_, .next e he hrest⟩
      · exact ih ht

end Moving
