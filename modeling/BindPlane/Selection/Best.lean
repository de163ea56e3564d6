import Mathlib.Data.Nat.Basic
import Mathlib.Tactic.ByContra
import Mathlib.Tactic.SplitIfs

/-!
# The best of a list, and who shares the rank

One pass over a list keeps an element of the greatest rank seen so far and remembers whether
an element of the same rank has another owner.  `Best.consider` is one step of the pass.

**The invariant.**  `Outcome` says what the pass holds in terms of the members alone: the
kept element is of the greatest rank, and the mark is set exactly if some member of that rank
has another owner.  A greater rank clears the mark and an equal one can only set it, so the
invariant goes through every step (`Outcome.consider`) and every list (`Outcome.foldl`).

**Order.**  Because the outcome is about the members, two lists with the same members agree on
the rank, on the mark and, where the mark is not set, on the owner (`Outcome.same`).
-/

namespace BindPlane.Selection

variable {α β : Type}

/-- What a pass holds after the first ranked element.

The pass keeps one element and one bit.  That this is enough to know whether the best rank has two
owners is what `Outcome` shows. -/
structure Best (α : Type) where
  rank : ℕ
  chosen : α
  tied : Bool
  deriving DecidableEq

/-- One step: a greater rank replaces, an equal one of another owner ties. -/
def Best.consider [DecidableEq β] (rank : α → Option ℕ) (owner : α → β)
    (acc : Option (Best α)) (a : α) : Option (Best α) :=
  match rank a, acc with
  | none, _ => acc
  | some r, none => some ⟨r, a, false⟩
  | some r, some b =>
      if b.rank < r then some ⟨r, a, false⟩
      else if r = b.rank ∧ owner a ≠ owner b.chosen then some { b with tied := true }
      else acc

/-- The element is a member of the greatest rank. -/
def IsBest (rank : α → Option ℕ) (l : List α) (a : α) (r : ℕ) : Prop :=
  a ∈ l ∧ rank a = some r ∧ ∀ a' ∈ l, ∀ r', rank a' = some r' → r' ≤ r

/-- What the pass over a list may hold. -/
def Outcome (rank : α → Option ℕ) (owner : α → β) (l : List α) : Option (Best α) → Prop
  | none => ∀ a ∈ l, rank a = none
  | some b => IsBest rank l b.chosen b.rank ∧
      (b.tied = true ↔ ∃ a ∈ l, rank a = some b.rank ∧ owner a ≠ owner b.chosen)

variable {rank : α → Option ℕ} {owner : α → β} {l l' : List α}

/-- An element without a rank changes nothing. -/
theorem Outcome.unranked {acc : Option (Best α)} {a : α} (h : Outcome rank owner l acc)
    (ha : rank a = none) : Outcome rank owner (l ++ [a]) acc := by
  cases acc with
  | none =>
      intro a' ha'
      obtain ha' | ha' := List.mem_append.mp ha'
      · exact h a' ha'
      · obtain rfl := List.mem_singleton.mp ha'
        exact ha
  | some b =>
      obtain ⟨⟨hmem, hrank, hmax⟩, htied⟩ := h
      refine ⟨⟨List.mem_append_left _ hmem, hrank, ?_⟩, htied.trans ⟨?_, ?_⟩⟩
      · intro a' ha' r' hr'
        obtain ha' | ha' := List.mem_append.mp ha'
        · exact hmax a' ha' r' hr'
        · obtain rfl := List.mem_singleton.mp ha'
          rw [ha] at hr'
          cases hr'
      · rintro ⟨a', ha', hr', ho⟩
        exact ⟨a', List.mem_append_left _ ha', hr', ho⟩
      · rintro ⟨a', ha', hr', ho⟩
        obtain ha' | ha' := List.mem_append.mp ha'
        · exact ⟨a', ha', hr', ho⟩
        · obtain rfl := List.mem_singleton.mp ha'
          rw [ha] at hr'
          cases hr'

/-- An element above everything seen is the only one of its rank. -/
theorem Outcome.above {a : α} {r : ℕ} (ha : rank a = some r)
    (habove : ∀ a' ∈ l, ∀ r', rank a' = some r' → r' < r) :
    Outcome rank owner (l ++ [a]) (some ⟨r, a, false⟩) := by
  have hsplit : ∀ a' ∈ l ++ [a], ∀ r', rank a' = some r' → r' < r ∨ a' = a ∧ r' = r := by
    intro a' ha' r' hr'
    obtain ha' | ha' := List.mem_append.mp ha'
    · exact .inl (habove a' ha' r' hr')
    · obtain rfl := List.mem_singleton.mp ha'
      exact .inr ⟨rfl, Option.some.inj (hr'.symm.trans ha)⟩
  refine ⟨⟨List.mem_append_right _ (List.mem_singleton_self a), ha, ?_⟩, nofun, ?_⟩
  · intro a' ha' r' hr'
    obtain hlt | ⟨-, rfl⟩ := hsplit a' ha' r' hr'
    · exact Nat.le_of_lt hlt
    · exact le_rfl
  · rintro ⟨a', ha', hr', ho⟩
    obtain hlt | ⟨rfl, -⟩ := hsplit a' ha' r hr'
    · exact absurd hlt (lt_irrefl r)
    · exact absurd rfl ho

variable [DecidableEq β]

/-- **Step.**  Considering the next element keeps the invariant. -/
theorem Outcome.consider {acc : Option (Best α)} (h : Outcome rank owner l acc) (a : α) :
    Outcome rank owner (l ++ [a]) (Best.consider rank owner acc a) := by
  unfold Best.consider
  match ha : rank a, acc with
  | none, acc => exact h.unranked ha
  | some r, none =>
      refine Outcome.above ha fun a' ha' r' hr' => ?_
      rw [h a' ha'] at hr'
      cases hr'
  | some r, some b =>
      obtain ⟨⟨hmem, hrank, hmax⟩, htied⟩ := h
      dsimp only
      split_ifs with hlt htie
      · exact Outcome.above ha fun a' ha' r' hr' => lt_of_le_of_lt (hmax a' ha' r' hr') hlt
      · -- the new element is itself the other owner
        obtain ⟨rfl, hother⟩ := htie
        refine ⟨⟨List.mem_append_left _ hmem, hrank, ?_⟩, fun _ => ?_, fun _ => rfl⟩
        · intro a' ha' r' hr'
          obtain ha' | ha' := List.mem_append.mp ha'
          · exact hmax a' ha' r' hr'
          · obtain rfl := List.mem_singleton.mp ha'
            exact le_of_eq (Option.some.inj (ha.symm.trans hr')).symm
        · exact ⟨a, List.mem_append_right _ (List.mem_singleton_self a), ha, hother⟩
      · have hr : r ≤ b.rank := not_lt.mp hlt
        refine ⟨⟨List.mem_append_left _ hmem, hrank, ?_⟩, htied.trans ⟨?_, ?_⟩⟩
        · intro a' ha' r' hr'
          obtain ha' | ha' := List.mem_append.mp ha'
          · exact hmax a' ha' r' hr'
          · obtain rfl := List.mem_singleton.mp ha'
            exact (Option.some.inj (ha.symm.trans hr')) ▸ hr
        · rintro ⟨a', ha', hr', ho⟩
          exact ⟨a', List.mem_append_left _ ha', hr', ho⟩
        · rintro ⟨a', ha', hr', ho⟩
          obtain ha' | ha' := List.mem_append.mp ha'
          · exact ⟨a', ha', hr', ho⟩
          · obtain rfl := List.mem_singleton.mp ha'
            exact absurd ⟨Option.some.inj (ha.symm.trans hr'), ho⟩ htie

/-- **Run.**  The pass over a whole list.

The outcome mentions the members of the list and not their order, so that it determines what is
found however the list is arranged. -/
theorem Outcome.foldl (rank : α → Option ℕ) (owner : α → β) (l : List α) :
    Outcome rank owner l (l.foldl (Best.consider rank owner) none) := by
  have hrun : ∀ (rest seen : List α) (acc : Option (Best α)), Outcome rank owner seen acc →
      Outcome rank owner (seen ++ rest) (rest.foldl (Best.consider rank owner) acc) := by
    intro rest
    induction rest with
    | nil =>
        intro seen acc h
        rw [List.append_nil]
        exact h
    | cons a rest ih =>
        intro seen acc h
        rw [List.foldl_cons, List.append_cons]
        exact ih _ _ (h.consider a)
  exact hrun l [] none nofun

omit [DecidableEq β] in
/-- Without a tie every member of the rank has the owner of the kept one. -/
theorem Outcome.owner_eq {b : Best α} (h : Outcome rank owner l (some b))
    (hno : b.tied = false) {a : α} (ha : a ∈ l) (hr : rank a = some b.rank) :
    owner a = owner b.chosen := by
  by_contra hne
  have htied := h.2.mpr ⟨a, ha, hr, hne⟩
  rw [hno] at htied
  cases htied

omit [DecidableEq β] in
/-- A tie of the one list is a tie of the other. -/
theorem Outcome.tied_of_tied {b b' : Best α} (h : Outcome rank owner l (some b))
    (h' : Outcome rank owner l' (some b')) (hmem : ∀ a, a ∈ l ↔ a ∈ l')
    (hr : b.rank = b'.rank) (htied : b.tied = true) : b'.tied = true := by
  obtain ⟨a, ha, hra, hother⟩ := h.2.mp htied
  by_contra hno
  have hno' : b'.tied = false := by simpa using hno
  have hchosen := h'.owner_eq hno' ((hmem _).mp h.1.1) (hr ▸ h.1.2.1)
  exact hother ((h'.owner_eq hno' ((hmem a).mp ha) (hr ▸ hra)).trans hchosen.symm)

omit [DecidableEq β] in
/-- Lists with the same members agree, up to the element that was kept. -/
theorem Outcome.same {x y : Option (Best α)} (h : Outcome rank owner l x)
    (h' : Outcome rank owner l' y) (hmem : ∀ a, a ∈ l ↔ a ∈ l') :
    Option.Rel (fun b b' => b.rank = b'.rank ∧ b.tied = b'.tied ∧
      (b.tied = false → owner b.chosen = owner b'.chosen)) x y := by
  match x, y, h, h' with
  | none, none, _, _ => exact .none
  | none, some b, h, ⟨⟨hb, hrank, _⟩, _⟩ =>
      rw [h _ ((hmem _).mpr hb)] at hrank
      cases hrank
  | some b, none, ⟨⟨hb, hrank, _⟩, _⟩, h' =>
      rw [h' _ ((hmem _).mp hb)] at hrank
      cases hrank
  | some b, some b', h, h' =>
      have hr : b.rank = b'.rank :=
        le_antisymm (h'.1.2.2 _ ((hmem _).mp h.1.1) _ h.1.2.1)
          (h.1.2.2 _ ((hmem _).mpr h'.1.1) _ h'.1.2.1)
      have htied : b.tied = b'.tied := Bool.eq_iff_iff.mpr
        ⟨h.tied_of_tied h' hmem hr, h'.tied_of_tied h (fun a => (hmem a).symm) hr.symm⟩
      refine .some ⟨hr, htied, fun hno => ?_⟩
      exact (h.owner_eq hno ((hmem _).mpr h'.1.1) (hr ▸ h'.1.2.1)).symm

end BindPlane.Selection
