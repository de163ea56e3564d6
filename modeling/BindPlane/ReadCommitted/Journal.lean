import Mathlib.Data.Finset.Card
import Mathlib.Data.List.Basic
import Mathlib.Data.List.Induction
import Mathlib.Tactic.Common

/-!
# Journals

A journal lists what has been committed, the last event last.  An event may say something about a
subject, or nothing (`f e = none`); what holds of the subject is the last word about it
(`lastWord`), and what has been counted since it was last started again is its tally (`tallySince`).

A journal is *lawful* where every event was allowed behind those before it.  What an event asks of
the last word then bounds what all events together can do: a word that an event uses up is used no
more often than it is said (`Lawful.uses_le`), nothing is said behind a last word
(`Lawful.silent`), and no more is counted than an event allows (`Lawful.count_le`).
-/

namespace ReadCommitted

variable {ε α : Type} {f : ε → Option α} {journal : List ε} {e : ε} {a : α}

/-- What the last event says that says anything. -/
def lastWord (f : ε → Option α) (journal : List ε) : Option α := (journal.filterMap f).getLast?

theorem lastWord_concat_of_none (h : f e = none) :
    lastWord f (journal ++ [e]) = lastWord f journal := by
  unfold lastWord
  rw [List.filterMap_append, List.filterMap_cons_none h, List.filterMap_nil, List.append_nil]

theorem lastWord_concat_of_some (h : f e = some a) : lastWord f (journal ++ [e]) = some a := by
  unfold lastWord
  rw [List.filterMap_append, List.filterMap_cons_some h, List.filterMap_nil, List.getLast?_concat]

/-- **The last word** is that of an event behind which nobody says anything. -/
theorem lastWord_eq_some :
    lastWord f journal = some a ↔
      ∃ before e after, journal = before ++ e :: after ∧ f e = some a ∧
        ∀ e' ∈ after, f e' = none := by
  constructor
  · intro h
    induction journal using List.reverseRecOn with
    | nil => cases h
    | append_singleton journal e ih =>
        cases hf : f e with
        | none =>
            rw [lastWord_concat_of_none hf] at h
            obtain ⟨before, e₀, after, rfl, htells, hsilent⟩ := ih h
            refine ⟨before, e₀, after ++ [e], by simp, htells, fun e' he' => ?_⟩
            rcases List.mem_append.mp he' with he' | he'
            · exact hsilent e' he'
            · exact List.mem_singleton.mp he' ▸ hf
        | some b =>
            rw [lastWord_concat_of_some hf] at h
            cases h
            exact ⟨journal, e, [], rfl, hf, nofun⟩
  · rintro ⟨before, e, after, rfl, htells, hsilent⟩
    have hnone : after.filterMap f = [] := by
      rw [List.filterMap_eq_nil_iff]
      exact hsilent
    unfold lastWord
    rw [List.filterMap_append, List.filterMap_cons_some htells, hnone, List.getLast?_concat]

/-- The last word about a subject is an event's, or there is none. -/
theorem lastWord_concat :
    lastWord f (journal ++ [e]) = (f e).elim (lastWord f journal) some := by
  cases he : f e with
  | none => exact lastWord_concat_of_none he
  | some a => exact lastWord_concat_of_some he

/-- The last word, read in another way. -/
theorem lastWord_map {β : Type} {g : α → β} :
    lastWord (fun e => (f e).map g) journal = (lastWord f journal).map g := by
  unfold lastWord
  rw [← List.map_filterMap, List.getLast?_map]

/-! ## Tallies -/

section Tally

variable {restarts counts : ε → Bool}

/-- How many events count since the last one that starts again. -/
def tallySince (restarts counts : ε → Bool) (journal : List ε) : ℕ :=
  journal.foldl (fun n e => if restarts e then 0 else if counts e then n + 1 else n) 0

@[simp] theorem tallySince_nil : tallySince restarts counts [] = 0 := rfl

theorem tallySince_concat : tallySince restarts counts (journal ++ [e]) =
    if restarts e then 0 else if counts e then tallySince restarts counts journal + 1
      else tallySince restarts counts journal := by
  unfold tallySince
  rw [List.foldl_append]
  rfl

end Tally

/-! ## Lawful journals -/

/-- **Every event was allowed behind those before it.**

The condition is on each event and the events before it, so that it is kept by every commit that
appends an event it allows, and no other knowledge of the store is needed.  What a journal as a
whole satisfies then follows from the rules below, without any run. -/
def Lawful (allowed : List ε → ε → Prop) (journal : List ε) : Prop :=
  ∀ before e after, journal = before ++ e :: after → allowed before e

namespace Lawful

variable {allowed : List ε → ε → Prop}

theorem nil : Lawful allowed [] := by
  rintro before e after h
  simp at h

theorem concat (h : Lawful allowed journal) (he : allowed journal e) :
    Lawful allowed (journal ++ [e]) := by
  intro before e' after hsplit
  obtain rfl | ⟨after, e'', rfl⟩ := after.eq_nil_or_concat'
  · obtain ⟨rfl, hlast⟩ := List.append_inj' hsplit rfl
    cases hlast
    exact he
  · rw [← List.cons_append, ← List.append_assoc] at hsplit
    exact h before e' after (List.append_inj' hsplit rfl).1

/-- What an earlier journal says. -/
theorem of_append {more : List ε} (h : Lawful allowed (journal ++ more)) :
    Lawful allowed journal := by
  rintro before e after rfl
  exact h before e (after ++ more) (by rw [List.append_assoc, List.cons_append])

theorem last (h : Lawful allowed (journal ++ [e])) : allowed journal e := h journal e [] rfl

/-- **A w is used up no more often than it is said**: an event that uses it finds it said last of
some subject, and takes it back.

The proof pairs each use with the word that it takes back.  No word is taken back twice, since
behind the first use another word is the last one. -/
theorem uses_le {ι : Type} {w : ι → ε → Option (Option α)} {issues uses : ε → Bool}
    (h : Lawful allowed journal)
    (hfinds : ∀ before e, allowed before e → uses e = true →
      ∃ i, lastWord (w i) before = some (some a) ∧ w i e = some none)
    (hissues : ∀ e i, w i e = some (some a) → issues e = true)
    (hone : ∀ e i j, w i e = some (some a) → w j e = some (some a) → i = j) :
    journal.countP uses ≤ journal.countP issues := by
  classical
  -- wherever it is said last it has been said once more than used
  suffices hsaid : ∃ live : Finset ι,
      (∀ i, lastWord (w i) journal = some (some a) → i ∈ live) ∧
        journal.countP uses + live.card ≤ journal.countP issues by
    obtain ⟨live, -, hle⟩ := hsaid
    omega
  induction journal using List.reverseRecOn with
  | nil => exact ⟨∅, nofun, le_rfl⟩
  | append_singleton journal e ih =>
      obtain ⟨live, hlive, hle⟩ := ih h.of_append
      have hused : ∃ live' : Finset ι, (∀ i, w i e = none →
          lastWord (w i) journal = some (some a) → i ∈ live') ∧
            (journal ++ [e]).countP uses + live'.card ≤ journal.countP issues := by
        rw [List.countP_append, List.countP_singleton]
        cases huses : uses e with
        | false => exact ⟨live, fun i _ hi => hlive i hi, by simpa using hle⟩
        | true =>
            obtain ⟨i, hfound, hends⟩ := hfinds journal e h.last huses
            have hi := hlive i hfound
            have hcard := Finset.card_erase_add_one hi
            refine ⟨live.erase i, fun j hj hword => ?_, ?_⟩
            · refine Finset.mem_erase.mpr ⟨?_, hlive j hword⟩
              rintro rfl
              rw [hends] at hj
              cases hj
            · simp only [if_true]
              omega
      obtain ⟨live', hlive', hle'⟩ := hused
      rw [List.countP_append (p := issues), List.countP_singleton]
      by_cases hissue : ∃ i, w i e = some (some a)
      · obtain ⟨i, hi⟩ := hissue
        refine ⟨insert i live', fun j hj => ?_, ?_⟩
        · rw [lastWord_concat] at hj
          cases hword : w j e with
          | none =>
              rw [hword] at hj
              exact Finset.mem_insert_of_mem (hlive' j hword hj)
          | some b =>
              rw [hword] at hj
              obtain rfl := Option.some.inj hj
              exact Finset.mem_insert.mpr (Or.inl (hone e j i hword hi))
        · have hcard := Finset.card_insert_le i live'
          rw [hissues e i hi, if_pos rfl]
          omega
      · refine ⟨live', fun j hj => ?_, by omega⟩
        rw [lastWord_concat] at hj
        cases hword : w j e with
        | none =>
            rw [hword] at hj
            exact hlive' j hword hj
        | some b =>
            rw [hword] at hj
            obtain rfl := Option.some.inj hj
            exact absurd ⟨j, hword⟩ hissue

/-- **Nothing is said behind a last word**, where no event is allowed to. -/
theorem silent {f : ε → Option (Option α)} {before after : List ε}
    (h : Lawful allowed (before ++ e :: after))
    (hfinal : ∀ before e, allowed before e → lastWord f before = some none → f e = none)
    (he : f e = some none) : ∀ e' ∈ after, f e' = none := by
  suffices hword : lastWord f (before ++ e :: after) = some none ∧ ∀ e' ∈ after, f e' = none from
    hword.2
  induction after using List.reverseRecOn with
  | nil => exact ⟨lastWord_concat_of_some he, nofun⟩
  | append_singleton after e' ih =>
      rw [← List.cons_append, ← List.append_assoc] at h ⊢
      obtain ⟨hword, hafter⟩ := ih h.of_append
      have he' := hfinal _ _ h.last hword
      refine ⟨(lastWord_concat_of_none he').trans hword, fun x hx => ?_⟩
      rcases List.mem_append.mp hx with hx | hx
      · exact hafter x hx
      · exact List.mem_singleton.mp hx ▸ he'

/-- **Nothing is said of what was never born**, where the first word about it is its birth. -/
theorem unborn {f : ε → Option α} {births : ε → Prop} (h : Lawful allowed journal)
    (hfirst : ∀ before e, allowed before e → lastWord f before = none → ¬births e → f e = none)
    (hnone : ∀ e ∈ journal, ¬births e) : lastWord f journal = none := by
  induction journal using List.reverseRecOn with
  | nil => rfl
  | append_singleton journal e ih =>
      have hword := ih h.of_append fun e' he' => hnone e' (List.mem_append_left _ he')
      have he := hnone e (List.mem_append_right _ (List.mem_singleton_self e))
      rw [lastWord_concat_of_none (hfirst journal e h.last hword he)]
      exact hword

/-- The tally of a lawful journal is within its bound. -/
theorem tally_le {restarts counts : ε → Bool} {k : ℕ} (h : Lawful allowed journal)
    (hbound : ∀ before e, allowed before e → counts e = true →
      tallySince restarts counts before < k) : tallySince restarts counts journal ≤ k := by
  induction journal using List.reverseRecOn with
  | nil => exact Nat.zero_le k
  | append_singleton journal e ih =>
      rw [tallySince_concat]
      split_ifs with hrestarts hcounts
      · exact Nat.zero_le k
      · exact hbound journal e h.last hcounts
      · exact ih h.of_append

/-- **No more is counted than an event allows**, once more than the count starts again.

Between two events that start the count again it grows by one at a time, and no event is allowed
that would take it over the bound.  The journal falls into as many stretches as there are starts,
and one in front of the first. -/
theorem count_le {restarts counts : ε → Bool} {k : ℕ} {before during : List ε}
    (h : Lawful allowed (before ++ during))
    (hbound : ∀ before e, allowed before e → counts e = true →
      tallySince restarts counts before < k) :
    during.countP counts ≤ k * (during.countP restarts + 1) := by
  -- what is not yet in the tally has been counted before a restart
  suffices hcount : during.countP counts ≤
      k * during.countP restarts + tallySince restarts counts (before ++ during) by
    have htally := h.tally_le hbound
    rw [Nat.mul_succ]
    omega
  induction during using List.reverseRecOn with
  | nil => exact Nat.zero_le _
  | append_singleton during e ih =>
      rw [← List.append_assoc] at h ⊢
      have ih := ih h.of_append
      have htally := h.of_append.tally_le hbound
      rw [List.countP_append, List.countP_append, List.countP_singleton, List.countP_singleton,
        tallySince_concat, Nat.mul_add]
      split_ifs with hcounts hrestarts
      · have hlt := hbound _ _ h.last hcounts
        omega
      · omega
      · omega
      · omega

end Lawful

end ReadCommitted
