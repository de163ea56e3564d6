import Mathlib.Data.List.DropRight
import Mathlib.Data.List.TakeWhile

/-!
# Trimming a list at both ends

`trim p` removes the elements of `p` at both ends of a list.  A filter commutes with it up to
one more trimming (`trim_filter`), because what is trimmed stays at the ends.  Where `p` holds
of one element only, a list is what is left after trimming with the lengths of what was cut at
either end (`eq_of_ends`).
-/

namespace BindPlane.Trim

variable {α : Type} {p q : α → Bool} {l l' pre post : List α}

/-- Drop the elements of `p` in front and behind. -/
def trim (p : α → Bool) (l : List α) : List α := (l.dropWhile p).rdropWhile p

/-- What is cut at the ends is of `p`. -/
theorem trim_split (p : α → Bool) (l : List α) :
    l = l.takeWhile p ++ trim p l ++ (l.dropWhile p).rtakeWhile p := by
  rw [trim, List.append_assoc, List.rdropWhile_append_rtakeWhile, List.takeWhile_append_dropWhile]

/-- Nothing is cut off a list that has nothing of `p`. -/
theorem trim_eq_self (h : ∀ x ∈ l, p x = false) : trim p l = l := by
  have hdrop : l.dropWhile p = l := by
    cases l with
    | nil => rfl
    | cons x rest =>
        exact List.dropWhile_cons_of_neg (by rw [h x List.mem_cons_self]; exact Bool.false_ne_true)
  rw [trim, hdrop]
  refine List.rdropWhile_eq_self_iff.mpr fun hne => ?_
  rw [h _ (List.getLast_mem hne)]
  exact Bool.false_ne_true

theorem trim_append_left (h : ∀ x ∈ pre, p x) : trim p (pre ++ l) = trim p l := by
  rw [trim, List.dropWhile_append_of_pos h]
  rfl

theorem rdropWhile_append_right (h : ∀ x ∈ post, p x) :
    (l ++ post).rdropWhile p = l.rdropWhile p := by
  unfold List.rdropWhile
  rw [List.reverse_append,
    List.dropWhile_append_of_pos fun x hx => h x (List.mem_reverse.mp hx)]

theorem trim_append_right (h : ∀ x ∈ post, p x) : trim p (l ++ post) = trim p l := by
  unfold trim
  rw [List.dropWhile_append]
  split_ifs with hempty
  · have hpost : post.dropWhile p = [] := List.dropWhile_eq_nil_iff.mpr h
    rw [hpost, List.isEmpty_iff.mp hempty]
  · exact rdropWhile_append_right h

/-- Filtering before trimming, or after, makes no difference to what is left in the end. -/
theorem trim_filter (p q : α → Bool) (l : List α) :
    trim p ((trim p l).filter q) = trim p (l.filter q) := by
  have hpre : ∀ x ∈ (l.takeWhile p).filter q, p x :=
    fun x hx => List.mem_takeWhile_imp (List.mem_of_mem_filter hx)
  have hpost : ∀ x ∈ ((l.dropWhile p).rtakeWhile p).filter q, p x :=
    fun x hx => List.mem_rtakeWhile_imp (List.mem_of_mem_filter hx)
  conv_rhs => rw [trim_split p l, List.filter_append, List.filter_append]
  rw [trim_append_right hpost, trim_append_left hpre]

/-- The leading elements of a filtered list, in the list itself. -/
theorem takeWhile_filter (p q : α → Bool) (l : List α) :
    (l.filter q).takeWhile p = (l.takeWhile fun x => p x || !q x).filter q := by
  induction l with
  | nil => rfl
  | cons x l ih =>
      by_cases hq : q x
      · rw [List.filter_cons_of_pos hq]
        by_cases hp : p x
        · rw [List.takeWhile_cons_of_pos hp, List.takeWhile_cons_of_pos (by simp [hp]),
            List.filter_cons_of_pos hq, ih]
        · rw [List.takeWhile_cons_of_neg hp, List.takeWhile_cons_of_neg (by simp [hp, hq])]
          rfl
      · rw [List.filter_cons_of_neg hq, List.takeWhile_cons_of_pos (by simp [hq]),
          List.filter_cons_of_neg hq, ih]

theorem rtakeWhile_filter (p q : α → Bool) (l : List α) :
    (l.filter q).rtakeWhile p = (l.rtakeWhile fun x => p x || !q x).filter q := by
  unfold List.rtakeWhile
  rw [← List.filter_reverse, takeWhile_filter, List.filter_reverse]

theorem dropWhile_eq_nil_of_trim (h : trim p l = []) : l.dropWhile p = [] := by
  by_contra hne
  have hhead := List.dropWhile_get_zero_not p l (List.length_pos_iff.mpr hne)
  exact hhead (List.rdropWhile_eq_nil_iff.mp h _ (List.get_mem _ _))

/-- If something is left, the end of the list is the end of what starts with it. -/
theorem rtakeWhile_dropWhile (h : trim p l ≠ []) :
    (l.dropWhile p).rtakeWhile p = l.rtakeWhile p := by
  conv_rhs => rw [← List.takeWhile_append_dropWhile (p := p) (l := l)]
  unfold List.rtakeWhile
  rw [List.reverse_append, List.takeWhile_append]
  split_ifs with hall
  · refine absurd ?_ h
    refine List.rdropWhile_eq_nil_iff.mpr fun x hx => ?_
    have hself : (l.dropWhile p).reverse.takeWhile p = (l.dropWhile p).reverse :=
      (List.takeWhile_prefix p).eq_of_length hall
    exact List.takeWhile_eq_self_iff.mp hself x (List.mem_reverse.mpr hx)
  · rfl

/-- A list of copies of one element is known by its length. -/
theorem eq_of_copies {b : α} (h : ∀ x ∈ l, x = b) (h' : ∀ x ∈ l', x = b)
    (hlength : l.length = l'.length) : l = l' := by
  rw [List.eq_replicate_of_mem h, List.eq_replicate_of_mem h', hlength]

/-- A list is known by what trimming leaves and by the lengths of what it cuts. -/
theorem eq_of_ends {b : α} (hp : ∀ x, p x → x = b) (htrim : trim p l = trim p l')
    (hlead : (l.takeWhile p).length = (l'.takeWhile p).length)
    (htrail : (l.rtakeWhile p).length = (l'.rtakeWhile p).length) : l = l' := by
  have htake : l.takeWhile p = l'.takeWhile p :=
    eq_of_copies (fun x hx => hp x (List.mem_takeWhile_imp hx))
      (fun x hx => hp x (List.mem_takeWhile_imp hx)) hlead
  have hdrop : l.dropWhile p = l'.dropWhile p := by
    by_cases hnil : trim p l = []
    · rw [dropWhile_eq_nil_of_trim hnil, dropWhile_eq_nil_of_trim (htrim ▸ hnil)]
    · have hend : l.rtakeWhile p = l'.rtakeWhile p :=
        eq_of_copies (fun x hx => hp x (List.mem_rtakeWhile_imp hx))
          (fun x hx => hp x (List.mem_rtakeWhile_imp hx)) htrail
      rw [← List.rdropWhile_append_rtakeWhile (p := p) (l := l.dropWhile p),
        ← List.rdropWhile_append_rtakeWhile (p := p) (l := l'.dropWhile p),
        rtakeWhile_dropWhile hnil, rtakeWhile_dropWhile (htrim ▸ hnil), hend]
      exact congrArg (· ++ _) htrim
  rw [← List.takeWhile_append_dropWhile (p := p) (l := l), htake, hdrop,
    List.takeWhile_append_dropWhile]

end BindPlane.Trim
