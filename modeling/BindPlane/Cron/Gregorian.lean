import Mathlib.Order.SuccPred.Basic
import Mathlib.Order.Interval.Set.Monotone
import Mathlib.Algebra.Order.Group.Int
import Mathlib.Data.Int.ConditionallyCompleteOrder

/-!
# The Gregorian calendar

Days are numbered from 1 January 1970, and months from January of the year 0, so that month `k` is
the month `k % 12 + 1` of the year `k / 12`, before and after any epoch.

`monthStart` is the first day of a month, and `monthOf` the month of a day; both are closed
formulas.  All that is used of them is that months follow one another (`monthStart_lt`), and that a
day lies in its month (`monthOf_spec`), in no other (`monthOf_eq`).

The closed formulas avoid any search, and so they compute; the lemmas about them are all that the
calendar of a zone needs, and none of them mentions an offset.
-/

namespace Gregorian

/-- The days before a year that begins in March, counted from 1 March of the year 0: the leap day
is the last day of such a year. -/
def yearStart (y : ℤ) : ℤ := 365 * y + y / 4 - y / 100 + y / 400

/-- The days before a month of a year that begins in March. -/
def daysBefore (m : ℤ) : ℤ := (153 * m + 2) / 5

/-- The first day of a month. -/
def monthStart (k : ℤ) : ℤ := yearStart ((k - 2) / 12) + daysBefore ((k - 2) % 12) - 719468

/-- The year that begins in March and has a day of the count that begins on 1 March. -/
def yearOf (z : ℤ) : ℤ :=
  let y := 400 * z / 146097
  if yearStart (y + 1) ≤ z then y + 1 else y

/-- The month of a day. -/
def monthOf (n : ℤ) : ℤ :=
  let y := yearOf (n + 719468)
  12 * y + (5 * (n + 719468 - yearStart y) + 2) / 153 + 2

/-- The day of the week, from Sunday. -/
def weekday (n : ℤ) : ℤ := (n + 4) % 7

/-- A year has 365 or 366 days. -/
theorem yearStart_succ (y : ℤ) :
    yearStart y + 365 ≤ yearStart (y + 1) ∧ yearStart (y + 1) ≤ yearStart y + 366 := by
  unfold yearStart
  omega

/-- A day lies in its year. -/
theorem yearOf_spec (z : ℤ) : yearStart (yearOf z) ≤ z ∧ z < yearStart (yearOf z + 1) := by
  -- the mean length of a year finds it, or the year before it
  have hlow : yearStart (400 * z / 146097) ≤ z := by
    unfold yearStart
    omega
  have hhigh : z < yearStart (400 * z / 146097 + 2) := by
    unfold yearStart
    omega
  unfold yearOf
  dsimp only
  split
  · next h => exact ⟨h, by rw [add_assoc]; exact hhigh⟩
  · next h => exact ⟨hlow, not_le.mp h⟩

/-- **Months follow one another.** -/
theorem monthStart_lt (k : ℤ) : monthStart k < monthStart (k + 1) := by
  have hyear := (yearStart_succ ((k - 2) / 12)).1
  unfold monthStart daysBefore
  rcases lt_or_eq_of_le (show (k - 2) % 12 ≤ 11 by omega) with h | h
  · have hq : (k + 1 - 2) / 12 = (k - 2) / 12 := by omega
    have hr : (k + 1 - 2) % 12 = (k - 2) % 12 + 1 := by omega
    rw [hq, hr]
    omega
  · have hq : (k + 1 - 2) / 12 = (k - 2) / 12 + 1 := by omega
    have hr : (k + 1 - 2) % 12 = 0 := by omega
    rw [hq, hr, h]
    omega

/-- A month has 31 days at most. -/
theorem monthStart_succ_le (k : ℤ) : monthStart (k + 1) ≤ monthStart k + 31 := by
  have hyear := (yearStart_succ ((k - 2) / 12)).2
  unfold monthStart daysBefore
  rcases lt_or_eq_of_le (show (k - 2) % 12 ≤ 11 by omega) with h | h
  · have hq : (k + 1 - 2) / 12 = (k - 2) / 12 := by omega
    have hr : (k + 1 - 2) % 12 = (k - 2) % 12 + 1 := by omega
    rw [hq, hr]
    omega
  · have hq : (k + 1 - 2) / 12 = (k - 2) / 12 + 1 := by omega
    have hr : (k + 1 - 2) % 12 = 0 := by omega
    rw [hq, hr, h]
    omega

/-- Sixty months have five years of 365 days at least. -/
theorem monthStart_add_sixty (k : ℤ) : monthStart k + 1825 ≤ monthStart (k + 60) := by
  have hq : (k + 60 - 2) / 12 = (k - 2) / 12 + 5 := by omega
  have hr : (k + 60 - 2) % 12 = (k - 2) % 12 := by omega
  unfold monthStart yearStart
  rw [hq, hr]
  omega

theorem monthStart_strictMono : StrictMono monthStart := strictMono_int_of_lt_succ monthStart_lt

/-- **A day lies in its month.** -/
theorem monthOf_spec (n : ℤ) : monthStart (monthOf n) ≤ n ∧ n < monthStart (monthOf n + 1) := by
  obtain ⟨hlow, hhigh⟩ := yearOf_spec (n + 719468)
  have hlength := yearStart_succ (yearOf (n + 719468))
  unfold monthOf
  dsimp only
  generalize yearOf (n + 719468) = y at *
  obtain ⟨m, hm⟩ : ∃ m, (5 * (n + 719468 - yearStart y) + 2) / 153 = m := ⟨_, rfl⟩
  rw [hm]
  have hm₀ : 0 ≤ m := by omega
  have hm₁ : m ≤ 11 := by omega
  have hq : (12 * y + m + 2 - 2) / 12 = y := by omega
  have hr : (12 * y + m + 2 - 2) % 12 = m := by omega
  unfold monthStart daysBefore
  rw [hq, hr]
  refine ⟨by omega, ?_⟩
  rcases lt_or_eq_of_le hm₁ with h | h
  · have hq' : (12 * y + m + 2 + 1 - 2) / 12 = y := by omega
    have hr' : (12 * y + m + 2 + 1 - 2) % 12 = m + 1 := by omega
    rw [hq', hr']
    omega
  · have hq' : (12 * y + m + 2 + 1 - 2) / 12 = y + 1 := by omega
    have hr' : (12 * y + m + 2 + 1 - 2) % 12 = 0 := by omega
    rw [hq', hr']
    omega

/-- A day lies in one month. -/
theorem monthOf_eq {n k : ℤ} (hlow : monthStart k ≤ n) (hhigh : n < monthStart (k + 1)) :
    monthOf n = k := by
  obtain ⟨hlow', hhigh'⟩ := monthOf_spec n
  have h := monthStart_strictMono.lt_iff_lt.mp (hlow.trans_lt hhigh')
  have h' := monthStart_strictMono.lt_iff_lt.mp (hlow'.trans_lt hhigh)
  omega

/-- The epoch was a Thursday, and 29 February 2024 the last day of its month. -/
example : monthOf 0 = 12 * 1970 ∧ weekday 0 = 4 ∧
    monthOf 19782 = 12 * 2024 + 1 ∧ monthStart (12 * 2024 + 2) = 19783 := by decide

end Gregorian
