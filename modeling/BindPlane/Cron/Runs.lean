import Mathlib.Algebra.Order.Ring.Int
import Mathlib.Tactic.Ring
import BindPlane.Cron.Fixed

/-!
# The runs of a schedule

**Runs.**  A schedule fires at the instants that `Next` finds, behind whatever instant.  At an
offset that does not change these are the full minutes whose calendar fields match (`fires_iff`),
and the run behind one of them is the next of these minutes (`next_of_least`), provided that the
loop is straight.  It is straight at an offset of whole minutes, and at every offset where months,
days and hours all match (`unrestricted_straight`), so that it never goes on to the start of an
hour.

**Offsets with seconds.**  There the start of an hour is no full minute.  A loop that has come by
one finds a minute at its local second 0, and from there the same minute again, later
(`fires_twice`).

**Runs and matches.**  A match is an instant that satisfies the expression, and a run is one that
the engine finds when it is asked for the next one.  A sentence on a page promises runs, and this
module says for which zones and expressions the two are the same.
-/

namespace BindPlane.Cron

/-- A location whose offset, in seconds, does not change. -/
def Zone.constant (offset : ℤ) : Zone where
  offset _ := offset
  resolve l := l - offset
  resolves _ := Or.inl (Int.sub_add_cancel _ _)

@[simp] theorem Zone.constant_localTime (o t : ℤ) : (Zone.constant o).localTime t = t + o := rfl

section Runs

variable (c : CronSchedule) (z : Zone)

/-- **A run**: an instant that `Next` finds. -/
def Fires (t : ℤ) : Prop := ∃ after fuel, next c z fuel after = .found t

/-- **Runs a fixed time apart**: there are some, and behind each `Next` finds the one that is
`distance` later. -/
def Apart (distance : ℤ) : Prop :=
  (∃ t, Fires c z t) ∧
    ∀ t, Fires c z t → ∃ fuel, next c z fuel (t * 1000000000) = .found (t + distance)

/-- The local minute of an instant, as the local time of its start. -/
def localMinute (t : ℤ) : ℤ := z.localTime t / 60 * 60

/-- **Runs by name**: every run is in one of the local minutes named, and each of these has one
run. -/
def Names (named : ℤ → Prop) : Prop :=
  (∀ t, Fires c z t → named (localMinute z t)) ∧
    ∀ l, 60 ∣ l → named l → ∃! t, Fires c z t ∧ localMinute z t = l

end Runs

variable {c : CronSchedule} {z : Zone} {o t : ℤ}

/-! ## The loop at a constant offset -/

/-- More rounds find the same. -/
theorem search_mono {limit r : ℤ} {fuel : ℕ} (k : ℕ) : ∀ {t : ℤ},
    search c z limit fuel t = .found r → search c z limit (fuel + k) t = .found r := by
  induction fuel with
  | zero =>
      intro t h
      cases h
  | succ n ih =>
      intro t h
      rw [Nat.add_right_comm, search]
      rw [search] at h
      split
      · next hlt =>
          rw [if_pos hlt] at h
          cases hjump : jump c z t with
          | none =>
              rw [hjump] at h
              exact h
          | some t' =>
              rw [hjump] at h
              exact ih h
      · next hlt =>
          rw [if_neg hlt] at h
          cases h

/-- `Next` finds one instant. -/
theorem next_unique {after r r' : ℤ} {n n' : ℕ} (h : next c z n after = .found r)
    (h' : next c z n' after = .found r') : r = r' := by
  have hmono := search_mono n' h
  rw [Nat.add_comm, search_mono n h'] at hmono
  exact (Search.found.inj hmono).symm

/-- No local time is skipped or repeated. -/
theorem constant_not_misread : ¬ Misread c (Zone.constant o) t := by
  rintro ⟨x, hx, ⟨hskipped, -⟩ | ⟨u, hlt, hlocal, -⟩⟩
  · exact hskipped (x.seconds - o) (Int.sub_add_cancel _ _)
  · have hlater := asks_later hx
    rw [← hlocal, Zone.constant_localTime, Zone.constant_localTime] at hlater
    omega

/-- Where hours, days and months all match, the loop goes from minute to minute. -/
theorem unrestricted_straight (hmonth : ∀ t, monthMatches c (Zone.constant o) t = true)
    (hday : ∀ t, dayMatches c (Zone.constant o) t = true)
    (hhour : ∀ t, hourMatches c (Zone.constant o) t = true) : Straight c (Zone.constant o) where
  gains hjump := lt_of_jump hjump constant_not_misread
  skips := by
    intro t t' hjump ht
    have hasks : asks c (Zone.constant o) t = none := by
      rw [asks, hmonth, hday, hhour]
      rfl
    rw [jump, hasks] at hjump
    dsimp only at hjump
    split at hjump
    · next hminute =>
        cases hjump
        refine ⟨by omega, fun u hle hlt hdvd hu => ?_⟩
        have hsame : u = t := by omega
        rw [hsame] at hu
        rw [(jump_eq_none.mp hu).2.2.2] at hminute
        cases hminute
    · cases hjump

/-- An offset of whole minutes. -/
theorem whole_straight (ho : 60 ∣ o) : Straight c (Zone.constant o) := by
  obtain ⟨m, rfl⟩ := ho
  exact fixed_straight

/-- The limit is more than nine days off. -/
theorem lt_addFiveYears (o t : ℤ) : t + 777600 < (Zone.constant o).addFiveYears t := by
  have hmonth := ofSeconds_month (t + o)
  have hyears := Gregorian.monthStart_add_sixty (Gregorian.monthOf ((t + o) / 86400))
  have hsum : 12 * ((Civil.ofSeconds (t + o)).year + 5) + (Civil.ofSeconds (t + o)).month - 1 =
      Gregorian.monthOf ((t + o) / 86400) + 60 := by omega
  show t + 777600 < (Gregorian.monthStart (12 * ((Civil.ofSeconds (t + o)).year + 5) +
      (Civil.ofSeconds (t + o)).month - 1) + (Civil.ofSeconds (t + o)).day - 1) * 86400 +
    (Civil.ofSeconds (t + o)).hour * 3600 + (Civil.ofSeconds (t + o)).minute * 60 +
      (Civil.ofSeconds (t + o)).second - o
  rw [hsum]
  show t + 777600 < (Gregorian.monthStart (Gregorian.monthOf ((t + o) / 86400) + 60) +
      ((t + o) / 86400 - Gregorian.monthStart (Gregorian.monthOf ((t + o) / 86400)) + 1) - 1) *
        86400 + (t + o) % 86400 / 3600 * 3600 + (t + o) % 3600 / 60 * 60 + (t + o) % 60 - o
  omega

/-! ## The runs of a straight loop -/

section Regular

variable {asked : ℤ → Prop}

/-- What is relied on of a schedule: the loop is straight, it stops at the local minutes `asked`,
and one of these is never more than eight days off. -/
structure Regular (c : CronSchedule) (o : ℤ) (asked : ℤ → Prop) : Prop where
  straight : Straight c (Zone.constant o)
  stops : ∀ t, jump c (Zone.constant o) t = none ↔ asked (localMinute (Zone.constant o) t)
  soon : ∀ l, 60 ∣ l → ∃ l', 60 ∣ l' ∧ l ≤ l' ∧ l' ≤ l + 691200 ∧ asked l'

/-- The full minutes that are asked for. -/
def Full (o : ℤ) (asked : ℤ → Prop) (t : ℤ) : Prop :=
  60 ∣ t ∧ asked (localMinute (Zone.constant o) t)

/-- **The next run** is the least full minute that is asked for and later. -/
theorem next_least_full (h : Regular c o asked) (after : ℤ) :
    ∃ fuel r, next c (Zone.constant o) fuel after = .found r ∧
      IsLeast {t | Full o asked t ∧ after < t * 1000000000} r := by
  have hfirst : ∀ t, 60 ∣ t → (firstMinute after ≤ t ↔ after < t * 1000000000) := by
    intro t ht
    unfold firstMinute
    omega
  have hminute : (60 : ℤ) ∣ firstMinute after := by
    unfold firstMinute
    omega
  obtain ⟨fuel, hends⟩ : ∃ fuel, next c (Zone.constant o) fuel after ≠ .running :=
    ⟨_, search_ends _ (fun _ _ _ _ hjump => h.straight.gains hjump) (Int.self_le_toNat _)⟩
  -- a match within the limit
  obtain ⟨l, hl, hle, hsoon, hasked⟩ :=
    h.soon (localMinute (Zone.constant o) (firstMinute after)) (Int.dvd_mul_left _ _)
  have hmatch : jump c (Zone.constant o) (l - o / 60 * 60) = none := by
    rw [h.stops]
    have hlocal : localMinute (Zone.constant o) (l - o / 60 * 60) = l := by
      unfold localMinute
      rw [Zone.constant_localTime]
      omega
    rw [hlocal]
    exact hasked
  have hfrom : firstMinute after ≤ l - o / 60 * 60 := by
    unfold localMinute at hle
    rw [Zone.constant_localTime] at hle
    omega
  have hlimit : l - o / 60 * 60 < limit (Zone.constant o) after := by
    have hfar := lt_addFiveYears o (firstMinute after)
    unfold localMinute at hsoon
    rw [Zone.constant_localTime] at hsoon
    unfold limit
    omega
  have hleast := search_least h.straight (limit (Zone.constant o) after) fuel hminute
  unfold next at hends ⊢
  cases hsearch : search c (Zone.constant o) (limit (Zone.constant o) after) fuel
    (firstMinute after) with
  | found r =>
      rw [hsearch] at hleast
      obtain ⟨⟨hr, hle', hlt, hstop⟩, hlower⟩ := hleast
      refine ⟨fuel, r, hsearch, ⟨⟨hr, (h.stops r).mp hstop⟩, (hfirst r hr).mp hle'⟩, ?_⟩
      rintro t ⟨⟨ht, hasked'⟩, hafter⟩
      by_cases hbefore : t < limit (Zone.constant o) after
      · exact hlower ⟨ht, (hfirst t ht).mpr hafter, hbefore, (h.stops t).mpr hasked'⟩
      · omega
  | noMatch =>
      rw [hsearch] at hleast
      exact absurd hmatch (hleast _ (by omega) hfrom hlimit)
  | running => exact absurd hsearch hends

/-- **The runs** are the full minutes that are asked for.

From left to right nothing is needed but that the loop ends where the fields match.  From right to
left one asks for the run behind the minute before. -/
theorem fires_iff (h : Regular c o asked) : Fires c (Zone.constant o) t ↔ Full o asked t := by
  constructor
  · rintro ⟨after, fuel, hfound⟩
    obtain ⟨fuel', r, hfound', hleast⟩ := next_least_full h after
    rw [next_unique hfound hfound']
    exact hleast.1.1
  · intro hfull
    obtain ⟨fuel, r, hfound, hleast⟩ := next_least_full h (t * 1000000000 - 1)
    have hle : r ≤ t := hleast.2 ⟨hfull, by omega⟩
    have hge := hleast.1.2
    have hsame : r = t := by omega
    rw [hsame] at hfound
    exact ⟨_, fuel, hfound⟩

/-- The run behind a run. -/
theorem next_of_least (h : Regular c o asked) {t' : ℤ} :
    (∃ fuel, next c (Zone.constant o) fuel (t * 1000000000) = .found t') ↔
      IsLeast {u | Full o asked u ∧ t < u} t' := by
  have hset : {u | Full o asked u ∧ t * 1000000000 < u * 1000000000} =
      {u | Full o asked u ∧ t < u} := by
    ext u
    refine and_congr_right fun _ => ?_
    omega
  obtain ⟨fuel, r, hfound, hleast⟩ := next_least_full h (t * 1000000000)
  rw [hset] at hleast
  constructor
  · rintro ⟨fuel', hfound'⟩
    rw [next_unique hfound' hfound]
    exact hleast
  · intro hleast'
    rw [hleast'.unique hleast]
    exact ⟨fuel, hfound⟩

/-- The runs are named by the minutes that are asked for. -/
theorem Regular.names (h : Regular c o asked) : Names c (Zone.constant o) asked := by
  refine ⟨fun t hfires => ((fires_iff h).mp hfires).2, fun l hl hasked => ?_⟩
  have hlocal : ∀ t, 60 ∣ t → (localMinute (Zone.constant o) t = l ↔ t = l - o / 60 * 60) := by
    intro t ht
    unfold localMinute
    rw [Zone.constant_localTime]
    omega
  have hdvd : (60 : ℤ) ∣ l - o / 60 * 60 := by omega
  refine ⟨l - o / 60 * 60, ⟨(fires_iff h).mpr ⟨hdvd, ?_⟩, (hlocal _ hdvd).mpr rfl⟩, ?_⟩
  · rw [(hlocal _ hdvd).mpr rfl]
    exact hasked
  · rintro t ⟨hfires, hsame⟩
    exact (hlocal t ((fires_iff h).mp hfires).1).mp hsame

/-! ## Steps -/

/-- Behind a multiple of `n` in a cycle of `p` comes the one that is `n` later, where `n` divides
`p`. -/
theorem multiple_next {n p x : ℤ} (hn : 0 < n) (hp : n ∣ p) (hx : n ∣ x % p) :
    IsLeast {y | n ∣ y % p ∧ x < y} (x + n) := by
  have hmod : ∀ y, n ∣ y % p ↔ n ∣ y := fun y =>
    Int.dvd_iff_dvd_of_dvd_sub (Int.dvd_trans hp Int.dvd_emod_sub_self)
  simp only [hmod] at hx ⊢
  refine ⟨⟨Int.dvd_add hx (Int.dvd_refl n), Int.lt_add_of_pos_right x hn⟩, ?_⟩
  rintro y ⟨hy, hlt⟩
  have hle := Int.le_of_dvd (Int.sub_pos.mpr hlt) (Int.dvd_sub hy hx)
  omega

/-- In front of the end of the cycle it comes only where `n` divides `p`: the cycle begins again
with 0. -/
theorem dvd_of_multiple_next {n p : ℤ} (hn : 0 < n) (hp : 0 < p)
    (h : ∀ x, n ∣ x % p → IsLeast {y | n ∣ y % p ∧ x < y} (x + n)) : n ∣ p := by
  -- the last multiple of the cycle
  have hlow : 0 ≤ (p - 1) / n * n :=
    mul_nonneg (Int.ediv_nonneg (by omega) (by omega)) (by omega)
  have hhigh : (p - 1) / n * n ≤ p - 1 := Int.ediv_mul_le _ (by omega)
  have hlast : p - 1 < (p - 1) / n * n + n := by
    have hlt := Int.lt_ediv_add_one_mul_self (p - 1) hn
    rw [add_mul, one_mul] at hlt
    exact hlt
  have hmod : ((p - 1) / n * n) % p = (p - 1) / n * n := Int.emod_eq_of_lt hlow (by omega)
  obtain ⟨⟨hmem, -⟩, hleast⟩ := h ((p - 1) / n * n) (by rw [hmod]; exact Int.dvd_mul_left _ _)
  have hle : (p - 1) / n * n + n ≤ p :=
    hleast ⟨by rw [Int.emod_self]; exact Int.dvd_zero n, by omega⟩
  have heq : (p - 1) / n * n + n = p := by omega
  rw [← heq]
  exact Int.dvd_add (Int.dvd_mul_left _ _) (Int.dvd_refl n)

/-- **Runs by a step**: they are as far apart as the step says exactly if it divides the cycle. -/
theorem Regular.apart_iff (h : Regular c o asked) {n p a b : ℤ} (hn : 0 < n) (hp : 0 < p)
    (ha : 0 < a) (hfull : ∀ t, Full o asked t ↔ ∃ x, n ∣ x % p ∧ t = a * x + b) :
    Apart c (Zone.constant o) (a * n) ↔ n ∣ p := by
  constructor
  · rintro ⟨-, hall⟩
    refine dvd_of_multiple_next hn hp fun x hx => ?_
    obtain ⟨⟨hmem, -⟩, hleast⟩ := (next_of_least h).mp
      (hall (a * x + b) ((fires_iff h).mpr ((hfull _).mpr ⟨x, hx, rfl⟩)))
    refine ⟨⟨?_, Int.lt_add_of_pos_right x hn⟩, ?_⟩
    · obtain ⟨y, hy, heq⟩ := (hfull _).mp hmem
      have hmul : a * (x + n) = a * y := by
        rw [mul_add]
        omega
      rw [mul_left_cancel₀ (ne_of_gt ha) hmul]
      exact hy
    · rintro y ⟨hy, hlt⟩
      have hmul : a * x < a * y := mul_lt_mul_of_pos_left hlt ha
      have hle := hleast ⟨(hfull _).mpr ⟨y, hy, rfl⟩, by omega⟩
      refine le_of_mul_le_mul_left (a := a) ?_ ha
      rw [mul_add]
      omega
  · intro hdvd
    refine ⟨⟨b, (fires_iff h).mpr ((hfull _).mpr ⟨0, ?_, by rw [mul_zero, zero_add]⟩)⟩, ?_⟩
    · rw [Int.zero_emod]
      exact Int.dvd_zero n
    · intro t hfires
      obtain ⟨x, hx, rfl⟩ := (hfull t).mp ((fires_iff h).mp hfires)
      obtain ⟨⟨hmem, -⟩, hleast⟩ := multiple_next hn hdvd hx
      have hmul : 0 < a * n := mul_pos ha hn
      refine (next_of_least h).mpr ⟨⟨(hfull _).mpr ⟨x + n, hmem, by ring⟩, by omega⟩, ?_⟩
      rintro u ⟨hu, hlt⟩
      obtain ⟨y, hy, rfl⟩ := (hfull u).mp hu
      have hxy : x < y := lt_of_mul_lt_mul_left (a := a) (by omega) (le_of_lt ha)
      have hle : a * (x + n) ≤ a * y := mul_le_mul_of_nonneg_left (hleast ⟨hy, hxy⟩) (le_of_lt ha)
      rw [mul_add] at hle
      omega

end Regular

/-! ## Offsets with seconds -/

/-- **The same minute twice.**  From the last minute in front of an hour the loop goes on to the
start of the hour, and from there in minutes to a run at the local second 0.  Behind it `Next`
begins with the full minute, which is in the same local minute. -/
theorem fires_twice {l m : ℤ} (ho : o % 60 ≠ 0) (hl : 3600 ∣ l) (hm : 0 ≤ m) (hm' : m < 60)
    (hstart : ∀ t, l - 60 ≤ t + o → t + o < l → jump c (Zone.constant o) t = some (l - o))
    (hhour : ∀ t, l ≤ t + o → t + o < l + 3600 → jump c (Zone.constant o) t =
      if (t + o) % 3600 / 60 = m then none else some (t + 60)) :
    Fires c (Zone.constant o) (l - o + 60 * m) ∧
      ∃ fuel, next c (Zone.constant o) fuel ((l - o + 60 * m) * 1000000000) =
        .found (l - o + 60 * m + o % 60) := by
  -- the induction is on the minutes that are left
  have hsearch : ∀ (limit : ℤ) (k : ℕ), (k : ℤ) ≤ m → l - o + 60 * m < limit →
      search c (Zone.constant o) limit (k + 1) (l - o + 60 * (m - k)) =
        .found (l - o + 60 * m) := by
    intro limit k
    induction k with
    | zero =>
        intro _ hlimit
        rw [search, if_pos (by push_cast; omega), hhour _ (by push_cast; omega)
          (by push_cast; omega), if_pos (by push_cast; omega)]
        show Search.found (l - o + 60 * (m - ((0 : ℕ) : ℤ))) = _
        rw [Nat.cast_zero, sub_zero]
    | succ k ih =>
        intro hk hlimit
        push_cast at hk
        rw [search, if_pos (by push_cast; omega), hhour _ (by push_cast; omega)
          (by push_cast; omega), if_neg (by push_cast; omega)]
        have hnext : l - o + 60 * (m - ((k + 1 : ℕ) : ℤ)) + 60 = l - o + 60 * (m - k) := by
          push_cast
          ring
        show search c (Zone.constant o) limit (k + 1)
          (l - o + 60 * (m - ((k + 1 : ℕ) : ℤ)) + 60) = _
        rw [hnext]
        exact ih (by omega) hlimit
  constructor
  · -- the full minute in front of the hour
    have hfirst : firstMinute ((l - o + o % 60 - 120) * 1000000000) = l - o + o % 60 - 60 := by
      unfold firstMinute
      omega
    have hlimit := lt_addFiveYears o (l - o + o % 60 - 60)
    refine ⟨(l - o + o % 60 - 120) * 1000000000, m.toNat + 1 + 1, ?_⟩
    unfold next limit
    rw [hfirst, search, if_pos (by omega), hstart _ (by omega) (by omega)]
    have hleft := hsearch ((Zone.constant o).addFiveYears (l - o + o % 60 - 60)) m.toNat (by omega)
      (by omega)
    rw [Int.toNat_of_nonneg hm, sub_self, mul_zero, add_zero] at hleft
    exact hleft
  · have hfirst : firstMinute ((l - o + 60 * m) * 1000000000) = l - o + 60 * m + o % 60 := by
      unfold firstMinute
      omega
    have hlimit := lt_addFiveYears o (l - o + 60 * m + o % 60)
    refine ⟨1, ?_⟩
    unfold next limit
    rw [hfirst, search, if_pos (by omega), hhour _ (by omega) (by omega), if_pos (by omega)]

end BindPlane.Cron
