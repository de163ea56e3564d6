import Mathlib.Logic.Relation
import BindPlane.Cron.Gregorian
import BindPlane.Devices.Cron

/-!
# The next run in a time zone

`CronSchedule.Next` over the instants of Go: seconds of the Unix clock, which the loop never
leaves, and nanoseconds for the instant it starts behind.

**Zones.**  A `Zone` has an offset from UTC at every instant, and `time.Date`, which resolves a local
time.  Where the local time occurs it is resolved to one of its occurrences; where the clock jumps
over it, by the offset in front of the jump or behind it.

**The loop.**  It goes on to the start of the next month, day or hour.  As a local time this is
later than the present one, but it need not be so as an instant (`Misread`): behind a jump of the
clock it may be resolved to an instant in front of the jump, which is where the loop has come from.
A round that is not misread gains (`lt_of_jump`), one that is does not (`Misread.jump`), and a loop
that gains in every round ends (`progress_iff`).  Which rounds a loop comes to is not said here; the
condition on the zone, the expression and the instant is that of `BindPlane.Cron.Progress`.
-/

namespace BindPlane

/-! ## Zones -/

/-- The local time of the calendar fields, in seconds: the fields may lie outside their ranges. -/
def Civil.seconds (x : Civil) : ℤ :=
  (Gregorian.monthStart (12 * x.year + x.month - 1) + x.day - 1) * 86400 + x.hour * 3600 +
    x.minute * 60 + x.second

/-- The calendar fields of a local time. -/
def Civil.ofSeconds (l : ℤ) : Civil where
  year := Gregorian.monthOf (l / 86400) / 12
  month := Gregorian.monthOf (l / 86400) % 12 + 1
  day := l / 86400 - Gregorian.monthStart (Gregorian.monthOf (l / 86400)) + 1
  hour := l % 86400 / 3600
  minute := l % 3600 / 60
  second := l % 60

namespace Cron

/-- A time zone: the offset from UTC at an instant, and `time.Date` of a local time.

Nothing relates the offsets of different instants: a zone may shift its clock at any time and by any
amount.  `resolve` is known only through what the documentation of `time.Date` promises; which of
two occurrences it takes, or which offset in a gap, is left open. -/
structure Zone where
  offset : ℤ → ℤ
  resolve : ℤ → ℤ
  /-- A local time is resolved to one of its occurrences, or, where the clock jumps over it, by one
  of the two offsets of the jump. -/
  resolves : ∀ l, resolve l + offset (resolve l) = l ∨
    (∀ u, u + offset u ≠ l) ∧ ∃ v, v - 1 + offset (v - 1) < l ∧ l < v + offset v ∧
      (resolve l = l - offset (v - 1) ∨ resolve l = l - offset v)

namespace Zone

variable (z : Zone) (t : ℤ)

/-- The local time of an instant. -/
def localTime : ℤ := t + z.offset t

/-- `t.Year()`, `t.Month()` and so on. -/
def civil : Civil := Civil.ofSeconds (z.localTime t)

/-- `t.Weekday()`. -/
def weekday : ℤ := Gregorian.weekday (z.localTime t / 86400)

/-- `time.Date`. -/
def date (x : Civil) : ℤ := z.resolve x.seconds

/-- `time.Date(t.Year(), t.Month()+1, 1, 0, 0, 0, 0, loc)`. -/
def nextMonth : Civil := ⟨(z.civil t).year, (z.civil t).month + 1, 1, 0, 0, 0⟩

/-- `time.Date(t.Year(), t.Month(), t.Day()+1, 0, 0, 0, 0, loc)`. -/
def nextDay : Civil := ⟨(z.civil t).year, (z.civil t).month, (z.civil t).day + 1, 0, 0, 0⟩

/-- `time.Date(t.Year(), t.Month(), t.Day(), t.Hour()+1, 0, 0, 0, loc)`. -/
def nextHour : Civil :=
  ⟨(z.civil t).year, (z.civil t).month, (z.civil t).day, (z.civil t).hour + 1, 0, 0⟩

/-- `t.AddDate(5, 0, 0)`. -/
def addFiveYears : ℤ := z.date { z.civil t with year := (z.civil t).year + 5 }

end Zone

/-! ## The loop -/

variable (c : CronSchedule) (z : Zone)

/-- `c.month&(1<<uint(t.Month())) != 0`. -/
def monthMatches (t : ℤ) : Bool := c.month.getLsbD (z.civil t).month.toNat

/-- `dayMatches`. -/
def dayMatches (t : ℤ) : Bool :=
  let dom := c.dom.getLsbD (z.civil t).day.toNat
  let dow := c.dow.getLsbD (z.weekday t).toNat
  if c.domRestricted && c.dowRestricted then dom || dow else dom && dow

/-- `c.hour&(1<<uint(t.Hour())) != 0`. -/
def hourMatches (t : ℤ) : Bool := c.hour.getLsbD (z.civil t).hour.toNat

/-- `c.minute&(1<<uint(t.Minute())) != 0`. -/
def minuteMatches (t : ℤ) : Bool := c.minute.getLsbD (z.civil t).minute.toNat

/-- The start of the month, day or hour that a round goes on to. -/
def asks (t : ℤ) : Option Civil :=
  if !monthMatches c z t then some (z.nextMonth t)
  else if !dayMatches c z t then some (z.nextDay t)
  else if !hourMatches c z t then some (z.nextHour t)
  else none

/-- One round of the loop: where it goes on, unless `t` matches. -/
def jump (t : ℤ) : Option ℤ :=
  match asks c z t with
  | some x => some (z.date x)
  | none => if !minuteMatches c z t then some (t + 60) else none

/-- How a search ends. -/
inductive Search
  | found (t : ℤ)
  /-- The zero time. -/
  | noMatch
  | running
  deriving DecidableEq, Repr

/-- The loop, for a number of rounds. -/
def search (limit : ℤ) : ℕ → ℤ → Search
  | 0, _ => .running
  | n + 1, t =>
      if t < limit then
        match jump c z t with
        | some t' => search limit n t'
        | none => .found t
      else .noMatch

/-- `after.Truncate(time.Minute).Add(time.Minute)`, of nanoseconds. -/
def firstMinute (after : ℤ) : ℤ := (after / 60000000000 + 1) * 60

/-- `limit`. -/
def limit (after : ℤ) : ℤ := z.addFiveYears (firstMinute after)

/-- `Next`. -/
def next (fuel : ℕ) (after : ℤ) : Search := search c z (limit z after) fuel (firstMinute after)

/-- The instants that the loop comes by. -/
def Visits (after : ℤ) : ℤ → Prop :=
  Relation.ReflTransGen (fun t t' => t < limit z after ∧ jump c z t = some t') (firstMinute after)

/-- **The loop gains in every round**, and ends: with the zero time, or behind `after`.

This is what the comment of `Next` promises, with the termination that it takes for granted.  The
loop is bounded by a limit of five years, but the limit is compared with the instant that the loop
has come to, and an instant that does not move never reaches it. -/
structure Progress (after : ℤ) : Prop where
  gains : ∀ t t', Visits c z after t → t < limit z after → jump c z t = some t' → t < t'
  ends : ∃ fuel, next c z fuel after ≠ .running
  later : ∀ fuel t, next c z fuel after = .found t → after < t * 1000000000

/-- **A round that gains nothing**: the start it goes on to is one that the clock jumps over, and
resolved to no later instant; or one that occurs twice, and resolved to an occurrence that has
passed.

Both cases are about one start and one instant, and say what `time.Date` makes of the start.  There
are such starts only around the instants at which a zone shifts its clock. -/
def Misread (t : ℤ) : Prop :=
  ∃ x, asks c z t = some x ∧
    ((∀ u, z.localTime u ≠ x.seconds) ∧ z.date x ≤ t ∨
      ∃ u < t, z.localTime u = x.seconds ∧ z.date x = u)

variable {c z}

/-! ## The calendar -/

theorem ofSeconds_month (l : ℤ) :
    12 * (Civil.ofSeconds l).year + (Civil.ofSeconds l).month - 1 =
      Gregorian.monthOf (l / 86400) := by
  show 12 * (Gregorian.monthOf (l / 86400) / 12) + (Gregorian.monthOf (l / 86400) % 12 + 1) - 1 = _
  omega

/-- The start of the next month. -/
theorem nextMonth_seconds (t : ℤ) : (z.nextMonth t).seconds =
    Gregorian.monthStart (Gregorian.monthOf (z.localTime t / 86400) + 1) * 86400 := by
  have hmonth := ofSeconds_month (z.localTime t)
  unfold Zone.nextMonth Civil.seconds Zone.civil
  dsimp only
  rw [← hmonth, show 12 * (Civil.ofSeconds (z.localTime t)).year +
    ((Civil.ofSeconds (z.localTime t)).month + 1) - 1 = 12 * (Civil.ofSeconds (z.localTime t)).year +
      (Civil.ofSeconds (z.localTime t)).month - 1 + 1 by omega]
  omega

/-- The start of the next day. -/
theorem nextDay_seconds (t : ℤ) :
    (z.nextDay t).seconds = (z.localTime t / 86400 + 1) * 86400 := by
  have hmonth := ofSeconds_month (z.localTime t)
  unfold Zone.nextDay Civil.seconds Zone.civil
  dsimp only
  rw [hmonth]
  show (Gregorian.monthStart (Gregorian.monthOf (z.localTime t / 86400)) +
    (z.localTime t / 86400 - Gregorian.monthStart (Gregorian.monthOf (z.localTime t / 86400)) + 1 +
      1) - 1) * 86400 + 0 * 3600 + 0 * 60 + 0 = _
  omega

/-- The start of the next hour. -/
theorem nextHour_seconds (t : ℤ) :
    (z.nextHour t).seconds = (z.localTime t / 3600 + 1) * 3600 := by
  have hmonth := ofSeconds_month (z.localTime t)
  unfold Zone.nextHour Civil.seconds Zone.civil
  dsimp only
  rw [hmonth]
  show (Gregorian.monthStart (Gregorian.monthOf (z.localTime t / 86400)) +
    (z.localTime t / 86400 - Gregorian.monthStart (Gregorian.monthOf (z.localTime t / 86400)) + 1) -
      1) * 86400 + (z.localTime t % 86400 / 3600 + 1) * 3600 + 0 * 60 + 0 = _
  have hday : z.localTime t / 3600 = z.localTime t / 86400 * 24 + z.localTime t % 86400 / 3600 := by
    omega
  rw [hday]
  omega

/-- What a round goes on to is later as a local time. -/
theorem asks_later {t : ℤ} {x : Civil} (h : asks c z t = some x) : z.localTime t < x.seconds := by
  unfold asks at h
  split at h
  · cases h
    have hspec := (Gregorian.monthOf_spec (z.localTime t / 86400)).2
    rw [nextMonth_seconds]
    omega
  · split at h
    · cases h
      rw [nextDay_seconds]
      omega
    · split at h
      · cases h
        rw [nextHour_seconds]
        omega
      · cases h

/-- Instants in one local month. -/
theorem civil_month {u t : ℤ} (h : Gregorian.monthOf (z.localTime t / 86400) =
    Gregorian.monthOf (z.localTime u / 86400)) :
    (z.civil t).year = (z.civil u).year ∧ (z.civil t).month = (z.civil u).month :=
  ⟨congrArg (· / 12) h, congrArg (· % 12 + 1) h⟩

/-- Instants on one local day. -/
theorem civil_day {u t : ℤ} (h : z.localTime t / 86400 = z.localTime u / 86400) :
    ((z.civil t).year = (z.civil u).year ∧ (z.civil t).month = (z.civil u).month) ∧
      (z.civil t).day = (z.civil u).day ∧ z.weekday t = z.weekday u := by
  refine ⟨civil_month (congrArg Gregorian.monthOf h), ?_, congrArg Gregorian.weekday h⟩
  show z.localTime t / 86400 - Gregorian.monthStart (Gregorian.monthOf (z.localTime t / 86400)) + 1 =
    z.localTime u / 86400 - Gregorian.monthStart (Gregorian.monthOf (z.localTime u / 86400)) + 1
  rw [h]

/-- Instants in one local hour. -/
theorem civil_hour {u t : ℤ} (h : z.localTime t / 3600 = z.localTime u / 3600) :
    z.localTime t / 86400 = z.localTime u / 86400 ∧ (z.civil t).hour = (z.civil u).hour := by
  refine ⟨by omega, ?_⟩
  show z.localTime t % 86400 / 3600 = z.localTime u % 86400 / 3600
  omega

theorem monthMatches_congr {u t : ℤ} (h : Gregorian.monthOf (z.localTime t / 86400) =
    Gregorian.monthOf (z.localTime u / 86400)) : monthMatches c z t = monthMatches c z u := by
  rw [monthMatches, (civil_month h).2, monthMatches]

theorem dayMatches_congr {u t : ℤ} (h : z.localTime t / 86400 = z.localTime u / 86400) :
    dayMatches c z t = dayMatches c z u := by
  obtain ⟨-, hday, hweekday⟩ := civil_day h
  rw [dayMatches, hday, hweekday, dayMatches]

theorem hourMatches_congr {u t : ℤ} (h : z.localTime t / 3600 = z.localTime u / 3600) :
    hourMatches c z t = hourMatches c z u := by
  rw [hourMatches, (civil_hour h).2, hourMatches]

/-- **A round is repeated**: from another instant of the month, day or hour that is not asked for,
the loop goes on to the same start. -/
theorem asks_congr {u t : ℤ} {x : Civil} (h : asks c z u = some x)
    (hle : z.localTime u / 3600 ≤ z.localTime t / 3600) (hlt : z.localTime t < x.seconds) :
    asks c z t = some x := by
  unfold asks at h
  split at h
  · next hmonth =>
      cases h
      rw [nextMonth_seconds] at hlt
      have hlow := (Gregorian.monthOf_spec (z.localTime u / 86400)).1
      have hsame : Gregorian.monthOf (z.localTime t / 86400) =
          Gregorian.monthOf (z.localTime u / 86400) := Gregorian.monthOf_eq (by omega) (by omega)
      obtain ⟨hy, hm⟩ := civil_month hsame
      rw [asks, monthMatches_congr hsame, if_pos hmonth, Zone.nextMonth, hy, hm, Zone.nextMonth]
  · next hmonth =>
      split at h
      · next hday =>
          cases h
          rw [nextDay_seconds] at hlt
          have hsame : z.localTime t / 86400 = z.localTime u / 86400 := by omega
          obtain ⟨⟨hy, hm⟩, hd, -⟩ := civil_day hsame
          rw [asks, monthMatches_congr (congrArg Gregorian.monthOf hsame), if_neg hmonth,
            dayMatches_congr hsame, if_pos hday, Zone.nextDay, hy, hm, hd, Zone.nextDay]
      · next hday =>
          split at h
          · next hhour =>
              cases h
              rw [nextHour_seconds] at hlt
              have hsame : z.localTime t / 3600 = z.localTime u / 3600 := by omega
              obtain ⟨hdate, hh⟩ := civil_hour hsame
              obtain ⟨⟨hy, hm⟩, hd, -⟩ := civil_day hdate
              rw [asks, monthMatches_congr (congrArg Gregorian.monthOf hdate), if_neg hmonth,
                dayMatches_congr hdate, if_neg hday, hourMatches_congr hsame, if_pos hhour,
                Zone.nextHour, hy, hm, hd, hh, Zone.nextHour]
          · cases h

theorem minuteMatches_congr {u t : ℤ} (h : z.localTime t / 60 = z.localTime u / 60) :
    minuteMatches c z t = minuteMatches c z u := by
  have hminute : (z.civil t).minute = (z.civil u).minute := by
    show z.localTime t % 3600 / 60 = z.localTime u % 3600 / 60
    omega
  rw [minuteMatches, hminute, minuteMatches]

/-- What a round goes on to is the start of an hour. -/
theorem asks_hour {t : ℤ} {x : Civil} (h : asks c z t = some x) : 3600 ∣ x.seconds := by
  unfold asks at h
  split at h
  · cases h
    rw [nextMonth_seconds]
    omega
  · split at h
    · cases h
      rw [nextDay_seconds]
      omega
    · split at h
      · cases h
        rw [nextHour_seconds]
        omega
      · cases h

/-- A round does not depend on the seconds. -/
theorem asks_minute {u t : ℤ} (h : z.localTime t / 60 = z.localTime u / 60) :
    asks c z t = asks c z u := by
  have hsome : ∀ {u t : ℤ} {x : Civil}, z.localTime t / 60 = z.localTime u / 60 →
      asks c z u = some x → asks c z t = some x := by
    intro u t x h hx
    have hlater := asks_later hx
    have hstart := asks_hour hx
    exact asks_congr hx (by omega) (by omega)
  cases hu : asks c z u with
  | some x => exact hsome h hu
  | none =>
      cases ht : asks c z t with
      | none => rfl
      | some x =>
          rw [hsome h.symm ht] at hu
          cases hu

/-- The loop stops where everything matches. -/
theorem jump_eq_none {t : ℤ} : jump c z t = none ↔
    monthMatches c z t = true ∧ dayMatches c z t = true ∧ hourMatches c z t = true ∧
      minuteMatches c z t = true := by
  unfold jump asks
  cases monthMatches c z t <;> cases dayMatches c z t <;> cases hourMatches c z t <;>
    cases minuteMatches c z t <;> simp

/-! ## Progress -/

/-- A round that is not misread gains. -/
theorem lt_of_jump {t t' : ℤ} (h : jump c z t = some t') (hno : ¬ Misread c z t) : t < t' := by
  unfold jump at h
  split at h
  · next x hx =>
      cases h
      by_contra hle
      refine hno ⟨x, hx, ?_⟩
      rcases z.resolves x.seconds with hlocal | ⟨hskipped, -⟩
      · refine Or.inr ⟨z.date x, lt_of_le_of_ne (not_lt.mp hle) ?_, hlocal, rfl⟩
        intro heq
        have hlater := asks_later hx
        rw [← heq] at hlater
        exact absurd hlocal (ne_of_lt hlater)
      · exact Or.inl ⟨hskipped, not_lt.mp hle⟩
  · split at h
    · cases h
      omega
    · cases h

/-- A round that is misread goes on to a start that is resolved to no later instant. -/
theorem Misread.asks {t : ℤ} (h : Misread c z t) : ∃ x, Cron.asks c z t = some x ∧ z.date x ≤ t := by
  obtain ⟨x, hx, ⟨-, hle⟩ | ⟨u, hlt, -, heq⟩⟩ := h
  · exact ⟨x, hx, hle⟩
  · exact ⟨x, hx, heq ▸ hlt.le⟩

/-- It gains nothing. -/
theorem Misread.jump {t : ℤ} (h : Misread c z t) : ∃ t', Cron.jump c z t = some t' ∧ t' ≤ t := by
  obtain ⟨x, hx, hle⟩ := h.asks
  refine ⟨z.date x, ?_, hle⟩
  rw [Cron.jump, hx]

/-- A loop that gains ends. -/
theorem search_ends {limit : ℤ} (fuel : ℕ) : ∀ {t : ℤ},
    (∀ u u', Relation.ReflTransGen (fun t t' => t < limit ∧ jump c z t = some t') t u →
      u < limit → jump c z u = some u' → u < u') →
    limit - t ≤ fuel → search c z limit (fuel + 1) t ≠ .running := by
  induction fuel with
  | zero =>
      intro t _ hfuel
      rw [search, if_neg (by push_cast at hfuel; omega)]
      nofun
  | succ n ih =>
      intro t hgains hfuel
      rw [search]
      split
      · next hlt =>
          split
          · next t' hjump =>
              have hgain := hgains t t' .refl hlt hjump
              refine ih (fun u u' hu => hgains u u' (.head ⟨hlt, hjump⟩ hu)) ?_
              push_cast at hfuel
              omega
          · nofun
      · nofun

/-- What a loop that gains finds is not before where it starts. -/
theorem search_found {limit r : ℤ} (fuel : ℕ) : ∀ {t : ℤ},
    (∀ u u', Relation.ReflTransGen (fun t t' => t < limit ∧ jump c z t = some t') t u →
      u < limit → jump c z u = some u' → u < u') →
    search c z limit fuel t = .found r → t ≤ r := by
  induction fuel with
  | zero =>
      intro t _ h
      cases h
  | succ n ih =>
      intro t hgains h
      rw [search] at h
      split at h
      · next hlt =>
          split at h
          · next t' hjump =>
              have hgain := hgains t t' .refl hlt hjump
              exact (le_of_lt hgain).trans
                (ih (fun u u' hu => hgains u u' (.head ⟨hlt, hjump⟩ hu)) h)
          · cases h
            exact le_rfl
      · cases h

theorem lt_firstMinute (after : ℤ) : after < firstMinute after * 1000000000 := by
  unfold firstMinute
  omega

/-- The loop gains if no round that it comes to is misread. -/
theorem progress_iff (c : CronSchedule) (z : Zone) (after : ℤ) :
    Progress c z after ↔
      ∀ t, Visits c z after t → t < limit z after → ¬ Misread c z t := by
  constructor
  · intro h t hvisits hlt hmisread
    obtain ⟨t', hjump, hle⟩ := hmisread.jump
    exact absurd (h.gains t t' hvisits hlt hjump) (not_lt.mpr hle)
  · intro h
    have hgains : ∀ t t', Visits c z after t → t < limit z after → jump c z t = some t' → t < t' :=
      fun t t' hvisits hlt hjump => lt_of_jump hjump (h t hvisits hlt)
    refine ⟨hgains, ⟨(limit z after - firstMinute after).toNat + 1, ?_⟩, fun fuel t hfound => ?_⟩
    · exact search_ends _ hgains (Int.self_le_toNat _)
    · have hle := search_found fuel hgains hfound
      have hlt := lt_firstMinute after
      omega

end Cron

end BindPlane
