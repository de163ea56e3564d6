import BindPlane.Cron.Progress

/-!
# Zones as locations

`BindPlane.Devices.Cron` runs the loop of `Next` on the microseconds of the database, over a
`Location` of which nothing is known; `BindPlane.Cron.Next` runs it on the seconds of a `Zone`.  A
zone is a location (`Zone.location`), and the two loops are one (`next_location`).

**Regular zones.**  An orderly zone is regular at every instant (`Zone.Orderly.regularAt`): it may
skip the start of an hour, but the instant such a start is resolved to is in the hour in front of
the gap.

**St. John's.**  Up to 2011 the clock was put back at one minute past midnight, to one minute past
eleven.  In the hour behind that, midnight is resolved to the occurrence that has passed, and the
next run of a schedule for midnight is no later than the present (`Demo.stJohns_irregular`).

**What is gained.**  What was shown of the loop over a location can be used for zones, and a
location that misbehaves can be given as a zone, by its offsets.  So the conditions on a location
are neither empty nor always met: every orderly zone is regular, and that of St. John's is not.
-/

namespace BindPlane

open Cron

namespace Cron

/-- The instant of a second, in the microseconds of the database. -/
def instantOf (t : ℤ) : Instant := (t * 1000000).toNat

/-- **A zone as a location**: an instant is read to the second. -/
def Zone.location (z : Zone) : Location where
  civil t := z.civil ((t : ℤ) / 1000000)
  weekday t := (z.weekday ((t : ℤ) / 1000000)).toNat
  date x := instantOf (z.date x)

variable {c : CronSchedule} {z : Zone}

theorem instantOf_second {t : ℤ} (h : 0 ≤ t) : ((instantOf t : ℕ) : ℤ) / 1000000 = t := by
  unfold instantOf
  omega

theorem instantOf_lt {t u : ℤ} (ht : 0 ≤ t) : instantOf t < instantOf u ↔ t < u := by
  unfold instantOf
  show (t * 1000000).toNat < (u * 1000000).toNat ↔ t < u
  omega

/-! ## One loop -/

/-- The fields of a round, read at a second. -/
theorem matches_location {t : ℤ} (h : 0 ≤ t) :
    c.monthMatches z.location (instantOf t) = monthMatches c z t ∧
      c.dayMatches z.location (instantOf t) = dayMatches c z t ∧
      c.hourMatches z.location (instantOf t) = hourMatches c z t ∧
      c.minuteMatches z.location (instantOf t) = minuteMatches c z t := by
  unfold CronSchedule.monthMatches CronSchedule.dayMatches CronSchedule.hourMatches
    CronSchedule.minuteMatches monthMatches dayMatches hourMatches minuteMatches Zone.location
  dsimp only
  rw [instantOf_second h]
  exact ⟨rfl, rfl, rfl, rfl⟩

/-- The starts that a round goes on to. -/
theorem starts_location {t : ℤ} (h : 0 ≤ t) :
    z.location.nextMonth (instantOf t) = instantOf (z.date (z.nextMonth t)) ∧
      z.location.nextDay (instantOf t) = instantOf (z.date (z.nextDay t)) ∧
      z.location.nextHour (instantOf t) = instantOf (z.date (z.nextHour t)) := by
  unfold Location.nextMonth Location.nextDay Location.nextHour Zone.location
  dsimp only
  rw [instantOf_second h]
  exact ⟨rfl, rfl, rfl⟩

/-- One round of the two loops. -/
theorem jump_location {t : ℤ} (h : 0 ≤ t) :
    c.jump z.location (instantOf t) = (Cron.jump c z t).map instantOf := by
  obtain ⟨hmonth, hday, hhour, hminute⟩ := matches_location (c := c) (z := z) h
  obtain ⟨hnextMonth, hnextDay, hnextHour⟩ := starts_location (z := z) h
  have hnext : instantOf t + minuteInterval = instantOf (t + 60) := by
    unfold instantOf minuteInterval
    show (t * 1000000).toNat + 60000000 = ((t + 60) * 1000000).toNat
    omega
  unfold CronSchedule.jump Cron.jump asks
  rw [hmonth, hday, hhour, hminute, hnextMonth, hnextDay, hnextHour, hnext]
  cases monthMatches c z t <;> cases dayMatches c z t <;> cases hourMatches c z t <;>
    cases minuteMatches c z t <;> rfl

/-- How the loop on the microseconds ends, of the loop on the seconds. -/
def Search.instant : Search → CronSchedule.Search
  | .found t => .found (instantOf t)
  | .noMatch => .noMatch
  | .running => .running

/-- The two loops, round by round, as long as the starts of `z` are not before 1970. -/
theorem search_location (hpos : ∀ t x, 0 ≤ t → asks c z t = some x → 0 ≤ z.date x) {limit : ℤ}
    (fuel : ℕ) : ∀ {t : ℤ}, 0 ≤ t →
      c.search z.location (instantOf limit) fuel (instantOf t) =
        (search c z limit fuel t).instant := by
  induction fuel with
  | zero => exact fun _ => rfl
  | succ n ih =>
      intro t ht
      rw [CronSchedule.search, search, jump_location ht]
      by_cases hlt : t < limit
      · rw [if_pos hlt, if_pos ((instantOf_lt ht).mpr hlt)]
        cases hjump : Cron.jump c z t with
        | none => rfl
        | some t' =>
            have ht' : 0 ≤ t' := by
              cases hx : asks c z t with
              | some x =>
                  rw [Cron.jump, hx] at hjump
                  exact Option.some.inj hjump ▸ hpos t x ht hx
              | none =>
                  rw [Cron.jump, hx] at hjump
                  dsimp only at hjump
                  split at hjump
                  · obtain rfl : t + 60 = t' := Option.some.inj hjump
                    omega
                  · cases hjump
            exact ih ht'
      · rw [if_neg hlt, if_neg (mt (instantOf_lt ht).mp hlt)]
        rfl

/-- **The two loops are one**: the next run in the zone as a location is the next run in the zone.

The two loops differ in their units and in the limit, which is kept in seconds by the one and in
microseconds by the other.  Round for round they look at the same fields and go on to the same
start. -/
theorem next_location (hpos : ∀ t x, 0 ≤ t → asks c z t = some x → 0 ≤ z.date x) (fuel : ℕ)
    (after : Instant) :
    c.next z.location fuel after = (next c z fuel ((after : ℤ) * 1000)).instant := by
  have hfirst : CronSchedule.firstMinute after = instantOf (firstMinute ((after : ℤ) * 1000)) := by
    unfold CronSchedule.firstMinute firstMinute instantOf minuteInterval
    show @Eq ℕ (after - after % 60000000 + 60000000) _
    omega
  have hnonneg : 0 ≤ firstMinute ((after : ℤ) * 1000) := by
    have hle : (0 : ℤ) ≤ (after : ℕ) := Int.natCast_nonneg _
    unfold firstMinute
    omega
  have hlimit : z.location.addFiveYears (instantOf (firstMinute ((after : ℤ) * 1000))) =
      instantOf (limit z ((after : ℤ) * 1000)) := by
    unfold Location.addFiveYears Zone.location
    dsimp only
    rw [instantOf_second hnonneg]
    rfl
  rw [CronSchedule.next, hfirst, hlimit]
  exact search_location hpos fuel hnonneg

/-- Where the loop goes forward, `nextRun` has an answer, given enough fuel: the fuel of the
operations stands for the loop of the source there, and only there. -/
theorem Forward.nextRun {expression : String} {after : Instant}
    (hparse : parseCron expression = .ok c)
    (hpos : ∀ t x, 0 ≤ t → asks c z t = some x → 0 ≤ z.date x)
    (h : Forward c z ((after : ℤ) * 1000)) :
    ∃ fuel, BindPlane.nextRun z.location fuel expression after ≠ .error .running := by
  obtain ⟨fuel, hends⟩ := h.progress.ends
  refine ⟨fuel, ?_⟩
  unfold BindPlane.nextRun
  rw [hparse]
  dsimp only
  rw [next_location hpos]
  cases hnext : next c z fuel ((after : ℤ) * 1000) with
  | found t =>
      intro h
      cases h
  | noMatch =>
      intro h
      cases h
  | running => exact absurd hnext hends

/-! ## Regular zones -/

/-- A start that is resolved to an instant `w` that is not later, in an orderly zone: `w` is in the
hour in front of the start, or behind it. -/
theorem Zone.Orderly.resolved (hz : z.Orderly) {x : Civil} {t w : Instant}
    (hw : w = z.location.date x) (h : ¬ t < w) :
    (x.seconds - 3600) / 3600 ≤ z.localTime ((w : ℤ) / 1000000) / 3600 ∧
      z.localTime ((w : ℤ) / 1000000) / 3600 ≤ z.localTime ((t : ℤ) / 1000000) / 3600 := by
  have hle : @LE.le ℕ _ w t := not_lt.mp h
  have hdate : z.date x ≤ (w : ℤ) / 1000000 := by
    have hw' : @Eq ℕ w (z.date x * 1000000).toNat := hw
    omega
  have hgap := hz.gaps x.seconds
  have hhours := hz.hours _ _ hdate
  unfold Zone.date at hhours
  exact ⟨by omega, hz.hours _ _ (by omega)⟩

/-- **An orderly zone is regular** at every instant.

Either the start that the loop goes on to is later, or it is skipped by the clock and resolved into
the hour in front of the gap.  There the second case of `RegularAt` holds, because an hour in front
of the gap belongs to the day and the month that the loop is in. -/
theorem Zone.Orderly.regularAt (hz : z.Orderly) (t : Instant) : z.location.RegularAt t where
  month := by
    by_cases h : t < z.location.nextMonth t
    · exact Or.inl h
    · obtain ⟨hlow, hhigh⟩ := 
        hz.resolved (w := z.location.nextMonth t) (x := z.nextMonth ((t : ℤ) / 1000000)) rfl h
      rw [nextMonth_seconds] at hlow
      have hspec := Gregorian.monthOf_spec (z.localTime ((t : ℤ) / 1000000) / 86400)
      have hprev := Gregorian.monthStart_lt
        (Gregorian.monthOf (z.localTime ((t : ℤ) / 1000000) / 86400))
      exact Or.inr (civil_month (Gregorian.monthOf_eq (by omega) (by omega)))
  day := by
    by_cases h : t < z.location.nextDay t
    · exact Or.inl h
    · obtain ⟨hlow, hhigh⟩ := 
        hz.resolved (w := z.location.nextDay t) (x := z.nextDay ((t : ℤ) / 1000000)) rfl h
      rw [nextDay_seconds] at hlow
      have hsame : z.localTime (((z.location.nextDay t : ℕ) : ℤ) / 1000000) / 86400 =
          z.localTime ((t : ℤ) / 1000000) / 86400 := by omega
      obtain ⟨⟨hy, hm⟩, hd, hw⟩ := civil_day hsame
      exact Or.inr ⟨hy, hm, hd, congrArg Int.toNat hw⟩
  hour := by
    by_cases h : t < z.location.nextHour t
    · exact Or.inl h
    · obtain ⟨hlow, hhigh⟩ := 
        hz.resolved (w := z.location.nextHour t) (x := z.nextHour ((t : ℤ) / 1000000)) rfl h
      rw [nextHour_seconds] at hlow
      have hsame : z.localTime (((z.location.nextHour t : ℕ) : ℤ) / 1000000) / 3600 =
          z.localTime ((t : ℤ) / 1000000) / 3600 := by omega
      obtain ⟨hdate, hh⟩ := civil_hour hsame
      obtain ⟨⟨hy, hm⟩, hd, hw⟩ := civil_day hdate
      exact Or.inr ⟨hy, hm, hd, congrArg Int.toNat hw, hh⟩

theorem Zone.Orderly.regularFrom (hz : z.Orderly) (after : Instant) :
    z.location.RegularFrom after := fun t _ => hz.regularAt t

namespace Demo

/-- St. John's, about 7 November 2010: 00:00:59 is followed by 23:01 of the day before. -/
def stJohns : Zone := .switching 1289097060 (-9000) (-12600)

/-- Half past eleven, for the second time. -/
def evening : Instant := 1289098800000000

/-- The next midnight is in the past. -/
theorem stJohns_irregular : ¬ stJohns.location.RegularAt evening ∧
    nextRun stJohns.location 10 "0 0 * * *" evening = .ok 1289097000000000 := by
  refine ⟨fun h => ?_, by decide +kernel⟩
  rcases h.hour with hlt | ⟨-, -, -, -, hhour⟩
  · revert hlt
    decide +kernel
  · revert hhour
    decide +kernel

end Demo

end Cron

end BindPlane
