import Mathlib.Order.Bounds.Basic
import BindPlane.Cron.Next

/-!
# The next run at a fixed offset

**What an expression asks for.**  `Expression.Matches` reads the five sets off the expression, and
says of calendar fields whether they match.

**No match is jumped over.**  At an offset of whole minutes the loop goes on to the same start from
everything in front of it (`asks_congr`), so that it leaves out no match (`skipped`) and finds the
least one (`next_least`).
-/

namespace BindPlane.Cron

/-! ## What an expression asks for -/

/-- **The calendar fields that an expression asks for.**  A day matches by both of its fields, or,
where neither begins with `*`, by one of them; 7 is Sunday.

The rule for days is the one that surprises: with both fields restricted a day matches by either. -/
def Expression.Matches (expression : String) (x : Civil) (weekday : ℤ) : Prop :=
  ∃ minute hour dom month dow minutes hours doms months dows,
    goFields expression.toList = [minute, hour, dom, month, dow] ∧
    parseCronField .minute 0 59 minute = .ok minutes ∧ parseCronField .hour 0 23 hour = .ok hours ∧
    parseCronField .day 1 31 dom = .ok doms ∧ parseCronField .month 1 12 month = .ok months ∧
    parseCronField .weekday 0 7 dow = .ok dows ∧
    minutes.getLsbD x.minute.toNat = true ∧ hours.getLsbD x.hour.toNat = true ∧
    months.getLsbD x.month.toNat = true ∧
    let onDay := doms.getLsbD x.day.toNat = true
    let onWeekday := dows.getLsbD weekday.toNat = true ∨ weekday = 0 ∧ dows.getLsbD 7 = true
    if dom.head? ≠ some '*' ∧ dow.head? ≠ some '*' then onDay ∨ onWeekday else onDay ∧ onWeekday

/-- Another name for Sunday. -/
theorem sunday_getLsbD (dows : BitVec 64) {i : ℕ} (hi : i < 7) :
    (if dows.getLsbD 7 then (dows &&& ~~~(1#64 <<< 7)) ||| 1#64 else dows).getLsbD i = true ↔
      dows.getLsbD i = true ∨ i = 0 ∧ dows.getLsbD 7 = true := by
  split
  · next h =>
      rw [BitVec.getLsbD_or, BitVec.getLsbD_and, BitVec.getLsbD_not, BitVec.getLsbD_shiftLeft,
        BitVec.getLsbD_one]
      have hlt : i < 64 := by omega
      simp [hlt, hi, h]
  · next h => simp only [h, Bool.false_eq_true, and_false, or_false]

variable {c : CronSchedule} {expression : String} {m t : ℤ}

/-- The schedule of an expression. -/
theorem parseCron_eq_ok (h : parseCron expression = .ok c) :
    ∃ minute hour dom month dow minutes hours doms months dows,
      goFields expression.toList = [minute, hour, dom, month, dow] ∧
      parseCronField .minute 0 59 minute = .ok minutes ∧
      parseCronField .hour 0 23 hour = .ok hours ∧ parseCronField .day 1 31 dom = .ok doms ∧
      parseCronField .month 1 12 month = .ok months ∧
      parseCronField .weekday 0 7 dow = .ok dows ∧
      c = ⟨minutes, hours, doms, months,
        if dows.getLsbD 7 then (dows &&& ~~~(1#64 <<< 7)) ||| 1#64 else dows,
        dom.head? ≠ some '*', dow.head? ≠ some '*'⟩ := by
  unfold parseCron at h
  split at h
  · next minute hour dom month dow hfields =>
      cases hminutes : parseCronField .minute 0 59 minute with
      | error e => rw [hminutes] at h; cases h
      | ok minutes =>
      cases hhours : parseCronField .hour 0 23 hour with
      | error e => rw [hminutes, hhours] at h; cases h
      | ok hours =>
      cases hdoms : parseCronField .day 1 31 dom with
      | error e => rw [hminutes, hhours, hdoms] at h; cases h
      | ok doms =>
      cases hmonths : parseCronField .month 1 12 month with
      | error e => rw [hminutes, hhours, hdoms, hmonths] at h; cases h
      | ok months =>
      cases hdows : parseCronField .weekday 0 7 dow with
      | error e => rw [hminutes, hhours, hdoms, hmonths, hdows] at h; cases h
      | ok dows =>
      rw [hminutes, hhours, hdoms, hmonths, hdows] at h
      exact ⟨minute, hour, dom, month, dow, minutes, hours, doms, months, dows, hfields, hminutes,
        hhours, hdoms, hmonths, hdows, (Except.ok.inj h).symm⟩
  · cases h

/-- A parsed schedule stops the loop at what its expression asks for. -/
theorem matches_iff (h : parseCron expression = .ok c) (z : Zone) (t : ℤ) :
    Expression.Matches expression (z.civil t) (z.weekday t) ↔ jump c z t = none := by
  have hweekday : (z.weekday t).toNat < 7 ∧ ((z.weekday t).toNat = 0 ↔ z.weekday t = 0) := by
    unfold Zone.weekday Gregorian.weekday
    omega
  obtain ⟨minute, hour, dom, month, dow, minutes, hours, doms, months, dows, hfields, hminutes,
    hhours, hdoms, hmonths, hdows, rfl⟩ := parseCron_eq_ok h
  -- the day: both fields if one of them is a star, else either
  have hday : dayMatches ⟨minutes, hours, doms, months,
      if dows.getLsbD 7 then (dows &&& ~~~(1#64 <<< 7)) ||| 1#64 else dows,
      dom.head? ≠ some '*', dow.head? ≠ some '*'⟩ z t = true ↔
      if dom.head? ≠ some '*' ∧ dow.head? ≠ some '*' then
        doms.getLsbD (z.civil t).day.toNat = true ∨ (dows.getLsbD (z.weekday t).toNat = true ∨
          z.weekday t = 0 ∧ dows.getLsbD 7 = true)
      else doms.getLsbD (z.civil t).day.toNat = true ∧ (dows.getLsbD (z.weekday t).toNat = true ∨
          z.weekday t = 0 ∧ dows.getLsbD 7 = true) := by
    have hsunday := sunday_getLsbD dows hweekday.1
    rw [hweekday.2] at hsunday
    unfold dayMatches
    dsimp only
    rw [← hsunday, ← Bool.or_eq_true, ← Bool.and_eq_true]
    by_cases hboth : dom.head? ≠ some '*' ∧ dow.head? ≠ some '*'
    · rw [if_pos hboth, if_pos (by simp [hboth])]
    · rw [if_neg hboth, if_neg (by simpa using hboth)]
  rw [jump_eq_none, hday]
  constructor
  · -- the expression has one reading
    rintro ⟨_, _, _, _, _, _, _, _, _, _, hfields', hminutes', hhours', hdoms', hmonths', hdows',
      hmin, hhour, hmonth, hd⟩
    rw [hfields] at hfields'
    cases hfields'
    rw [hminutes] at hminutes'
    rw [hhours] at hhours'
    rw [hdoms] at hdoms'
    rw [hmonths] at hmonths'
    rw [hdows] at hdows'
    cases hminutes'
    cases hhours'
    cases hdoms'
    cases hmonths'
    cases hdows'
    exact ⟨hmonth, hd, hhour, hmin⟩
  · rintro ⟨hmonth, hd, hhour, hmin⟩
    exact ⟨minute, hour, dom, month, dow, minutes, hours, doms, months, dows, hfields, hminutes,
      hhours, hdoms, hmonths, hdows, hmin, hhour, hmonth, hd⟩

/-! ## A fixed offset -/

/-- A location with a fixed offset of whole minutes. -/
def Zone.fixed (minutes : ℤ) : Zone where
  offset _ := 60 * minutes
  resolve l := l - 60 * minutes
  resolves _ := Or.inl (Int.sub_add_cancel _ _)

/-- No local time is skipped or repeated. -/
theorem fixed_not_misread : ¬ Misread c (Zone.fixed m) t := by
  rintro ⟨x, hx, ⟨hskipped, -⟩ | ⟨u, hlt, hlocal, -⟩⟩
  · exact hskipped (x.seconds - 60 * m) (Int.sub_add_cancel _ _)
  · have hlater := asks_later hx
    rw [← hlocal] at hlater
    unfold Zone.localTime Zone.fixed at hlater
    dsimp only at hlater
    omega

/-- **No match is jumped over**: until the instant that a round goes on to, no minute matches.

A jump leaves out everything up to the start it goes to.  Had one of the minutes in between matched,
the loop would go from there to the same start, since it is in the same month, day or hour; but from
a match it does not go on at all. -/
theorem skipped {t' : ℤ} (h : jump c (Zone.fixed m) t = some t') (ht : 60 ∣ t) :
    60 ∣ t' ∧ ∀ u, t ≤ u → u < t' → 60 ∣ u → jump c (Zone.fixed m) u ≠ none := by
  have hlocal : ∀ u, (Zone.fixed m).localTime u = u + 60 * m := fun _ => rfl
  have hdate : ∀ x, (Zone.fixed m).date x = x.seconds - 60 * m := fun _ => rfl
  cases hx : asks c (Zone.fixed m) t with
  | some x =>
      rw [jump, hx] at h
      obtain rfl : (Zone.fixed m).date x = t' := Option.some.inj h
      have hhour := asks_hour hx
      rw [hdate]
      refine ⟨by omega, fun u hle hlt _ hu => ?_⟩
      have hstays : asks c (Zone.fixed m) u = some x :=
        asks_congr hx (by rw [hlocal, hlocal]; omega) (by rw [hlocal]; omega)
      rw [jump, hstays] at hu
      cases hu
  | none =>
      rw [jump, hx] at h
      dsimp only at h
      split at h
      · next hminute =>
          obtain rfl : t + 60 = t' := Option.some.inj h
          refine ⟨by omega, fun u hle hlt hdvd hu => ?_⟩
          have hsame : u = t := by omega
          rw [jump_eq_none, hsame] at hu
          rw [hu.2.2.2] at hminute
          cases hminute
      · cases h

/-- **A straight loop** gains in every round, stays on full minutes and jumps over no match.

Three properties of the loop, and none of the zone.  A zone of whole minutes makes every loop
straight; other zones do so for expressions that never go on to the start of an hour. -/
structure Straight (c : CronSchedule) (z : Zone) : Prop where
  gains : ∀ {t t'}, jump c z t = some t' → t < t'
  skips : ∀ {t t'}, jump c z t = some t' → 60 ∣ t →
    60 ∣ t' ∧ ∀ u, t ≤ u → u < t' → 60 ∣ u → jump c z u ≠ none

theorem fixed_straight : Straight c (Zone.fixed m) where
  gains hjump := lt_of_jump hjump fixed_not_misread
  skips := skipped

/-- What a straight loop finds from `t` on is the least match. -/
theorem search_least {z : Zone} (hz : Straight c z) (limit : ℤ) (fuel : ℕ) : ∀ {t : ℤ}, 60 ∣ t →
    match search c z limit fuel t with
    | .found r => IsLeast {u | 60 ∣ u ∧ t ≤ u ∧ u < limit ∧ jump c z u = none} r
    | .noMatch => ∀ u, 60 ∣ u → t ≤ u → u < limit → jump c z u ≠ none
    | .running => True := by
  induction fuel with
  | zero => exact fun _ => trivial
  | succ n ih =>
      intro t ht
      rw [search]
      by_cases hlt : t < limit
      · rw [if_pos hlt]
        cases hjump : jump c z t with
        | none => exact ⟨⟨ht, le_rfl, hlt, hjump⟩, fun u hu => hu.2.1⟩
        | some t' =>
            have hgain := hz.gains hjump
            obtain ⟨ht', hno⟩ := hz.skips hjump ht
            have hrest := ih ht'
            dsimp only
            cases hsearch : search c z limit n t' with
            | found r =>
                rw [hsearch] at hrest
                obtain ⟨⟨hr, hle, hlimit, hmatch⟩, hleast⟩ := hrest
                refine ⟨⟨hr, (le_of_lt hgain).trans hle, hlimit, hmatch⟩, fun u hu => ?_⟩
                obtain ⟨hu, hle, hlimit, hmatch⟩ := hu
                by_contra hlt
                by_cases htu : t' ≤ u
                · exact hlt (hleast ⟨hu, htu, hlimit, hmatch⟩)
                · exact hno u hle (not_le.mp htu) hu hmatch
            | noMatch =>
                rw [hsearch] at hrest
                intro u hu hle hlimit
                by_cases htu : t' ≤ u
                · exact hrest u hu htu hlimit
                · exact hno u hle (not_le.mp htu) hu
            | running => trivial
      · rw [if_neg hlt]
        exact fun u _ hle hlimit => absurd (hle.trans_lt hlimit) hlt

/-- **The next run is the least match.**  At a fixed offset of whole minutes `Next` ends, and finds
the least minute that is later than `after` and earlier than the limit of five years and that the
expression asks for; or there is none.

The loop goes by large steps: from a month that does not match to the next month, and so for days
and hours.  It is right for two reasons.  A step leaves out no match, since the field which fails
does so from here to where the step ends (`skipped`).  And the loop ends, since at an offset of
whole minutes every step goes forward.  `Matches` is read off the text of the expression, so the
statement does not depend on the bit sets that the parser makes of it. -/
theorem next_least (h : parseCron expression = .ok c) (minutes after : ℤ) :
    ∃ fuel, match next c (Zone.fixed minutes) fuel after with
      | .found r => IsLeast {t | 60 ∣ t ∧ after < t * 1000000000 ∧
          t < (Zone.fixed minutes).addFiveYears (firstMinute after) ∧
          Expression.Matches expression ((Zone.fixed minutes).civil t)
            ((Zone.fixed minutes).weekday t)} r
      | .noMatch => ∀ t, 60 ∣ t → after < t * 1000000000 →
          t < (Zone.fixed minutes).addFiveYears (firstMinute after) →
          ¬ Expression.Matches expression ((Zone.fixed minutes).civil t)
            ((Zone.fixed minutes).weekday t)
      | .running => False := by
  have hfirst : ∀ t, 60 ∣ t → (firstMinute after ≤ t ↔ after < t * 1000000000) := by
    intro t ht
    unfold firstMinute
    omega
  obtain ⟨fuel, hends⟩ : ∃ fuel, next c (Zone.fixed minutes) fuel after ≠ .running :=
    ⟨_, search_ends _ (fun _ _ _ _ hjump => lt_of_jump hjump fixed_not_misread)
      (Int.self_le_toNat _)⟩
  refine ⟨fuel, ?_⟩
  have hminute : (60 : ℤ) ∣ firstMinute after := by
    unfold firstMinute
    omega
  have hleast := search_least (c := c) (fixed_straight (m := minutes))
    (limit (Zone.fixed minutes) after) fuel hminute
  simp only [matches_iff h]
  unfold next at hends ⊢
  cases hsearch : search c (Zone.fixed minutes) (limit (Zone.fixed minutes) after) fuel
    (firstMinute after) with
  | found r =>
      rw [hsearch] at hleast
      obtain ⟨⟨hr, hle, hlimit, hmatch⟩, hlower⟩ := hleast
      refine ⟨⟨hr, (hfirst r hr).mp hle, hlimit, hmatch⟩, fun t ht => ?_⟩
      obtain ⟨ht, hafter, hlimit, hmatch⟩ := ht
      exact hlower ⟨ht, (hfirst t ht).mpr hafter, hlimit, hmatch⟩
  | noMatch =>
      rw [hsearch] at hleast
      exact fun t ht hafter hlimit => hleast t ht ((hfirst t ht).mpr hafter) hlimit
  | running => exact absurd hsearch hends

/-- At 08:00 east, the thirteenth or a Friday. -/
theorem fridays_least : ∃ fuel, match next
      ⟨1#64, 1#64, 1#64 <<< 13, 0x1FFE#64, 1#64 <<< 5, true, true⟩ (Zone.fixed 480) fuel
        1793300400000000000 with
      | .found r => IsLeast {t | 60 ∣ t ∧ 1793300400000000000 < t * 1000000000 ∧
          t < (Zone.fixed 480).addFiveYears (firstMinute 1793300400000000000) ∧
          Expression.Matches "0 0 13 * 5" ((Zone.fixed 480).civil t)
            ((Zone.fixed 480).weekday t)} r
      | .noMatch => ∀ t, 60 ∣ t → 1793300400000000000 < t * 1000000000 →
          t < (Zone.fixed 480).addFiveYears (firstMinute 1793300400000000000) →
          ¬ Expression.Matches "0 0 13 * 5" ((Zone.fixed 480).civil t) ((Zone.fixed 480).weekday t)
      | .running => False :=
  next_least (by decide +kernel) 480 1793300400000000000

end BindPlane.Cron
