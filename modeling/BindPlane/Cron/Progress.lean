import BindPlane.Cron.Next

/-!
# When the loop of `Next` goes forward

`progress_iff` says that the loop gains if none of the rounds it comes to is misread.  Here the same
is said without running the loop, of a zone, an expression and an instant (`Forward`).

**The condition.**  No instant behind `after` is misread, as long as the loop is not bound to have
passed it or to have ended in front of it.  Both are read off the zone and the expression: a whole
minute that everything from `after` on stays in front of (`Caught`) is a minute that the loop comes
to or never gets behind.  If the expression asks for that minute, the loop ends there (`Halts`); if
from all of it the loop goes on to one start, it goes on to that (`Leads`).

**Both directions.**  `Forward` is enough in every zone (`Forward.progress`).  It is necessary where
a zone is `Orderly`: its clock goes by whole minutes, it never goes back behind the start of an
hour, and such a start is resolved to no later instant than where it comes.  Orderly zones may skip
the starts of hours, as New York does (`Demo.newYork_stuck`).  What they do not do is to repeat one;
of a zone that does so only the first direction is shown.
-/

namespace BindPlane.Cron

variable (c : CronSchedule) (z : Zone) (after : ℤ)

/-! ## The condition -/

/-- **The expression asks for `t`**: month, day, hour and minute match. -/
def Asked (t : ℤ) : Prop :=
  monthMatches c z t = true ∧ dayMatches c z t = true ∧ hourMatches c z t = true ∧
    minuteMatches c z t = true

/-- **A minute that is not missed**: from no instant between `after` and `m` the loop goes on to an
instant behind the minute that begins with `m`. -/
def Caught (m : ℤ) : Prop :=
  firstMinute after ≤ m ∧
    ∀ u t, firstMinute after ≤ u → u < m → jump c z u = some t → t < m + 60

/-- A minute that is asked for, and not missed: the loop does not get behind it. -/
def Halts (m : ℤ) : Prop :=
  Caught c z after m ∧ ∀ t, m ≤ t → t < m + 60 → Asked c z t

/-- A minute that is not missed, and from all of which the loop goes on to `x`: it does not come to
anything in between. -/
def Leads (m : ℤ) (x : Civil) : Prop :=
  Caught c z after m ∧ ∀ t, m ≤ t → t < m + 60 → asks c z t = some x

/-- **The loop can only go forward.**  Of the instants between `after` and the limit of five years,
none is misread that lies in front of every minute that halts the loop, and that no minute leads
over.

An instant is left out of consideration if the loop cannot come to it, for a reason that is visible
without running the loop: because there is a minute in front of it at which the loop ends, or one
from all of which it goes on to a start behind it. -/
def Forward : Prop :=
  ∀ t, firstMinute after ≤ t → t < limit z after →
    (∀ m, Halts c z after m → t < m + 60) →
    (∀ m x, Leads c z after m x → t < m + 60 ∨ z.date x ≤ t) → ¬ Misread c z t

/-- **An orderly zone.**  Its offsets are whole minutes and change with a minute; the start of an
hour that has come does not come again; and the start of an hour is not resolved to an instant
behind one where the clock has reached it.  A gap is not longer than an hour.

A constant offset of whole minutes is orderly, and so is a zone that now and then skips an hour at
the start of one.  A zone that repeats an hour is not, since there the same local start comes twice,
and the order of the local times is not that of the instants. -/
structure Zone.Orderly (z : Zone) : Prop where
  whole : ∀ t, 60 ∣ z.offset t
  minutes : ∀ t, z.offset t = z.offset (t / 60 * 60)
  hours : ∀ u t, u ≤ t → z.localTime u / 3600 ≤ z.localTime t / 3600
  starts : ∀ l t, 3600 ∣ l → t < z.resolve l → z.localTime t < l
  gaps : ∀ l, l - 3600 ≤ z.localTime (z.resolve l)

variable {c z after}

/-! ## The condition is enough -/

/-- What is known of an instant that the loop comes to. -/
structure Passed (c : CronSchedule) (z : Zone) (after t : ℤ) : Prop where
  le : firstMinute after ≤ t
  halts : ∀ m, Halts c z after m → t < m + 60
  leads : ∀ m x, Leads c z after m x → t < m + 60 ∨ z.date x ≤ t

/-- A round that gains stays in front of the minutes that halt the loop, and leaves out what a
minute leads over. -/
theorem Passed.jump {t t' : ℤ} (h : Passed c z after t) (hjump : Cron.jump c z t = some t')
    (hgain : t < t') : Passed c z after t' where
  le := h.le.trans hgain.le
  halts m hm := by
    by_cases hlt : t < m
    · exact hm.1.2 t t' h.le hlt hjump
    · have hasked := hm.2 t (not_lt.mp hlt) (h.halts m hm)
      rw [jump_eq_none.mpr hasked] at hjump
      cases hjump
  leads m x hm := by
    by_cases hlt : t < m
    · exact Or.inl (hm.1.2 t t' h.le hlt hjump)
    · rcases h.leads m x hm with hin | hbehind
      · have hasks := hm.2 t (not_lt.mp hlt) hin
        rw [Cron.jump, hasks] at hjump
        exact Or.inr (Option.some.inj hjump).le
      · exact Or.inr (hbehind.trans hgain.le)

/-- **`Forward` is enough**: the loop gains in every round. -/
theorem Forward.progress (h : Forward c z after) : Progress c z after := by
  have hpassed : ∀ t, Visits c z after t → Passed c z after t := by
    intro t hvisits
    induction hvisits with
    | refl =>
        exact ⟨le_rfl, fun m hm => by have hle := hm.1.1; omega,
          fun m x hm => Or.inl (by have hle := hm.1.1; omega)⟩
    | tail _ hstep ih =>
        obtain ⟨hlt, hjump⟩ := hstep
        exact ih.jump hjump (lt_of_jump hjump (h _ ih.le hlt ih.halts ih.leads))
  refine (progress_iff c z after).mpr fun t hvisits hlt => ?_
  have ht := hpassed t hvisits
  exact h t ht.le hlt ht.halts ht.leads

/-! ## In an orderly zone it is necessary -/

namespace Zone.Orderly

theorem localTime_minute (hz : z.Orderly) (t : ℤ) :
    z.localTime t / 60 = z.localTime (t / 60 * 60) / 60 := by
  obtain ⟨o, ho⟩ := hz.whole (t / 60 * 60)
  unfold Zone.localTime
  rw [hz.minutes t, ho]
  omega

/-- The start of an hour is resolved to a full minute. -/
theorem date_whole (hz : z.Orderly) {l : ℤ} (hl : 3600 ∣ l) : 60 ∣ z.resolve l := by
  rcases z.resolves l with hlocal | ⟨-, v, -, -, hbefore | hbehind⟩
  · have hdvd := hz.whole (z.resolve l)
    omega
  · have hdvd := hz.whole (v - 1)
    omega
  · have hdvd := hz.whole v
    omega

/-- Whether an instant is asked for does not depend on the seconds. -/
theorem jump_eq_none_congr (hz : z.Orderly) {t u : ℤ} (h : t / 60 = u / 60) :
    jump c z t = none ↔ jump c z u = none := by
  have hminute : z.localTime t / 60 = z.localTime u / 60 := by
    rw [hz.localTime_minute t, hz.localTime_minute u, h]
  have hhour : z.localTime t / 3600 = z.localTime u / 3600 := by omega
  have hday := (civil_hour hhour).1
  rw [jump_eq_none, jump_eq_none, monthMatches_congr (congrArg Gregorian.monthOf hday),
    dayMatches_congr hday, hourMatches_congr hhour, minuteMatches_congr hminute]

/-- Until the instant that a start is resolved to, the loop goes on to that start. -/
theorem asks_stays (hz : z.Orderly) {u t : ℤ} {x : Civil} (h : asks c z u = some x) (hle : u ≤ t)
    (hlt : t < z.date x) : asks c z t = some x :=
  asks_congr h (hz.hours u t hle) (hz.starts _ t (asks_hour h) hlt)

/-- A round from a full minute ends at one; what it leaves out goes on to where it ends. -/
theorem jump_whole (hz : z.Orderly) {u u' : ℤ} (h : jump c z u = some u') (hu : 60 ∣ u) :
    60 ∣ u' ∧ ∀ t, u < t → t < u' → 60 ∣ t → ∃ x, asks c z t = some x ∧ z.date x = u' := by
  cases hx : asks c z u with
  | some x =>
      rw [jump, hx] at h
      obtain rfl : z.date x = u' := Option.some.inj h
      exact ⟨hz.date_whole (asks_hour hx), fun t hlt hlt' _ => ⟨x, hz.asks_stays hx hlt.le hlt', rfl⟩⟩
  | none =>
      rw [jump, hx] at h
      dsimp only at h
      split at h
      · obtain rfl : u + 60 = u' := Option.some.inj h
        exact ⟨by omega, fun t _ _ ht => by omega⟩
      · cases h

/-- A full minute that is asked for halts the loop. -/
theorem halts (hz : z.Orderly) {m : ℤ} (hle : firstMinute after ≤ m) (hm : 60 ∣ m)
    (hasked : jump c z m = none) : Halts c z after m := by
  refine ⟨⟨hle, fun u t _ hlt hjump => ?_⟩, fun t hle hlt => ?_⟩
  · cases hx : asks c z u with
    | some x =>
        rw [jump, hx] at hjump
        obtain rfl : z.date x = t := Option.some.inj hjump
        by_contra hbehind
        have hstays := hz.asks_stays hx hlt.le (by omega : m < z.date x)
        rw [jump, hstays] at hasked
        cases hasked
    | none =>
        rw [jump, hx] at hjump
        dsimp only at hjump
        split at hjump
        · obtain rfl : u + 60 = t := Option.some.inj hjump
          omega
        · cases hjump
  · exact jump_eq_none.mp ((hz.jump_eq_none_congr (by omega)).mpr hasked)

end Zone.Orderly

/-- **`Forward` is necessary** in an orderly zone: the loop comes to the minute of a misread instant,
if it does not halt in front of it. -/
theorem Progress.forward (hz : z.Orderly) (h : Progress c z after) : Forward c z after := by
  intro t hle hlt hhalts _ hmisread
  obtain ⟨x, hx, hdate⟩ := hmisread.asks
  have hfirst : 60 ∣ firstMinute after := Int.dvd_mul_left _ _
  -- the full minute of `t` is as good
  have hx₀ : asks c z (t / 60 * 60) = some x := by
    rw [← hx]
    exact asks_minute (hz.localTime_minute t).symm
  have hdate₀ : z.date x ≤ t / 60 * 60 := by
    have hdvd : 60 ∣ z.date x := hz.date_whole (asks_hour hx)
    omega
  -- the induction is on what is left to that minute
  have hnever : ∀ (n : ℕ) (u : ℤ), Visits c z after u → firstMinute after ≤ u → 60 ∣ u →
      u ≤ t / 60 * 60 → t / 60 * 60 - u ≤ n → False := by
    intro n
    induction n with
    | zero =>
        intro u hvisits _ _ hle' hn
        obtain rfl : u = t / 60 * 60 := by push_cast at hn; omega
        have hgain := h.gains _ (z.date x) hvisits (by omega) (by rw [jump, hx₀])
        omega
    | succ n ih =>
        intro u hvisits hlow hu hle' hn
        by_cases hsame : u = t / 60 * 60
        · subst hsame
          have hgain := h.gains _ (z.date x) hvisits (by omega) (by rw [jump, hx₀])
          omega
        · cases hjump : jump c z u with
          | none =>
              have hhalt := hhalts u (hz.halts hlow hu hjump)
              omega
          | some u' =>
              have hgain := h.gains u u' hvisits (by omega) hjump
              obtain ⟨hu', hover⟩ := hz.jump_whole hjump hu
              by_cases hbehind : t / 60 * 60 < u'
              · obtain ⟨y, hy, rfl⟩ := hover _ (by omega) hbehind (by omega)
                rw [hx₀] at hy
                obtain rfl := Option.some.inj hy
                omega
              · push_cast at hn
                exact ih u' (hvisits.tail ⟨by omega, hjump⟩) (by omega) hu' (by omega) (by omega)
  exact hnever (t / 60 * 60 - firstMinute after).toNat _ .refl le_rfl hfirst (by omega) (by omega)

/-- **When the loop goes forward**: where the condition holds, and in an orderly zone only there.

`Forward` speaks of no round: it quantifies over instants behind `after`, and asks of each what the
zone and the expression say of the minutes in front of it.  That it is enough is an induction on the
rounds, which carries that nothing in front of the clock of the loop bars the instant in question.
The way back needs that the loop comes to the instant, and there the order of the zone is used: the
loop never passes a minute that it is caught in front of. -/
theorem next_progress (c : CronSchedule) (z : Zone) (after : ℤ) :
    (Forward c z after → Progress c z after) ∧
      (z.Orderly → Progress c z after → Forward c z after) :=
  ⟨Forward.progress, Progress.forward⟩

/-! ## A zone whose offset changes once -/

/-- A zone whose offset changes at the instant `change`.  A local time is resolved by the offset in
front of that where it is right, and else by the offset behind it. -/
def Zone.switching (change before behind : ℤ) : Zone where
  offset u := if u < change then before else behind
  resolve l := if l < change + before then l - before else l - behind
  resolves l := by
    by_cases hbefore : l < change + before
    · rw [if_pos hbefore, if_pos (by omega)]
      exact Or.inl (by omega)
    · rw [if_neg hbefore]
      by_cases hbehind : l - behind < change
      · refine Or.inr ⟨fun u => ?_, change, ?_, ?_, Or.inr ?_⟩
        · split <;> omega
        · rw [if_pos (by omega)]
          omega
        · rw [if_neg (by omega)]
          omega
        · rw [if_neg (by omega)]
      · rw [if_neg hbehind]
        exact Or.inl (by omega)

/-- A clock that is put forward by an hour at most, at a full minute. -/
theorem Zone.switching_orderly {change before behind : ℤ} (hchange : 60 ∣ change)
    (hbefore : 60 ∣ before) (hbehind : 60 ∣ behind) (hle : before ≤ behind)
    (hgap : behind ≤ before + 3600) : (Zone.switching change before behind).Orderly where
  whole t := by
    dsimp only [Zone.switching]
    split
    · exact hbefore
    · exact hbehind
  minutes t := by
    dsimp only [Zone.switching]
    split <;> split <;> omega
  hours u t hut := by
    dsimp only [Zone.localTime, Zone.switching]
    split <;> split <;> omega
  starts l t _ hlt := by
    dsimp only [Zone.localTime, Zone.switching] at hlt ⊢
    split at hlt <;> split <;> omega
  gaps l := by
    dsimp only [Zone.localTime, Zone.switching]
    split <;> split <;> omega

namespace Demo

/-- New York, about 10 March 2024: 01:59:59 is followed by 03:00. -/
def newYork : Zone := .switching 1710054000 (-18000) (-14400)

/-- `30 4 * * *`. -/
def nightly : CronSchedule where
  minute := 1#64 <<< 30
  hour := 1#64 <<< 4
  dom := 0xFFFFFFFE#64
  month := 0x1FFE#64
  dow := 0x7F#64
  domRestricted := false
  dowRestricted := false

/-- Ten past midnight. -/
def midnight : ℤ := 1710047400000000000

/-- From 01:00 the loop goes on to 02:00, which is resolved to 01:00. -/
theorem newYork_jumps :
    (firstMinute midnight < limit newYork midnight ∧
      jump nightly newYork (firstMinute midnight) = some 1710050400) ∧
    1710050400 < limit newYork midnight ∧ jump nightly newYork 1710050400 = some 1710050400 := by
  decide +kernel

theorem newYork_not_progress : ¬ Progress nightly newYork midnight := by
  intro h
  obtain ⟨hfirst, hlimit, hstuck⟩ := newYork_jumps
  have hvisits : Visits nightly newYork midnight 1710050400 := .single hfirst
  exact absurd (h.gains _ _ hvisits hlimit hstuck) (lt_irrefl _)

/-- The loop does not end, and no fuel is enough for it. -/
theorem newYork_stuck : parseCron "30 4 * * *" = .ok nightly ∧
    (∀ fuel, next nightly newYork fuel midnight = .running) ∧
      ¬ Progress nightly newYork midnight := by
  obtain ⟨hfirst, hlimit, hstuck⟩ := newYork_jumps
  have hrunning : ∀ fuel, search nightly newYork (limit newYork midnight) fuel 1710050400 =
      .running := by
    intro fuel
    induction fuel with
    | zero => rfl
    | succ n ih =>
        rw [search, if_pos hlimit, hstuck]
        exact ih
  refine ⟨by decide +kernel, fun fuel => ?_, newYork_not_progress⟩
  cases fuel with
  | zero => rfl
  | succ n =>
      rw [next, search, if_pos hfirst.1, hfirst.2]
      exact hrunning n

theorem newYork_orderly : newYork.Orderly :=
  Zone.switching_orderly (by decide) (by decide) (by decide) (by decide) (by decide)

/-- 50 seconds to half past four, the same morning. -/
def morning : ℤ := 1710059350000000000

/-- In the morning the loop ends with its first round; at midnight it could not go forward. -/
theorem newYork_forward :
    Progress nightly newYork morning ∧ ¬ Forward nightly newYork midnight := by
  refine ⟨(next_progress nightly newYork morning).1 fun t hle _ hhalts _ hmisread => ?_, fun h =>
    newYork_not_progress ((next_progress nightly newYork midnight).1 h)⟩
  have hfirst : jump nightly newYork (firstMinute morning) = none := by decide +kernel
  have hwhole : 60 ∣ firstMinute morning := Int.dvd_mul_left _ _
  have hlt := hhalts _ (newYork_orderly.halts le_rfl hwhole hfirst)
  -- the whole first minute is asked for
  have hasked : jump nightly newYork t = none :=
    (newYork_orderly.jump_eq_none_congr (by omega)).mpr hfirst
  obtain ⟨t', hjump, -⟩ := hmisread.jump
  rw [hasked] at hjump
  cases hjump

end Demo

end BindPlane.Cron
