import BindPlane.Release.Data
import Mathlib.Algebra.Group.Int.Defs
import Mathlib.Algebra.Group.Nat.Defs

/-!
# Cron expressions

`ParseCron` and `CronSchedule.Next`.  A schedule is five bit sets; `next` walks from the
minute after `after` to the first instant whose calendar fields are all in the sets, by
jumps to the next month, day or hour that `time.Date` computes.

The calendar is the operations time zone, so the jumps depend on it: a `Location` gives the
calendar reading of an instant and `time.Date`, and nothing is assumed of either.  Where an instant
is `RegularAt`, a jump that does not go forward repeats itself for ever (`jump_stuck`); hence what
`Next` finds lies behind `after`, if the zone is regular from there on (`lt_next`).  The loop is
bounded by a fuel, and `Search.running` says that it has not ended within it.

**Source.**  What is modelled here is in `internal/release/cron.go` and
`internal/release/ops_schedules.go`.
-/

namespace BindPlane

/-! ## Calendar -/

/-- The calendar fields `time.Date` takes; they may lie outside their usual ranges. -/
structure Civil where
  year : ℤ
  month : ℤ
  day : ℤ
  hour : ℤ
  minute : ℤ
  second : ℤ := 0
  deriving DecidableEq, Repr

/-- A time zone: the reading of an instant, its weekday (Sunday is 0), and `time.Date`.

`time.Date` normalises fields that are out of range, and has to choose where a local time occurs
twice or not at all.  Nothing of this is assumed here: the fields of the structure may be any
functions.  The zone of a list of offsets is one instance (`BindPlane.Cron.Location`), and what is
known of it is known of a zone of that kind only. -/
structure Location where
  civil : Instant → Civil
  weekday : Instant → ℕ
  date : Civil → Instant

/-- `time.Minute`. -/
def minuteInterval : ℕ := 60000000

namespace Location

variable (loc : Location)

/-- `time.Date(t.Year(), t.Month()+1, 1, 0, 0, 0, 0, loc)`. -/
def nextMonth (t : Instant) : Instant :=
  loc.date ⟨(loc.civil t).year, (loc.civil t).month + 1, 1, 0, 0, 0⟩

/-- `time.Date(t.Year(), t.Month(), t.Day()+1, 0, 0, 0, 0, loc)`. -/
def nextDay (t : Instant) : Instant :=
  loc.date ⟨(loc.civil t).year, (loc.civil t).month, (loc.civil t).day + 1, 0, 0, 0⟩

/-- `time.Date(t.Year(), t.Month(), t.Day(), t.Hour()+1, 0, 0, 0, loc)`. -/
def nextHour (t : Instant) : Instant :=
  loc.date ⟨(loc.civil t).year, (loc.civil t).month, (loc.civil t).day,
    (loc.civil t).hour + 1, 0, 0⟩

/-- `t.AddDate(5, 0, 0)`. -/
def addFiveYears (t : Instant) : Instant :=
  loc.date { loc.civil t with year := (loc.civil t).year + 5 }

/-- **A regular instant**: the start of the next month, day or hour is later; or it is resolved to
an instant of the month, day or hour that `t` is in.  The latter happens where local time skips the
start and `time.Date` reads it by the offset behind the gap.  An instant is not regular where local
time has been put back over the start, so that it is resolved to the occurrence that has passed; nor
in front of a gap of a day.

The loop of `Next` moves by such starts, and it is a local condition: what happens at other instants
does not matter for the next move.  Real zones are not regular everywhere.  A zone that puts its
clocks back over midnight has an hour of instants that are not, once; the rest of its year is. -/
structure RegularAt (t : Instant) : Prop where
  month : t < loc.nextMonth t ∨
    (loc.civil (loc.nextMonth t)).year = (loc.civil t).year ∧
      (loc.civil (loc.nextMonth t)).month = (loc.civil t).month
  day : t < loc.nextDay t ∨
    (loc.civil (loc.nextDay t)).year = (loc.civil t).year ∧
      (loc.civil (loc.nextDay t)).month = (loc.civil t).month ∧
      (loc.civil (loc.nextDay t)).day = (loc.civil t).day ∧
      loc.weekday (loc.nextDay t) = loc.weekday t
  hour : t < loc.nextHour t ∨
    (loc.civil (loc.nextHour t)).year = (loc.civil t).year ∧
      (loc.civil (loc.nextHour t)).month = (loc.civil t).month ∧
      (loc.civil (loc.nextHour t)).day = (loc.civil t).day ∧
      loc.weekday (loc.nextHour t) = loc.weekday t ∧
      (loc.civil (loc.nextHour t)).hour = (loc.civil t).hour

/-- Every instant from `after` on is regular. -/
def RegularFrom (after : Instant) : Prop := ∀ t, after ≤ t → loc.RegularAt t

variable {loc}

theorem RegularFrom.mono {after after' : Instant} (h : loc.RegularFrom after)
    (hle : after ≤ after') : loc.RegularFrom after' := fun t ht => h t (hle.trans ht)

end Location

/-! ## Parsing -/

/-- `unicode.IsSpace`. -/
def isGoSpace (c : Char) : Bool :=
  c.val ∈ [0x09, 0x0A, 0x0B, 0x0C, 0x0D, 0x20, 0x85, 0xA0, 0x1680, 0x2028, 0x2029, 0x202F,
    0x205F, 0x3000] || (0x2000 ≤ c.val && c.val ≤ 0x200A)

/-- `strings.Fields`. -/
def goFields (s : List Char) : List (List Char) := (s.splitOnP isGoSpace).filter (· ≠ [])

/-- `strings.Cut`; `none` where the separator is not found. -/
def goCut (sep : Char) (s : List Char) : Option (List Char × List Char) :=
  if sep ∈ s then some (s.takeWhile (· ≠ sep), (s.dropWhile (· ≠ sep)).tail) else none

/-- The digits of a decimal number. -/
def decimalDigits : List Char → Option ℕ
  | [] => none
  | cs => if cs.all Char.isDigit then
      some (cs.foldl (fun n c => n * 10 + (c.toNat - '0'.toNat)) 0) else none

/-- `strconv.Atoi`: an optional sign and digits, within 64 bits. -/
def goAtoi (s : List Char) : Option ℤ :=
  let n : Option ℤ := match s with
    | '-' :: digits => (decimalDigits digits).map fun n => -(n : ℤ)
    | '+' :: digits => (decimalDigits digits).map fun n => (n : ℤ)
    | digits => (decimalDigits digits).map fun n => (n : ℤ)
  n.filter fun n => -2 ^ 63 ≤ n && n < 2 ^ 63

/-- The five fields. -/
inductive CronField
  | minute | hour | day | month | weekday
  deriving DecidableEq, Repr

/-- Why `ParseCron` and `nextRun` refuse an expression. -/
inductive CronError
  /-- `errCronFields`. -/
  | fields
  | invalidStep (field : CronField) (part : String)
  | invalidRange (field : CronField) (part : String)
  | invalidValue (field : CronField) (part : String)
  | outside (field : CronField) (part : String) (low high : ℤ)
  /-- `errCronNeverMatches`. -/
  | neverMatches
  /-- Not an error of the source: the loop of `Next` has not ended. -/
  | running
  deriving DecidableEq, Repr

/-- A 64-bit `int`. -/
def wrapInt (n : ℤ) : ℤ := n.bmod (2 ^ 64)

/-- `for v := start; v <= end; v += step { set |= 1 << uint(v) }`. -/
def setBits (stop step : ℤ) : ℕ → ℤ → BitVec 64 → BitVec 64
  | 0, _, set => set
  | n + 1, v, set =>
      if v ≤ stop then
        setBits stop step n (wrapInt (v + step))
          (if 0 ≤ v ∧ v < 64 then set ||| (1#64 <<< v.toNat) else set)
      else set

/-- `rangePart` and `step` of one comma-separated part. -/
def cronStep (field : CronField) (part : List Char) :
    Except CronError (List Char × ℤ × Bool) :=
  match goCut '/' part with
  | none => .ok (part, 1, false)
  | some (before, after) =>
      match goAtoi after with
      | some n =>
          if n < 1 then .error (.invalidStep field (String.ofList part))
          else .ok (before, n, true)
      | none => .error (.invalidStep field (String.ofList part))

/-- `start` and `end` of one comma-separated part. -/
def cronRange (field : CronField) (low high : ℤ) (part rangePart : List Char)
    (stepped : Bool) : Except CronError (ℤ × ℤ) :=
  if rangePart = ['*'] then .ok (low, high)
  else
    match goCut '-' rangePart with
    | some (a, b) =>
        match goAtoi a, goAtoi b with
        | some start, some stop =>
            if start > stop then .error (.invalidRange field (String.ofList part))
            else .ok (start, stop)
        | _, _ => .error (.invalidRange field (String.ofList part))
    | none =>
        match goAtoi rangePart with
        | some n => .ok (n, if stepped then high else n)
        | none => .error (.invalidValue field (String.ofList part))

/-- `parseCronField`. -/
def parseCronField (field : CronField) (low high : ℤ) (text : List Char) :
    Except CronError (BitVec 64) :=
  (text.splitOn ',').foldlM (fun set part => do
    let (rangePart, step, stepped) ← cronStep field part
    let (start, stop) ← cronRange field low high part rangePart stepped
    if start < low ∨ stop > high then
      .error (.outside field (String.ofList part) low high)
    else .ok (setBits stop step 256 start set)) 0#64

structure CronSchedule where
  minute : BitVec 64
  hour : BitVec 64
  dom : BitVec 64
  month : BitVec 64
  dow : BitVec 64
  domRestricted : Bool
  dowRestricted : Bool
  deriving DecidableEq, Repr

/-- `ParseCron`. -/
def parseCron (expression : String) : Except CronError CronSchedule :=
  match goFields expression.toList with
  | [minute, hour, dom, month, dow] => do
      let minutes ← parseCronField .minute 0 59 minute
      let hours ← parseCronField .hour 0 23 hour
      let doms ← parseCronField .day 1 31 dom
      let months ← parseCronField .month 1 12 month
      let dows ← parseCronField .weekday 0 7 dow
      -- 7 is another name for Sunday
      let dows := if dows.getLsbD 7 then (dows &&& ~~~(1#64 <<< 7)) ||| 1#64 else dows
      .ok ⟨minutes, hours, doms, months, dows, dom.head? ≠ some '*', dow.head? ≠ some '*'⟩
  | _ => .error .fields

/-- `normalizeCron`. -/
def normalizeCron (expression : String) : String :=
  String.intercalate " " ((goFields expression.toList).map String.ofList)

/-! ## The next run -/

namespace CronSchedule

variable (c : CronSchedule) (loc : Location)

/-- `c.month&(1<<uint(t.Month())) != 0`. -/
def monthMatches (t : Instant) : Bool := c.month.getLsbD (loc.civil t).month.toNat

/-- `dayMatches`. -/
def dayMatches (t : Instant) : Bool :=
  let dom := c.dom.getLsbD (loc.civil t).day.toNat
  let dow := c.dow.getLsbD (loc.weekday t)
  if c.domRestricted && c.dowRestricted then dom || dow else dom && dow

/-- `c.hour&(1<<uint(t.Hour())) != 0`. -/
def hourMatches (t : Instant) : Bool := c.hour.getLsbD (loc.civil t).hour.toNat

/-- `c.minute&(1<<uint(t.Minute())) != 0`. -/
def minuteMatches (t : Instant) : Bool := c.minute.getLsbD (loc.civil t).minute.toNat

/-- One round of the loop: where it goes on, unless `t` matches. -/
def jump (t : Instant) : Option Instant :=
  if !c.monthMatches loc t then some (loc.nextMonth t)
  else if !c.dayMatches loc t then some (loc.nextDay t)
  else if !c.hourMatches loc t then some (loc.nextHour t)
  else if !c.minuteMatches loc t then some (t + minuteInterval)
  else none

/-- How a search ends. -/
inductive Search
  | found (t : Instant)
  /-- The zero time. -/
  | noMatch
  | running
  deriving DecidableEq, Repr

/-- The loop, for a number of rounds. -/
def search (limit : Instant) : ℕ → Instant → Search
  | 0, _ => .running
  | n + 1, t =>
      if t < limit then
        match c.jump loc t with
        | some t' => search limit n t'
        | none => .found t
      else .noMatch

/-- `after.Truncate(time.Minute).Add(time.Minute)`. -/
def firstMinute (after : Instant) : Instant := after - after % minuteInterval + minuteInterval

/-- `Next`. -/
def next (fuel : ℕ) (after : Instant) : Search :=
  c.search loc (loc.addFiveYears (firstMinute after)) fuel (firstMinute after)

variable {c loc}

theorem lt_firstMinute (after : ℕ) : after < firstMinute after := by
  have hlt : after % minuteInterval < minuteInterval := Nat.mod_lt _ (by decide)
  unfold firstMinute
  omega

/-- A round that does not go forward repeats itself: the field it fails on stays, and with
it the jump. -/
theorem jump_stuck {t t' : Instant} (hloc : loc.RegularAt t) (h : c.jump loc t = some t')
    (hle : t' ≤ t) : c.jump loc t' = some t' := by
  unfold jump at h
  split at h
  · next hmonth =>
      cases h
      obtain ⟨hy, hm⟩ := hloc.month.resolve_left (not_lt.mpr hle)
      have hsame : loc.nextMonth (loc.nextMonth t) = loc.nextMonth t := by
        rw [Location.nextMonth, hy, hm]
        rfl
      have hmonths : c.monthMatches loc (loc.nextMonth t) = c.monthMatches loc t := by
        rw [monthMatches, hm, monthMatches]
      rw [jump, hmonths, if_pos hmonth, hsame]
  · next hmonth =>
      split at h
      · next hday =>
          cases h
          obtain ⟨hy, hm, hd, hw⟩ := hloc.day.resolve_left (not_lt.mpr hle)
          have hsame : loc.nextDay (loc.nextDay t) = loc.nextDay t := by
            rw [Location.nextDay, hy, hm, hd]
            rfl
          have hmonths : c.monthMatches loc (loc.nextDay t) = c.monthMatches loc t := by
            rw [monthMatches, hm, monthMatches]
          have hdays : c.dayMatches loc (loc.nextDay t) = c.dayMatches loc t := by
            rw [dayMatches, hd, hw, dayMatches]
          rw [jump, hmonths, if_neg hmonth, hdays, if_pos hday, hsame]
      · next hday =>
          split at h
          · next hhour =>
              cases h
              obtain ⟨hy, hm, hd, hw, hh⟩ := hloc.hour.resolve_left (not_lt.mpr hle)
              have hsame : loc.nextHour (loc.nextHour t) = loc.nextHour t := by
                rw [Location.nextHour, hy, hm, hd, hh]
                rfl
              have hmonths : c.monthMatches loc (loc.nextHour t) = c.monthMatches loc t := by
                rw [monthMatches, hm, monthMatches]
              have hdays : c.dayMatches loc (loc.nextHour t) = c.dayMatches loc t := by
                rw [dayMatches, hd, hw, dayMatches]
              have hhours : c.hourMatches loc (loc.nextHour t) = c.hourMatches loc t := by
                rw [hourMatches, hh, hourMatches]
              rw [jump, hmonths, if_neg hmonth, hdays, if_neg hday, hhours, if_pos hhour, hsame]
          · split at h
            · cases h
              exact absurd hle (not_le.mpr (Nat.lt_add_of_pos_right (by decide)))
            · cases h

/-- A loop that repeats a round never finds anything. -/
theorem search_stuck {limit t : Instant} (h : c.jump loc t = some t) (fuel : ℕ)
    {r : Instant} : c.search loc limit fuel t ≠ .found r := by
  induction fuel with
  | zero => simp [search]
  | succ n ih =>
      rw [search]
      split
      · rw [h]
        exact ih
      · simp

/-- What the loop finds is not before where it starts. -/
theorem search_le {limit : Instant} (fuel : ℕ) : ∀ {t r : Instant}, loc.RegularFrom t →
    c.search loc limit fuel t = .found r → t ≤ r := by
  induction fuel with
  | zero => intro t r _ h; cases h
  | succ n ih =>
      intro t r hloc h
      rw [search] at h
      split at h
      · cases hj : c.jump loc t with
        | none =>
            rw [hj] at h
            cases h
            exact le_rfl
        | some t' =>
            rw [hj] at h
            by_cases hle : t' ≤ t
            · exact absurd h (search_stuck (jump_stuck (hloc t le_rfl) hj hle) n)
            · have hlt : t ≤ t' := le_of_not_ge hle
              exact hlt.trans (ih (hloc.mono hlt) h)
      · cases h

/-- **The next run is later**: what `Next` finds lies behind `after`, where the zone is regular from
there on.

The loop starts behind `after`, and it can only end behind its start if it never goes back.  Where a
jump does not go forward it lands in the same month, day or hour, and from there it lands again at
the same instant: the loop does not end, and there is nothing to show. -/
theorem lt_next {fuel : ℕ} {after r : Instant} (hloc : loc.RegularFrom after)
    (h : c.next loc fuel after = .found r) : after < r :=
  (lt_firstMinute after).trans_le (search_le fuel (hloc.mono (lt_firstMinute after).le) h)

end CronSchedule

/-- `nextRun`: the expression evaluated in the operations time zone. -/
def nextRun (loc : Location) (fuel : ℕ) (expression : String) (after : Instant) :
    Except CronError Instant :=
  match parseCron expression with
  | .error e => .error e
  | .ok c =>
      match c.next loc fuel after with
      | .found t => .ok t
      | .noMatch => .error .neverMatches
      | .running => .error .running

theorem lt_nextRun {loc : Location} {fuel : ℕ} {expression : String} {after t : Instant}
    (hloc : loc.RegularFrom after) (h : nextRun loc fuel expression after = .ok t) : after < t := by
  unfold nextRun at h
  split at h
  · cases h
  · split at h
    · next hfound =>
        cases h
        exact CronSchedule.lt_next hloc hfound
    · cases h
    · cases h

/-- An expression that has had a next run parses, so that it fails later for want of a match
only. -/
theorem nextRun_error {loc : Location} {fuel : ℕ} {expression : String} {t t' n : Instant}
    {e : CronError} (h : nextRun loc fuel expression t = .ok n)
    (h' : nextRun loc fuel expression t' = .error e) (he : e ≠ .running) : e = .neverMatches := by
  unfold nextRun at h h'
  cases hparse : parseCron expression with
  | error e' => rw [hparse] at h; cases h
  | ok c =>
      rw [hparse] at h'
      simp only at h'
      split at h'
      · cases h'
      · cases h'
        rfl
      · cases h'
        exact absurd rfl he

end BindPlane
