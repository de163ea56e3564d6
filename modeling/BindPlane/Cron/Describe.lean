import BindPlane.Codec.Pieces
import BindPlane.Cron.Fields
import BindPlane.Cron.Runs

/-!
# Cron expressions in plain language

The admin pages show a schedule by a sentence where `describeCron` finds one, and by the expression
where it does not.

**Two readers of one text.**  `describeCron` splits the expression at what a regular expression
calls white space, and `ParseCron` at what Go calls so.  On an expression that the one has a
sentence for and the other accepts they find the same fields (`goFields_eq`).

**What a sentence says** is `Sentence.Holds`, of the runs of the schedule (`Fires`).  A sentence
without a step is true, and one with a step exactly if the step divides the hour or the day
(`describeCron_holds_iff`): behind the last multiple of the step the minutes, or the hours, begin
again with 0.

**Source.**  What is modelled here is in `admin/features/ops/api.ts`.
-/

namespace BindPlane.Cron

/-! ## The sentences -/

inductive Weekday
  | sunday | monday | tuesday | wednesday | thursday | friday | saturday
  deriving DecidableEq, Repr

/-- `names`, in either language. -/
def Weekday.name (zh : Bool) : Weekday → String
  | .sunday => if zh then "周日" else "Sunday"
  | .monday => if zh then "周一" else "Monday"
  | .tuesday => if zh then "周二" else "Tuesday"
  | .wednesday => if zh then "周三" else "Wednesday"
  | .thursday => if zh then "周四" else "Thursday"
  | .friday => if zh then "周五" else "Friday"
  | .saturday => if zh then "周六" else "Saturday"

/-- The weekday as Go counts it. -/
def Weekday.number : Weekday → ℤ
  | .sunday => 0
  | .monday => 1
  | .tuesday => 2
  | .wednesday => 3
  | .thursday => 4
  | .friday => 5
  | .saturday => 6

/-- `names`: 7 is another name for Sunday. -/
def weekdays : List Weekday :=
  [.sunday, .monday, .tuesday, .wednesday, .thursday, .friday, .saturday, .sunday]

/-- A sentence, with the digits that it shows.

The sentences of both languages are built from these, so that their truth does not depend on the
language in which they are shown. -/
inductive Sentence
  | everyMinute
  | everyMinutes (step : List Char)
  | everyHours (step minute : List Char)
  | hourly (minute : List Char)
  | daily (hour minute : List Char)
  | weekly (weekday : Weekday) (hour minute : List Char)
  deriving DecidableEq, Repr

/-- `pad`. -/
def pad (value : List Char) : String :=
  String.ofList (List.replicate (2 - value.length) '0' ++ value)

/-- The sentence as it is shown. -/
def Sentence.text (zh : Bool) : Sentence → String
  | .everyMinute => if zh then "每分钟" else "Every minute"
  | .everyMinutes step =>
      if zh then "每 " ++ String.ofList step ++ " 分钟"
      else "Every " ++ String.ofList step ++ " minutes"
  | .everyHours step minute =>
      if zh then "每 " ++ String.ofList step ++ " 小时（第 " ++ String.ofList minute ++ " 分）"
      else "Every " ++ String.ofList step ++ " hours at :" ++ pad minute
  | .hourly minute =>
      if zh then "每小时第 " ++ String.ofList minute ++ " 分" else "Hourly at :" ++ pad minute
  | .daily hour minute =>
      (if zh then "每天 " else "Daily at ") ++ (pad hour ++ ":" ++ pad minute)
  | .weekly weekday hour minute =>
      (if zh then "每" ++ weekday.name zh ++ " " else "Every " ++ weekday.name zh ++ " at ") ++
        (pad hour ++ ":" ++ pad minute)

/-! ## Reading an expression -/

/-- `\s` of a regular expression. -/
def isJsSpace (c : Char) : Bool :=
  c.val ∈ [0x09, 0x0A, 0x0B, 0x0C, 0x0D, 0x20, 0xA0, 0x1680, 0x2028, 0x2029, 0x202F, 0x205F,
    0x3000, 0xFEFF] || (0x2000 ≤ c.val && c.val ≤ 0x200A)

/-- `expression.trim().split(/\s+/)`: the pieces between the runs of white space of a text that has
none at its ends; the empty text is one empty piece. -/
def jsFields (s : List Char) : List (List Char) :=
  match (s.splitOnP isJsSpace).filter (· ≠ []) with
  | [] => [[]]
  | fields => fields

/-- `/^\d+$/.test(value)`. -/
def isDigits (value : List Char) : Bool := value ≠ [] && value.all Char.isDigit

/-- `every.test(value)`. -/
def everyTest : List Char → Bool
  | '*' :: '/' :: digits => isDigits digits
  | _ => false

/-- `every.exec(value)![1]`. -/
def everyExec (value : List Char) : List Char := value.drop 2

/-- `names[Number(weekday)]`, where `/^[0-7]$/.test(weekday)`. -/
def weekdayOf : List Char → Option Weekday
  | [c] => if '0' ≤ c ∧ c ≤ '7' then weekdays[c.toNat - '0'.toNat]? else none
  | _ => none

/-- The sentence that `describeCron` finds.

The tests are made on the texts, with the browser's idea of a digit and of a blank, and in this
order; the sentences are compared with the engine's own reading of the expression only in the
theorem. -/
def describe (expression : String) : Option Sentence :=
  match jsFields expression.toList with
  | [minute, hour, day, month, weekday] =>
      if day ≠ ['*'] ∨ month ≠ ['*'] then none
      else if minute = ['*'] ∧ hour = ['*'] ∧ weekday = ['*'] then some .everyMinute
      else if hour = ['*'] ∧ weekday = ['*'] ∧ everyTest minute then
        some (.everyMinutes (everyExec minute))
      else if isDigits minute ∧ everyTest hour ∧ weekday = ['*'] then
        some (.everyHours (everyExec hour) minute)
      else if isDigits minute ∧ hour = ['*'] ∧ weekday = ['*'] then some (.hourly minute)
      else if isDigits minute ∧ isDigits hour then
        if weekday = ['*'] then some (.daily hour minute)
        else (weekdayOf weekday).map fun day => .weekly day hour minute
      else none
  | _ => none

/-- `describeCron`. -/
def describeCron (expression : String) (zh : Bool) : String :=
  match describe expression with
  | some sentence => sentence.text zh
  | none => expression

example : describeCron "0 */4 * * *" false = "Every 4 hours at :00" ∧
    describeCron "*/10 * * * *" true = "每 10 分钟" ∧
    describeCron "30 2 * * *" false = "Daily at 02:30" ∧
    describeCron "0 3 * * 1" true = "每周一 03:00" ∧
    describeCron "0 3 1 * *" false = "0 3 1 * *" ∧ describeCron "nonsense" false = "nonsense" ∧
    describeCron "* * * * *" true = "每分钟" := by decide +kernel

/-! ## What a sentence says -/

/-- The number that digits stand for. -/
def numberOf (digits : List Char) : ℕ := (decimalDigits digits).getD 0

/-- The local minutes that a sentence names: a sentence with a step names none. -/
def Sentence.names (l : ℤ) : Sentence → Prop
  | .everyMinute => True
  | .hourly minute => (Civil.ofSeconds l).minute = numberOf minute
  | .daily hour minute =>
      (Civil.ofSeconds l).hour = numberOf hour ∧ (Civil.ofSeconds l).minute = numberOf minute
  | .weekly weekday hour minute =>
      Gregorian.weekday (l / 86400) = weekday.number ∧
        (Civil.ofSeconds l).hour = numberOf hour ∧ (Civil.ofSeconds l).minute = numberOf minute
  | .everyMinutes _ | .everyHours _ _ => False

/-- **What a sentence says** of the runs of a schedule: how far they are apart, or what they are. -/
def Sentence.Holds (c : CronSchedule) (z : Zone) : Sentence → Prop
  | .everyMinutes step => Apart c z (60 * numberOf step)
  | .everyHours step minute =>
      Apart c z (3600 * numberOf step) ∧
        ∀ t, Fires c z t → (z.civil t).minute = numberOf minute
  | sentence => Names c z fun l => sentence.names l

/-- The step that a sentence shows divides the hour, or the day. -/
def Sentence.Divides : Sentence → Prop
  | .everyMinutes step => numberOf step ∣ 60
  | .everyHours step _ => numberOf step ∣ 24
  | _ => True

/-- Some hours have no run. -/
def Sentence.Restricted : Sentence → Prop
  | .everyMinute | .everyMinutes _ | .hourly _ => False
  | .everyHours step _ => numberOf step ≠ 1
  | .daily _ _ | .weekly _ _ _ => True

/-! ## The same fields -/

section Fields

variable {p : Char → Bool} {s : List Char} {x : Char}

/-- What is no separator lies in a field. -/
theorem mem_field (hx : x ∈ s) (hp : p x = false) :
    ∃ f ∈ (s.splitOnP p).filter (· ≠ []), x ∈ f := by
  obtain ⟨f, hf, hxf⟩ := Pieces.mem_piece hx hp
  exact ⟨f, List.mem_filter.mpr ⟨hf, by simpa using List.ne_nil_of_mem hxf⟩, hxf⟩

/-- Where no piece has a character beyond ASCII, both call the same characters white space. -/
theorem goFields_eq_pieces (hgo : ∀ f ∈ goFields s, ∀ x ∈ f, x.toNat < 128)
    (hjs : ∀ f ∈ (s.splitOnP isJsSpace).filter (· ≠ []), ∀ x ∈ f, x.toNat < 128) :
    goFields s = (s.splitOnP isJsSpace).filter (· ≠ []) := by
  have hascii : ∀ x : Char, x.toNat < 128 → isGoSpace x = isJsSpace x := by
    intro x hx
    have hval : x.val.toNat < 128 := hx
    unfold isGoSpace isJsSpace
    rw [Bool.eq_iff_iff]
    simp only [List.mem_cons, List.not_mem_nil, or_false, Bool.or_eq_true, decide_eq_true_eq,
      Bool.and_eq_true, UInt32.le_iff_toNat_le, ← UInt32.toNat_inj]
    simp only [UInt32.reduceToNat]
    omega
  refine congrArg _ (Pieces.splitOnP_congr fun x hx => ?_)
  by_cases hlt : x.toNat < 128
  · exact hascii x hlt
  · -- beyond ASCII it lies in no piece, so it is white space to both
    have hgo' : isGoSpace x = true := by
      by_contra hno
      obtain ⟨f, hf, hxf⟩ := mem_field hx (Bool.eq_false_iff.mpr hno)
      exact hlt (hgo f hf x hxf)
    have hjs' : isJsSpace x = true := by
      by_contra hno
      obtain ⟨f, hf, hxf⟩ := mem_field hx (Bool.eq_false_iff.mpr hno)
      exact hlt (hjs f hf x hxf)
    rw [hgo', hjs']

end Fields

/-! ## What the engine reads -/

section Reading

variable {f : CronField} {low high n start stop step : ℤ} {text part digits : List Char}
  {set : BitVec 64} {stepped : Bool}

theorem isDigit_ascii {x : Char} (h : x.isDigit = true) : x.toNat < 128 := by
  unfold Char.isDigit at h
  rw [Bool.and_eq_true, decide_eq_true_eq, decide_eq_true_eq, UInt32.le_iff_toNat_le] at h
  exact h.2.trans_lt (by decide)

theorem decimalDigits_eq_some {m : ℕ} (h : decimalDigits digits = some m) :
    isDigits digits = true := by
  unfold decimalDigits at h
  split at h
  · cases h
  · next hne =>
      split at h
      · next hall =>
          rw [isDigits, hall, Bool.and_true, decide_eq_true_eq]
          exact hne
      · cases h

/-- A number is read from digits, behind a sign or none. -/
theorem goAtoi_eq_some (h : goAtoi text = some n) : ∃ digits m, decimalDigits digits = some m ∧
    (text = '-' :: digits ∧ n = -m ∨ text = '+' :: digits ∧ n = m ∨ text = digits ∧ n = m) := by
  obtain ⟨hread, -⟩ := Option.filter_eq_some_iff.mp h
  split at hread
  · next digits =>
      cases hm : decimalDigits digits with
      | none => rw [hm] at hread; cases hread
      | some m =>
          rw [hm] at hread
          exact ⟨digits, m, hm, Or.inl ⟨rfl, (Option.some.inj hread).symm⟩⟩
  · next digits =>
      cases hm : decimalDigits digits with
      | none => rw [hm] at hread; cases hread
      | some m =>
          rw [hm] at hread
          exact ⟨digits, m, hm, Or.inr (Or.inl ⟨rfl, (Option.some.inj hread).symm⟩)⟩
  · cases hm : decimalDigits text with
    | none => rw [hm] at hread; cases hread
    | some m =>
        rw [hm] at hread
        exact ⟨text, m, hm, Or.inr (Or.inr ⟨rfl, (Option.some.inj hread).symm⟩)⟩

theorem isDigits_ascii (h : isDigits digits = true) : ∀ x ∈ digits, x.toNat < 128 := by
  intro x hx
  unfold isDigits at h
  rw [Bool.and_eq_true, List.all_eq_true] at h
  exact isDigit_ascii (h.2 x hx)

theorem goAtoi_ascii (h : goAtoi text = some n) : ∀ x ∈ text, x.toNat < 128 := by
  obtain ⟨digits, m, hm, htext⟩ := goAtoi_eq_some h
  have hdigits := isDigits_ascii (decimalDigits_eq_some hm)
  intro x hx
  rcases htext with ⟨rfl, -⟩ | ⟨rfl, -⟩ | ⟨rfl, -⟩
  · rcases List.mem_cons.mp hx with rfl | hx
    · decide
    · exact hdigits x hx
  · rcases List.mem_cons.mp hx with rfl | hx
    · decide
    · exact hdigits x hx
  · exact hdigits x hx

theorem Range.ascii (h : Range low high text stepped start stop) :
    ∀ x ∈ text, x.toNat < 128 := by
  intro x hx
  cases h with
  | star => simp only [List.mem_singleton] at hx; rw [hx]; decide
  | interval a b _ _ _ _ hstart hstop _ =>
      rcases List.mem_append.mp hx with hx | hx
      · exact goAtoi_ascii hstart x hx
      · rcases List.mem_cons.mp hx with rfl | hx
        · decide
        · exact goAtoi_ascii hstop x hx
  | value _ _ _ hn => exact goAtoi_ascii hn x hx
  | rest _ _ _ hn => exact goAtoi_ascii hn x hx

theorem Part.ascii (h : Part low high text start stop step) : ∀ x ∈ text, x.toNat < 128 := by
  intro x hx
  cases h with
  | plain _ _ _ _ hrange => exact hrange.ascii x hx
  | stepped _ after _ _ _ _ hstep _ hrange =>
      rcases List.mem_append.mp hx with hx | hx
      · exact hrange.ascii x hx
      · rcases List.mem_cons.mp hx with rfl | hx
        · decide
        · exact goAtoi_ascii hstep x hx

/-- A field that is accepted is in ASCII. -/
theorem parseCronField_ascii (f : CronField)
    (h : parseCronField f f.bounds.1 f.bounds.2 text = .ok set) :
    ∀ x ∈ text, x.toNat < 128 := by
  obtain ⟨hlow, hhigh⟩ := bounds_fit f
  obtain ⟨haccepted, -⟩ := parseCronField_getLsbD hlow hhigh h
  intro x hx
  by_cases hcomma : x = ','
  · rw [hcomma]
    decide
  · obtain ⟨part, hpart, hmem⟩ : ∃ part ∈ text.splitOn ',', x ∈ part :=
      Pieces.mem_piece (p := (· == ',')) hx (by simpa using hcomma)
    obtain ⟨_, _, _, hread, -, -⟩ := haccepted part hpart
    exact hread.ascii x hmem

/-- Digits are read as their number. -/
theorem goAtoi_digits (hdigits : isDigits digits = true) (h : goAtoi digits = some n) :
    n = numberOf digits := by
  have hhead : ∀ {x rest}, digits = x :: rest → x.isDigit = true := by
    rintro x rest rfl
    simp only [isDigits, List.all_cons, Bool.and_eq_true] at hdigits
    exact hdigits.2.1
  obtain ⟨digits', m, hm, ⟨htext, -⟩ | ⟨htext, -⟩ | ⟨rfl, rfl⟩⟩ := goAtoi_eq_some h
  · exact absurd (hhead htext) (by decide)
  · exact absurd (hhead htext) (by decide)
  · rw [numberOf, hm, Option.getD_some]

/-- A field of one part whose step does not wrap around. -/
theorem parseCronField_part (f : CronField) (hcomma : ',' ∉ text)
    (h : parseCronField f f.bounds.1 f.bounds.2 text = .ok set) :
    ∃ start stop step, Part f.bounds.1 f.bounds.2 text start stop step ∧ f.bounds.1 ≤ start ∧
      stop ≤ f.bounds.2 ∧ (start < 2 * (2 ^ 63 - step) → ∀ i : ℕ, set.getLsbD i = true ↔
        ∃ k : ℕ, (i : ℤ) = start + k * step ∧ (i : ℤ) ≤ stop) := by
  obtain ⟨hlow, hhigh⟩ := bounds_fit f
  obtain ⟨haccepted, hbits⟩ := parseCronField_getLsbD hlow hhigh h
  rw [List.splitOn_eq_singleton hcomma] at haccepted hbits
  obtain ⟨start, stop, step, hread, hstart, hstop⟩ := haccepted text List.mem_cons_self
  refine ⟨start, stop, step, hread, hstart, hstop, fun hno i => ?_⟩
  rw [hbits]
  simp only [List.mem_singleton, exists_eq_left]
  constructor
  · rintro (⟨start', stop', step', hread', -, -, hk⟩ | ⟨start', stop', step', hread', -, -, j, hj, hi⟩)
    · obtain ⟨hstart', hstop', hstep'⟩ := hread.unique hread'
      rw [hstart', hstop', hstep'] at hk
      exact hk
    · obtain ⟨hstart', -, hstep'⟩ := hread.unique hread'
      rw [hstart', hstep'] at hi
      have hmax := hread.step_bounds.2
      have hmul : (1 : ℤ) * (2 ^ 63 - step) ≤ j * (2 ^ 63 - step) :=
        mul_le_mul_of_nonneg_right (by exact_mod_cast hj) (by omega)
      have hi' : (i : ℤ) = start - 2 * ((j : ℤ) * (2 ^ 63 - step)) := by rw [hi]; ring
      omega
  · exact fun hk => Or.inl ⟨start, stop, step, hread, hstart, hstop, hk⟩

theorem isDigits_no_mark (hdigits : isDigits digits = true) {x : Char}
    (hx : x.isDigit = false) : x ∉ digits := by
  intro hmem
  unfold isDigits at hdigits
  rw [Bool.and_eq_true, List.all_eq_true] at hdigits
  rw [hdigits.2 x hmem] at hx
  cases hx

/-- A field of digits is one value. -/
theorem parseCronField_digits (f : CronField) (hdigits : isDigits digits = true)
    (h : parseCronField f f.bounds.1 f.bounds.2 digits = .ok set) :
    f.bounds.1 ≤ numberOf digits ∧ numberOf digits ≤ f.bounds.2 ∧
      ∀ i : ℕ, set.getLsbD i = true ↔ i = numberOf digits := by
  obtain ⟨start, stop, step, hread, hstart, hstop, hbits⟩ :=
    parseCronField_part f (isDigits_no_mark hdigits rfl) h
  obtain ⟨rangePart, stepped, hstep, hrange⟩ := (part_iff (f := f)).mp hread
  rw [cronStep, goCut_eq_none.mpr (isDigits_no_mark hdigits rfl)] at hstep
  cases hstep
  have hstar : digits ≠ ['*'] := by
    rintro rfl
    exact absurd hdigits (by decide)
  rw [cronRange, if_neg hstar, goCut_eq_none.mpr (isDigits_no_mark hdigits rfl)] at hrange
  dsimp only at hrange
  split at hrange
  · next n hn =>
      have hvalue := goAtoi_digits hdigits hn
      cases hrange
      have hfits := bounds_fit f
      have hstop' : (if false = true then f.bounds.2 else start) = start := if_neg Bool.false_ne_true
      rw [hstop'] at hstop hbits
      refine ⟨by omega, by omega, fun i => ?_⟩
      rw [hbits (by omega)]
      constructor
      · rintro ⟨k, hk, hle⟩
        omega
      · rintro rfl
        exact ⟨0, by omega, by omega⟩
  · cases hrange

/-- `*` is every value. -/
theorem parseCronField_star (f : CronField)
    (h : parseCronField f f.bounds.1 f.bounds.2 ['*'] = .ok set) (i : ℕ) :
    set.getLsbD i = true ↔ f.bounds.1 ≤ i ∧ (i : ℤ) ≤ f.bounds.2 := by
  obtain ⟨start, stop, step, hread, hstart, hstop, hbits⟩ :=
    parseCronField_part f (by decide) h
  obtain ⟨rfl, rfl, rfl⟩ := hread.unique
    (Part.plain ['*'] f.bounds.1 f.bounds.2 (by decide) (.star false))
  have hfits : f.bounds.1 < 64 := by cases f <;> decide
  rw [hbits (by omega)]
  constructor
  · rintro ⟨k, hk, hle⟩
    omega
  · rintro ⟨hlow, hhigh⟩
    exact ⟨(i - f.bounds.1).toNat, by omega, hhigh⟩

/-- A step from 0 takes the multiples. -/
theorem parseCronField_every (f : CronField) (hzero : f.bounds.1 = 0)
    (htest : everyTest text = true)
    (h : parseCronField f f.bounds.1 f.bounds.2 text = .ok set) :
    1 ≤ numberOf (everyExec text) ∧
      ∀ i : ℕ, set.getLsbD i = true ↔ numberOf (everyExec text) ∣ i ∧ (i : ℤ) ≤ f.bounds.2 := by
  unfold everyTest at htest
  split at htest
  · next digits =>
      have hcomma : ',' ∉ '*' :: '/' :: digits := by
        have hno := isDigits_no_mark htest (x := ',') rfl
        simp [hno]
      obtain ⟨start, stop, step, hread, hstart, hstop, hbits⟩ := parseCronField_part f hcomma h
      obtain ⟨rangePart, stepped, hstep, hrange⟩ := (part_iff (f := f)).mp hread
      have hcut : goCut '/' ('*' :: '/' :: digits) = some (['*'], digits) :=
        goCut_append (a := ['*']) (by decide)
      rw [cronStep, hcut] at hstep
      dsimp only at hstep
      split at hstep
      · next n hn =>
          split at hstep
          · cases hstep
          · next hpos =>
              cases hstep
              rw [cronRange, if_pos rfl] at hrange
              cases hrange
              have hvalue : step = numberOf digits := goAtoi_digits htest hn
              have hmax := hread.step_bounds.2
              show 1 ≤ numberOf digits ∧ ∀ i : ℕ, set.getLsbD i = true ↔
                numberOf digits ∣ i ∧ (i : ℤ) ≤ f.bounds.2
              refine ⟨by omega, fun i => ?_⟩
              rw [hbits (by omega), hzero, hvalue]
              constructor
              · rintro ⟨k, hk, hle⟩
                refine ⟨⟨k, ?_⟩, hle⟩
                rw [mul_comm]
                exact_mod_cast hk.trans (zero_add _)
              · rintro ⟨⟨k, hk⟩, hle⟩
                refine ⟨k, ?_, hle⟩
                rw [hk]
                push_cast
                ring
      · cases hstep
  · cases htest

end Reading

/-! ## The schedule of a sentence -/

/-- The minutes of the hour that a sentence is read from. -/
def Sentence.minuteAsked (i : ℤ) : Sentence → Prop
  | .everyMinute => True
  | .everyMinutes step => (numberOf step : ℤ) ∣ i
  | .everyHours _ minute | .hourly minute | .daily _ minute | .weekly _ _ minute =>
      i = numberOf minute

/-- The hours of the day. -/
def Sentence.hourAsked (i : ℤ) : Sentence → Prop
  | .everyMinute | .everyMinutes _ | .hourly _ => True
  | .everyHours step _ => (numberOf step : ℤ) ∣ i
  | .daily hour _ | .weekly _ hour _ => i = numberOf hour

/-- The days of the week. -/
def Sentence.dayAsked (i : ℤ) : Sentence → Prop
  | .weekly weekday _ _ => i = weekday.number
  | _ => True

/-- The local minutes. -/
def Sentence.Asked (sentence : Sentence) (l : ℤ) : Prop :=
  sentence.minuteAsked (l % 3600 / 60) ∧ sentence.hourAsked (l % 86400 / 3600) ∧
    sentence.dayAsked (Gregorian.weekday (l / 86400))

/-- The numbers of a sentence are in the bounds of their fields. -/
def Sentence.Fits : Sentence → Prop
  | .everyMinute => True
  | .everyMinutes step => 1 ≤ numberOf step
  | .everyHours step minute => 1 ≤ numberOf step ∧ numberOf minute ≤ 59
  | .hourly minute => numberOf minute ≤ 59
  | .daily hour minute | .weekly _ hour minute => numberOf hour ≤ 23 ∧ numberOf minute ≤ 59

/-- The fields that a sentence is read from.

There is one constructor for each sentence, so what a sentence says of the runs is proved for one
constructor at a time. -/
inductive Reads : List Char → List Char → List Char → Sentence → Prop
  | everyMinute : Reads ['*'] ['*'] ['*'] .everyMinute
  | everyMinutes {minute : List Char} (hminute : everyTest minute = true) :
      Reads minute ['*'] ['*'] (.everyMinutes (everyExec minute))
  | everyHours {minute hour : List Char} (hminute : isDigits minute = true)
      (hhour : everyTest hour = true) :
      Reads minute hour ['*'] (.everyHours (everyExec hour) minute)
  | hourly {minute : List Char} (hminute : isDigits minute = true) :
      Reads minute ['*'] ['*'] (.hourly minute)
  | daily {minute hour : List Char} (hminute : isDigits minute = true)
      (hhour : isDigits hour = true) : Reads minute hour ['*'] (.daily hour minute)
  | weekly {minute hour weekday : List Char} {day : Weekday} (hminute : isDigits minute = true)
      (hhour : isDigits hour = true) (hweekday : weekdayOf weekday = some day) :
      Reads minute hour weekday (.weekly day hour minute)

section Schedule

variable {expression : String} {c : CronSchedule} {sentence : Sentence}
  {minute hour weekday : List Char}

theorem describe_eq_some (h : describe expression = some sentence) :
    ∃ minute hour weekday, jsFields expression.toList = [minute, hour, ['*'], ['*'], weekday] ∧
      Reads minute hour weekday sentence := by
  unfold describe at h
  split at h
  · next minute hour day month weekday hfields =>
      split at h
      · cases h
      · -- the tests are made in this order, and each leaves its sentence
        next hstars =>
          rw [not_or, not_not, not_not] at hstars
          obtain ⟨rfl, rfl⟩ := hstars
          refine ⟨minute, hour, weekday, hfields, ?_⟩
          split at h
          · next hcond =>
              obtain ⟨rfl, rfl, rfl⟩ := hcond
              cases h
              exact .everyMinute
          · split at h
            · next hcond =>
                obtain ⟨rfl, rfl, hminute⟩ := hcond
                cases h
                exact .everyMinutes hminute
            · split at h
              · next hcond =>
                  obtain ⟨hminute, hhour, rfl⟩ := hcond
                  cases h
                  exact .everyHours hminute hhour
              · split at h
                · next hcond =>
                    obtain ⟨hminute, rfl, rfl⟩ := hcond
                    cases h
                    exact .hourly hminute
                · split at h
                  · next hcond =>
                      split at h
                      · next hstar =>
                          cases h
                          rw [hstar]
                          exact .daily hcond.1 hcond.2
                      · obtain ⟨day, hday, rfl⟩ := Option.map_eq_some_iff.mp h
                        exact .weekly hcond.1 hcond.2 hday
                  · cases h
  · cases h

/-- One digit from 0 to 7. -/
theorem weekdayOf_eq_some {day : Weekday} (h : weekdayOf weekday = some day) :
    isDigits weekday = true ∧ weekdays[numberOf weekday]? = some day := by
  unfold weekdayOf at h
  split at h
  · next x =>
      split at h
      · next hrange =>
          have hdigit : x.isDigit = true := by
            unfold Char.isDigit
            rw [Bool.and_eq_true, decide_eq_true_eq, decide_eq_true_eq]
            exact ⟨hrange.1, UInt32.le_trans hrange.2 (by decide)⟩
          have hdigits : isDigits [x] = true := by simp [isDigits, hdigit]
          have hnumber : numberOf [x] = x.toNat - '0'.toNat := by
            simp [numberOf, decimalDigits, hdigit]
          rw [hnumber]
          exact ⟨hdigits, h⟩
      · cases h
  · cases h

theorem everyTest_ascii (h : everyTest minute = true) : ∀ x ∈ minute, x.toNat < 128 := by
  unfold everyTest at h
  split at h
  · next digits =>
      intro x hx
      rw [List.mem_cons, List.mem_cons] at hx
      rcases hx with rfl | rfl | hx
      · decide
      · decide
      · exact isDigits_ascii h x hx
  · cases h

theorem Reads.ascii (h : Reads minute hour weekday sentence) :
    (∀ x ∈ minute, x.toNat < 128) ∧ (∀ x ∈ hour, x.toNat < 128) ∧
      ∀ x ∈ weekday, x.toNat < 128 := by
  have hstar : ∀ x ∈ ['*'], x.toNat < 128 := List.forall_mem_singleton.mpr (by decide)
  cases h with
  | everyMinute => exact ⟨hstar, hstar, hstar⟩
  | everyMinutes hminute => exact ⟨everyTest_ascii hminute, hstar, hstar⟩
  | everyHours hminute hhour => exact ⟨isDigits_ascii hminute, everyTest_ascii hhour, hstar⟩
  | hourly hminute => exact ⟨isDigits_ascii hminute, hstar, hstar⟩
  | daily hminute hhour => exact ⟨isDigits_ascii hminute, isDigits_ascii hhour, hstar⟩
  | weekly hminute hhour hweekday =>
      exact ⟨isDigits_ascii hminute, isDigits_ascii hhour,
        isDigits_ascii (weekdayOf_eq_some hweekday).1⟩

/-- **Both readers find the same fields** of an expression that the one has a sentence for and the
other accepts. -/
theorem goFields_eq (h : parseCron expression = .ok c)
    (hs : describe expression = some sentence) :
    ∃ minute hour weekday, goFields expression.toList = [minute, hour, ['*'], ['*'], weekday] ∧
      Reads minute hour weekday sentence := by
  obtain ⟨minute, hour, weekday, hfields, hreads⟩ := describe_eq_some hs
  refine ⟨minute, hour, weekday, ?_, hreads⟩
  have hpieces : (expression.toList.splitOnP isJsSpace).filter (· ≠ []) =
      [minute, hour, ['*'], ['*'], weekday] := by
    unfold jsFields at hfields
    split at hfields
    · cases hfields
    · exact hfields
  obtain ⟨minute', hour', dom', month', dow', _, _, _, _, _, hgo, hminutes, hhours, hdoms, hmonths,
    hdows, -⟩ := parseCron_eq_ok h
  have hstar : ∀ x ∈ ['*'], x.toNat < 128 := List.forall_mem_singleton.mpr (by decide)
  obtain ⟨hminute, hhour, hweekday⟩ := hreads.ascii
  rw [goFields_eq_pieces ?_ ?_, hpieces]
  · rw [hgo]
    intro f hf
    simp only [List.mem_cons, List.not_mem_nil, or_false] at hf
    rcases hf with rfl | rfl | rfl | rfl | rfl
    · exact parseCronField_ascii .minute hminutes
    · exact parseCronField_ascii .hour hhours
    · exact parseCronField_ascii .day hdoms
    · exact parseCronField_ascii .month hmonths
    · exact parseCronField_ascii .weekday hdows
  · rw [hpieces]
    intro f hf
    simp only [List.mem_cons, List.not_mem_nil, or_false] at hf
    rcases hf with rfl | rfl | rfl | rfl | rfl
    · exact hminute
    · exact hhour
    · exact hstar
    · exact hstar
    · exact hweekday

/-- The minutes of the hour. -/
theorem Reads.minutes_iff (h : Reads minute hour weekday sentence) {minutes : BitVec 64}
    (hparse : parseCronField .minute 0 59 minute = .ok minutes) {i : ℤ} (hi : 0 ≤ i)
    (hi' : i ≤ 59) : minutes.getLsbD i.toNat = true ↔ sentence.minuteAsked i := by
  have hdigits : isDigits minute = true →
      (minutes.getLsbD i.toNat = true ↔ i = numberOf minute) := by
    intro hdigits
    rw [(parseCronField_digits .minute hdigits hparse).2.2]
    omega
  cases h with
  | everyMinute =>
      rw [parseCronField_star .minute hparse]
      exact iff_of_true (show (0 : ℤ) ≤ i.toNat ∧ (i.toNat : ℤ) ≤ 59 by omega) trivial
  | everyMinutes hminute =>
      rw [(parseCronField_every .minute rfl hminute hparse).2]
      show numberOf (everyExec minute) ∣ i.toNat ∧ (i.toNat : ℤ) ≤ 59 ↔
        (numberOf (everyExec minute) : ℤ) ∣ i
      rw [← Int.natCast_dvd_natCast, Int.toNat_of_nonneg hi]
      exact and_iff_left hi'
  | everyHours hminute _ => exact hdigits hminute
  | hourly hminute => exact hdigits hminute
  | daily hminute _ => exact hdigits hminute
  | weekly hminute _ _ => exact hdigits hminute

/-- The hours of the day. -/
theorem Reads.hours_iff (h : Reads minute hour weekday sentence) {hours : BitVec 64}
    (hparse : parseCronField .hour 0 23 hour = .ok hours) {i : ℤ} (hi : 0 ≤ i)
    (hi' : i ≤ 23) : hours.getLsbD i.toNat = true ↔ sentence.hourAsked i := by
  have hdigits : isDigits hour = true → (hours.getLsbD i.toNat = true ↔ i = numberOf hour) := by
    intro hdigits
    rw [(parseCronField_digits .hour hdigits hparse).2.2]
    omega
  have hstar : hour = ['*'] → (hours.getLsbD i.toNat = true ↔ True) := by
    rintro rfl
    rw [parseCronField_star .hour hparse]
    exact iff_of_true (show (0 : ℤ) ≤ i.toNat ∧ (i.toNat : ℤ) ≤ 23 by omega) trivial
  cases h with
  | everyMinute => exact hstar rfl
  | everyMinutes _ => exact hstar rfl
  | everyHours _ hhour =>
      rw [(parseCronField_every .hour rfl hhour hparse).2]
      show numberOf (everyExec hour) ∣ i.toNat ∧ (i.toNat : ℤ) ≤ 23 ↔
        (numberOf (everyExec hour) : ℤ) ∣ i
      rw [← Int.natCast_dvd_natCast, Int.toNat_of_nonneg hi]
      exact and_iff_left hi'
  | hourly _ => exact hstar rfl
  | daily _ hhour => exact hdigits hhour
  | weekly _ hhour _ => exact hdigits hhour

/-- The days of the week: 7 is another name for Sunday. -/
theorem Reads.weekdays_iff (h : Reads minute hour weekday sentence) {dows : BitVec 64}
    (hparse : parseCronField .weekday 0 7 weekday = .ok dows) {i : ℤ} (hi : 0 ≤ i)
    (hi' : i ≤ 6) : dows.getLsbD i.toNat = true ∨ i = 0 ∧ dows.getLsbD 7 = true ↔
      sentence.dayAsked i := by
  have hstar : weekday = ['*'] →
      (dows.getLsbD i.toNat = true ∨ i = 0 ∧ dows.getLsbD 7 = true ↔ True) := by
    rintro rfl
    rw [parseCronField_star .weekday hparse]
    exact iff_of_true (Or.inl (show (0 : ℤ) ≤ i.toNat ∧ (i.toNat : ℤ) ≤ 7 by omega)) trivial
  cases h with
  | everyMinute => exact hstar rfl
  | everyMinutes _ => exact hstar rfl
  | everyHours _ _ => exact hstar rfl
  | hourly _ => exact hstar rfl
  | daily _ _ => exact hstar rfl
  | @weekly _ _ _ day _ _ hweekday =>
      obtain ⟨hdigits, hday⟩ := weekdayOf_eq_some hweekday
      obtain ⟨-, hle, hbits⟩ := parseCronField_digits .weekday hdigits hparse
      rw [hbits, hbits]
      show _ ↔ i = day.number
      replace hle : (numberOf weekday : ℤ) ≤ 7 := hle
      generalize numberOf weekday = v at *
      obtain rfl | rfl | rfl | rfl | rfl | rfl | rfl | rfl :
          v = 0 ∨ v = 1 ∨ v = 2 ∨ v = 3 ∨ v = 4 ∨ v = 5 ∨ v = 6 ∨ v = 7 := by omega
      all_goals
        cases hday
        simp only [Weekday.number, and_true]
        omega

theorem Reads.fits (h : Reads minute hour weekday sentence) {minutes hours : BitVec 64}
    (hminutes : parseCronField .minute 0 59 minute = .ok minutes)
    (hhours : parseCronField .hour 0 23 hour = .ok hours) : sentence.Fits := by
  have hminute : isDigits minute = true → numberOf minute ≤ 59 := fun hdigits =>
    Int.ofNat_le.mp (parseCronField_digits .minute hdigits hminutes).2.1
  have hhour : isDigits hour = true → numberOf hour ≤ 23 := fun hdigits =>
    Int.ofNat_le.mp (parseCronField_digits .hour hdigits hhours).2.1
  cases h with
  | everyMinute => exact trivial
  | everyMinutes htest => exact (parseCronField_every .minute rfl htest hminutes).1
  | everyHours hdigits htest =>
      exact ⟨(parseCronField_every .hour rfl htest hhours).1, hminute hdigits⟩
  | hourly hdigits => exact hminute hdigits
  | daily hdigits hdigits' => exact ⟨hhour hdigits', hminute hdigits⟩
  | weekly hdigits hdigits' _ => exact ⟨hhour hdigits', hminute hdigits⟩

/-- **The schedule of a sentence.** -/
theorem describe_matches (h : parseCron expression = .ok c)
    (hs : describe expression = some sentence) (z : Zone) (t : ℤ) :
    monthMatches c z t = true ∧
      (dayMatches c z t = true ↔ sentence.dayAsked (Gregorian.weekday (z.localTime t / 86400))) ∧
      (hourMatches c z t = true ↔ sentence.hourAsked (z.localTime t % 86400 / 3600)) ∧
      (minuteMatches c z t = true ↔ sentence.minuteAsked (z.localTime t % 3600 / 60)) ∧
      sentence.Fits := by
  obtain ⟨minute, hour, weekday, hfields, hreads⟩ := goFields_eq h hs
  obtain ⟨_, _, _, _, _, minutes, hours, doms, months, dows, hfields', hminutes, hhours, hdoms,
    hmonths, hdows, rfl⟩ := parseCron_eq_ok h
  -- the browser and the engine split the text into the same fields
  rw [hfields] at hfields'
  cases hfields'
  have hweekday : 0 ≤ Gregorian.weekday (z.localTime t / 86400) ∧
      Gregorian.weekday (z.localTime t / 86400) ≤ 6 := by
    unfold Gregorian.weekday
    omega
  refine ⟨?_, ?_, ?_, ?_, hreads.fits hminutes hhours⟩
  · unfold monthMatches
    rw [parseCronField_star .month hmonths]
    show (1 : ℤ) ≤ ((Gregorian.monthOf (z.localTime t / 86400) % 12 + 1).toNat : ℤ) ∧
      ((Gregorian.monthOf (z.localTime t / 86400) % 12 + 1).toNat : ℤ) ≤ 12
    omega
  · have hday : doms.getLsbD (z.civil t).day.toNat = true := by
      rw [parseCronField_star .day hdoms]
      obtain ⟨hlow, hhigh⟩ := Gregorian.monthOf_spec (z.localTime t / 86400)
      have hlength := Gregorian.monthStart_succ_le (Gregorian.monthOf (z.localTime t / 86400))
      show (1 : ℤ) ≤ ((z.localTime t / 86400 - Gregorian.monthStart (Gregorian.monthOf
          (z.localTime t / 86400)) + 1).toNat : ℤ) ∧
        ((z.localTime t / 86400 - Gregorian.monthStart (Gregorian.monthOf
          (z.localTime t / 86400)) + 1).toNat : ℤ) ≤ 31
      omega
    -- 7 was folded into 0 when the field was parsed
    have hsunday := sunday_getLsbD dows
      (show (Gregorian.weekday (z.localTime t / 86400)).toNat < 7 by omega)
    have hzero : (Gregorian.weekday (z.localTime t / 86400)).toNat = 0 ↔
        Gregorian.weekday (z.localTime t / 86400) = 0 := by omega
    rw [hzero, hreads.weekdays_iff hdows hweekday.1 hweekday.2] at hsunday
    rw [← hsunday]
    unfold dayMatches
    dsimp only
    rw [hday]
    simp only [List.head?_cons, ne_eq, not_true_eq_false, decide_false, Bool.false_and,
      Bool.false_eq_true, if_false, Bool.true_and]
    rfl
  · exact hreads.hours_iff hhours (by show 0 ≤ z.localTime t % 86400 / 3600; omega)
      (by show z.localTime t % 86400 / 3600 ≤ 23; omega)
  · exact hreads.minutes_iff hminutes (by show 0 ≤ z.localTime t % 3600 / 60; omega)
      (by show z.localTime t % 3600 / 60 ≤ 59; omega)

end Schedule

/-! ## When a sentence is true -/

section Truth

variable {expression : String} {c : CronSchedule} {sentence : Sentence} {o : ℤ}

/-- What is asked for comes within eight days. -/
theorem Sentence.Fits.soon (h : sentence.Fits) {l : ℤ} (hl : 60 ∣ l) :
    ∃ l', 60 ∣ l' ∧ l ≤ l' ∧ l' ≤ l + 691200 ∧ sentence.Asked l' := by
  obtain ⟨m, hm, hm', hminute⟩ : ∃ m : ℤ, 0 ≤ m ∧ m ≤ 59 ∧ sentence.minuteAsked m := by
    cases sentence with
    | everyMinute => exact ⟨0, by decide, by decide, trivial⟩
    | everyMinutes step => exact ⟨0, by decide, by decide, Int.dvd_zero _⟩
    | everyHours step minute => exact ⟨_, Int.natCast_nonneg _, Int.ofNat_le.mpr h.2, rfl⟩
    | hourly minute => exact ⟨_, Int.natCast_nonneg _, Int.ofNat_le.mpr h, rfl⟩
    | daily hour minute => exact ⟨_, Int.natCast_nonneg _, Int.ofNat_le.mpr h.2, rfl⟩
    | weekly day hour minute => exact ⟨_, Int.natCast_nonneg _, Int.ofNat_le.mpr h.2, rfl⟩
  obtain ⟨n, hn, hn', hhour⟩ : ∃ n : ℤ, 0 ≤ n ∧ n ≤ 23 ∧ sentence.hourAsked n := by
    cases sentence with
    | everyMinute => exact ⟨0, by decide, by decide, trivial⟩
    | everyMinutes step => exact ⟨0, by decide, by decide, trivial⟩
    | everyHours step minute => exact ⟨0, by decide, by decide, Int.dvd_zero _⟩
    | hourly minute => exact ⟨0, by decide, by decide, trivial⟩
    | daily hour minute => exact ⟨_, Int.natCast_nonneg _, Int.ofNat_le.mpr h.1, rfl⟩
    | weekly day hour minute => exact ⟨_, Int.natCast_nonneg _, Int.ofNat_le.mpr h.1, rfl⟩
  obtain ⟨d, hd, hd', hday⟩ : ∃ d : ℤ, l / 86400 < d ∧ d ≤ l / 86400 + 7 ∧
      sentence.dayAsked (Gregorian.weekday d) := by
    cases sentence with
    | weekly day hour minute =>
        refine ⟨l / 86400 + 1 + (day.number - 4 - (l / 86400 + 1)) % 7, by omega, by omega, ?_⟩
        show Gregorian.weekday _ = day.number
        have hnumber : 0 ≤ day.number ∧ day.number ≤ 6 := by cases day <;> decide
        unfold Gregorian.weekday
        omega
    | _ => exact ⟨l / 86400 + 1, by omega, by omega, trivial⟩
  have hparts : (d * 86400 + n * 3600 + m * 60) % 3600 / 60 = m ∧
      (d * 86400 + n * 3600 + m * 60) % 86400 / 3600 = n ∧
      (d * 86400 + n * 3600 + m * 60) / 86400 = d := by omega
  refine ⟨d * 86400 + n * 3600 + m * 60, by omega, by omega, by omega, ?_⟩
  unfold Sentence.Asked
  rw [hparts.1, hparts.2.1, hparts.2.2]
  exact ⟨hminute, hhour, hday⟩

/-- The loop of a schedule with a sentence stops at what is asked for. -/
theorem describe_regular (h : parseCron expression = .ok c)
    (hs : describe expression = some sentence) (ho : sentence.Restricted → 60 ∣ o) :
    Regular c o sentence.Asked where
  straight := by
    by_cases hwhole : 60 ∣ o
    · exact whole_straight hwhole
    · have hfree : ∀ i j, sentence.dayAsked i ∧ sentence.hourAsked j := by
        intro i j
        have hno := mt ho hwhole
        cases sentence with
        | everyMinute => exact ⟨trivial, trivial⟩
        | everyMinutes step => exact ⟨trivial, trivial⟩
        | everyHours step minute =>
            have hone : numberOf step = 1 := not_not.mp hno
            refine ⟨trivial, ?_⟩
            show (numberOf step : ℤ) ∣ j
            rw [hone]
            exact Int.one_dvd j
        | hourly minute => exact ⟨trivial, trivial⟩
        | daily hour minute => exact absurd trivial hno
        | weekly day hour minute => exact absurd trivial hno
      exact unrestricted_straight (fun t => (describe_matches h hs _ t).1)
        (fun t => (describe_matches h hs _ t).2.1.mpr (hfree _ 0).1)
        (fun t => (describe_matches h hs _ t).2.2.1.mpr (hfree 0 _).2)
  stops := by
    intro t
    obtain ⟨hmonth, hday, hhour, hminute, -⟩ := describe_matches h hs (Zone.constant o) t
    have hparts : localMinute (Zone.constant o) t % 3600 / 60 = (t + o) % 3600 / 60 ∧
        localMinute (Zone.constant o) t % 86400 / 3600 = (t + o) % 86400 / 3600 ∧
        localMinute (Zone.constant o) t / 86400 = (t + o) / 86400 := by
      unfold localMinute
      rw [Zone.constant_localTime]
      omega
    rw [Zone.constant_localTime] at hday hhour hminute
    rw [jump_eq_none, hmonth, hday, hhour, hminute, Sentence.Asked, hparts.1, hparts.2.1,
      hparts.2.2]
    constructor
    · rintro ⟨-, hd, hn, hm⟩
      exact ⟨hm, hn, hd⟩
    · rintro ⟨hm, hn, hd⟩
      exact ⟨rfl, hd, hn, hm⟩
  soon _ hl := (describe_matches h hs (Zone.constant o) 0).2.2.2.2.soon hl

/-- **Where every hour is read right** a sentence is true exactly if its step divides the hour or
the day.

If the step divides, the matches are evenly spread over the hour or the day, and across its end.  If
it does not, the distance at the end is another one, and no sentence that names one distance is
true. -/
theorem holds_iff_divides (h : parseCron expression = .ok c)
    (hs : describe expression = some sentence) (ho : sentence.Restricted → 60 ∣ o) :
    sentence.Holds c (Zone.constant o) ↔ sentence.Divides := by
  have hregular := describe_regular h hs ho
  have hfits := (describe_matches h hs (Zone.constant o) 0).2.2.2.2
  have hnames : sentence.Asked = (fun l => sentence.names l) →
      Names c (Zone.constant o) fun l => sentence.names l := by
    intro heq
    rw [← heq]
    exact hregular.names
  cases sentence with
  | everyMinute =>
      refine iff_of_true (hnames (funext fun l => propext ?_)) trivial
      exact iff_of_true ⟨trivial, trivial, trivial⟩ trivial
  -- the cycle is an hour, and the runs are `step` minutes apart in it
  | everyMinutes step =>
      refine (hregular.apart_iff (n := numberOf step) (p := 60) (a := 60) (b := -(o / 60 * 60))
        (Int.natCast_pos.mpr hfits) (by decide) (by decide) fun t => ?_).trans
          (Int.natCast_dvd_natCast (n := 60))
      show 60 ∣ t ∧ (numberOf step : ℤ) ∣ (t + o) / 60 * 60 % 3600 / 60 ∧ True ∧ True ↔ _
      rw [and_true, and_true]
      constructor
      · rintro ⟨ht, hdvd⟩
        refine ⟨(t + o) / 60, ?_, by omega⟩
        rw [show (t + o) / 60 * 60 % 3600 / 60 = (t + o) / 60 % 60 by omega] at hdvd
        exact hdvd
      · rintro ⟨x, hdvd, rfl⟩
        refine ⟨by omega, ?_⟩
        rw [show (60 * x + -(o / 60 * 60) + o) / 60 * 60 % 3600 / 60 = x % 60 by omega]
        exact hdvd
  -- the cycle is a day, and all runs are at the same minute of their hour
  | everyHours step minute =>
      have hm : (numberOf minute : ℤ) ≤ 59 := Int.ofNat_le.mpr hfits.2
      have hfull : ∀ t, Full o (Sentence.everyHours step minute).Asked t ↔
          ∃ x, (numberOf step : ℤ) ∣ x % 24 ∧
            t = 3600 * x + (60 * numberOf minute - o / 60 * 60) := by
        intro t
        show 60 ∣ t ∧ (t + o) / 60 * 60 % 3600 / 60 = numberOf minute ∧
          (numberOf step : ℤ) ∣ (t + o) / 60 * 60 % 86400 / 3600 ∧ True ↔ _
        rw [and_true]
        constructor
        · rintro ⟨ht, hminute, hdvd⟩
          refine ⟨(t + o) / 3600, ?_, by omega⟩
          rw [show (t + o) / 60 * 60 % 86400 / 3600 = (t + o) / 3600 % 24 by omega] at hdvd
          exact hdvd
        · rintro ⟨x, hdvd, rfl⟩
          refine ⟨by omega, by omega, ?_⟩
          rw [show (3600 * x + (60 * numberOf minute - o / 60 * 60) + o) / 60 * 60 % 86400 / 3600 =
            x % 24 by omega]
          exact hdvd
      refine (and_iff_left fun t hfires => ?_).trans ((hregular.apart_iff (n := numberOf step)
        (p := 24) (a := 3600) (Int.natCast_pos.mpr hfits.1) (by decide) (by decide) hfull).trans
          (Int.natCast_dvd_natCast (n := 24)))
      obtain ⟨x, -, rfl⟩ := (hfull t).mp ((fires_iff hregular).mp hfires)
      show (3600 * x + (60 * (numberOf minute : ℤ) - o / 60 * 60) + o) % 3600 / 60 = _
      omega
  | hourly minute =>
      refine iff_of_true (hnames (funext fun l => propext ?_)) trivial
      exact ⟨fun hasked => hasked.1, fun hm => ⟨hm, trivial, trivial⟩⟩
  | daily hour minute =>
      refine iff_of_true (hnames (funext fun l => propext ?_)) trivial
      exact ⟨fun hasked => ⟨hasked.2.1, hasked.1⟩, fun hm => ⟨hm.2, hm.1, trivial⟩⟩
  | weekly day hour minute =>
      refine iff_of_true (hnames (funext fun l => propext ?_)) trivial
      exact ⟨fun hasked => ⟨hasked.2.2, hasked.2.1, hasked.1⟩, fun hm => ⟨hm.2.2, hm.2.1, hm.1⟩⟩

/-- Some hours have no run: there is an asked hour behind one that is not, and one minute of it. -/
theorem Sentence.Fits.restricted (h : sentence.Fits) (hr : sentence.Restricted) :
    ∃ d n m : ℤ, 0 ≤ n ∧ n ≤ 23 ∧ 0 ≤ m ∧ m ≤ 59 ∧ sentence.dayAsked (Gregorian.weekday d) ∧
      sentence.hourAsked n ∧ ¬ sentence.hourAsked ((n - 1) % 24) ∧
      ∀ i, sentence.minuteAsked i ↔ i = m := by
  cases sentence with
  | everyMinute => exact hr.elim
  | everyMinutes step => exact hr.elim
  | everyHours step minute =>
      have hm : (numberOf minute : ℤ) ≤ 59 := Int.ofNat_le.mpr h.2
      have htwo : 2 ≤ numberOf step := by
        have hone : numberOf step ≠ 1 := hr
        have hpos : 1 ≤ numberOf step := h.1
        omega
      have hno : ∀ i : ℤ, 0 < i → i < numberOf step → ¬ (numberOf step : ℤ) ∣ i :=
        fun i hpos hlt hdvd => absurd (Int.le_of_dvd hpos hdvd) (not_le.mpr hlt)
      by_cases hlt : numberOf step ≤ 23
      · refine ⟨0, numberOf step, numberOf minute, by omega, by omega, by omega, hm, trivial,
          Int.dvd_refl _, ?_, fun i => Iff.rfl⟩
        rw [Int.emod_eq_of_lt (by omega) (by omega)]
        exact hno _ (by omega) (by omega)
      · exact ⟨0, 0, numberOf minute, by omega, by omega, by omega, hm, trivial,
          Int.dvd_zero _, hno 23 (by omega) (by omega), fun i => Iff.rfl⟩
  | hourly minute => exact hr.elim
  | daily hour minute =>
      have hn : (numberOf hour : ℤ) ≤ 23 := Int.ofNat_le.mpr h.1
      have hm : (numberOf minute : ℤ) ≤ 59 := Int.ofNat_le.mpr h.2
      exact ⟨0, numberOf hour, numberOf minute, by omega, hn, by omega, hm, trivial, rfl,
        show ¬ ((numberOf hour : ℤ) - 1) % 24 = numberOf hour by omega, fun i => Iff.rfl⟩
  | weekly day hour minute =>
      have hn : (numberOf hour : ℤ) ≤ 23 := Int.ofNat_le.mpr h.1
      have hm : (numberOf minute : ℤ) ≤ 59 := Int.ofNat_le.mpr h.2
      refine ⟨day.number - 4, numberOf hour, numberOf minute, by omega, hn, by omega, hm, ?_, rfl,
        show ¬ ((numberOf hour : ℤ) - 1) % 24 = numberOf hour by omega, fun i => Iff.rfl⟩
      show Gregorian.weekday _ = day.number
      have hnumber : 0 ≤ day.number ∧ day.number ≤ 6 := by cases day <;> decide
      unfold Gregorian.weekday
      omega

/-- **With seconds in the offset** a sentence is not true where some hours have no run: the first
run of an hour comes twice. -/
theorem not_holds_of_seconds (h : parseCron expression = .ok c)
    (hs : describe expression = some sentence) (hr : sentence.Restricted) (ho : ¬ 60 ∣ o) :
    ¬ sentence.Holds c (Zone.constant o) := by
  have hfits := (describe_matches h hs (Zone.constant o) 0).2.2.2.2
  obtain ⟨d, n, m, hn, hn', hm, hm', hday, hhour, hbefore, hminute⟩ := hfits.restricted hr
  have hdate : ∀ x, (Zone.constant o).date x = x.seconds - o := fun _ => rfl
  -- the minute at the hour behind one without runs comes twice
  obtain ⟨hfires, fuel, hnext⟩ : Fires c (Zone.constant o) (d * 86400 + n * 3600 - o + 60 * m) ∧
      ∃ fuel, next c (Zone.constant o) fuel ((d * 86400 + n * 3600 - o + 60 * m) * 1000000000) =
        .found (d * 86400 + n * 3600 - o + 60 * m + o % 60) := by
    refine fires_twice (by omega) (by omega) hm (by omega) (fun t hlow hhigh => ?_)
      fun t hlow hhigh => ?_
    · -- in front of the hour: the hour does not match, or not even the day
      obtain ⟨hmonth, hday', hhour', -, -⟩ := describe_matches h hs (Zone.constant o) t
      rw [Zone.constant_localTime] at hday' hhour'
      rw [show (t + o) % 86400 / 3600 = (n - 1) % 24 by omega] at hhour'
      replace hhour' := Bool.eq_false_iff.mpr (mt hhour'.mp hbefore)
      unfold jump asks
      rw [hmonth, hhour']
      cases hd : dayMatches c (Zone.constant o) t with
      | true =>
          show some ((Zone.constant o).date ((Zone.constant o).nextHour t)) = _
          rw [hdate, nextHour_seconds, Zone.constant_localTime]
          congr 1
          omega
      | false =>
          have hzero : n = 0 := by
            by_contra hne
            rw [show (t + o) / 86400 = d by omega] at hday'
            rw [hday'.mpr hday] at hd
            cases hd
          show some ((Zone.constant o).date ((Zone.constant o).nextDay t)) = _
          rw [hdate, nextDay_seconds, Zone.constant_localTime]
          congr 1
          omega
    · obtain ⟨hmonth, hday', hhour', hminute', -⟩ := describe_matches h hs (Zone.constant o) t
      rw [Zone.constant_localTime] at hday' hhour' hminute'
      rw [show (t + o) % 86400 / 3600 = n by omega] at hhour'
      rw [show (t + o) / 86400 = d by omega] at hday'
      rw [hminute] at hminute'
      unfold jump asks
      rw [hmonth, hday'.mpr hday, hhour'.mpr hhour]
      by_cases heq : (t + o) % 3600 / 60 = m
      · rw [if_pos heq, hminute'.mpr heq]
        rfl
      · rw [if_neg heq, Bool.eq_false_iff.mpr (mt hminute'.mp heq)]
        rfl
  -- a sentence that names minutes would name one local minute for two runs
  have hnames : ∀ named : ℤ → Prop, ¬ Names c (Zone.constant o) named := by
    rintro named ⟨hnamed, hunique⟩
    have hsame : localMinute (Zone.constant o)
        (d * 86400 + n * 3600 - o + 60 * m + o % 60) =
        localMinute (Zone.constant o) (d * 86400 + n * 3600 - o + 60 * m) := by
      unfold localMinute
      rw [Zone.constant_localTime, Zone.constant_localTime]
      omega
    have heq := (hunique _ (Int.dvd_mul_left _ _) (hnamed _ hfires)).unique
      ⟨⟨_, fuel, hnext⟩, hsame⟩ ⟨hfires, rfl⟩
    omega
  cases sentence with
  | everyMinute => exact hr.elim
  | everyMinutes step => exact hr.elim
  -- a sentence with a step would have the second run hours later
  | everyHours step minute =>
      rintro ⟨⟨-, hall⟩, -⟩
      obtain ⟨fuel', hnext'⟩ := hall _ hfires
      have heq := next_unique hnext hnext'
      have hpos : 1 ≤ numberOf step := hfits.1
      omega
  | hourly minute => exact hr.elim
  | daily hour minute => exact hnames fun l => (Sentence.daily hour minute).names l
  | weekly day hour minute => exact hnames fun l => (Sentence.weekly day hour minute).names l

/-- **When an administrator is shown the truth.**  Of an expression that `ParseCron` accepts and
that there is a sentence for, `describeCron` returns the sentence, in either language.  At an
offset of `o` seconds it is true of the runs exactly if the step that it shows divides the hour or
the day, and the offset is one of whole minutes or every hour has runs.

A sentence is judged by the runs of the engine that executes the schedule, and not by another
reading of the expression.  “Every 7 minutes” is said of `*/7`, which fires at minute 56 and then at
minute 0.  The whole-minute offset is asked for where the sentence names a time of day: the engine
steps through the minutes of the clock on the wall, and a clock that is shifted by seconds has its
whole minutes elsewhere. -/
theorem describeCron_holds_iff (h : parseCron expression = .ok c)
    (hs : describe expression = some sentence) (o : ℤ) :
    (∀ zh, describeCron expression zh = sentence.text zh) ∧
      (sentence.Holds c (Zone.constant o) ↔
        sentence.Divides ∧ (sentence.Restricted → 60 ∣ o)) := by
  refine ⟨fun zh => by rw [describeCron, hs], ?_⟩
  by_cases ho : sentence.Restricted → 60 ∣ o
  · rw [holds_iff_divides h hs ho]
    exact (and_iff_left ho).symm
  · have hno := Classical.not_imp.mp ho
    exact iff_of_false (not_holds_of_seconds h hs hno.1 hno.2) fun hcond => ho hcond.2

/-- `30 2 * * 7`, in Shanghai. -/
theorem describeCron_sundays :
    (∀ zh, describeCron "30 2 * * 7" zh = (Sentence.weekly .sunday ['2'] ['3', '0']).text zh) ∧
      ((Sentence.weekly .sunday ['2'] ['3', '0']).Holds
        ⟨1#64 <<< 30, 1#64 <<< 2, 0xFFFFFFFE#64, 0x1FFE#64, 1#64, false, true⟩
          (Zone.constant 28800) ↔ (Sentence.weekly .sunday ['2'] ['3', '0']).Divides ∧
        ((Sentence.weekly .sunday ['2'] ['3', '0']).Restricted → (60 : ℤ) ∣ 28800)) :=
  describeCron_holds_iff (by decide +kernel) (by decide +kernel) 28800

/-- `*/7 * * * *` is shown as every 7 minutes, and runs at 00:56 UTC and then at 01:00. -/
theorem sevens_shown : ∃ c, parseCron "*/7 * * * *" = .ok c ∧
    describe "*/7 * * * *" = some (.everyMinutes ['7']) ∧
    describeCron "*/7 * * * *" false = "Every 7 minutes" ∧
    ¬ (Sentence.everyMinutes ['7']).Holds c (Zone.constant 0) := by
  refine ⟨⟨0x102040810204081#64, 0xFFFFFF#64, 0xFFFFFFFE#64, 0x1FFE#64, 0x7F#64, false, false⟩,
    by decide +kernel, by decide +kernel, by decide +kernel, ?_⟩
  rintro ⟨-, hall⟩
  obtain ⟨fuel, hnext⟩ := hall 3360 ⟨3300000000000, 2, by decide +kernel⟩
  have hfound : next ⟨0x102040810204081#64, 0xFFFFFF#64, 0xFFFFFFFE#64, 0x1FFE#64, 0x7F#64, false,
      false⟩ (Zone.constant 0) 5 (3360 * 1000000000) = .found 3600 := by decide +kernel
  exact absurd (next_unique hnext hfound) (by decide +kernel)

end Truth

end BindPlane.Cron
