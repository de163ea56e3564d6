import Mathlib.Data.List.TakeWhile
import Mathlib.Tactic.Linarith
import Mathlib.Tactic.Positivity
import Mathlib.Tactic.Ring
import BindPlane.Devices.Cron

/-!
# The fields of a cron expression

**What a field denotes.**  `Part` reads one comma-separated part as a range and a step, and
`Denotes` says which values the part stands for.

**What the loop sets.**  `v += step` is done in 64 bits.  A step `2 ^ 63 - k` behaves as a step of
`-2 * k` that is taken in two rounds, as long as the value is at least `k`: the loop goes down from
the start of the part and sets every other bit it comes by that is not negative (`Wrapped`).  So a
field is right exactly if each of these values is denoted anyway (`parseCronField_exact_iff`); for
steps below `2 ^ 63 - 31` there is none.

**Two readings.**  The specification of a field is arithmetic: a value is denoted if it can be
reached from the start of a part by its step within the bounds.  The code has a loop with machine
integers, a limit of its own and a bit set of 64 bits.  The two are compared part by part, and a
field is the union of its parts on both sides.
-/

namespace BindPlane

/-! ## What a field denotes -/

/-- The bounds of `ParseCron`. -/
def CronField.bounds : CronField → ℤ × ℤ
  | .minute => (0, 59)
  | .hour => (0, 23)
  | .day => (1, 31)
  | .month => (1, 12)
  | .weekday => (0, 7)

namespace Cron

/-- **A range**: `*`, `a-b`, `a`, and `a` before a step.

The reading is a relation, since the parser is compared with it in both directions: whatever it
accepts is such a range, and it accepts every one. -/
inductive Range (low high : ℤ) : List Char → Bool → ℤ → ℤ → Prop
  | star (stepped : Bool) : Range low high ['*'] stepped low high
  | interval (a b : List Char) (start stop : ℤ) (stepped : Bool) (hcut : '-' ∉ a)
      (hstart : goAtoi a = some start) (hstop : goAtoi b = some stop) (hle : start ≤ stop) :
      Range low high (a ++ '-' :: b) stepped start stop
  | value (a : List Char) (n : ℤ) (hcut : '-' ∉ a) (hn : goAtoi a = some n) :
      Range low high a false n n
  | rest (a : List Char) (n : ℤ) (hcut : '-' ∉ a) (hn : goAtoi a = some n) :
      Range low high a true n high

/-- **A part**: a range, and a step or none.

The step is 1 where none is written, and a number before a step stands for everything from there to
the end of the field. -/
inductive Part (low high : ℤ) : List Char → ℤ → ℤ → ℤ → Prop
  | plain (text : List Char) (start stop : ℤ) (hcut : '/' ∉ text)
      (hrange : Range low high text false start stop) : Part low high text start stop 1
  | stepped (text after : List Char) (start stop step : ℤ) (hcut : '/' ∉ text)
      (hstep : goAtoi after = some step) (hpos : 1 ≤ step)
      (hrange : Range low high text true start stop) :
      Part low high (text ++ '/' :: after) start stop step

/-- **What a part denotes**: the values from its start to its end by its step, where these are
within the bounds. -/
def Denotes (low high : ℤ) (part : List Char) (v : ℤ) : Prop :=
  ∃ start stop step, Part low high part start stop step ∧ low ≤ start ∧ stop ≤ high ∧
    ∃ k : ℕ, v = start + k * step ∧ v ≤ stop

/-- The values that the loop over a part comes by once its step has wrapped around. -/
def Wrapped (low high : ℤ) (part : List Char) (v : ℤ) : Prop :=
  ∃ start stop step, Part low high part start stop step ∧ start ≤ stop ∧ 0 ≤ v ∧
    ∃ j : ℕ, 1 ≤ j ∧ v = start - 2 * j * (2 ^ 63 - step)

/-- A part is accepted: it can be read, and its ends are within the bounds. -/
def Accepted (low high : ℤ) (part : List Char) : Prop :=
  ∃ start stop step, Part low high part start stop step ∧ low ≤ start ∧ stop ≤ high

/-- A field is right: it is refused, or its set is what its parts denote. -/
def Exact (field : CronField) (text : List Char) : Prop :=
  ∀ set, parseCronField field field.bounds.1 field.bounds.2 text = .ok set →
    ∀ v : ℤ, 0 ≤ v ∧ set.getLsbD v.toNat = true ↔
      ∃ part ∈ text.splitOn ',', Denotes field.bounds.1 field.bounds.2 part v

/-! ## Reading a part -/

section Reading

variable {low high start stop step : ℤ} {part : List Char} {f : CronField}

theorem goCut_eq_none {sep : Char} {s : List Char} : goCut sep s = none ↔ sep ∉ s := by
  unfold goCut
  split
  · next h => simp [h]
  · next h => simp [h]

theorem goCut_append {sep : Char} {a b : List Char} (h : sep ∉ a) :
    goCut sep (a ++ sep :: b) = some (a, b) := by
  have hne : ∀ c ∈ a, decide (c ≠ sep) = true := by
    intro c hc
    rw [decide_eq_true_eq]
    rintro rfl
    exact h hc
  rw [goCut, if_pos (by simp), List.takeWhile_append_of_pos hne, List.dropWhile_append_of_pos hne]
  simp

theorem goCut_eq_some {sep : Char} {s a b : List Char} (h : goCut sep s = some (a, b)) :
    sep ∉ a ∧ s = a ++ sep :: b := by
  unfold goCut at h
  split at h
  · next hmem =>
      obtain ⟨rfl, rfl⟩ := Prod.mk.inj (Option.some.inj h)
      refine ⟨fun hm => ?_, ?_⟩
      · have hne := List.mem_takeWhile_imp hm
        simp at hne
      · obtain ⟨c, rest, hrest⟩ : ∃ c rest, s.dropWhile (· ≠ sep) = c :: rest := by
          cases hdrop : s.dropWhile (· ≠ sep) with
          | nil =>
              have hall := List.dropWhile_eq_nil_iff.mp hdrop sep hmem
              simp at hall
          | cons c rest => exact ⟨c, rest, rfl⟩
        have hc : c = sep := by
          have hhead := List.head?_dropWhile_not (· ≠ sep) s
          rw [hrest] at hhead
          simpa using hhead
        rw [hrest, List.tail_cons, ← hc]
        conv_lhs => rw [← List.takeWhile_append_dropWhile (p := (· ≠ sep)) (l := s)]
        rw [hrest, hc]
  · cases h

/-- `cronRange` reads a range, and every range. -/
theorem cronRange_eq_ok {rangePart : List Char} {stepped : Bool} :
    cronRange f low high part rangePart stepped = .ok (start, stop) ↔
      Range low high rangePart stepped start stop := by
  unfold cronRange
  constructor
  · intro h
    split at h
    · next hstar =>
        cases h
        rw [hstar]
        exact .star stepped
    · split at h
      · next a b hcut =>
          obtain ⟨hno, rfl⟩ := goCut_eq_some hcut
          split at h
          · next x y hx hy =>
              split at h
              · cases h
              · next hle =>
                  cases h
                  exact .interval a b start stop stepped hno hx hy (not_lt.mp hle)
          · cases h
      · next hcut =>
          split at h
          · next n hn =>
              cases h
              cases stepped with
              | true => exact .rest rangePart start (goCut_eq_none.mp hcut) hn
              | false => exact .value rangePart start (goCut_eq_none.mp hcut) hn
          · cases h
  · intro h
    -- a number is not a star
    have hstar : ∀ {n}, goAtoi rangePart = some n → rangePart ≠ ['*'] := by
      rintro n hn rfl
      cases hn
    cases h with
    | star stepped => rw [if_pos rfl]
    | interval a b start stop stepped hno hx hy hle =>
        rw [if_neg (by cases a <;> simp), goCut_append hno]
        simp only [hx, hy]
        rw [if_neg (not_lt.mpr hle)]
    | value _ n hno hn =>
        rw [if_neg (hstar hn), goCut_eq_none.mpr hno]
        simp only [hn]
        rfl
    | rest _ n hno hn =>
        rw [if_neg (hstar hn), goCut_eq_none.mpr hno]
        simp only [hn]
        rfl

/-- `cronStep` and `cronRange` read a part, and every part. -/
theorem part_iff : Part low high part start stop step ↔
    ∃ rangePart stepped, cronStep f part = .ok (rangePart, step, stepped) ∧
      cronRange f low high part rangePart stepped = .ok (start, stop) := by
  constructor
  · intro h
    cases h with
    | plain _ _ _ hcut hrange =>
        refine ⟨part, false, ?_, cronRange_eq_ok.mpr hrange⟩
        rw [cronStep, goCut_eq_none.mpr hcut]
    | stepped text after _ _ _ hcut hstep hpos hrange =>
        refine ⟨text, true, ?_, cronRange_eq_ok.mpr hrange⟩
        rw [cronStep, goCut_append hcut]
        simp only [hstep]
        rw [if_neg (by omega)]
  · rintro ⟨rangePart, stepped, hstep, hrange⟩
    replace hrange := cronRange_eq_ok.mp hrange
    unfold cronStep at hstep
    split at hstep
    · next hcut =>
        cases hstep
        exact .plain part start stop (goCut_eq_none.mp hcut) hrange
    · next before after hcut =>
        obtain ⟨hno, rfl⟩ := goCut_eq_some hcut
        split at hstep
        · next n hn =>
            split at hstep
            · cases hstep
            · next hpos =>
                cases hstep
                exact .stepped rangePart after start stop step hno hn (by omega) hrange
        · cases hstep

/-- A part is read in one way. -/
theorem Part.unique {start' stop' step' : ℤ} (h : Part low high part start stop step)
    (h' : Part low high part start' stop' step') : start' = start ∧ stop' = stop ∧ step' = step := by
  obtain ⟨rangePart, stepped, hstep, hrange⟩ := (part_iff (f := .minute)).mp h
  obtain ⟨rangePart', stepped', hstep', hrange'⟩ := (part_iff (f := .minute)).mp h'
  rw [hstep] at hstep'
  cases hstep'
  rw [hrange] at hrange'
  cases hrange'
  exact ⟨rfl, rfl, rfl⟩

/-- A step is positive and fits a machine integer. -/
theorem Part.step_bounds (h : Part low high part start stop step) : 1 ≤ step ∧ step < 2 ^ 63 := by
  cases h with
  | plain => omega
  | stepped text after _ _ _ hcut hstep hpos hrange =>
      refine ⟨hpos, ?_⟩
      unfold goAtoi at hstep
      have hfits := (Option.filter_eq_some_iff.mp hstep).2
      rw [Bool.and_eq_true, decide_eq_true_eq, decide_eq_true_eq] at hfits
      exact hfits.2

end Reading

/-! ## The loop over a part -/

section Loop

variable {start stop step v : ℤ} {set : BitVec 64} {n : ℕ}

/-- One bit is set. -/
theorem getLsbD_mark {i : ℕ} (hi : i < 64) (set : BitVec 64) (j : ℕ) :
    (set ||| (1#64 <<< i)).getLsbD j = true ↔ set.getLsbD j = true ∨ j = i := by
  rw [BitVec.getLsbD_or, Bool.or_eq_true, BitVec.getLsbD_shiftLeft]
  refine or_congr_right ?_
  simp only [Bool.and_eq_true, decide_eq_true_eq, Bool.not_eq_true', decide_eq_false_iff_not,
    BitVec.getLsbD_one]
  omega

/-- One round within the bounds. -/
theorem setBits_round (hlow : 0 ≤ v) (hhigh : v < 64) (hle : v ≤ stop) :
    setBits stop step (n + 1) v set =
      setBits stop step n (wrapInt (v + step)) (set ||| (1#64 <<< v.toNat)) := by
  rw [setBits, if_pos hle, if_pos ⟨hlow, hhigh⟩]

/-- A round below the bounds. -/
theorem setBits_below (hneg : v < 0) (hle : v ≤ stop) :
    setBits stop step (n + 1) v set = setBits stop step n (wrapInt (v + step)) set := by
  rw [setBits, if_pos hle, if_neg (by omega)]

/-- The loop ends behind the end of the range. -/
theorem setBits_over (hlt : stop < v) : setBits stop step n v set = set := by
  cases n with
  | zero => rfl
  | succ n => rw [setBits, if_neg (not_le.mpr hlt)]

theorem wrapInt_of_fits {m : ℤ} (hlow : -2 ^ 63 ≤ m) (hhigh : m < 2 ^ 63) : wrapInt m = m := by
  unfold wrapInt
  rw [Int.bmod_eq_of_le (by omega) (by omega)]

theorem wrapInt_of_over {m : ℤ} (hlow : 2 ^ 63 ≤ m) (hhigh : m < 2 ^ 64) :
    wrapInt m = m - 2 ^ 64 := by
  have hfits := wrapInt_of_fits (m := m - 2 ^ 64) (by omega) (by omega)
  unfold wrapInt at *
  rw [← hfits]
  exact (Int.sub_bmod_right m (2 ^ 64)).symm

/-- A step that cannot wrap around. -/
theorem setBits_straight (hpos : 1 ≤ step) (hstep : step ≤ 2 ^ 63 - 64) (hstop : stop < 64)
    (hlow : 0 ≤ v) (hn : stop < v + n) (i : ℕ) :
    (setBits stop step n v set).getLsbD i = true ↔
      set.getLsbD i = true ∨ ∃ k : ℕ, (i : ℤ) = v + k * step ∧ (i : ℤ) ≤ stop := by
  have hnone : ∀ {v : ℤ}, stop < v → ¬ ∃ k : ℕ, (i : ℤ) = v + k * step ∧ (i : ℤ) ≤ stop := by
    rintro v hlt ⟨k, hk, hle⟩
    have hmul : 0 ≤ (k : ℤ) * step := by positivity
    omega
  induction n generalizing v set with
  | zero =>
      have hlt : stop < v := by simpa using hn
      rw [setBits_over hlt]
      simp only [hnone hlt, or_false]
  | succ n ih =>
      by_cases hle : v ≤ stop
      · rw [setBits_round hlow (by omega) hle, wrapInt_of_fits (by omega) (by omega)]
        refine (ih (by omega) (by push_cast at hn; omega)).trans ?_
        rw [getLsbD_mark (by omega), or_assoc]
        refine or_congr_right ?_
        constructor
        · rintro (rfl | ⟨k, hk, hi⟩)
          · exact ⟨0, by omega, by omega⟩
          · exact ⟨k + 1, by rw [hk]; push_cast; ring, hi⟩
        · rintro ⟨k, hk, hi⟩
          cases k with
          | zero => exact Or.inl (by push_cast at hk; omega)
          | succ k => exact Or.inr ⟨k, by rw [hk]; push_cast; ring, hi⟩
      · rw [setBits_over (not_le.mp hle)]
        simp only [hnone (not_le.mp hle), or_false]

/-- **A step that wraps around.**  Two rounds lead from `v` to `v - 2 * (2 ^ 63 - step)`.

A step near `2 ^ 63` takes the value past the greatest integer, and the sum becomes negative; one
more round brings it back to a little below where it was.  So the loop walks down by small steps,
and ends when it has left the range for good. -/
theorem setBits_wrapping (hstep : 2 ^ 63 - 64 < step) (hmax : step < 2 ^ 63) (hstop : stop < 64)
    (hlow : 0 ≤ v) (hle : v ≤ stop) (hn : 2 * v + 3 ≤ n) (i : ℕ) :
    (setBits stop step n v set).getLsbD i = true ↔
      set.getLsbD i = true ∨ ∃ j : ℕ, (i : ℤ) = v - 2 * j * (2 ^ 63 - step) := by
  -- the induction is on the value, which goes down
  obtain ⟨m, hm⟩ : ∃ m : ℕ, v ≤ m := ⟨v.toNat, by omega⟩
  induction m using Nat.strong_induction_on generalizing v set n with
  | _ m ih =>
      obtain ⟨n, rfl⟩ : ∃ n', n = n' + 1 := ⟨n - 1, by omega⟩
      rw [setBits_round hlow (by omega) hle]
      have hhead : ∀ {p : Prop}, (∀ j : ℕ, 1 ≤ j → (i : ℤ) = v - 2 * j * (2 ^ 63 - step) → p) →
          (p → ∃ j : ℕ, (i : ℤ) = v - 2 * j * (2 ^ 63 - step)) →
          ((i = v.toNat ∨ p) ↔ ∃ j : ℕ, (i : ℤ) = v - 2 * j * (2 ^ 63 - step)) := by
        intro p hp hp'
        constructor
        · rintro (rfl | h)
          · exact ⟨0, by push_cast; omega⟩
          · exact hp' h
        · rintro ⟨j, hj⟩
          cases j with
          | zero => exact Or.inl (by push_cast at hj; omega)
          | succ j => exact Or.inr (hp (j + 1) (Nat.succ_pos j) hj)
      have hlast : ∀ {j : ℕ}, 1 ≤ j → v < 2 * (2 ^ 63 - step) →
          (i : ℤ) ≠ v - 2 * j * (2 ^ 63 - step) := by
        intro j hj hlt hi
        have hmul : (2 ^ 63 - step) ≤ (j : ℤ) * (2 ^ 63 - step) :=
          le_mul_of_one_le_left (by omega) (by exact_mod_cast hj)
        have hi' : (i : ℤ) = v - 2 * ((j : ℤ) * (2 ^ 63 - step)) := by rw [hi]; ring
        omega
      by_cases hk : v < 2 ^ 63 - step
      · -- the next value is past the end
        rw [wrapInt_of_fits (by omega) (by omega), setBits_over (by omega),
          getLsbD_mark (by omega)]
        refine or_congr_right ?_
        rw [← or_false (i = v.toNat)]
        exact hhead (fun j hj hi => hlast hj (by omega) hi) False.elim
      · obtain ⟨n, rfl⟩ : ∃ n', n = n' + 1 := ⟨n - 1, by push_cast at hn; omega⟩
        rw [wrapInt_of_over (by omega) (by omega), setBits_below (by omega) (by omega),
          wrapInt_of_fits (by omega) (by omega)]
        have hnext : v + step - 2 ^ 64 + step = v - 2 * (2 ^ 63 - step) := by ring
        rw [hnext]
        by_cases hneg : v < 2 * (2 ^ 63 - step)
        · obtain ⟨n, rfl⟩ : ∃ n', n = n' + 1 := ⟨n - 1, by push_cast at hn; omega⟩
          rw [setBits_below (by omega) (by omega), wrapInt_of_fits (by omega) (by omega),
            setBits_over (by omega), getLsbD_mark (by omega)]
          refine or_congr_right ?_
          rw [← or_false (i = v.toNat)]
          exact hhead (fun j hj hi => hlast hj hneg hi) False.elim
        · rw [ih (v - 2 * (2 ^ 63 - step)).toNat (by omega) (by omega) (by omega)
            (by push_cast at hn ⊢; omega) (by omega), getLsbD_mark (by omega), or_assoc]
          refine or_congr_right (hhead (fun j hj hi => ?_) ?_)
          · obtain ⟨j, rfl⟩ : ∃ j', j = j' + 1 := ⟨j - 1, by omega⟩
            exact ⟨j, by rw [hi]; push_cast; ring⟩
          · rintro ⟨j, hj⟩
            exact ⟨j + 1, by rw [hj]; push_cast; ring⟩

end Loop

/-! ## The field -/

section Field

variable {low high start stop step : ℤ} {f : CronField} {text part : List Char}

/-- One turn of the fold of `parseCronField`. -/
def addPart (f : CronField) (low high : ℤ) (set : BitVec 64) (part : List Char) :
    Except CronError (BitVec 64) := do
  let (rangePart, step, stepped) ← cronStep f part
  let (start, stop) ← cronRange f low high part rangePart stepped
  if start < low ∨ stop > high then
    .error (.outside f (String.ofList part) low high)
  else .ok (setBits stop step 256 start set)

theorem parseCronField_eq : parseCronField f low high text =
    (text.splitOn ',').foldlM (addPart f low high) 0#64 := rfl

/-- A part is added where it can be read, within the bounds. -/
theorem addPart_eq_ok {set set' : BitVec 64} :
    addPart f low high set part = .ok set' ↔
      ∃ start stop step, Part low high part start stop step ∧ low ≤ start ∧ stop ≤ high ∧
        set' = setBits stop step 256 start set := by
  unfold addPart
  constructor
  · intro h
    cases hstep : cronStep f part with
    | error e => rw [hstep] at h; cases h
    | ok x =>
        obtain ⟨rangePart, step, stepped⟩ := x
        rw [hstep] at h
        cases hrange : cronRange f low high part rangePart stepped with
        | error e =>
            simp only [bind, Except.bind, hrange] at h
            cases h
        | ok y =>
            obtain ⟨start, stop⟩ := y
            simp only [bind, Except.bind, hrange] at h
            split at h
            · cases h
            · next hin =>
                cases h
                rw [not_or, not_lt, not_lt] at hin
                exact ⟨start, stop, step, part_iff.mpr ⟨rangePart, stepped, hstep, hrange⟩,
                  hin.1, hin.2, rfl⟩
  · rintro ⟨start, stop, step, hpart, hlow, hhigh, rfl⟩
    obtain ⟨rangePart, stepped, hstep, hrange⟩ := (part_iff (f := f)).mp hpart
    simp only [hstep, bind, Except.bind, hrange]
    rw [if_neg (by omega)]

/-- **What a part adds.** -/
theorem addPart_getLsbD (hlow : 0 ≤ low) (hhigh : high < 64) {set set' : BitVec 64}
    (h : addPart f low high set part = .ok set') (i : ℕ) :
    set'.getLsbD i = true ↔
      set.getLsbD i = true ∨ Denotes low high part i ∨ Wrapped low high part i := by
  obtain ⟨start, stop, step, hpart, hstart, hstop, rfl⟩ := addPart_eq_ok.mp h
  obtain ⟨hpos, hmax⟩ := hpart.step_bounds
  -- the part has one reading, so both sides speak of its bounds and its step
  have hdenotes : Denotes low high part i ↔ ∃ k : ℕ, (i : ℤ) = start + k * step ∧ (i : ℤ) ≤ stop := by
    constructor
    · rintro ⟨start', stop', step', hpart', -, -, hk⟩
      obtain ⟨rfl, rfl, rfl⟩ := hpart.unique hpart'
      exact hk
    · exact fun hk => ⟨start, stop, step, hpart, hstart, hstop, hk⟩
  have hwrapped : Wrapped low high part i ↔
      start ≤ stop ∧ ∃ j : ℕ, 1 ≤ j ∧ (i : ℤ) = start - 2 * j * (2 ^ 63 - step) := by
    constructor
    · rintro ⟨start', stop', step', hpart', hle, -, hj⟩
      obtain ⟨rfl, rfl, rfl⟩ := hpart.unique hpart'
      exact ⟨hle, hj⟩
    · exact fun ⟨hle, hj⟩ => ⟨start, stop, step, hpart, hle, Int.natCast_nonneg i, hj⟩
  rw [hdenotes, hwrapped]
  by_cases hle : start ≤ stop
  · -- a step that stays in range does not wrap, and every wrapped value is negative
    by_cases hstep : step ≤ 2 ^ 63 - 64
    · rw [setBits_straight hpos hstep (by omega) (by omega) (by push_cast; omega)]
      refine or_congr_right (or_iff_left ?_).symm
      rintro ⟨-, j, hj, hi⟩
      have hmul : (1 : ℤ) * (2 ^ 63 - step) ≤ j * (2 ^ 63 - step) :=
        mul_le_mul_of_nonneg_right (by exact_mod_cast hj) (by omega)
      have hi' : (i : ℤ) = start - 2 * ((j : ℤ) * (2 ^ 63 - step)) := by rw [hi]; ring
      omega
    · -- a step near the largest integer: the sum wraps, and the bits of negative values come
      rw [setBits_wrapping (by omega) hmax (by omega) (by omega) hle (by push_cast; omega)]
      refine or_congr_right ⟨?_, ?_⟩
      · rintro ⟨j, hj⟩
        rcases Nat.eq_zero_or_pos j with rfl | hpos
        · exact Or.inl ⟨0, by push_cast at hj ⊢; omega, by push_cast at hj; omega⟩
        · exact Or.inr ⟨hle, j, hpos, hj⟩
      · rintro (⟨k, hk, hi⟩ | ⟨-, j, -, hj⟩)
        · refine ⟨0, ?_⟩
          rcases Nat.eq_zero_or_pos k with rfl | hpos
          · push_cast at hk ⊢
            omega
          · have hmul : (1 : ℤ) * step ≤ k * step :=
              mul_le_mul_of_nonneg_right (by exact_mod_cast hpos) (by omega)
            omega
        · exact ⟨j, hj⟩
  · -- an empty range adds nothing
    rw [setBits_over (not_le.mp hle)]
    refine (or_iff_left ?_).symm
    rintro (⟨k, hk, hi⟩ | ⟨hle', -⟩)
    · have hmul : 0 ≤ (k : ℤ) * step := by positivity
      omega
    · exact hle hle'

/-- **What a field sets**, and when it is refused. -/
theorem parseCronField_getLsbD (hlow : 0 ≤ low) (hhigh : high < 64) {set : BitVec 64}
    (h : parseCronField f low high text = .ok set) :
    (∀ part ∈ text.splitOn ',', Accepted low high part) ∧ ∀ i : ℕ, set.getLsbD i = true ↔
      ∃ part ∈ text.splitOn ',', Denotes low high part i ∨ Wrapped low high part i := by
  have hfold : ∀ (parts : List (List Char)) (set₀ : BitVec 64),
      parts.foldlM (addPart f low high) set₀ = .ok set →
      (∀ part ∈ parts, Accepted low high part) ∧ ∀ i : ℕ, set.getLsbD i = true ↔
        set₀.getLsbD i = true ∨
          ∃ part ∈ parts, Denotes low high part i ∨ Wrapped low high part i := by
    intro parts
    induction parts with
    | nil =>
        rintro set₀ ⟨⟩
        exact ⟨nofun, fun i => by simp⟩
    | cons part parts ih =>
        intro set₀ h
        rw [List.foldlM_cons] at h
        cases hadd : addPart f low high set₀ part with
        | error e => rw [hadd] at h; cases h
        | ok set₁ =>
            rw [hadd] at h
            obtain ⟨haccepted, hbits⟩ := ih set₁ h
            refine ⟨fun p hp => ?_, fun i => ?_⟩
            · rcases List.mem_cons.mp hp with rfl | hp
              · obtain ⟨start, stop, step, hpart, hstart, hstop, -⟩ := addPart_eq_ok.mp hadd
                exact ⟨start, stop, step, hpart, hstart, hstop⟩
              · exact haccepted p hp
            · rw [hbits, addPart_getLsbD hlow hhigh hadd, List.exists_mem_cons_iff, or_assoc]
  obtain ⟨haccepted, hbits⟩ := hfold _ _ h
  refine ⟨haccepted, fun i => (hbits i).trans ?_⟩
  rw [BitVec.getLsbD_zero]
  exact or_iff_right Bool.false_ne_true

/-- A field whose parts are all accepted is. -/
theorem parseCronField_ok (h : ∀ part ∈ text.splitOn ',', Accepted low high part) :
    ∃ set, parseCronField f low high text = .ok set := by
  rw [parseCronField_eq]
  generalize 0#64 = set₀
  revert h
  generalize text.splitOn ',' = parts
  intro h
  induction parts generalizing set₀ with
  | nil => exact ⟨set₀, rfl⟩
  | cons part parts ih =>
      obtain ⟨start, stop, step, hpart, hstart, hstop⟩ := h part List.mem_cons_self
      rw [List.foldlM_cons, addPart_eq_ok.mpr ⟨start, stop, step, hpart, hstart, hstop, rfl⟩]
      exact ih _ (fun p hp => h p (List.mem_cons_of_mem _ hp))

theorem bounds_fit (f : CronField) :
    0 ≤ f.bounds.1 ∧ f.bounds.2 < 64 := by
  cases f <;> decide

/-- **When a field is right**: if it is accepted, then the values that wrapped steps come by are
denoted anyway.

The bits that the loop sets are the denoted values, and those that it comes by when the counter has
wrapped around 64 bits (`Wrapped`).  The latter happens for steps close below `2 ^ 63` only, which
the parser accepts.  `Wrapped` is arithmetic on the start, the end and the step of a part, and does
not run the loop. -/
theorem parseCronField_exact_iff (f : CronField) (text : List Char) :
    Exact f text ↔
      ((∀ part ∈ text.splitOn ',', Accepted f.bounds.1 f.bounds.2 part) →
        ∀ part ∈ text.splitOn ',', ∀ v, Wrapped f.bounds.1 f.bounds.2 part v →
          ∃ part' ∈ text.splitOn ',', Denotes f.bounds.1 f.bounds.2 part' v) := by
  obtain ⟨hlow, hhigh⟩ := bounds_fit f
  constructor
  · intro hexact haccepted part hpart v hv
    obtain ⟨set, hset⟩ := parseCronField_ok (f := f) haccepted
    have hv₀ : 0 ≤ v := by
      obtain ⟨_, _, _, _, _, hv₀, _⟩ := hv
      exact hv₀
    refine (hexact set hset v).mp ⟨hv₀, ?_⟩
    refine ((parseCronField_getLsbD hlow hhigh hset).2 v.toNat).mpr ⟨part, hpart, Or.inr ?_⟩
    rw [Int.toNat_of_nonneg hv₀]
    exact hv
  · intro hcond set hset v
    obtain ⟨haccepted, hbits⟩ := parseCronField_getLsbD hlow hhigh hset
    constructor
    · rintro ⟨hv₀, hbit⟩
      obtain ⟨part, hpart, hv⟩ := (hbits v.toNat).mp hbit
      rw [Int.toNat_of_nonneg hv₀] at hv
      rcases hv with hv | hv
      · exact ⟨part, hpart, hv⟩
      · exact hcond haccepted part hpart v hv
    · rintro ⟨part, hpart, hv⟩
      have hv₀ : 0 ≤ v := by
        obtain ⟨start, stop, step, hread, hstart, -, k, rfl, -⟩ := hv
        have hmul : 0 ≤ (k : ℤ) * step :=
          mul_nonneg (Int.natCast_nonneg k) (by linarith [hread.step_bounds.1])
        omega
      refine ⟨hv₀, (hbits v.toNat).mpr ⟨part, hpart, Or.inl ?_⟩⟩
      rw [Int.toNat_of_nonneg hv₀]
      exact hv

/-- `5/9223372036854775807`, a step of `2 ^ 63 - 1`, sets the bits 3 and 1, which are below its
start. -/
theorem wrapped_step : parseCronField .minute 0 59 "5/9223372036854775807".toList =
      .ok (1#64 <<< 5 ||| 1#64 <<< 3 ||| 1#64 <<< 1) ∧
    ¬ Exact .minute "5/9223372036854775807".toList := by
  have hparse : parseCronField .minute 0 59 "5/9223372036854775807".toList =
      .ok (1#64 <<< 5 ||| 1#64 <<< 3 ||| 1#64 <<< 1) := by decide +kernel
  refine ⟨hparse, fun hexact => ?_⟩
  obtain ⟨part, hpart, start, stop, step, hread, hstart, hstop, k, hk, hle⟩ :=
    (hexact _ hparse 3).mp ⟨by decide, by decide⟩
  have hsplit : "5/9223372036854775807".toList.splitOn ',' = ["5/9223372036854775807".toList] := by
    decide +kernel
  rw [hsplit, List.mem_singleton] at hpart
  subst hpart
  have hread' : Part 0 59 "5/9223372036854775807".toList 5 59 9223372036854775807 :=
    (part_iff (f := .minute)).mpr ⟨['5'], true, by decide +kernel, by decide +kernel⟩
  obtain ⟨rfl, rfl, rfl⟩ := hread'.unique hread
  omega

end Field

end Cron

end BindPlane
