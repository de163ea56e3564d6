import BindPlane.Limiter.Bucket
import Mathlib.Tactic.SplitIfs

/-!
# The limiter in 64 bits

The arithmetic of `BindPlane.Limiter.Bucket` as the server does it: an `int` and a
`time.Duration` are an `Int64`, whose sums and products wrap.  An instant stays a number of
nanoseconds, and the difference of two saturates.

**Exactness.**  Every function agrees with the one over `ℤ`: `validateRateLimitSettings_toInt`
for all arguments, the others for settings that were accepted.  The bound that makes it so is
`capacity < maxDuration / refill`, which the configuration asks for; `settings_exact` collects
what follows from it.

**Two models.**  The other modules of the limiter reason over the integers, where the laws of
arithmetic hold.  That they speak of the server is what this module is for: on every setting that
the configuration accepts the two computations agree, and an overflow is excluded by the bound and
not by luck.

**Source.**  What is modelled here is in `internal/auth/adapter/postgres/limiter.go` and
`internal/config/config.go`.
-/

namespace BindPlane.Limiter.Machine

/-! ## Sums, products and quotients within the range -/

section Range

variable {a b : Int64}

theorem bmod_eq {n : ℤ} (hlow : -2 ^ 63 ≤ n) (hhigh : n < 2 ^ 63) : n.bmod (2 ^ 64) = n :=
  Int.bmod_eq_of_le (by omega) (by omega)

theorem toInt_add_eq (hlow : -2 ^ 63 ≤ a.toInt + b.toInt) (hhigh : a.toInt + b.toInt < 2 ^ 63) :
    (a + b).toInt = a.toInt + b.toInt := by
  rw [Int64.toInt_add]
  exact bmod_eq hlow hhigh

theorem toInt_mul_eq (hlow : -2 ^ 63 ≤ a.toInt * b.toInt) (hhigh : a.toInt * b.toInt < 2 ^ 63) :
    (a * b).toInt = a.toInt * b.toInt := by
  rw [Int64.toInt_mul]
  exact bmod_eq hlow hhigh

/-- Go's quotient is truncated; of a number that is not negative it is the floor. -/
theorem toInt_div_eq (ha : 0 ≤ a.toInt) (hb : 0 < b.toInt) :
    (a / b).toInt = a.toInt / b.toInt := by
  have hquotient : a.toInt.tdiv b.toInt = a.toInt / b.toInt := Int.tdiv_eq_ediv_of_nonneg ha
  have hle : a.toInt / b.toInt ≤ a.toInt := Int.ediv_le_self _ ha
  have hnonneg : 0 ≤ a.toInt / b.toInt := Int.ediv_nonneg ha hb.le
  have hlt := a.toInt_lt
  rw [Int64.toInt_div, hquotient]
  exact bmod_eq (by omega) (by omega)

theorem toInt_mod_eq (ha : 0 ≤ a.toInt) : (a % b).toInt = a.toInt % b.toInt := by
  rw [Int64.toInt_mod, Int.tmod_eq_emod_of_nonneg ha]

end Range

/-! ## The functions -/

/-- `time.Duration(1<<63 - 1)`. -/
def maxDuration : Int64 := Int64.maxValue

/-- `time.Millisecond`. -/
def millisecond : Int64 := 1000000

def second : Int64 := 1000000000

def durationMillis (value : Int64) : Int64 :=
  if value ≤ 0 then 0
  else
    let millis := value / millisecond + if value % millisecond ≠ 0 then 1 else 0
    if millis = 0 then 1 else millis

def bucketTTL (capacity refill : Int64) : Int64 :=
  if capacity ≤ 0 ∨ refill ≤ 0 then second
  else if maxDuration / refill ≤ capacity then maxDuration
  else (capacity + 1) * refill

def validateRateLimitSettings (capacity refill : Int64) : Bool :=
  if capacity ≤ 0 ∨ refill < millisecond then false
  else if maxDuration / refill ≤ capacity then false
  else
    let millis := refill / millisecond + if refill % millisecond ≠ 0 then 1 else 0
    !(millis ≤ 0 ∨ maxDuration / millis ≤ capacity)

/-- A bucket that a request asks for. -/
structure RateLimitSpec where
  kind : String
  digest : List UInt8
  capacity : Int64
  refill : Int64

/-- `sha256.Size`. -/
def digestSize : ℕ := 32

/-- One round of the loop of `validateRateLimitSpecs`. -/
def RateLimitSpec.valid (spec : RateLimitSpec) : Bool :=
  if spec.kind = "" ∨ spec.digest.length ≠ digestSize ∨ spec.capacity ≤ 0 ∨ spec.refill ≤ 0 then
    false
  else !(maxDuration / spec.refill ≤ spec.capacity)

def validateRateLimitSpecs (specs : List RateLimitSpec) : Bool :=
  !specs.isEmpty && specs.all RateLimitSpec.valid

/-- `now.Sub(last)`. -/
def sub (now last : ℤ) : Int64 :=
  if 2 ^ 63 - 1 < now - last then Int64.maxValue
  else if now - last < -2 ^ 63 then Int64.minValue
  else Int64.ofInt (now - last)

/-- A bucket as a request holds it. -/
structure Bucket where
  tokens : Int64
  lastRefilled : ℤ

/-- The bucket over unbounded numbers. -/
def Bucket.toInt (b : Bucket) : Limiter.Bucket := ⟨b.tokens.toInt, b.lastRefilled⟩

/-- The tokens that a lowered capacity leaves. -/
def clip (tokens capacity : Int64) : Int64 := if capacity < tokens then capacity else tokens

/-- The intervals that have passed. -/
def additions (last now : ℤ) (interval : Int64) : Int64 := sub now last / interval

def refillRateLimitBucket (b : Bucket) (capacity interval : Int64) (now : ℤ) : Bucket :=
  let tokens := clip b.tokens capacity
  if interval ≤ 0 ∨ now ≤ b.lastRefilled then ⟨tokens, b.lastRefilled⟩
  else if sub now b.lastRefilled < interval then ⟨tokens, b.lastRefilled⟩
  else
    let added := additions b.lastRefilled now interval
    ⟨if capacity < tokens + added then capacity else tokens + added,
      b.lastRefilled + (added * interval).toInt⟩

/-! ## Agreement -/

@[simp] theorem toInt_maxDuration : maxDuration.toInt = Limiter.maxDuration := rfl

@[simp] theorem toInt_millisecond : millisecond.toInt = Limiter.millisecond := rfl

theorem maxDuration_div {refill : Int64} (h : 0 < refill.toInt) :
    (maxDuration / refill).toInt = Limiter.maxDuration / refill.toInt :=
  toInt_div_eq (by decide) h

theorem toInt_roundUp {value : Int64} (h : 0 < value.toInt) :
    (value / millisecond + if value % millisecond ≠ 0 then 1 else 0).toInt =
      value.toInt / Limiter.millisecond +
        if value.toInt % Limiter.millisecond ≠ 0 then 1 else 0 := by
  have hlt := value.toInt_lt
  have hdiv : (value / millisecond).toInt = value.toInt / Limiter.millisecond :=
    toInt_div_eq h.le (by decide)
  have hmod : (value % millisecond).toInt = value.toInt % Limiter.millisecond :=
    toInt_mod_eq h.le
  have hrest : value % millisecond ≠ 0 ↔ value.toInt % Limiter.millisecond ≠ 0 := by
    rw [← hmod, ne_eq, ← Int64.toInt_inj, Int64.toInt_zero]
  have hbound : value.toInt / Limiter.millisecond = value.toInt / 1000000 := rfl
  have hone : (1 : Int64).toInt = 1 := rfl
  by_cases hr : value.toInt % Limiter.millisecond ≠ 0
  · rw [if_pos hr, if_pos (hrest.mpr hr)]
    rw [toInt_add_eq, hdiv, hone]
    all_goals
      rw [hdiv, hone, hbound]
      omega
  · rw [if_neg hr, if_neg fun h => hr (hrest.mp h), toInt_add_eq, hdiv]
    · rfl
    all_goals
      rw [hdiv, Int64.toInt_zero, hbound]
      omega

theorem durationMillis_toInt (value : Int64) :
    (durationMillis value).toInt = Limiter.durationMillis value.toInt := by
  unfold durationMillis Limiter.durationMillis
  by_cases h : value ≤ 0
  · have hnonpos : value.toInt ≤ 0 := Int64.le_iff_toInt_le.mp h
    rw [if_pos h, if_pos hnonpos, Int64.toInt_zero]
  · have hpos : 0 < value.toInt := by
      have := mt Int64.le_iff_toInt_le.mpr h
      rw [Int64.toInt_zero] at this
      omega
    rw [if_neg h, if_neg (not_le.mpr hpos)]
    dsimp only
    rw [← toInt_roundUp hpos]
    generalize value / millisecond + (if value % millisecond ≠ 0 then 1 else 0) = millis
    by_cases hzero : millis = 0
    · rw [if_pos hzero, if_pos (by rw [hzero, Int64.toInt_zero])]
      rfl
    · rw [if_neg hzero, if_neg]
      exact fun h => hzero (Int64.toInt_inj.mp (by rw [h, Int64.toInt_zero]))

/-- The settings are checked as over `ℤ`: nothing wraps, for any arguments. -/
theorem validateRateLimitSettings_toInt (capacity refill : Int64) :
    validateRateLimitSettings capacity refill =
      Limiter.validateRateLimitSettings capacity.toInt refill.toInt := by
  unfold validateRateLimitSettings Limiter.validateRateLimitSettings
  have hsmall : capacity ≤ 0 ∨ refill < millisecond ↔
      capacity.toInt ≤ 0 ∨ refill.toInt < Limiter.millisecond := by
    rw [Int64.le_iff_toInt_le, Int64.lt_iff_toInt_lt, Int64.toInt_zero, toInt_millisecond]
  by_cases h : capacity ≤ 0 ∨ refill < millisecond
  · rw [if_pos h, if_pos (hsmall.mp h)]
  · rw [if_neg h, if_neg (mt hsmall.mpr h)]
    have hrefill : 0 < refill.toInt := by
      have := mt hsmall.mpr h
      unfold Limiter.millisecond microsecond at this
      omega
    have hintervals : maxDuration / refill ≤ capacity ↔
        Limiter.maxDuration / refill.toInt ≤ capacity.toInt := by
      rw [Int64.le_iff_toInt_le, maxDuration_div hrefill]
    by_cases hmany : maxDuration / refill ≤ capacity
    · rw [if_pos hmany, if_pos (hintervals.mp hmany)]
    · rw [if_neg hmany, if_neg (mt hintervals.mpr hmany)]
      dsimp only
      rw [← toInt_roundUp hrefill]
      generalize refill / millisecond + (if refill % millisecond ≠ 0 then 1 else 0) = millis
      have hzero : millis ≤ 0 ↔ millis.toInt ≤ 0 := by
        rw [Int64.le_iff_toInt_le, Int64.toInt_zero]
      by_cases hpos : millis ≤ 0
      · rw [decide_eq_true (.inl hpos), decide_eq_true (.inl (hzero.mp hpos))]
      · have hlast : maxDuration / millis ≤ capacity ↔
            Limiter.maxDuration / millis.toInt ≤ capacity.toInt := by
          rw [Int64.le_iff_toInt_le, maxDuration_div (not_le.mp (mt hzero.mpr hpos))]
        rw [decide_eq_decide.mpr (or_congr hzero hlast)]

/-- Settings that were accepted, as a `Limit`. -/
def limit {capacity refill : Int64} (h : validateRateLimitSettings capacity refill = true) : Limit where
  capacity := capacity.toInt
  refill := refill.toInt
  valid := validateRateLimitSettings_toInt capacity refill ▸ h

section Accepted

variable {capacity refill : Int64} (h : validateRateLimitSettings capacity refill = true)
include h

theorem accepted_pos : 0 < capacity.toInt ∧ Limiter.millisecond ≤ refill.toInt := by
  have hvalid := (limit h).valid
  unfold Limiter.validateRateLimitSettings at hvalid
  split at hvalid
  · cases hvalid
  · show 0 < (limit h).capacity ∧ Limiter.millisecond ≤ (limit h).refill
    omega

/-- The retention fits. -/
theorem accepted_fits : (capacity.toInt + 1) * refill.toInt ≤ Limiter.maxDuration :=
  calc (capacity.toInt + 1) * refill.toInt
      ≤ Limiter.maxDuration / refill.toInt * refill.toInt :=
        Int.mul_le_mul_of_nonneg_right (limit h).capacity_lt (limit h).refill_pos.le
    _ ≤ Limiter.maxDuration := Int.ediv_mul_le _ (limit h).refill_pos.ne'

omit h in
/-- Longer intervals are fewer. -/
theorem ediv_le_ediv_millisecond {n interval : ℤ} (hn : 0 ≤ n)
    (hinterval : Limiter.millisecond ≤ interval) : n / interval ≤ n / Limiter.millisecond := by
  have hpos : 0 < Limiter.millisecond := by decide
  have hquotient : 0 ≤ n / interval := Int.ediv_nonneg hn (by omega)
  refine (Int.le_ediv_iff_mul_le hpos).mpr ?_
  calc n / interval * Limiter.millisecond
      ≤ n / interval * interval := Int.mul_le_mul_of_nonneg_left hinterval hquotient
    _ ≤ n := Int.ediv_mul_le _ (by omega)

/-- There are far fewer tokens than the range has numbers. -/
theorem accepted_small : capacity.toInt < 10 ^ 13 := by
  have hlt : capacity.toInt < Limiter.maxDuration / refill.toInt := (limit h).capacity_lt
  have hle : Limiter.maxDuration / refill.toInt ≤ Limiter.maxDuration / Limiter.millisecond :=
    ediv_le_ediv_millisecond (by decide) (accepted_pos h).2
  have hmax : Limiter.maxDuration / Limiter.millisecond < 10 ^ 13 := by decide
  omega

theorem not_saturated : ¬maxDuration / refill ≤ capacity := by
  rw [Int64.le_iff_toInt_le, maxDuration_div (limit h).refill_pos]
  exact not_le.mpr (limit h).capacity_lt

theorem bucketTTL_toInt : (bucketTTL capacity refill).toInt = (capacity.toInt + 1) * refill.toInt := by
  have hpos := accepted_pos h
  have hrefill : 0 < refill.toInt := (limit h).refill_pos
  have hsmall := accepted_small h
  have hfits := accepted_fits h
  have hnonneg : 0 ≤ (capacity.toInt + 1) * refill.toInt := Int.mul_nonneg (by omega) hrefill.le
  have hsucc : (capacity + 1).toInt = capacity.toInt + 1 :=
    toInt_add_eq (by rw [Int64.toInt_one]; omega) (by rw [Int64.toInt_one]; omega)
  unfold bucketTTL
  rw [if_neg, if_neg (not_saturated h), toInt_mul_eq, hsucc]
  · rw [hsucc]
    omega
  · rw [hsucc]
    unfold Limiter.maxDuration at hfits
    omega
  · rw [Int64.le_iff_toInt_le, Int64.le_iff_toInt_le, Int64.toInt_zero]
    omega

end Accepted

/-- A well-formed bucket with accepted settings is accepted. -/
theorem RateLimitSpec.valid_of_accepted {spec : RateLimitSpec} (hkind : spec.kind ≠ "")
    (hdigest : spec.digest.length = digestSize)
    (h : validateRateLimitSettings spec.capacity spec.refill = true) : spec.valid = true := by
  have hpos := accepted_pos h
  have hrefill : 0 < spec.refill.toInt := (limit h).refill_pos
  unfold valid
  rw [if_neg, decide_eq_false (not_saturated h)]
  · rfl
  · rw [Int64.le_iff_toInt_le, Int64.le_iff_toInt_le, Int64.toInt_zero]
    rintro (hempty | hlength | hcapacity | hnever)
    · exact hkind hempty
    · exact hlength hdigest
    · omega
    · omega

/-! ## Refilling -/

/-- A difference is exact up to the ends of the range. -/
theorem sub_toInt (now last : ℤ) (h : last < now) :
    (sub now last).toInt = min (now - last) Limiter.maxDuration := by
  unfold sub Limiter.maxDuration
  by_cases hlong : 2 ^ 63 - 1 < now - last
  · rw [if_pos hlong, Int64.toInt_maxValue, min_eq_right (by omega)]
  · rw [if_neg hlong, if_neg (by omega), min_eq_left (by omega)]
    exact Int64.toInt_ofInt_of_le (by omega) (by omega)

section Refill

variable {capacity refill : Int64} {last now : ℤ}

/-- The intervals between two instants, as many as over `ℤ`, and no more than fit. -/
theorem additions_toInt (hrefill : 0 < refill.toInt) (hlt : last < now) :
    (additions last now refill).toInt =
      min (now - last) Limiter.maxDuration / refill.toInt := by
  unfold additions
  rw [toInt_div_eq _ hrefill, sub_toInt now last hlt]
  rw [sub_toInt now last hlt]
  exact le_min (by omega) (by decide)

theorem clip_toInt (tokens capacity : Int64) :
    (clip tokens capacity).toInt =
      if capacity.toInt < tokens.toInt then capacity.toInt else tokens.toInt := by
  unfold clip
  by_cases hover : capacity < tokens
  · rw [if_pos hover, if_pos (Int64.lt_iff_toInt_lt.mp hover)]
  · rw [if_neg hover, if_neg (mt Int64.lt_iff_toInt_lt.mpr hover)]

variable (h : validateRateLimitSettings capacity refill = true) (hlt : last < now)
include h hlt

theorem additions_bounds : 0 ≤ (additions last now refill).toInt ∧
    (additions last now refill).toInt < 10 ^ 13 ∧
    0 ≤ (additions last now refill).toInt * refill.toInt ∧
    (additions last now refill).toInt * refill.toInt ≤ Limiter.maxDuration := by
  have hrefill : 0 < refill.toInt := (limit h).refill_pos
  have helapsed : 0 ≤ min (now - last) Limiter.maxDuration := le_min (by omega) (by decide)
  have hle : min (now - last) Limiter.maxDuration ≤ Limiter.maxDuration := min_le_right _ _
  rw [additions_toInt hrefill hlt]
  generalize min (now - last) Limiter.maxDuration = elapsed at helapsed hle
  have hnonneg : 0 ≤ elapsed / refill.toInt := Int.ediv_nonneg helapsed hrefill.le
  have hcoarse : elapsed / refill.toInt ≤ elapsed / Limiter.millisecond :=
    ediv_le_ediv_millisecond helapsed (accepted_pos h).2
  have hmost : elapsed / Limiter.millisecond ≤ Limiter.maxDuration / Limiter.millisecond :=
    Int.ediv_le_ediv (by decide) hle
  have hmax : Limiter.maxDuration / Limiter.millisecond < 10 ^ 13 := by decide
  refine ⟨hnonneg, by omega, Int.mul_nonneg hnonneg hrefill.le, ?_⟩
  exact (Int.ediv_mul_le _ hrefill.ne').trans hle

theorem mul_additions_toInt : (additions last now refill * refill).toInt =
    (additions last now refill).toInt * refill.toInt := by
  obtain ⟨-, -, hnonneg, hle⟩ := additions_bounds h hlt
  unfold Limiter.maxDuration at hle
  exact toInt_mul_eq (by omega) (by omega)

theorem clip_add_additions_toInt {tokens : Int64} (htokens : 0 ≤ tokens.toInt) :
    (clip tokens capacity + additions last now refill).toInt =
      (clip tokens capacity).toInt + (additions last now refill).toInt := by
  obtain ⟨hnonneg, hmany, -, -⟩ := additions_bounds h hlt
  have hsmall := accepted_small h
  have hpos := (accepted_pos h).1
  have hclip : 0 ≤ (clip tokens capacity).toInt ∧
      (clip tokens capacity).toInt ≤ capacity.toInt := by
    rw [clip_toInt]
    split <;> omega
  exact toInt_add_eq (by omega) (by omega)

omit hlt in
/-- A refill is the refill over `ℤ`. -/
theorem refillRateLimitBucket_toInt {b : Bucket} (hb : 0 ≤ b.tokens.toInt) (now : ℤ) :
    (refillRateLimitBucket b capacity refill now).toInt =
      Limiter.refillRateLimitBucket b.toInt capacity.toInt refill.toInt now := by
  have hrefill : 0 < refill.toInt := (limit h).refill_pos
  unfold refillRateLimitBucket Limiter.refillRateLimitBucket Bucket.toInt
  dsimp only
  rw [← clip_toInt]
  have hstart : refill ≤ 0 ∨ now ≤ b.lastRefilled ↔
      refill.toInt ≤ 0 ∨ now ≤ b.lastRefilled := by
    rw [Int64.le_iff_toInt_le, Int64.toInt_zero]
  by_cases hearly : refill ≤ 0 ∨ now ≤ b.lastRefilled
  · rw [if_pos hearly, if_pos (hstart.mp hearly)]
  · have hlt : b.lastRefilled < now := by omega
    rw [if_neg hearly, if_neg (mt hstart.mpr hearly), ← sub_toInt now b.lastRefilled hlt]
    by_cases hshort : sub now b.lastRefilled < refill
    · rw [if_pos hshort, if_pos (Int64.lt_iff_toInt_lt.mp hshort)]
    · rw [if_neg hshort, if_neg (mt Int64.lt_iff_toInt_lt.mpr hshort)]
      have hadditions : (sub now b.lastRefilled).toInt / refill.toInt =
          (additions b.lastRefilled now refill).toInt := by
        rw [sub_toInt now b.lastRefilled hlt, additions_toInt hrefill hlt]
      rw [hadditions, ← clip_add_additions_toInt h hlt hb, mul_additions_toInt h hlt,
        ← clip_toInt]
      rfl

end Refill

/-- **Accepted settings never overflow.**  A request over them is accepted; the retention is
exactly one interval more than the capacity has, and in the database the ceiling of it; and the
refill of a bucket that was stored under any accepted settings adds and multiplies exactly.

The left of each equation is computed in 64 bits, and the right over the integers.  A setting is
accepted if its capacity is below the quotient of the greatest duration and the interval, so that
the time in which an empty bucket fills, and one interval more, can still be written down.  All the
other products and sums of the limiter are smaller, and so none of them wraps, whatever the clock
says and however few tokens are left. -/
theorem settings_exact :
    (∀ specs : List RateLimitSpec, specs ≠ [] →
      (∀ spec ∈ specs, spec.kind ≠ "" ∧ spec.digest.length = digestSize ∧
        validateRateLimitSettings spec.capacity spec.refill = true) →
      validateRateLimitSpecs specs = true) ∧
    ∀ capacity refill : Int64, validateRateLimitSettings capacity refill = true →
      (¬maxDuration / refill ≤ capacity ∧
        (bucketTTL capacity refill).toInt = (capacity.toInt + 1) * refill.toInt) ∧
      (0 < (durationMillis (bucketTTL capacity refill)).toInt ∧
        ((durationMillis (bucketTTL capacity refill)).toInt - 1) * Limiter.millisecond <
          (capacity.toInt + 1) * refill.toInt ∧
        (capacity.toInt + 1) * refill.toInt ≤
          (durationMillis (bucketTTL capacity refill)).toInt * Limiter.millisecond) ∧
      ∀ most interval tokens : Int64, validateRateLimitSettings most interval = true →
        0 ≤ tokens → tokens ≤ most → ∀ last now : ℤ,
          (last < now →
            (clip tokens capacity + additions last now refill).toInt =
              (clip tokens capacity).toInt + (additions last now refill).toInt ∧
            (additions last now refill * refill).toInt =
              (additions last now refill).toInt * refill.toInt) ∧
          (refillRateLimitBucket ⟨tokens, last⟩ capacity refill now).toInt =
            Limiter.refillRateLimitBucket ⟨tokens.toInt, last⟩ capacity.toInt refill.toInt now := by
  refine ⟨fun specs hne hspecs => ?_, fun capacity refill h => ⟨⟨not_saturated h, ?_⟩, ?_, ?_⟩⟩
  · have hall : specs.all RateLimitSpec.valid = true := by
      refine List.all_eq_true.mpr fun spec hspec => ?_
      obtain ⟨hkind, hdigest, haccepted⟩ := hspecs spec hspec
      exact RateLimitSpec.valid_of_accepted hkind hdigest haccepted
    unfold validateRateLimitSpecs
    rw [hall, List.isEmpty_eq_false_iff.mpr hne]
    rfl
  · exact bucketTTL_toInt h
  · have hpos : 0 < (capacity.toInt + 1) * refill.toInt :=
      Int.mul_pos (by have := (accepted_pos h).1; omega) (limit h).refill_pos
    rw [durationMillis_toInt, bucketTTL_toInt h]
    exact durationMillis_ceil hpos
  · intro most interval tokens _ htokens _ last now
    have hnonneg : 0 ≤ tokens.toInt := Int64.le_iff_toInt_le.mp htokens
    refine ⟨fun hlt => ⟨clip_add_additions_toInt h hlt hnonneg, mul_additions_toInt h hlt⟩, ?_⟩
    exact refillRateLimitBucket_toInt (b := ⟨tokens, last⟩) h hnonneg now

/-- A bucket of twenty tokens, one a minute, holds twelve from a capacity of a hundred. -/
theorem settings_exact_minute :
    validateRateLimitSpecs [⟨"ip", List.replicate 32 0, 20, 60000000000⟩] = true ∧
      (bucketTTL 20 60000000000).toInt = (20 + 1) * 60000000000 ∧
      (refillRateLimitBucket ⟨12, 0⟩ 20 60000000000 (5 * 60000000000)).toInt =
        Limiter.refillRateLimitBucket ⟨12, 0⟩ 20 60000000000 (5 * 60000000000) := by
  have h : validateRateLimitSettings 20 60000000000 = true := by decide +kernel
  obtain ⟨hspecs, hsettings⟩ := settings_exact
  obtain ⟨⟨-, hretention⟩, -, hrefill⟩ := hsettings 20 60000000000 h
  refine ⟨hspecs _ (List.cons_ne_nil _ _) ?_, hretention, ?_⟩
  · intro spec hspec
    obtain rfl := List.mem_singleton.mp hspec
    exact ⟨by decide, by decide, h⟩
  · exact (hrefill 100 1000000 12 (by decide +kernel) (by decide) (by decide) 0 _).2

end BindPlane.Limiter.Machine
