import Mathlib.Data.List.AList
import Mathlib.Tactic.Linarith

/-!
# Token buckets

The arithmetic of the rate limiter.  Durations and instants are numbers of nanoseconds, as
`time.Duration` has them; the database keeps instants in microseconds, and the limiter reads
them, and the clock, in milliseconds.

**Settings.**  A `Limit` is a capacity with a refill interval that `validateRateLimitSettings`
accepts; the server does not start with others.  Its bounds keep every product and sum below
from overflowing an `int64`.

**Retention.**  `bucketTTL` is one interval more than an empty bucket needs to fill, and the
database is told it in milliseconds, rounded up.  `Limit.refill_of_retention` is what this is
for: a bucket that was not touched for that long is full when it is next read.

**Why integers.**  A bucket is filled by whole intervals only, and the instant of its refill moves
by as many intervals as have been added.  So no fraction of a token is ever lost to rounding, as
long as the instant itself is stored exactly.

**Source.**  What is modelled here is in `internal/auth/adapter/postgres/limiter.go`.
-/

namespace BindPlane.Limiter

/-- The largest `time.Duration`. -/
def maxDuration : ℤ := 2 ^ 63 - 1

def microsecond : ℤ := 1000

def millisecond : ℤ := 1000 * microsecond

def second : ℤ := 1000 * millisecond

/-- An instant as a `timestamptz` keeps it. -/
def truncMicro (t : ℤ) : ℤ := t / microsecond * microsecond

/-- `date_trunc('milliseconds', t)`, and `t.Truncate(time.Millisecond)`. -/
def truncMilli (t : ℤ) : ℤ := t / millisecond * millisecond

/-- A duration in milliseconds, rounded up. -/
def durationMillis (value : ℤ) : ℤ :=
  if value ≤ 0 then 0
  else
    let millis := value / millisecond + if value % millisecond ≠ 0 then 1 else 0
    if millis = 0 then 1 else millis

/-- How long a bucket is worth keeping. -/
def bucketTTL (capacity refill : ℤ) : ℤ :=
  if capacity ≤ 0 ∨ refill ≤ 0 then second
  else if maxDuration / refill ≤ capacity then maxDuration
  else (capacity + 1) * refill

/-- The settings that the configuration accepts. -/
def validateRateLimitSettings (capacity refill : ℤ) : Bool :=
  if capacity ≤ 0 ∨ refill < millisecond then false
  else if maxDuration / refill ≤ capacity then false
  else
    let millis := refill / millisecond + if refill % millisecond ≠ 0 then 1 else 0
    !(millis ≤ 0 ∨ maxDuration / millis ≤ capacity)

/-- A capacity and a refill interval that the server can run with. -/
structure Limit where
  capacity : ℤ
  refill : ℤ
  valid : validateRateLimitSettings capacity refill = true

/-- A bucket as a request holds it. -/
structure Bucket where
  tokens : ℤ
  lastRefilled : ℤ
  deriving DecidableEq

/-- The tokens of the intervals that have passed since the last refill; the refill instant
moves by whole intervals. -/
def refillRateLimitBucket (b : Bucket) (capacity interval now : ℤ) : Bucket :=
  let tokens := if capacity < b.tokens then capacity else b.tokens
  if interval ≤ 0 ∨ now ≤ b.lastRefilled then ⟨tokens, b.lastRefilled⟩
  else
    -- `now.Sub(last)` saturates
    let elapsed := min (now - b.lastRefilled) maxDuration
    if elapsed < interval then ⟨tokens, b.lastRefilled⟩
    else
      let additions := elapsed / interval
      ⟨if capacity < tokens + additions then capacity else tokens + additions,
        b.lastRefilled + additions * interval⟩

/-! ## Rounding -/

theorem truncMilli_mono {s t : ℤ} (h : s ≤ t) : truncMilli s ≤ truncMilli t := by
  unfold truncMilli millisecond microsecond
  omega

/-- Whole milliseconds stay what they are. -/
theorem truncMilli_add_mul (t n : ℤ) :
    truncMilli (t + n * millisecond) = truncMilli t + n * millisecond := by
  unfold truncMilli millisecond microsecond
  omega

theorem le_durationMillis (value : ℤ) : value ≤ durationMillis value * millisecond := by
  unfold durationMillis millisecond microsecond
  dsimp only
  split
  · omega
  · split <;> split <;> omega

/-- Of a positive duration it is the ceiling, and positive. -/
theorem durationMillis_ceil {value : ℤ} (h : 0 < value) :
    0 < durationMillis value ∧ (durationMillis value - 1) * millisecond < value ∧
      value ≤ durationMillis value * millisecond := by
  unfold durationMillis millisecond microsecond
  rw [if_neg (not_le.mpr h)]
  dsimp only
  split <;> split <;> omega

/-! ## Settings -/

namespace Limit

theorem capacity_pos (l : Limit) : 0 < l.capacity := by
  have h := l.valid
  unfold validateRateLimitSettings at h
  split at h
  · cases h
  · omega

theorem refill_pos (l : Limit) : 0 < l.refill := by
  have h := l.valid
  unfold validateRateLimitSettings millisecond microsecond at h
  split at h
  · cases h
  · omega

theorem capacity_lt (l : Limit) : l.capacity < maxDuration / l.refill := by
  have h := l.valid
  unfold validateRateLimitSettings at h
  split at h
  · cases h
  · split at h
    · cases h
    · omega

/-- What the limiter and the cleanup keep a bucket for. -/
theorem bucketTTL_eq (l : Limit) :
    bucketTTL l.capacity l.refill = (l.capacity + 1) * l.refill := by
  have hc := l.capacity_pos
  have hr := l.refill_pos
  have hm := l.capacity_lt
  unfold bucketTTL
  rw [if_neg (by omega), if_neg (by omega)]

/-- The retention in the database is long enough for one interval more than the capacity. -/
theorem le_retention (l : Limit) :
    (l.capacity + 1) * l.refill ≤
      durationMillis (bucketTTL l.capacity l.refill) * millisecond := by
  rw [← l.bucketTTL_eq]
  exact le_durationMillis _

end Limit

/-! ## Refilling -/

/-- A refill never goes over the capacity. -/
theorem refill_tokens_le (b : Bucket) (capacity interval now : ℤ) :
    (refillRateLimitBucket b capacity interval now).tokens ≤ capacity := by
  unfold refillRateLimitBucket
  dsimp only
  split
  · show (if capacity < b.tokens then capacity else b.tokens) ≤ capacity
    split <;> omega
  · split
    · show (if capacity < b.tokens then capacity else b.tokens) ≤ capacity
      split <;> omega
    · show (if capacity < _ then capacity else _) ≤ capacity
      split <;> omega

/-- Nor does it take any token below it. -/
theorem le_refill_tokens (b : Bucket) (capacity interval now : ℤ) :
    min b.tokens capacity ≤ (refillRateLimitBucket b capacity interval now).tokens := by
  unfold refillRateLimitBucket
  dsimp only
  split
  · show _ ≤ if capacity < b.tokens then capacity else b.tokens
    split <;> omega
  · next h =>
    split
    · show _ ≤ if capacity < b.tokens then capacity else b.tokens
      split <;> omega
    · next he =>
      have hadd : 0 ≤ min (now - b.lastRefilled) maxDuration / interval :=
        Int.ediv_nonneg (by omega) (by omega)
      show _ ≤ if capacity < (if capacity < b.tokens then capacity else b.tokens) + _
        then capacity else (if capacity < b.tokens then capacity else b.tokens) + _
      split <;> split <;> omega

/-- A bucket with its whole capacity is full after every refill. -/
theorem refill_tokens_of_full (b : Bucket) (capacity interval now : ℤ)
    (h : b.tokens = capacity) :
    (refillRateLimitBucket b capacity interval now).tokens = capacity := by
  have hle := refill_tokens_le b capacity interval now
  have hge := le_refill_tokens b capacity interval now
  rw [h, min_self] at hge
  omega

/-- **What retention is for.**  A bucket that was not refilled for as long as the database
keeps it is full when it is next refilled. -/
theorem Limit.refill_of_retention (l : Limit) (b : Bucket) (now : ℤ) (hb : 0 ≤ b.tokens)
    (h : b.lastRefilled + durationMillis (bucketTTL l.capacity l.refill) * millisecond ≤ now) :
    (refillRateLimitBucket b l.capacity l.refill now).tokens = l.capacity := by
  have hc := l.capacity_pos
  have hr := l.refill_pos
  have hret := l.le_retention
  have hmax : (l.capacity + 1) * l.refill ≤ maxDuration :=
    calc (l.capacity + 1) * l.refill
        ≤ maxDuration / l.refill * l.refill :=
          Int.mul_le_mul_of_nonneg_right l.capacity_lt hr.le
      _ ≤ maxDuration := Int.ediv_mul_le _ hr.ne'
  have hpos : 0 < (l.capacity + 1) * l.refill := Int.mul_pos (by omega) hr
  have helapsed : (l.capacity + 1) * l.refill ≤ min (now - b.lastRefilled) maxDuration :=
    le_min (by omega) hmax
  have hadd : l.capacity + 1 ≤ min (now - b.lastRefilled) maxDuration / l.refill :=
    (Int.le_ediv_iff_mul_le hr).mpr helapsed
  have hone : 1 * l.refill ≤ (l.capacity + 1) * l.refill :=
    Int.mul_le_mul_of_nonneg_right (by omega) hr.le
  unfold refillRateLimitBucket
  dsimp only
  rw [if_neg (by omega), if_neg (by omega)]
  show (if l.capacity < _ + min (now - b.lastRefilled) maxDuration / l.refill
    then l.capacity else _) = l.capacity
  rw [if_pos]
  split <;> omega

end BindPlane.Limiter
