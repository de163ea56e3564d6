import BindPlane.Limiter.Retention

/-!
# How much a bucket lets through

What one call does to each of its rows, and what a sequence of calls can take out of one row.

**One call.**  `Store.call_spec` says it row by row: a bucket is opened (loaded from its row, or
created full), refilled at the call's reading of the clock, and written back with one token
less or as it is.  All business buckets are charged or none is; the source is charged whenever
it had a token.

**Many calls.**  What a row can still give before an instant `e` is its tokens and the
intervals that fit between its refill instant and `e` (`budget`).  A call that is read by then
never adds to it, and an accepted one takes one token from it (`budget_step`).  The first call
of a window leaves a budget of the capacity and the intervals of the window and one more
(`budget_first`), which bounds what the window accepts.

**The interval.**  A row is loaded in milliseconds.  Where the interval is a whole number of
them nothing is lost; where it is not, every load moves the refill instant back by a fraction
and the bucket fills too fast (`Demo.window_exceeded`).
-/

namespace BindPlane.Limiter

variable {ids : Identities} {s : Store}

/-! ## One bucket -/

/-- A bucket as a call opens it. -/
def opened (l : Limit) (clock : ℤ) : Option Row → Bucket
  | some row => ⟨row.tokens, truncMilli row.lastRefillAt⟩
  | none => ⟨l.capacity, truncMilli clock⟩

/-- A bucket as a call decides on it. -/
def refilled (l : Limit) (now clock : ℤ) (old : Option Row) : Bucket :=
  refillRateLimitBucket (opened l clock old) l.capacity l.refill now

/-- A bucket as a call writes it back. -/
def settled (l : Limit) (charge : Bool) (b : Bucket) : Row :=
  let b := if charge then { b with tokens := b.tokens - 1 } else b
  ⟨b.tokens, truncMicro b.lastRefilled, truncMicro b.lastRefilled + retention l⟩

section Statements

variable {ns : Namespace} {spec : Spec} {specs : List Spec} {clock : ℕ → ℤ} {t : Buckets}

theorem ensure_fst (reading : ℤ) :
    (ensureRateLimitBucket ns spec reading t).1 =
      opened spec.limit reading (t.lookup (spec.key ns)) := by
  cases hrow : t.lookup (spec.key ns) with
  | some row => rw [ensure_of_some hrow]; rfl
  | none => rw [ensure_of_none hrow]; rfl

/-- Every bucket is opened from the row that was there before the call. -/
theorem ensureEach_opened (clock : ℕ → ℤ) (hnodup : (specs.map (Spec.key ns)).Nodup) :
    ∀ (n : ℕ) (t : Buckets),
      (∀ k ∉ specs.map (Spec.key ns), (ensureEach ns clock n specs t).2.lookup k = t.lookup k) ∧
      (ensureEach ns clock n specs t).1.map RefilledBucket.spec = specs ∧
      ∀ x ∈ (ensureEach ns clock n specs t).1,
        ∃ j, x.bucket = opened x.spec.limit (clock j) (t.lookup (x.spec.key ns)) := by
  induction specs with
  | nil => exact fun n t => ⟨fun _ _ => rfl, rfl, nofun⟩
  | cons spec rest ih =>
      intro n t
      rw [List.map_cons, List.nodup_cons] at hnodup
      obtain ⟨hother, hspecs, hopened⟩ :=
        ih hnodup.2 (n + 1) (ensureRateLimitBucket ns spec (clock n) t).2
      refine ⟨fun k hk => ?_, congrArg (spec :: ·) hspecs, fun x hx => ?_⟩
      · rw [List.map_cons, List.mem_cons, not_or] at hk
        exact (hother k hk.2).trans (lookup_ensure_ne hk.1)
      · obtain rfl | hx := List.mem_cons.mp hx
        · exact ⟨n, ensure_fst _⟩
        · obtain ⟨j, hj⟩ := hopened x hx
          have hmem : x.spec ∈ rest := hspecs ▸ List.mem_map_of_mem hx
          have hne : x.spec.key ns ≠ spec.key ns :=
            fun he => hnodup.1 (he ▸ List.mem_map_of_mem hmem)
          exact ⟨j, hj.trans (by rw [lookup_ensure_ne hne])⟩

/-- Writing back touches the rows of the list, each once. -/
theorem lookup_updateAll (charge : Bool) {bs : List RefilledBucket}
    (hnodup : (bs.map fun b => b.spec.key ns).Nodup) :
    ∀ t : Buckets,
      (∀ k ∉ bs.map fun b => b.spec.key ns, (updateAll ns charge bs t).lookup k = t.lookup k) ∧
      ∀ b ∈ bs, (updateAll ns charge bs t).lookup (b.spec.key ns) =
        some (settled b.spec.limit charge b.bucket) := by
  induction bs with
  | nil => exact fun t => ⟨fun _ _ => rfl, nofun⟩
  | cons b bs ih =>
      intro t
      rw [List.map_cons, List.nodup_cons] at hnodup
      rw [updateAll_cons]
      obtain ⟨hother, hmem⟩ := ih hnodup.2 (updateRateLimitBucket ns b.spec
        (if charge then { b.bucket with tokens := b.bucket.tokens - 1 } else b.bucket) t)
      refine ⟨fun k hk => ?_, fun x hx => ?_⟩
      · rw [List.map_cons, List.mem_cons, not_or] at hk
        rw [hother k hk.2, lookup_update_ne _ hk.1]
      · obtain rfl | hx := List.mem_cons.mp hx
        · rw [hother _ hnodup.1, lookup_update]
          rfl
        · exact hmem x hx

theorem nodup_sorted (hnodup : (specs.map (Spec.key ns)).Nodup) :
    ((specs.insertionSort Spec.before).map (Spec.key ns)).Nodup :=
  ((List.perm_insertionSort Spec.before specs).map _).nodup_iff.mpr hnodup

theorem lookup_ensureBuckets (hnodup : (specs.map (Spec.key ns)).Nodup) (n : ℕ) (t : Buckets)
    {k : Key} (hk : k ∉ specs.map (Spec.key ns)) :
    (ensureBuckets ns clock n specs t).2.lookup k = t.lookup k :=
  (ensureEach_opened clock (nodup_sorted hnodup) n t).1 k fun h =>
    hk (((List.perm_insertionSort Spec.before specs).map _).mem_iff.mp h)

/-- Opening, refilling, deciding and writing back, on a table `t'` that has the rows of `t`. -/
theorem updateAll_ensured (clock : ℕ → ℤ) (hnodup : (specs.map (Spec.key ns)).Nodup) (n : ℕ)
    (t : Buckets) (now : ℤ) (charge : Bool) (t' : Buckets) :
    (∀ k ∉ specs.map (Spec.key ns),
      (updateAll ns charge (refillAll now (ensureBuckets ns clock n specs t).1) t').lookup k =
        t'.lookup k) ∧
    ∀ spec ∈ specs, ∃ j,
      (updateAll ns charge (refillAll now (ensureBuckets ns clock n specs t).1) t').lookup
          (spec.key ns) =
        some (settled spec.limit charge
          (refilled spec.limit now (clock j) (t.lookup (spec.key ns)))) ∧
      (allowed (refillAll now (ensureBuckets ns clock n specs t).1) = true →
        1 ≤ (refilled spec.limit now (clock j) (t.lookup (spec.key ns))).tokens) := by
  have hperm := List.perm_insertionSort Spec.before specs
  have hsorted := nodup_sorted hnodup
  obtain ⟨-, hspecs, hopened⟩ := ensureEach_opened clock hsorted n t
  have hkeys : ((refillAll now (ensureBuckets ns clock n specs t).1).map
      fun b => b.spec.key ns) = (specs.insertionSort Spec.before).map (Spec.key ns) := by
    rw [refillAll, List.map_map]
    conv_rhs => rw [← hspecs, List.map_map]
    rfl
  obtain ⟨hother, hmem⟩ := lookup_updateAll charge (hkeys ▸ hsorted) t'
  refine ⟨fun k hk => hother k ?_, fun spec hspec => ?_⟩
  · rw [hkeys]
    exact fun h => hk ((hperm.map _).mem_iff.mp h)
  · obtain ⟨x, hx, rfl⟩ := List.mem_map.mp (hspecs ▸ hperm.mem_iff.mpr hspec)
    obtain ⟨j, hj⟩ := hopened x hx
    have hx' : { x with bucket := x.spec.refill now x.bucket } ∈
        refillAll now (ensureBuckets ns clock n specs t).1 := List.mem_map_of_mem hx
    have hbucket : x.spec.refill now x.bucket =
        refilled x.spec.limit now (clock j) (t.lookup (x.spec.key ns)) := by
      rw [hj]
      rfl
    refine ⟨j, ?_, fun hall => ?_⟩
    · rw [← hbucket]
      exact hmem _ hx'
    · rw [← hbucket]
      exact of_decide_eq_true (List.all_eq_true.mp hall _ hx')

end Statements

/-! ## One call -/

/-- The clock that a call refills by. -/
def Call.reading (ids : Identities) (s : Store) (c : Call) : ℤ :=
  match c.op.attempt ids s with
  | none => c.clock (c.op.business ids s).length
  | some _ => c.clock 1

/-- The buckets of an operation are of different kinds. -/
theorem Operation.nodup_keys (ids : Identities) (s : Store) (op : Operation) :
    (((op.attempt ids s).toList ++ op.business ids s).map (Spec.key op.ns)).Nodup := by
  have hkinds : (((op.attempt ids s).toList ++ op.business ids s).map Spec.kind).Nodup := by
    cases op <;> exact of_decide_eq_true rfl
  refine List.Nodup.of_map Key.kind ?_
  rw [List.map_map]
  exact hkinds

section Call

variable {c : Call} {t : Buckets}

/-- The row was written back with the charge, which took a token that was there. -/
def Charged (clock : ℕ → ℤ) (l : Limit) (now : ℤ) (old new : Option Row) (charge : Bool) :
    Prop :=
  ∃ j, new = some (settled l charge (refilled l now (clock j) old)) ∧
    (charge = true → 1 ≤ (refilled l now (clock j) old).tokens)

/-- The row was written back, and lost a token if it had one.

The bucket of the source is charged whether or not the operation is allowed in the end, so that
somebody who is refused still pays for asking. -/
def ChargedIfAny (clock : ℕ → ℤ) (l : Limit) (now : ℤ) (old new : Option Row)
    (accepted : Bool) : Prop :=
  ∃ j, new = some (settled l (1 ≤ (refilled l now (clock j) old).tokens)
      (refilled l now (clock j) old)) ∧
    (accepted = true → 1 ≤ (refilled l now (clock j) old).tokens)

/-- A call without a source. -/
theorem allowBusinessBuckets_spec {ns : Namespace} {specs : List Spec} (clock : ℕ → ℤ)
    (hnodup : (specs.map (Spec.key ns)).Nodup) (t : Buckets) :
    (∀ k ∉ specs.map (Spec.key ns), (allowBusinessBuckets ns specs clock t).2.lookup k =
      t.lookup k) ∧
    ∀ spec ∈ specs, Charged clock spec.limit (truncMilli (clock specs.length))
      (t.lookup (spec.key ns)) ((allowBusinessBuckets ns specs clock t).2.lookup (spec.key ns))
      (allowBusinessBuckets ns specs clock t).1 := by
  unfold allowBusinessBuckets
  obtain ⟨hother, hmem⟩ := updateAll_ensured clock hnodup 0 t (truncMilli (clock specs.length))
    (allowed (refillAll (truncMilli (clock specs.length)) (ensureBuckets ns clock 0 specs t).1))
    (ensureBuckets ns clock 0 specs t).2
  exact ⟨fun k hk => (hother k hk).trans (lookup_ensureBuckets hnodup 0 t hk), hmem⟩

/-- A call with a source. -/
theorem allowAttemptAndBuckets_spec {ns : Namespace} {attempt : Spec} {business : List Spec}
    (clock : ℕ → ℤ) (hfresh : attempt.key ns ∉ business.map (Spec.key ns))
    (hnodup : (business.map (Spec.key ns)).Nodup) (t : Buckets) :
    (∀ k ∉ attempt.key ns :: business.map (Spec.key ns),
      (allowAttemptAndBuckets ns attempt business clock t).2.lookup k = t.lookup k) ∧
    ChargedIfAny clock attempt.limit (truncMilli (clock 1)) (t.lookup (attempt.key ns))
      ((allowAttemptAndBuckets ns attempt business clock t).2.lookup (attempt.key ns))
      (allowAttemptAndBuckets ns attempt business clock t).1 ∧
    ((∀ spec ∈ business, Charged clock spec.limit (truncMilli (clock 1))
      (t.lookup (spec.key ns))
      ((allowAttemptAndBuckets ns attempt business clock t).2.lookup (spec.key ns))
      (allowAttemptAndBuckets ns attempt business clock t).1) ∨
      (allowAttemptAndBuckets ns attempt business clock t).1 = false ∧ ∀ spec ∈ business,
        (allowAttemptAndBuckets ns attempt business clock t).2.lookup (spec.key ns) =
          t.lookup (spec.key ns)) := by
  have hne : ∀ spec ∈ business, spec.key ns ≠ attempt.key ns :=
    fun spec hspec he => hfresh (he ▸ List.mem_map_of_mem hspec)
  -- the level of the source is read before anything is charged
  have hsource : attempt.refill (truncMilli (clock 1))
      (ensureRateLimitBucket ns attempt (clock 0) t).1 =
      refilled attempt.limit (truncMilli (clock 1)) (clock 0) (t.lookup (attempt.key ns)) := by
    rw [ensure_fst]
    rfl
  unfold allowAttemptAndBuckets ChargedIfAny
  dsimp only
  rw [hsource]
  by_cases hone :
      (refilled attempt.limit (truncMilli (clock 1)) (clock 0) (t.lookup (attempt.key ns))).tokens < 1
  · -- the source is empty: it alone is written, and the call is refused
    rw [if_pos hone]
    refine ⟨fun k hk => ?_, ⟨0, ?_, nofun⟩, .inr ⟨rfl, fun spec hspec => ?_⟩⟩
    · rw [List.mem_cons, not_or] at hk
      rw [lookup_update_ne _ hk.1, lookup_ensure_ne hk.1]
    · rw [lookup_update, decide_eq_false (not_le.mpr hone)]
      rfl
    · rw [lookup_update_ne _ (hne spec hspec), lookup_ensure_ne (hne spec hspec)]
  · -- the source is charged whether or not the others have a token
    rw [if_neg hone]
    have hle := not_lt.mp hone
    obtain ⟨hother, hmem⟩ := updateAll_ensured clock hnodup 2
      (ensureRateLimitBucket ns attempt (clock 0) t).2 (truncMilli (clock 1))
      (allowed (refillAll (truncMilli (clock 1)) (ensureBuckets ns clock 2 business
        (ensureRateLimitBucket ns attempt (clock 0) t).2).1))
      (updateRateLimitBucket ns attempt
        { refilled attempt.limit (truncMilli (clock 1)) (clock 0) (t.lookup (attempt.key ns)) with
          tokens := (refilled attempt.limit (truncMilli (clock 1)) (clock 0)
            (t.lookup (attempt.key ns))).tokens - 1 }
        (ensureBuckets ns clock 2 business (ensureRateLimitBucket ns attempt (clock 0) t).2).2)
    refine ⟨fun k hk => ?_, ⟨0, ?_, fun _ => hle⟩, .inl fun spec hspec => ?_⟩
    · rw [List.mem_cons, not_or] at hk
      rw [hother k hk.2, lookup_update_ne _ hk.1, lookup_ensureBuckets hnodup _ _ hk.2,
        lookup_ensure_ne hk.1]
    · rw [hother _ hfresh, lookup_update, decide_eq_true hle]
      rfl
    · have hlookup : (ensureRateLimitBucket ns attempt (clock 0) t).2.lookup (spec.key ns) =
          t.lookup (spec.key ns) := lookup_ensure_ne (hne spec hspec)
      rw [← hlookup]
      exact hmem spec hspec

/-- **One call, row by row.**  It touches its own rows only; the source loses a token exactly if
it had one; and the business buckets are written back with one token less or as they are, all
of them alike, or are not touched. -/
theorem Store.call_spec (ids : Identities) (s : Store) (c : Call) (t : Buckets) :
    (∀ k ∉ c.op.keys ids s, (s.call ids c t).2.lookup k = t.lookup k) ∧
    (∀ attempt ∈ c.op.attempt ids s, ChargedIfAny c.clock attempt.limit
      (truncMilli (c.reading ids s)) (t.lookup (attempt.key c.op.ns))
      ((s.call ids c t).2.lookup (attempt.key c.op.ns)) (s.call ids c t).1) ∧
    ((∀ spec ∈ c.op.business ids s, Charged c.clock spec.limit (truncMilli (c.reading ids s))
      (t.lookup (spec.key c.op.ns)) ((s.call ids c t).2.lookup (spec.key c.op.ns))
      (s.call ids c t).1) ∨
      (s.call ids c t).1 = false ∧ ∀ spec ∈ c.op.business ids s,
        (s.call ids c t).2.lookup (spec.key c.op.ns) = t.lookup (spec.key c.op.ns)) := by
  have hnodup := c.op.nodup_keys ids s
  unfold Store.call Call.reading Operation.keys
  cases hattempt : c.op.attempt ids s with
  | none =>
      rw [hattempt] at hnodup
      obtain ⟨hother, hmem⟩ := allowBusinessBuckets_spec c.clock hnodup t
      exact ⟨hother, nofun, .inl hmem⟩
  | some attempt =>
      rw [hattempt] at hnodup
      obtain ⟨hfresh, hnodup⟩ := List.nodup_cons.mp hnodup
      obtain ⟨hother, hsource, hmem⟩ :=
        allowAttemptAndBuckets_spec c.clock hfresh hnodup t
      refine ⟨hother, fun a ha => ?_, hmem⟩
      obtain rfl := Option.mem_some_iff.mp ha
      exact hsource

end Call

/-! ## The row of one bucket -/

/-- The settings of a bucket. -/
def Store.limitOf (s : Store) (k : Key) : Option Limit :=
  match k.ns, k.kind with
  | .emailChange, .actor => some s.emailChangeActor
  | .emailChange, .recipient => some s.emailChangeRecipient
  | _, _ => s.policy k

theorem Operation.limitOf_eq {op : Operation} {spec : Spec}
    (h : spec ∈ (op.attempt ids s).toList ++ op.business ids s) :
    s.limitOf (spec.key op.ns) = some spec.limit := by
  cases op <;>
    simp only [attempt, business, Option.toList, List.nil_append, List.cons_append,
      List.mem_cons, List.not_mem_nil, or_false] at h <;>
    rcases h with rfl | rfl | rfl <;> rfl

/-- A call leaves the row of a bucket as it is, and then it has not charged it, or writes it
back, and then an accepted call has charged it. -/
theorem Store.call_row (ids : Identities) {s : Store} {k : Key} {l : Limit}
    (hl : s.limitOf k = some l) (c : Call) (t : Buckets) :
    ((s.call ids c t).2.lookup k = t.lookup k ∧
        ¬ ((s.call ids c t).1 = true ∧ k ∈ c.op.keys ids s)) ∨
      k ∈ c.op.keys ids s ∧ ∃ charge, Charged c.clock l (truncMilli (c.reading ids s))
        (t.lookup k) ((s.call ids c t).2.lookup k) charge ∧
        ((s.call ids c t).1 = true → charge = true) := by
  obtain ⟨hother, hsource, hbusiness⟩ := s.call_spec ids c t
  by_cases hk : k ∈ c.op.keys ids s
  · obtain ⟨spec, hspec, rfl⟩ := Operation.mem_keys.mp hk
    obtain rfl : spec.limit = l :=
      Option.some.inj ((Operation.limitOf_eq hspec).symm.trans hl)
    obtain hattempt | hmem := List.mem_append.mp hspec
    · obtain ⟨j, hnew, haccepted⟩ := hsource spec (Option.mem_toList.mp hattempt)
      exact .inr ⟨hk, _, ⟨j, hnew, of_decide_eq_true⟩, fun h => decide_eq_true (haccepted h)⟩
    · obtain hcharged | ⟨hrejected, hsame⟩ := hbusiness
      · exact .inr ⟨hk, _, hcharged spec hmem, fun h => h⟩
      · refine .inl ⟨hsame spec hmem, fun h => ?_⟩
        rw [hrejected] at h
        cases h.1
  · exact .inl ⟨hother k hk, fun h => hk h.2⟩

/-! ## The arithmetic of a refill -/

/-- The interval is a whole number of milliseconds. -/
def Limit.WholeMillis (l : Limit) : Prop := millisecond ∣ l.refill

/-- A refill adds the intervals that have passed, moves the refill instant by as many and not
beyond the clock, and leaves less than an interval to it. -/
theorem Limit.refill_spec (l : Limit) (b : Bucket) (now : ℤ) :
    ∃ a, 0 ≤ a ∧
      (refillRateLimitBucket b l.capacity l.refill now).lastRefilled =
        b.lastRefilled + a * l.refill ∧
      (refillRateLimitBucket b l.capacity l.refill now).tokens =
        min l.capacity (min b.tokens l.capacity + a) ∧
      (0 < a → b.lastRefilled + a * l.refill ≤ now) ∧
      (now - b.lastRefilled ≤ maxDuration → now < b.lastRefilled + a * l.refill + l.refill) := by
  have hr := l.refill_pos
  have hclip : (if l.capacity < b.tokens then l.capacity else b.tokens) =
      min b.tokens l.capacity := by
    split_ifs <;> omega
  unfold refillRateLimitBucket
  dsimp only
  rw [hclip]
  split_ifs with hnow helapsed
  · refine ⟨0, le_refl 0, by simp, by simp, nofun, fun _ => ?_⟩
    omega
  · refine ⟨0, le_refl 0, by simp, by simp, nofun, fun hle => ?_⟩
    rw [min_eq_left hle] at helapsed
    omega
  all_goals
    have hdiv := Int.ediv_mul_le (min (now - b.lastRefilled) maxDuration) hr.ne'
    have hlt := Int.lt_ediv_add_one_mul_self (min (now - b.lastRefilled) maxDuration) hr
    rw [Int.add_mul, Int.one_mul] at hlt
    refine ⟨_, Int.ediv_nonneg (by omega) hr.le, rfl, ?_, fun _ => by omega, fun hle => ?_⟩
    · dsimp only
      omega
    · rw [min_eq_left hle] at hlt ⊢
      omega

section Row

variable {l : Limit} {now e : ℤ} {clock : ℕ → ℤ} {old new : Option Row} {row : Row}
  {charge : Bool}

theorem refill_tokens_nonneg {b : Bucket} (hb : 0 ≤ b.tokens) (l : Limit) (now : ℤ) :
    0 ≤ (refillRateLimitBucket b l.capacity l.refill now).tokens :=
  le_trans (le_min hb l.capacity_pos.le) (le_refill_tokens _ _ _ _)

theorem settled_tokens (b : Bucket) :
    (settled l charge b).tokens = b.tokens - if charge then 1 else 0 := by
  cases charge with
  | true => rfl
  | false => exact (Int.sub_zero _).symm

theorem settled_lastRefillAt (b : Bucket) :
    (settled l charge b).lastRefillAt = truncMicro b.lastRefilled := by
  cases charge <;> rfl

/-- The row is within the capacity. -/
def Within (l : Limit) (row : Row) : Prop := 0 ≤ row.tokens ∧ row.tokens ≤ l.capacity

/-- What is opened is within the capacity. -/
theorem opened_within (reading : ℤ) (h : ∀ row ∈ old, Within l row) :
    0 ≤ (opened l reading old).tokens ∧ (opened l reading old).tokens ≤ l.capacity := by
  cases old with
  | none => exact ⟨l.capacity_pos.le, le_refl _⟩
  | some row => exact h row rfl

/-- A row that is written back is within the capacity. -/
theorem Charged.within (h : Charged clock l now old new charge)
    (hold : ∀ row ∈ old, Within l row) : ∀ row ∈ new, Within l row := by
  obtain ⟨j, rfl, htoken⟩ := h
  intro row hrow
  obtain rfl := Option.mem_some_iff.mp hrow
  have hle : (refilled l now (clock j) old).tokens ≤ l.capacity := refill_tokens_le _ _ _ _
  have hnonneg : 0 ≤ (refilled l now (clock j) old).tokens :=
    refill_tokens_nonneg (opened_within _ hold).1 l now
  unfold Within
  rw [settled_tokens]
  cases charge with
  | true =>
      have := htoken rfl
      simp only [if_true]
      omega
  | false => exact ⟨by simpa using hnonneg, by simpa using hle⟩

/-- A clock that is not after the refill instant adds nothing. -/
theorem Charged.no_refill (h : Charged clock l now (some row) new charge)
    (hnow : now ≤ truncMilli row.lastRefillAt) : ∀ row' ∈ new, row'.tokens ≤ row.tokens := by
  obtain ⟨j, rfl, -⟩ := h
  intro row' hrow'
  obtain rfl := Option.mem_some_iff.mp hrow'
  have hsame : (refilled l now (clock j) (some row)).tokens = min row.tokens l.capacity := by
    unfold refilled refillRateLimitBucket
    rw [if_pos (.inr hnow)]
    show (if l.capacity < row.tokens then l.capacity else row.tokens) = _
    split_ifs <;> omega
  rw [settled_tokens, hsame]
  split_ifs <;> omega

theorem truncMilli_idem (t : ℤ) : truncMilli (truncMilli t) = truncMilli t := by
  unfold truncMilli millisecond microsecond
  omega

theorem truncMicro_truncMilli (t : ℤ) : truncMicro (truncMilli t) = truncMilli t := by
  unfold truncMicro truncMilli millisecond microsecond
  omega

/-- A bucket without a token is written back as it was opened. -/
theorem Charged.no_delay (h : Charged clock l now (some row) new charge)
    (hrow : Within l row) (j : ℕ) (hempty : (refilled l now (clock j) (some row)).tokens < 1) :
    ∃ row', new = some row' ∧ opened l 0 (some row') = opened l 0 (some row) := by
  obtain ⟨j', rfl, htoken⟩ := h
  have hsame : refilled l now (clock j') (some row) = refilled l now (clock j) (some row) := rfl
  rw [hsame] at htoken ⊢
  refine ⟨_, rfl, ?_⟩
  have hcharge : charge = false := by
    cases charge with
    | true =>
        have := htoken rfl
        omega
    | false => rfl
  subst hcharge
  obtain ⟨a, ha, hlast, htokens, -, -⟩ :=
    l.refill_spec (opened l (clock j) (some row)) now
  have hcap := l.capacity_pos
  obtain ⟨hlo, hhi⟩ := hrow
  have hopened : (opened l (clock j) (some row)).tokens = row.tokens := rfl
  unfold refilled at hempty ⊢
  rw [hopened] at htokens
  have hzero : a = 0 ∧ row.tokens = 0 := by omega
  obtain ⟨rfl, hzero⟩ := hzero
  have hlast' : (refillRateLimitBucket (opened l (clock j) (some row)) l.capacity l.refill
      now).lastRefilled = truncMilli row.lastRefillAt := by
    rw [hlast, Int.zero_mul, Int.add_zero]
    rfl
  have htokens' : (refillRateLimitBucket (opened l (clock j) (some row)) l.capacity l.refill
      now).tokens = row.tokens := by
    rw [htokens]
    omega
  show (⟨(settled l false _).tokens, truncMilli (settled l false _).lastRefillAt⟩ : Bucket) =
    ⟨row.tokens, truncMilli row.lastRefillAt⟩
  rw [settled_tokens, settled_lastRefillAt, hlast', htokens', truncMicro_truncMilli,
    truncMilli_idem]
  simp

/-! ## What a row can still give -/

/-- The tokens of a row and the intervals that it still gains until `e`. -/
def budget (l : Limit) (e : ℤ) (row : Row) : ℤ :=
  row.tokens + max 0 ((e - truncMilli row.lastRefillAt) / l.refill)

theorem budget_nonneg (h : 0 ≤ row.tokens) : 0 ≤ budget l e row := by
  unfold budget
  omega

/-- Whole milliseconds are stored and loaded as they are. -/
theorem trunc_of_dvd {t : ℤ} (h : millisecond ∣ t) : truncMilli (truncMicro t) = t := by
  obtain ⟨n, rfl⟩ := h
  unfold truncMilli truncMicro millisecond microsecond
  omega

theorem dvd_truncMilli (t : ℤ) : millisecond ∣ truncMilli t := Dvd.intro_left _ rfl

/-- What is opened was refilled at a whole millisecond. -/
theorem dvd_opened (reading : ℤ) (old : Option Row) :
    millisecond ∣ (opened l reading old).lastRefilled := by
  cases old <;> exact dvd_truncMilli _

/-- The refill instant of a row that was written back. -/
theorem settled_loaded (hwhole : l.WholeMillis) (charge : Bool) (now : ℤ) (old : Option Row)
    {a : ℤ} (j : ℕ) (hlast : (refilled l now (clock j) old).lastRefilled =
      (opened l (clock j) old).lastRefilled + a * l.refill) :
    truncMilli (settled l charge (refilled l now (clock j) old)).lastRefillAt =
      (opened l (clock j) old).lastRefilled + a * l.refill := by
  rw [settled_lastRefillAt, hlast]
  exact trunc_of_dvd (Int.dvd_add (dvd_opened _ _) (Dvd.dvd.mul_left hwhole a))

/-- **Step.**  A call that is read by `e` does not add to the budget, and a charge takes one
token of it.

The budget counts what the row has and what it will have got by `e`.  A refill moves tokens from the
second to the first and changes nothing in the sum, up to what the capacity cuts off. -/
theorem budget_step (hwhole : l.WholeMillis) (h : Charged clock l now (some row) new charge)
    (hnow : now ≤ e) :
    ∀ row' ∈ new, budget l e row' + (if charge then 1 else 0) ≤ budget l e row := by
  obtain ⟨j, rfl, -⟩ := h
  intro row' hrow'
  obtain rfl := Option.mem_some_iff.mp hrow'
  obtain ⟨a, ha, hlast, htokens, hreach, -⟩ := l.refill_spec (opened l (clock j) (some row)) now
  have hloaded := settled_loaded hwhole charge now (some row) j hlast
  have hopened : opened l (clock j) (some row) = ⟨row.tokens, truncMilli row.lastRefillAt⟩ := rfl
  have hr := l.refill_pos
  unfold budget
  rw [hloaded, settled_tokens]
  have htok : (refilled l now (clock j) (some row)).tokens ≤ row.tokens + a := by
    show (refillRateLimitBucket _ _ _ _).tokens ≤ _
    rw [htokens, hopened]
    dsimp only
    omega
  rw [hopened] at hreach ⊢
  dsimp only at hreach ⊢
  -- the intervals that were added are those that are no longer ahead
  have hdiv : (e - (truncMilli row.lastRefillAt + a * l.refill)) / l.refill =
      (e - truncMilli row.lastRefillAt) / l.refill - a := by
    rw [show e - (truncMilli row.lastRefillAt + a * l.refill) =
      e - truncMilli row.lastRefillAt + -a * l.refill by rw [Int.neg_mul]; omega,
      Int.add_mul_ediv_right _ _ hr.ne']
    omega
  rw [hdiv]
  obtain rfl | hpos := ha.eq_or_lt
  · split_ifs <;> omega
  · have hahead : a ≤ (e - truncMilli row.lastRefillAt) / l.refill :=
      (Int.le_ediv_iff_mul_le hr).mpr (by have := hreach hpos; omega)
    split_ifs <;> omega

/-- **First.**  The first call of a window leaves a budget of the capacity and the intervals of
the window and one more. -/
theorem budget_first (hwhole : l.WholeMillis) {start length : ℤ} (hlength : 0 ≤ length)
    (h : Charged clock l now old new charge) (hnow : millisecond ∣ now)
    (hstart : truncMilli start ≤ now)
    (htimely : ∀ j, now - (opened l (clock j) old).lastRefilled ≤ maxDuration) :
    ∀ row' ∈ new, budget l (truncMilli (start + length)) row' + (if charge then 1 else 0) ≤
      l.capacity + length / l.refill + 1 := by
  obtain ⟨j, rfl, -⟩ := h
  intro row' hrow'
  obtain rfl := Option.mem_some_iff.mp hrow'
  obtain ⟨a, ha, hlast, -, -, hclose⟩ := l.refill_spec (opened l (clock j) old) now
  have hloaded := settled_loaded hwhole charge now old j hlast
  have hr := l.refill_pos
  have hle : (refilled l now (clock j) old).tokens ≤ l.capacity := refill_tokens_le _ _ _ _
  have hwithin := hclose (htimely j)
  have hlambda : millisecond ∣ (opened l (clock j) old).lastRefilled + a * l.refill :=
    Int.dvd_add (dvd_opened _ _) (Dvd.dvd.mul_left hwhole a)
  unfold budget
  rw [hloaded, settled_tokens]
  generalize (opened l (clock j) old).lastRefilled + a * l.refill = last at *
  -- on whole milliseconds the refill instant is at most an interval less one behind
  have hbehind : now + millisecond ≤ last + l.refill := by
    obtain ⟨n, hn⟩ := hnow
    obtain ⟨m, hm⟩ := hlambda
    obtain ⟨i, hi⟩ := hwhole
    unfold millisecond microsecond at *
    omega
  have hahead : truncMilli (start + length) - last ≤ length + 1 * l.refill := by
    unfold truncMilli millisecond microsecond at *
    omega
  have hdiv := Int.ediv_le_ediv hr hahead
  rw [Int.add_mul_ediv_right _ _ hr.ne'] at hdiv
  have hpos := Int.ediv_nonneg hlength hr.le
  split_ifs <;> omega

end Row

/-! ## Many calls -/

namespace Store

/-- The calls with their answers. -/
def answers (ids : Identities) (s : Store) : List Call → Buckets → List (Call × Bool)
  | [], _ => []
  | c :: cs, t => (c, (s.call ids c t).1) :: s.answers ids cs (s.call ids c t).2

/-- The accepted calls that charge a bucket and are read within a window. -/
def acceptedWithin (ids : Identities) (s : Store) (k : Key) (start length : ℤ)
    (cs : List Call) (t : Buckets) : ℕ :=
  (s.answers ids cs t).countP fun x => x.2 && decide (k ∈ x.1.op.keys ids s) &&
    decide (start ≤ x.1.reading ids s ∧ x.1.reading ids s ≤ start + length)

/-- The clock readings of the calls that charge a bucket do not decrease. -/
def Ordered (ids : Identities) (s : Store) (k : Key) (cs : List Call) : Prop :=
  cs.Pairwise fun c c' => k ∈ c.op.keys ids s → k ∈ c'.op.keys ids s →
    c.reading ids s ≤ c'.reading ids s

/-- No call reads the clock more than the largest duration behind the refill instant of the
bucket's row, or behind its own first statement. -/
def Timely (ids : Identities) (s : Store) (k : Key) : List Call → Buckets → Prop
  | [], _ => True
  | c :: cs, t =>
      (k ∈ c.op.keys ids s →
        truncMilli (c.reading ids s) - truncMilli (c.clock 0) ≤ maxDuration ∧
        ∀ row ∈ t.lookup k,
          truncMilli (c.reading ids s) - truncMilli row.lastRefillAt ≤ maxDuration) ∧
      s.Timely ids k cs (s.call ids c t).2

instance decidableTimely (ids : Identities) (s : Store) (k : Key) :
    ∀ (cs : List Call) (t : Buckets), Decidable (s.Timely ids k cs t)
  | [], _ => .isTrue trivial
  | c :: cs, t =>
      have := decidableTimely ids s k cs (s.call ids c t).2
      inferInstanceAs (Decidable ((k ∈ c.op.keys ids s →
        truncMilli (c.reading ids s) - truncMilli (c.clock 0) ≤ maxDuration ∧
        ∀ row ∈ t.lookup k,
          truncMilli (c.reading ids s) - truncMilli row.lastRefillAt ≤ maxDuration) ∧ _))

section Runs

variable {k : Key} {l : Limit} {start length : ℤ}

theorem acceptedWithin_cons (c : Call) (cs : List Call) (t : Buckets) :
    s.acceptedWithin ids k start length (c :: cs) t =
      s.acceptedWithin ids k start length cs (s.call ids c t).2 +
        if (s.call ids c t).1 = true ∧ k ∈ c.op.keys ids s ∧ start ≤ c.reading ids s ∧
          c.reading ids s ≤ start + length then 1 else 0 := by
  unfold acceptedWithin
  rw [answers, List.countP_cons]
  simp only [Bool.and_eq_true, decide_eq_true_eq, and_assoc]

/-- Behind the window nothing counts. -/
theorem acceptedWithin_eq_zero (cs : List Call) :
    ∀ t : Buckets, (∀ c ∈ cs, k ∈ c.op.keys ids s → start + length < c.reading ids s) →
      s.acceptedWithin ids k start length cs t = 0 := by
  induction cs with
  | nil => exact fun _ _ => rfl
  | cons c cs ih =>
      intro t h
      rw [acceptedWithin_cons, ih _ fun c' hc' => h c' (List.mem_cons_of_mem _ hc'), if_neg]
      rintro ⟨-, hk, -, hle⟩
      exact absurd hle (not_le.mpr (h c List.mem_cons_self hk))

/-- The tokens stay within the capacity. -/
theorem within_call (ids : Identities) (hl : s.limitOf k = some l) (c : Call) {t : Buckets}
    (h : ∀ row ∈ t.lookup k, Within l row) :
    ∀ row ∈ (s.call ids c t).2.lookup k, Within l row := by
  obtain ⟨hsame, -⟩ | ⟨-, charge, hcharged, -⟩ := s.call_row ids hl c t
  · rw [hsame]
    exact h
  · exact hcharged.within h

theorem within_calls (ids : Identities) (hl : s.limitOf k = some l) (cs : List Call) :
    ∀ {t : Buckets}, (∀ row ∈ t.lookup k, Within l row) →
      ∀ row ∈ (s.calls ids cs t).lookup k, Within l row := by
  induction cs with
  | nil => exact fun h => h
  | cons c cs ih => exact fun h => ih (s.within_call ids hl c h)

/-- Where a row has a budget, the rest of the window accepts no more than that. -/
theorem acceptedWithin_le_budget (ids : Identities) (start length : ℤ)
    (hl : s.limitOf k = some l) (hwhole : l.WholeMillis) (cs : List Call) :
    ∀ {t : Buckets} {row : Row}, t.lookup k = some row → Within l row →
      s.Ordered ids k cs →
      (s.acceptedWithin ids k start length cs t : ℤ) ≤
        budget l (truncMilli (start + length)) row := by
  induction cs with
  | nil => exact fun _ hwithin _ => budget_nonneg hwithin.1
  | cons c cs ih =>
      intro t row hrow hwithin hordered
      obtain ⟨hfirst, hordered⟩ := List.pairwise_cons.mp hordered
      rw [acceptedWithin_cons, Nat.cast_add]
      obtain ⟨hsame, hno⟩ | ⟨hk, charge, hcharged, haccepted⟩ := s.call_row ids hl c t
      · rw [if_neg fun h => hno ⟨h.1, h.2.1⟩]
        simpa using ih (hsame.trans hrow) hwithin hordered
      · by_cases hlate : start + length < c.reading ids s
        · rw [if_neg fun h => absurd h.2.2.2 (not_le.mpr hlate),
            s.acceptedWithin_eq_zero cs _ fun c' hc' hk' =>
              lt_of_lt_of_le hlate (hfirst c' hc' hk hk')]
          simpa using budget_nonneg hwithin.1
        · have hnow := truncMilli_mono (not_lt.mp hlate)
          obtain ⟨row', hrow'⟩ : ∃ row', (s.call ids c t).2.lookup k = some row' := by
            obtain ⟨j, hnew, -⟩ := hcharged
            exact ⟨_, hnew⟩
          have hwithin' : Within l row' := s.within_call ids hl c
            (fun r hr => by rw [hrow] at hr; cases hr; exact hwithin) row' hrow'
          rw [hrow] at hcharged
          have hstep := budget_step hwhole hcharged hnow row' hrow'
          have hrest := ih hrow' hwithin' hordered
          have hone : ((if (s.call ids c t).1 = true ∧ k ∈ c.op.keys ids s ∧
              start ≤ c.reading ids s ∧ c.reading ids s ≤ start + length then 1 else 0 : ℕ) : ℤ) ≤
              if charge then 1 else 0 := by
            split_ifs with h hcharge
            · exact le_refl _
            · exact absurd (haccepted h.1) hcharge
            · exact zero_le_one
            · exact le_refl _
          omega

/-- **The window.**  However the calls are spaced, a window accepts no more than the capacity,
the intervals of its length and one more.

Each accepted call takes one from the budget, no call adds to it, and it was bounded after the first
call of the window. -/
theorem acceptedWithin_le (hl : s.limitOf k = some l) (hwhole : l.WholeMillis)
    (hlength : 0 ≤ length) (cs : List Call) :
    ∀ {t : Buckets}, (∀ row ∈ t.lookup k, Within l row) → s.Ordered ids k cs →
      s.Timely ids k cs t →
      (s.acceptedWithin ids k start length cs t : ℤ) ≤ l.capacity + length / l.refill + 1 := by
  have hpos := Int.ediv_nonneg hlength l.refill_pos.le
  have hcap := l.capacity_pos
  induction cs with
  | nil =>
      intro t _ _ _
      show ((0 : ℕ) : ℤ) ≤ _
      omega
  | cons c cs ih =>
      intro t hwithin hordered htimely
      obtain ⟨hfirst, hordered⟩ := List.pairwise_cons.mp hordered
      obtain ⟨hclock, htimely⟩ := htimely
      have hwithin' := s.within_call ids hl c hwithin
      -- a call that is not counted leaves the window to the rest
      have hrest := ih hwithin' hordered htimely
      rw [acceptedWithin_cons]
      by_cases hcounts : (s.call ids c t).1 = true ∧ k ∈ c.op.keys ids s ∧
          start ≤ c.reading ids s ∧ c.reading ids s ≤ start + length
      · -- the first accepted call of the window sets the budget of the rest
        rw [if_pos hcounts]
        obtain ⟨haccept, hk, hlo, -⟩ := hcounts
        obtain ⟨-, hno⟩ | ⟨-, charge, hcharged, haccepted⟩ := s.call_row ids hl c t
        · exact absurd ⟨haccept, hk⟩ hno
        · obtain rfl := haccepted haccept
          obtain ⟨row', hrow'⟩ : ∃ row', (s.call ids c t).2.lookup k = some row' := by
            obtain ⟨j, hnew, -⟩ := hcharged
            exact ⟨_, hnew⟩
          obtain ⟨hown, hrows⟩ := hclock hk
          have hopen : ∀ j, truncMilli (c.reading ids s) -
              (opened l (c.clock j) (t.lookup k)).lastRefilled ≤ maxDuration := by
            intro j
            cases hlookup : t.lookup k with
            | some row => exact hrows row hlookup
            | none =>
                have hmono := truncMilli_mono (c.mono (Nat.zero_le j))
                show _ - truncMilli (c.clock j) ≤ _
                omega
          have hbudget := budget_first hwhole hlength hcharged (dvd_truncMilli _)
            (truncMilli_mono hlo) hopen row' hrow'
          have htail := s.acceptedWithin_le_budget ids start length hl hwhole cs hrow'
            (hwithin' row' hrow') hordered
          rw [if_pos rfl] at hbudget
          push_cast
          omega
      · rw [if_neg hcounts]
        simpa using hrest

end Runs

end Store

/-- The rules of one bucket under any sequence of calls.  Its row stays within the capacity, and
a clock that is not after the refill instant adds nothing.  Where the interval is a whole number
of milliseconds and the clock is never read more than the largest duration behind the refill
instant, a window accepts no more than its share.  A call that finds the bucket empty leaves it
as it would be found anyway.  The business buckets are charged together, or not at all, and the
source loses a token whenever it has one.

The five parts are about the same row, after any sequence of calls.  It never holds more than the
capacity; a clock that goes back gives nothing; a window of any length accepts what a full bucket
and the intervals within it can give, and one more; an empty bucket that is asked again is not
pushed further away; and one call charges all the buckets of its business limits or none of them.
The third part needs whole milliseconds, the unit in which a row is kept. -/
theorem Store.bucket_spec (ids : Identities) (s : Store) {k : Key} {l : Limit}
    (hl : s.limitOf k = some l) (cs : List Call) {t : Buckets}
    (hstart : ∀ row ∈ t.lookup k, Within l row) :
    (∀ row ∈ (s.calls ids cs t).lookup k, Within l row) ∧
    (∀ (c : Call) (row : Row), (s.calls ids cs t).lookup k = some row →
      c.reading ids s ≤ row.lastRefillAt →
      ∀ row' ∈ (s.call ids c (s.calls ids cs t)).2.lookup k, row'.tokens ≤ row.tokens) ∧
    (l.WholeMillis → s.Ordered ids k cs → s.Timely ids k cs t →
      ∀ start length, 0 ≤ length →
        (s.acceptedWithin ids k start length cs t : ℤ) ≤
          l.capacity + length / l.refill + 1) ∧
    (∀ (c : Call) (row : Row), (s.calls ids cs t).lookup k = some row →
      (refilled l (truncMilli (c.reading ids s)) 0 (some row)).tokens < 1 →
      ∃ row', (s.call ids c (s.calls ids cs t)).2.lookup k = some row' ∧
        ∀ now, refilled l now 0 (some row') = refilled l now 0 (some row)) ∧
    ∀ c : Call,
      (∀ attempt ∈ c.op.attempt ids s, ChargedIfAny c.clock attempt.limit
        (truncMilli (c.reading ids s)) ((s.calls ids cs t).lookup (attempt.key c.op.ns))
        ((s.call ids c (s.calls ids cs t)).2.lookup (attempt.key c.op.ns))
        (s.call ids c (s.calls ids cs t)).1) ∧
      ((∀ spec ∈ c.op.business ids s, Charged c.clock spec.limit
        (truncMilli (c.reading ids s)) ((s.calls ids cs t).lookup (spec.key c.op.ns))
        ((s.call ids c (s.calls ids cs t)).2.lookup (spec.key c.op.ns))
        (s.call ids c (s.calls ids cs t)).1) ∨
        (s.call ids c (s.calls ids cs t)).1 = false ∧ ∀ spec ∈ c.op.business ids s,
          (s.call ids c (s.calls ids cs t)).2.lookup (spec.key c.op.ns) =
            (s.calls ids cs t).lookup (spec.key c.op.ns)) := by
  have hwithin := s.within_calls ids hl cs hstart
  refine ⟨hwithin, fun c row hrow hread => ?_, fun hwhole hordered htimely start length hlength =>
    s.acceptedWithin_le hl hwhole hlength cs hstart hordered htimely, fun c row hrow hempty => ?_,
    fun c => (s.call_spec ids c _).2⟩
  · obtain ⟨hsame, -⟩ | ⟨-, charge, hcharged, -⟩ := s.call_row ids hl c (s.calls ids cs t)
    · intro row' hrow'
      rw [hsame, hrow] at hrow'
      cases hrow'
      exact le_refl _
    · rw [hrow] at hcharged
      exact hcharged.no_refill (truncMilli_mono hread)
  · obtain ⟨hsame, -⟩ | ⟨-, charge, hcharged, -⟩ := s.call_row ids hl c (s.calls ids cs t)
    · exact ⟨row, hsame.trans hrow, fun _ => rfl⟩
    · rw [hrow] at hcharged
      obtain ⟨row', hrow', hopened⟩ := hcharged.no_delay (hwithin row hrow) 0 hempty
      refine ⟨row', hrow', fun now => ?_⟩
      unfold refilled
      rw [hopened]

namespace Demo

/-- A setup attempt, some milliseconds after the epoch. -/
def setupAtMilli (millis : ℤ) : Call where
  op := .allowSetup "192.0.2.1"
  clock _ := millis * millisecond
  mono := monotone_const

/-- The bucket of the setup attempts. -/
def setupKey : Key := ⟨.setup, .ip, 1⟩

/-- One setup attempt in a millisecond and a half. -/
def uneven : Store := { Store.fallback with setupIP := ⟨1, 1500000, by decide⟩ }

/-- Attempts at every millisecond from the second on. -/
def attempts : List Call := [0, 2, 3, 4, 5, 6, 7, 8].map setupAtMilli

/-- With an interval of a millisecond and a half, seven attempts are accepted in six
milliseconds, which is one too many. -/
theorem window_exceeded :
    ¬ ∀ (ids : Identities) (s : Store) (k : Key) (l : Limit), s.limitOf k = some l →
      ∀ (cs : List Call) (t : Buckets), (∀ row ∈ t.lookup k, Within l row) →
      s.Ordered ids k cs → s.Timely ids k cs t → ∀ start length, 0 ≤ length →
        (s.acceptedWithin ids k start length cs t : ℤ) ≤
          l.capacity + length / l.refill + 1 := by
  intro h
  have hwindow := h identities uneven setupKey ⟨1, 1500000, by decide⟩ rfl attempts ∅
    (by intro row hrow; rw [AList.lookup_empty] at hrow; cases hrow)
    (by unfold Store.Ordered; decide +kernel) (by decide +kernel)
    (2 * millisecond) (6 * millisecond) (by decide)
  revert hwindow
  decide +kernel

/-- One attempt a minute: the second of two attempts waits, and the bucket with it. -/
theorem bucket_spec_attempts :
    (∀ row ∈ (server.calls identities [setupAt 0, setupAt 30] ∅).lookup setupKey,
      Within ⟨1, 60 * second, by decide⟩ row) ∧
    (server.acceptedWithin identities setupKey 0 (30 * second) [setupAt 0, setupAt 30] ∅ : ℤ) ≤
      1 + 30 * second / (60 * second) + 1 ∧
    ∃ row', (server.call identities (setupAt 59)
        (server.calls identities [setupAt 0, setupAt 30] ∅)).2.lookup setupKey = some row' ∧
      refilled ⟨1, 60 * second, by decide⟩ (60 * second) 0 (some row') =
        refilled ⟨1, 60 * second, by decide⟩ (60 * second) 0
          (some ⟨0, 0, retention ⟨1, 60 * second, by decide⟩⟩) := by
  obtain ⟨hwithin, -, hwindow, hdelay, -⟩ := Store.bucket_spec identities server (k := setupKey)
    (l := ⟨1, 60 * second, by decide⟩) rfl [setupAt 0, setupAt 30] (t := ∅)
    (by intro row hrow; rw [AList.lookup_empty] at hrow; cases hrow)
  refine ⟨hwithin, ?_, ?_⟩
  · exact hwindow (by unfold Limit.WholeMillis; decide)
      (by unfold Store.Ordered; decide +kernel) (by decide +kernel) 0 (30 * second) (by decide)
  · obtain ⟨row', hrow', hsame⟩ := hdelay (setupAt 59)
      ⟨0, 0, retention ⟨1, 60 * second, by decide⟩⟩ (by decide +kernel) (by decide +kernel)
    exact ⟨row', hrow', hsame (60 * second)⟩

end Demo

end BindPlane.Limiter
