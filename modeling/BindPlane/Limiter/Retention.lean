import BindPlane.Limiter.Store

/-!
# A deleted bucket and a kept one

Two runs of the limiter, one on a table that the cleanup has shortened and one on the table as
it was.

**What differs.**  `Alike` relates the two tables: rows that were not removed are equal, and a
removed row that no call has used since is missing in one table and expired in the other.
`Alike.call` is the step: a call that uses no removed row for a second time has one answer.

**Why.**  The missing bucket is created full, and the kept one is full when it is refilled,
since it was not refilled for the retention of the policy (`Limit.refill_of_retention`).  Both
then lose the same token.

The tables part on the second use of a removed row: a row that is created again counts its
intervals from there, while the kept row counts them from its own last refill.  Hence
`Reachable.cleanup_answer` is about the calls up to that, and `Demo.cleanup_answers_differ`
shows that it cannot go further.

**The operation that is not on the list.**  A change of address is limited as well, and the cleanup
does not know its policy: such a row is deleted by the deadline that was stored with it.  If the
policy has become longer in the meantime the row is missed at once, and the first call behind the
cleanup is answered otherwise.  The results here leave these rows out.
-/

namespace BindPlane.Limiter

variable {ids : Identities} {s : Store}

/-! ## Tokens are never owed -/

/-- No row has a negative number of tokens. -/
def Buckets.Solvent (t : Buckets) : Prop :=
  ∀ k row, t.lookup k = some row → 0 ≤ row.tokens

theorem Buckets.Solvent.insert {t : Buckets} (h : t.Solvent) {k : Key} {row : Row}
    (hrow : 0 ≤ row.tokens) : Buckets.Solvent (t.insert k row) := by
  intro k' row' hlookup
  by_cases hk : k' = k
  · subst hk
    rw [AList.lookup_insert] at hlookup
    cases hlookup
    exact hrow
  · rw [AList.lookup_insert_ne hk] at hlookup
    exact h k' row' hlookup

theorem Buckets.Solvent.ensure {t : Buckets} (h : t.Solvent) (ns : Namespace) (spec : Spec)
    (clock : ℤ) :
    0 ≤ (ensureRateLimitBucket ns spec clock t).1.tokens ∧
      Buckets.Solvent (ensureRateLimitBucket ns spec clock t).2 := by
  cases hrow : t.lookup (spec.key ns) with
  | some row =>
      rw [ensure_of_some hrow]
      exact ⟨h _ row hrow, h⟩
  | none =>
      rw [ensure_of_none hrow]
      have hcap := spec.limit.capacity_pos.le
      exact ⟨hcap, h.insert hcap⟩

theorem Buckets.Solvent.ensureEach (ns : Namespace) (clock : ℕ → ℤ) (specs : List Spec) :
    ∀ (n : ℕ) {t : Buckets}, t.Solvent →
      (∀ b ∈ (Limiter.ensureEach ns clock n specs t).1, 0 ≤ b.bucket.tokens) ∧
        Buckets.Solvent (Limiter.ensureEach ns clock n specs t).2 := by
  induction specs with
  | nil => exact fun n t h => ⟨fun b hb => absurd hb List.not_mem_nil, h⟩
  | cons spec rest ih =>
      intro n t h
      obtain ⟨htokens, hfirst⟩ := h.ensure ns spec (clock n)
      obtain ⟨hrest, hlast⟩ := ih (n + 1) hfirst
      refine ⟨?_, hlast⟩
      intro b hb
      rcases List.mem_cons.mp hb with rfl | hb
      · exact htokens
      · exact hrest b hb

theorem Spec.refill_nonneg (spec : Spec) (now : ℤ) {b : Bucket} (h : 0 ≤ b.tokens) :
    0 ≤ (spec.refill now b).tokens :=
  le_trans (le_min h spec.limit.capacity_pos.le) (le_refill_tokens _ _ _ _)

theorem refillAll_nonneg {bs : List RefilledBucket} (now : ℤ)
    (h : ∀ b ∈ bs, 0 ≤ b.bucket.tokens) : ∀ b ∈ refillAll now bs, 0 ≤ b.bucket.tokens := by
  intro b hb
  obtain ⟨x, hx, rfl⟩ := List.mem_map.mp hb
  exact x.spec.refill_nonneg now (h x hx)

theorem Buckets.Solvent.updateAll {ns : Namespace} {charge : Bool} (bs : List RefilledBucket) :
    ∀ {t : Buckets}, t.Solvent → (∀ b ∈ bs, (if charge then 1 else 0) ≤ b.bucket.tokens) →
      Buckets.Solvent (Limiter.updateAll ns charge bs t) := by
  induction bs with
  | nil => exact fun h _ => h
  | cons b bs ih =>
      intro t h hbs
      have hb := hbs b List.mem_cons_self
      refine ih (h.insert ?_) fun b' hb' => hbs b' (List.mem_cons_of_mem b hb')
      show 0 ≤ Bucket.tokens (if charge then _ else _)
      cases charge with
      | true => exact Int.sub_nonneg_of_le hb
      | false => exact hb

/-- What `allowed` has checked, or what is known anyway. -/
theorem allowed_le {bs : List RefilledBucket} (h : ∀ b ∈ bs, 0 ≤ b.bucket.tokens) :
    ∀ b ∈ bs, (if allowed bs then 1 else 0) ≤ b.bucket.tokens := by
  intro b hb
  split
  · next hall => exact of_decide_eq_true (List.all_eq_true.mp hall b hb)
  · exact h b hb

theorem Buckets.Solvent.call {t : Buckets} (h : t.Solvent) (c : Call) :
    Buckets.Solvent (s.call ids c t).2 := by
  unfold Store.call
  cases c.op.attempt ids s with
  | none =>
      obtain ⟨hbs, ht⟩ := Buckets.Solvent.ensureEach c.op.ns c.clock
        ((c.op.business ids s).insertionSort Spec.before) 0 h
      exact ht.updateAll _ (allowed_le (refillAll_nonneg _ hbs))
  | some attempt =>
      obtain ⟨htokens, hfirst⟩ := h.ensure c.op.ns attempt (c.clock 0)
      have hsource := attempt.refill_nonneg (truncMilli (c.clock 1)) htokens
      show Buckets.Solvent (allowAttemptAndBuckets _ _ _ _ _).2
      unfold allowAttemptAndBuckets
      dsimp only
      split
      · exact hfirst.insert hsource
      · next hone =>
          obtain ⟨hbs, ht⟩ := Buckets.Solvent.ensureEach c.op.ns c.clock
            ((c.op.business ids s).insertionSort Spec.before) 2 hfirst
          refine Buckets.Solvent.updateAll _ (ht.insert ?_)
            (allowed_le (refillAll_nonneg _ hbs))
          show 0 ≤ _ - (1 : ℤ)
          omega

theorem Buckets.Solvent.erase {t : Buckets} (h : t.Solvent) (k : Key) :
    Buckets.Solvent (t.erase k) := by
  intro k' row hlookup
  by_cases hk : k' = k
  · subst hk
    rw [AList.lookup_erase] at hlookup
    cases hlookup
  · rw [AList.lookup_erase_ne hk] at hlookup
    exact h k' row hlookup

theorem Reachable.solvent {now : ℤ} {t : Buckets} (h : Reachable ids now t) : t.Solvent := by
  induction h with
  | init now =>
      intro k row hlookup
      rw [AList.lookup_empty] at hlookup
      cases hlookup
  | tick _ _ ih => exact ih
  | call s c _ _ _ ih => exact ih.call c
  | cleanup s batchSize locked _ ih =>
      intro k row hlookup
      rcases s.lookup_cleanup batchSize locked _ k with hsame | ⟨hnone, _⟩
      · exact ih k row (hsame ▸ hlookup)
      · rw [hnone] at hlookup
        cases hlookup
  | reset email _ ih => exact ih.erase _

/-! ## Policies -/

/-- The cleanup knows the settings of every bucket that an operation charges, but for those of
an email change. -/
theorem Operation.policy_eq {op : Operation} (hns : op.ns ≠ .emailChange) {spec : Spec}
    (h : spec ∈ (op.attempt ids s).toList ++ op.business ids s) :
    s.policy (spec.key op.ns) = some spec.limit := by
  cases op with
  | allowEmailChange actor email => exact absurd rfl hns
  | _ =>
      simp only [attempt, business, Option.toList, List.nil_append, List.cons_append,
        List.mem_cons, List.not_mem_nil, or_false] at h
      rcases h with rfl | rfl | rfl <;> rfl

/-- An expired bucket was not refilled within the retention of its policy. -/
theorem Store.refill_of_expired {spec : Spec} {ns : Namespace} {clock now : ℤ} {row : Row}
    (hpolicy : s.policy (spec.key ns) = some spec.limit)
    (h : s.expired clock (spec.key ns) row = true) (hrow : 0 ≤ row.tokens)
    (hnow : truncMilli clock ≤ now) :
    (spec.refill now ⟨row.tokens, truncMilli row.lastRefillAt⟩).tokens = spec.limit.capacity := by
  have hle : row.lastRefillAt + retention spec.limit ≤ clock := by
    unfold Store.expired at h
    rw [hpolicy] at h
    exact of_decide_eq_true h
  have htrunc := truncMilli_mono hle
  unfold retention at htrunc
  rw [truncMilli_add_mul] at htrunc
  exact spec.limit.refill_of_retention _ now hrow (htrunc.trans hnow)

/-! ## Two tables -/

section TwoTables

/-- **Two tables during a call**, the one without the removed rows first.  The rows `E` may
have been created again by the call.

A call may create a removed row again.  As long as it was not used since the cleanup the new row is
full, and the old one would have been full by now. -/
structure During (s : Store) (clock : ℤ) (removed used E : Set Key) (d t : Buckets) :
    Prop where
  same : ∀ k, k.ns ≠ .emailChange → k ∉ removed → d.lookup k = t.lookup k
  gone : ∀ k, k.ns ≠ .emailChange → k ∈ removed → k ∉ used →
    ∃ row, t.lookup k = some row ∧ 0 ≤ row.tokens ∧ s.expired clock k row = true ∧
      (d.lookup k = none ∨
        k ∈ E ∧ ∃ new l, d.lookup k = some new ∧ s.policy k = some l ∧ new.tokens = l.capacity)

/-- **Two tables between calls**. -/
abbrev Alike (s : Store) (clock : ℤ) (removed used : Set Key) (d t : Buckets) : Prop :=
  During s clock removed used ∅ d t

/-- A row has as many tokens in the first table as in the second, unless it is missing. -/
def Level (d t : Buckets) (k : Key) : Prop :=
  ∀ row, d.lookup k = some row → ∃ row', t.lookup k = some row' ∧ row.tokens = row'.tokens

/-- Two refilled buckets: as many tokens, and equal where the row was not removed. -/
def Twins (removed : Set Key) (k : Key) (x y : Bucket) : Prop :=
  x.tokens = y.tokens ∧ (k ∉ removed → x = y)

variable {clock : ℤ} {removed used E : Set Key} {d t : Buckets} {ns : Namespace} {spec : Spec}

theorem Alike.during (h : Alike s clock removed used d t) (E : Set Key) :
    During s clock removed used E d t where
  same := h.same
  gone k hns hk hused := by
    obtain ⟨row, hrow, htokens, hexpired, hd | ⟨hempty, _⟩⟩ := h.gone k hns hk hused
    · exact ⟨row, hrow, htokens, hexpired, Or.inl hd⟩
    · exact absurd hempty (Set.notMem_empty k)

/-- Ensuring a row in both tables. -/
theorem During.ensure (h : During s clock removed used E d t) (hns : ns ≠ .emailChange)
    (hpolicy : s.policy (spec.key ns) = some spec.limit) (hE : spec.key ns ∈ E)
    (hfresh : spec.key ns ∈ removed → spec.key ns ∉ used) (reading : ℤ) :
    (∀ now, truncMilli clock ≤ now →
      Twins removed (spec.key ns)
        (spec.refill now (ensureRateLimitBucket ns spec reading d).1)
        (spec.refill now (ensureRateLimitBucket ns spec reading t).1)) ∧
      During s clock removed used E (ensureRateLimitBucket ns spec reading d).2
        (ensureRateLimitBucket ns spec reading t).2 := by
  -- a row that was removed is expired in the table that has it still
  by_cases hk : spec.key ns ∈ removed
  · obtain ⟨row, hrow, htokens, hexpired, hd⟩ := h.gone _ hns hk (hfresh hk)
    have hkept (now : ℤ) (hnow : truncMilli clock ≤ now) :=
      Store.refill_of_expired hpolicy hexpired htokens hnow
    rw [ensure_of_some hrow]
    rcases hd with hd | ⟨_, new, l, hd, hl, hnew⟩
    · -- the missing row is created full
      rw [ensure_of_none hd]
      refine ⟨fun now hnow => ⟨?_, fun hno => absurd hk hno⟩, ?_, ?_⟩
      · rw [hkept now hnow]
        exact refill_tokens_of_full _ _ _ _ rfl
      · intro k hkns hkr
        have hne : k ≠ spec.key ns := fun he => hkr (he ▸ hk)
        rw [AList.lookup_insert_ne hne]
        exact h.same k hkns hkr
      · intro k hkns hkr hku
        by_cases hne : k = spec.key ns
        · subst hne
          exact ⟨row, hrow, htokens, hexpired,
            Or.inr ⟨hE, _, _, AList.lookup_insert d, hpolicy, rfl⟩⟩
        · rw [AList.lookup_insert_ne hne]
          exact h.gone k hkns hkr hku
    · -- it was created by an earlier statement of the call
      rw [ensure_of_some hd]
      refine ⟨fun now hnow => ⟨?_, fun hno => absurd hk hno⟩, h⟩
      rw [hkept now hnow]
      rw [hpolicy] at hl
      cases hl
      exact refill_tokens_of_full _ _ _ _ hnew
  · have hsame := h.same _ hns hk
    cases hrow : t.lookup (spec.key ns) with
    | some row =>
        rw [ensure_of_some hrow, ensure_of_some (hsame.trans hrow)]
        exact ⟨fun now _ => ⟨rfl, fun _ => rfl⟩, h⟩
    | none =>
        rw [ensure_of_none hrow, ensure_of_none (hsame.trans hrow)]
        refine ⟨fun now _ => ⟨rfl, fun _ => rfl⟩, ?_, ?_⟩
        · intro k hkns hkr
          by_cases hne : k = spec.key ns
          · subst hne
            rw [AList.lookup_insert, AList.lookup_insert]
          · rw [AList.lookup_insert_ne hne, AList.lookup_insert_ne hne]
            exact h.same k hkns hkr
        · intro k hkns hkr hku
          have hne : k ≠ spec.key ns := fun he => hk (he ▸ hkr)
          rw [AList.lookup_insert_ne hne, AList.lookup_insert_ne hne]
          exact h.gone k hkns hkr hku

/-- Two lists of refilled buckets, of rows in `E`. -/
def TwinLists (removed E : Set Key) (ns : Namespace) (xs ys : List RefilledBucket) : Prop :=
  List.Forall₂ (fun x y => x.spec = y.spec ∧ x.spec.key ns ∈ E ∧
    Twins removed (x.spec.key ns) x.bucket y.bucket) xs ys

theorem During.ensureEach (hns : ns ≠ .emailChange) (reading : ℕ → ℤ) {now : ℤ}
    (hnow : truncMilli clock ≤ now) (specs : List Spec) :
    ∀ (n : ℕ) {d t : Buckets}, During s clock removed used E d t →
      (∀ spec ∈ specs, s.policy (spec.key ns) = some spec.limit) →
      (∀ spec ∈ specs, spec.key ns ∈ E) →
      (∀ k ∈ E, k ∈ removed → k ∉ used) →
      TwinLists removed E ns (refillAll now (Limiter.ensureEach ns reading n specs d).1)
          (refillAll now (Limiter.ensureEach ns reading n specs t).1) ∧
        During s clock removed used E (Limiter.ensureEach ns reading n specs d).2
          (Limiter.ensureEach ns reading n specs t).2 := by
  induction specs with
  | nil => exact fun n d t h _ _ _ => ⟨List.Forall₂.nil, h⟩
  | cons spec rest ih =>
      intro n d t h hpolicy hE hfresh
      have hkey := hE spec List.mem_cons_self
      obtain ⟨hfirst, hnext⟩ := h.ensure hns (hpolicy spec List.mem_cons_self) hkey
        (hfresh _ hkey) (reading n)
      obtain ⟨hrest, hlast⟩ := ih (n + 1) hnext
        (fun x hx => hpolicy x (List.mem_cons_of_mem spec hx))
        (fun x hx => hE x (List.mem_cons_of_mem spec hx)) hfresh
      exact ⟨List.Forall₂.cons ⟨rfl, hkey, hfirst now hnow⟩ hrest, hlast⟩

/-- Twin buckets decide alike. -/
theorem TwinLists.allowed {xs ys : List RefilledBucket} (h : TwinLists removed E ns xs ys) :
    Limiter.allowed xs = Limiter.allowed ys := by
  induction h with
  | nil => rfl
  | @cons x y xs ys hxy _ ih =>
      show (decide (1 ≤ x.bucket.tokens) && Limiter.allowed xs) =
        (decide (1 ≤ y.bucket.tokens) && Limiter.allowed ys)
      rw [hxy.2.2.1, ih]

/-- The rows that a call has locked count as used. -/
theorem During.alike (h : During s clock removed used E d t) :
    Alike s clock removed (used ∪ E) d t where
  same := h.same
  gone k hns hk hused := by
    obtain ⟨row, hrow, htokens, hexpired, hd | ⟨hkE, _⟩⟩ :=
      h.gone k hns hk fun hu => hused (Or.inl hu)
    · exact ⟨row, hrow, htokens, hexpired, Or.inl hd⟩
    · exact absurd (Or.inr hkE) hused

/-- Writing twin buckets back. -/
theorem Alike.update (h : Alike s clock removed used d t) (hkey : spec.key ns ∈ used)
    {x y : Bucket} (hxy : Twins removed (spec.key ns) x y) :
    Alike s clock removed used (updateRateLimitBucket ns spec x d)
        (updateRateLimitBucket ns spec y t) ∧
      ∀ k, Level d t k ∨ k = spec.key ns →
        Level (updateRateLimitBucket ns spec x d) (updateRateLimitBucket ns spec y t) k := by
  refine ⟨⟨?_, ?_⟩, ?_⟩
  · intro k hns hk
    by_cases hne : k = spec.key ns
    · subst hne
      rw [hxy.2 hk, lookup_update, lookup_update]
    · rw [lookup_update_ne x hne, lookup_update_ne y hne]
      exact h.same k hns hk
  · intro k hns hk hused
    have hne : k ≠ spec.key ns := fun he => hused (he ▸ hkey)
    rw [lookup_update_ne x hne, lookup_update_ne y hne]
    exact h.gone k hns hk hused
  · intro k hk row hrow
    by_cases hne : k = spec.key ns
    · subst hne
      rw [lookup_update] at hrow
      cases hrow
      exact ⟨_, lookup_update y, hxy.1⟩
    · rw [lookup_update_ne x hne] at hrow
      rw [lookup_update_ne y hne]
      exact hk.resolve_right hne row hrow

/-- Twin buckets stay twins when both lose a token. -/
theorem Twins.charge {k : Key} {x y : Bucket} (h : Twins removed k x y) (charge : Bool) :
    Twins removed k (if charge then { x with tokens := x.tokens - 1 } else x)
      (if charge then { y with tokens := y.tokens - 1 } else y) := by
  cases charge with
  | false => exact h
  | true =>
      refine ⟨?_, fun hk => ?_⟩
      · show x.tokens - 1 = y.tokens - 1
        rw [h.1]
      · rw [h.2 hk]

theorem updateAll_cons (charge : Bool) (b : RefilledBucket) (bs : List RefilledBucket)
    (t : Buckets) :
    Limiter.updateAll ns charge (b :: bs) t =
      Limiter.updateAll ns charge bs
        (updateRateLimitBucket ns b.spec
          (if charge then { b.bucket with tokens := b.bucket.tokens - 1 } else b.bucket) t) :=
  rfl

/-- Every bucket that is to be charged was ensured. -/
theorem exists_refillAll {reading : ℕ → ℤ} {now : ℤ} {specs : List Spec} :
    ∀ {n : ℕ} {t : Buckets}, spec ∈ specs →
      ∃ x ∈ refillAll now (Limiter.ensureEach ns reading n specs t).1,
        spec.key ns = x.spec.key ns := by
  induction specs with
  | nil => exact fun h => absurd h List.not_mem_nil
  | cons first rest ih =>
      intro n t h
      rcases List.mem_cons.mp h with rfl | h
      · exact ⟨_, List.mem_cons_self, rfl⟩
      · obtain ⟨x, hx, hkey⟩ := ih (n := n + 1) h
        exact ⟨x, List.mem_cons_of_mem _ hx, hkey⟩

theorem Alike.updateAll {charge : Bool} {xs ys : List RefilledBucket}
    (hxy : TwinLists removed E ns xs ys) (hE : E ⊆ used) :
    ∀ {d t : Buckets}, Alike s clock removed used d t →
      Alike s clock removed used (Limiter.updateAll ns charge xs d)
          (Limiter.updateAll ns charge ys t) ∧
        ∀ k, (Level d t k ∨ ∃ x ∈ xs, k = x.spec.key ns) →
          Level (Limiter.updateAll ns charge xs d) (Limiter.updateAll ns charge ys t) k := by
  induction hxy with
  | nil =>
      intro d t h
      refine ⟨h, ?_⟩
      rintro k (hk | ⟨x, hx, _⟩)
      · exact hk
      · exact absurd hx List.not_mem_nil
  | @cons x y xs ys hxy _ ih =>
      intro d t h
      obtain ⟨hspec, hkey, htwins⟩ := hxy
      obtain ⟨hfirst, hlevel⟩ := h.update (hE hkey) (htwins.charge charge)
      obtain ⟨hlast, hlevels⟩ := ih hfirst
      rw [updateAll_cons, updateAll_cons, ← hspec]
      refine ⟨hlast, fun k hk => hlevels k ?_⟩
      rcases hk with hk | ⟨x', hx', rfl⟩
      · exact Or.inl (hlevel k (Or.inl hk))
      · rcases List.mem_cons.mp hx' with rfl | hx'
        · exact Or.inl (hlevel _ (Or.inr rfl))
        · exact Or.inr ⟨x', hx', rfl⟩

/-- A row that the calls have not used is missing in the first table, and the others are
equal. -/
theorem Alike.level (h : Alike s clock removed used d t) {k : Key} (hns : k.ns ≠ .emailChange)
    (hk : k ∈ removed → k ∉ used) : Level d t k := by
  intro row hrow
  by_cases hr : k ∈ removed
  · obtain ⟨_, _, _, _, hd | ⟨hempty, _⟩⟩ := h.gone k hns hr (hk hr)
    · rw [hd] at hrow
      cases hrow
    · exact absurd hempty (Set.notMem_empty k)
  · exact ⟨row, (h.same k hns hr).symm.trans hrow, rfl⟩

theorem Alike.mono (h : Alike s clock removed used d t) {used' : Set Key}
    (hused : used ⊆ used') : Alike s clock removed used' d t where
  same := h.same
  gone k hns hk hu := h.gone k hns hk fun hk' => hu (hused hk')

end TwoTables

/-! ## One call on two tables -/

section Call

variable {clock : ℤ} {removed used : Set Key} {d t : Buckets} {c : Call}

/-- An operation without a source. -/
theorem Alike.allowBusinessBuckets {ns : Namespace} {specs : List Spec} {reading : ℕ → ℤ}
    (h : Alike s clock removed used d t) (hclock : ∀ n, clock ≤ reading n)
    (hns : ns ≠ .emailChange) (hpolicy : ∀ spec ∈ specs, s.policy (spec.key ns) = some spec.limit)
    (hfresh : ∀ spec ∈ specs, spec.key ns ∈ removed → spec.key ns ∉ used) :
    (Limiter.allowBusinessBuckets ns specs reading d).1 =
        (Limiter.allowBusinessBuckets ns specs reading t).1 ∧
      Alike s clock removed (used ∪ {k | ∃ spec ∈ specs, spec.key ns = k})
        (Limiter.allowBusinessBuckets ns specs reading d).2
        (Limiter.allowBusinessBuckets ns specs reading t).2 ∧
      ∀ spec ∈ specs, Level (Limiter.allowBusinessBuckets ns specs reading d).2
        (Limiter.allowBusinessBuckets ns specs reading t).2 (spec.key ns) := by
  obtain ⟨htwins, hduring⟩ := (h.during {k | ∃ spec ∈ specs, spec.key ns = k}).ensureEach hns
    reading (truncMilli_mono (hclock specs.length)) (specs.insertionSort Spec.before) 0
    (fun spec hspec => hpolicy spec (mem_insertionSort.mp hspec))
    (fun spec hspec => ⟨spec, mem_insertionSort.mp hspec, rfl⟩)
    (by rintro k ⟨spec, hspec, rfl⟩; exact hfresh spec hspec)
  have hallowed := htwins.allowed
  unfold Limiter.allowBusinessBuckets ensureBuckets
  dsimp only
  rw [← hallowed]
  obtain ⟨hafter, hlevel⟩ := Alike.updateAll htwins Set.subset_union_right hduring.alike
  refine ⟨rfl, hafter, fun spec hspec => hlevel _ (Or.inr ?_)⟩
  exact exists_refillAll (mem_insertionSort.mpr hspec)

/-- An operation with a source. -/
theorem Alike.allowAttemptAndBuckets {ns : Namespace} {attempt : Spec} {business : List Spec}
    {reading : ℕ → ℤ} (h : Alike s clock removed used d t) (hclock : ∀ n, clock ≤ reading n)
    (hns : ns ≠ .emailChange)
    (hpolicy : ∀ spec ∈ attempt :: business, s.policy (spec.key ns) = some spec.limit)
    (hfresh : ∀ spec ∈ attempt :: business, spec.key ns ∈ removed → spec.key ns ∉ used) :
    (Limiter.allowAttemptAndBuckets ns attempt business reading d).1 =
        (Limiter.allowAttemptAndBuckets ns attempt business reading t).1 ∧
      Alike s clock removed (used ∪ {k | ∃ spec ∈ attempt :: business, spec.key ns = k})
        (Limiter.allowAttemptAndBuckets ns attempt business reading d).2
        (Limiter.allowAttemptAndBuckets ns attempt business reading t).2 ∧
      ∀ spec ∈ attempt :: business,
        Level (Limiter.allowAttemptAndBuckets ns attempt business reading d).2
          (Limiter.allowAttemptAndBuckets ns attempt business reading t).2 (spec.key ns) := by
  have hattempt : attempt ∈ attempt :: business := List.mem_cons_self
  have hnow := truncMilli_mono (hclock 1)
  -- the source has the same level in both tables, whatever else is charged
  have hensure (E : Set Key) (hE : attempt.key ns ∈ E) := (h.during E).ensure hns
    (hpolicy attempt hattempt) hE (hfresh attempt hattempt) (reading 0)
  unfold Limiter.allowAttemptAndBuckets
  dsimp only
  by_cases hone : (attempt.refill (truncMilli (reading 1))
      (ensureRateLimitBucket ns attempt (reading 0) d).1).tokens < 1
  · -- the source has no token left in either table
    obtain ⟨htwins, hduring⟩ := hensure {attempt.key ns} rfl
    have htwin := htwins _ hnow
    rw [if_pos hone, if_pos (htwin.1 ▸ hone)]
    obtain ⟨hafter, hlevel⟩ := hduring.alike.update (Or.inr rfl) htwin
    refine ⟨rfl, hafter.mono ?_, fun spec hspec => ?_⟩
    · rintro k (hk | rfl)
      · exact Or.inl hk
      · exact Or.inr ⟨attempt, hattempt, rfl⟩
    · by_cases hk : spec.key ns = attempt.key ns
      · exact hlevel _ (Or.inr hk)
      · refine hafter.level hns fun hr hu => ?_
        rcases hu with hu | hu
        · exact hfresh spec hspec hr hu
        · exact hk hu
  · -- the source has a token: the other buckets are ensured and compared one by one
    obtain ⟨htwins, hduring⟩ := hensure {k | ∃ spec ∈ attempt :: business, spec.key ns = k}
      ⟨attempt, hattempt, rfl⟩
    have htwin := htwins _ hnow
    rw [if_neg hone, if_neg (htwin.1 ▸ hone)]
    obtain ⟨htwinLists, hlast⟩ := hduring.ensureEach hns reading hnow
      (business.insertionSort Spec.before) 2
      (fun spec hspec => hpolicy spec (List.mem_cons_of_mem _ (mem_insertionSort.mp hspec)))
      (fun spec hspec => ⟨spec, List.mem_cons_of_mem _ (mem_insertionSort.mp hspec), rfl⟩)
      (by rintro k ⟨spec, hspec, rfl⟩; exact hfresh spec hspec)
    -- the decision is the same in both, and so are the charges
    have hallowed := htwinLists.allowed
    unfold ensureBuckets
    dsimp only
    rw [← hallowed]
    obtain ⟨hfirst, hlevel⟩ := hlast.alike.update (Or.inr ⟨attempt, hattempt, rfl⟩)
      (htwin.charge true)
    obtain ⟨hafter, hlevels⟩ := Alike.updateAll htwinLists Set.subset_union_right hfirst
    refine ⟨rfl, hafter, fun spec hspec => hlevels _ ?_⟩
    rcases List.mem_cons.mp hspec with rfl | hspec
    · exact Or.inl (hlevel _ (Or.inr rfl))
    · exact Or.inr (exists_refillAll (mem_insertionSort.mpr hspec))

theorem Operation.mem_keys {op : Operation} {k : Key} :
    k ∈ op.keys ids s ↔
      ∃ spec ∈ (op.attempt ids s).toList ++ op.business ids s, spec.key op.ns = k :=
  List.mem_map

/-- **One call on two tables.**  A call that uses no removed row again is answered alike, and
leaves its rows with the same number of tokens.

A row that was removed is full in the one run because it is created, and in the other because it has
not been refilled for so long.  Then both are charged; from then on the row is in both tables, but
its next interval begins at different instants. -/
theorem Alike.call (h : Alike s clock removed used d t) (hclock : clock ≤ c.clock 0)
    (hns : c.op.ns ≠ .emailChange) (hfresh : ∀ k ∈ c.op.keys ids s, k ∈ removed → k ∉ used) :
    (s.call ids c d).1 = (s.call ids c t).1 ∧
      Alike s clock removed (used ∪ {k | k ∈ c.op.keys ids s}) (s.call ids c d).2
        (s.call ids c t).2 ∧
      ∀ k ∈ c.op.keys ids s, Level (s.call ids c d).2 (s.call ids c t).2 k := by
  have hreading : ∀ n, clock ≤ c.clock n := fun n => hclock.trans (c.mono (Nat.zero_le n))
  have hpolicy : ∀ spec ∈ (c.op.attempt ids s).toList ++ c.op.business ids s,
      s.policy (spec.key c.op.ns) = some spec.limit := fun _ => Operation.policy_eq hns
  simp only [Operation.mem_keys] at hfresh ⊢
  unfold Store.call
  cases hattempt : c.op.attempt ids s with
  | none =>
      rw [hattempt] at hpolicy hfresh
      obtain ⟨hanswer, hafter, hlevel⟩ := h.allowBusinessBuckets hreading hns
        (fun spec hspec => hpolicy spec hspec) (fun spec hspec => hfresh _ ⟨spec, hspec, rfl⟩)
      refine ⟨hanswer, hafter, ?_⟩
      rintro k ⟨spec, hspec, rfl⟩
      exact hlevel spec hspec
  | some attempt =>
      rw [hattempt] at hpolicy hfresh
      obtain ⟨hanswer, hafter, hlevel⟩ := h.allowAttemptAndBuckets hreading hns
        (fun spec hspec => hpolicy spec hspec) (fun spec hspec => hfresh _ ⟨spec, hspec, rfl⟩)
      refine ⟨hanswer, hafter, ?_⟩
      rintro k ⟨spec, hspec, rfl⟩
      exact hlevel spec hspec

end Call

/-! ## Many calls on two tables -/

theorem lookup_ensureEach_ne {ns : Namespace} {reading : ℕ → ℤ} {k : Key} (hk : k.ns ≠ ns)
    (specs : List Spec) :
    ∀ (n : ℕ) (t : Buckets), (ensureEach ns reading n specs t).2.lookup k = t.lookup k := by
  induction specs with
  | nil => exact fun n t => rfl
  | cons spec rest ih =>
      intro n t
      exact (ih (n + 1) _).trans (lookup_ensure_ne fun he => hk (he ▸ rfl))

theorem lookup_updateAll_ne {ns : Namespace} {charge : Bool} {k : Key} (hk : k.ns ≠ ns)
    (bs : List RefilledBucket) :
    ∀ t : Buckets, (updateAll ns charge bs t).lookup k = t.lookup k := by
  induction bs with
  | nil => exact fun t => rfl
  | cons b bs ih =>
      intro t
      rw [updateAll_cons, ih]
      exact lookup_update_ne _ fun he => hk (he ▸ rfl)

/-- A call does not touch the rows of other operations. -/
theorem lookup_call_ne {c : Call} {k : Key} (hk : k.ns ≠ c.op.ns) (t : Buckets) :
    (s.call ids c t).2.lookup k = t.lookup k := by
  have hne : ∀ spec : Spec, k ≠ spec.key c.op.ns := fun spec he => hk (he ▸ rfl)
  unfold Store.call
  cases c.op.attempt ids s with
  | none => exact (lookup_updateAll_ne hk _ _).trans (lookup_ensureEach_ne hk _ _ _)
  | some attempt =>
      show (allowAttemptAndBuckets _ _ _ _ _).2.lookup k = _
      unfold allowAttemptAndBuckets
      dsimp only
      split
      · rw [lookup_update_ne _ (hne attempt), lookup_ensure_ne (hne attempt)]
      · rw [lookup_updateAll_ne hk, lookup_update_ne _ (hne attempt)]
        exact (lookup_ensureEach_ne hk _ _ _).trans (lookup_ensure_ne (hne attempt))

section Calls

variable {clock : ℤ} {removed used : Set Key} {d t : Buckets}

/-- A call for an email change does not touch any other row. -/
theorem Alike.call_emailChange {c : Call} (h : Alike s clock removed used d t)
    (hns : c.op.ns = .emailChange) :
    Alike s clock removed used (s.call ids c d).2 (s.call ids c t).2 where
  same k hk hr := by
    rw [lookup_call_ne (hns ▸ hk), lookup_call_ne (hns ▸ hk)]
    exact h.same k hk hr
  gone k hk hr hu := by
    rw [lookup_call_ne (hns ▸ hk), lookup_call_ne (hns ▸ hk)]
    exact h.gone k hk hr hu

/-- No removed row is used by two of the calls; those of email changes do not matter. -/
def UsedOnce (ids : Identities) (s : Store) (removed : Set Key) (cs : List Call) : Prop :=
  cs.Pairwise fun x y => ∀ k ∈ removed, k.ns ≠ .emailChange → k ∈ x.op.keys ids s →
    k ∉ y.op.keys ids s

theorem Operation.ns_of_mem_keys {op : Operation} {k : Key} (h : k ∈ op.keys ids s) :
    k.ns = op.ns := by
  obtain ⟨spec, _, rfl⟩ := Operation.mem_keys.mp h
  rfl

theorem Alike.calls (cs : List Call) :
    ∀ {used : Set Key} {d t : Buckets}, Alike s clock removed used d t →
      (∀ c ∈ cs, clock ≤ c.clock 0) → UsedOnce ids s removed cs →
      (∀ c ∈ cs, ∀ k ∈ c.op.keys ids s, k.ns ≠ .emailChange → k ∈ removed → k ∉ used) →
      Alike s clock removed (used ∪ {k | ∃ c ∈ cs, k ∈ c.op.keys ids s})
        (s.calls ids cs d) (s.calls ids cs t) := by
  induction cs with
  | nil => exact fun h _ _ _ => h.mono Set.subset_union_left
  | cons c cs ih =>
      intro used d t h hclock honce hfresh
      obtain ⟨hhead, htail⟩ := List.pairwise_cons.mp honce
      have hlater : ∀ x ∈ cs, ∀ k ∈ x.op.keys ids s, k.ns ≠ .emailChange → k ∈ removed →
          k ∉ used ∪ {k | k ∈ c.op.keys ids s} := by
        rintro x hx k hk hns hr (hu | hu)
        · exact hfresh x (List.mem_cons_of_mem c hx) k hk hns hr hu
        · exact hhead x hx k hr hns hu hk
      have hnext : Alike s clock removed (used ∪ {k | k ∈ c.op.keys ids s})
          (s.call ids c d).2 (s.call ids c t).2 := by
        by_cases hns : c.op.ns = .emailChange
        · exact (h.call_emailChange hns).mono Set.subset_union_left
        · exact (h.call (hclock c List.mem_cons_self) hns fun k hk =>
            hfresh c List.mem_cons_self k hk (Operation.ns_of_mem_keys hk ▸ hns)).2.1
      refine (ih hnext (fun x hx => hclock x (List.mem_cons_of_mem c hx)) htail hlater).mono ?_
      rintro k ((hk | hk) | ⟨x, hx, hk⟩)
      · exact Or.inl hk
      · exact Or.inr ⟨c, List.mem_cons_self, hk⟩
      · exact Or.inr ⟨x, List.mem_cons_of_mem c hx, hk⟩

end Calls

/-- The rows that a cleanup has removed. -/
def removedRows (s : Store) (batchSize : ℤ) (locked : Key → Bool) (clock : ℤ) (t : Buckets) :
    Set Key :=
  {k | k ∈ t ∧ k ∉ s.cleanupExpiredRateLimitBuckets batchSize locked clock t}

theorem Alike.cleanup {t : Buckets} (ht : t.Solvent) (batchSize : ℤ) (locked : Key → Bool)
    (clock : ℤ) :
    Alike s clock (removedRows s batchSize locked clock t) ∅
      (s.cleanupExpiredRateLimitBuckets batchSize locked clock t) t where
  same k _ hk := by
    rcases s.lookup_cleanup batchSize locked clock k with hsame | ⟨hnone, row, hrow, _⟩
    · exact hsame
    · refine absurd ⟨?_, AList.lookup_eq_none.mp hnone⟩ hk
      exact AList.lookup_isSome.mp (hrow ▸ rfl)
  gone k _ hk _ := by
    have hnone := AList.lookup_eq_none.mpr hk.2
    rcases s.lookup_cleanup batchSize locked clock k with hsame | ⟨_, row, hrow, hexpired⟩
    · have hmem := AList.lookup_isSome.mpr hk.1
      rw [← hsame, hnone] at hmem
      cases hmem
    · exact ⟨row, hrow, ht k row hrow, hexpired, Or.inl hnone⟩

/-- **The cleanup changes no answer** before a removed row is used for the second time, but for
email changes.  Whatever servers ran before, a call that follows a cleanup with the same
settings is answered as if every row had been kept, and its rows hold the same number of tokens
afterwards.

The proof runs the limiter twice side by side, on the table that was cleaned up and on the table as
it was (`Alike`).  The two part on a row that was removed: where it is missing a call creates a full
bucket, and where it is kept the refill makes it full, because nothing has refilled it for a whole
retention.  For email changes the cleanup has no policy, so there the kept row need not be full; and
from the second use on the two rows count their intervals from different instants, which is why the
statement ends there. -/
theorem Reachable.cleanup_answer {now : ℤ} {t : Buckets} (h : Reachable ids now t)
    (batchSize : ℤ) (locked : Key → Bool) (before : List Call) (c : Call)
    (hclock : ∀ x ∈ before ++ [c], now ≤ x.clock 0) (hns : c.op.ns ≠ .emailChange)
    (honce : UsedOnce ids s (removedRows s batchSize locked now t) (before ++ [c])) :
    let d := s.cleanupExpiredRateLimitBuckets batchSize locked now t
    (s.call ids c (s.calls ids before d)).1 = (s.call ids c (s.calls ids before t)).1 ∧
      ∀ k ∈ c.op.keys ids s,
        Level (s.call ids c (s.calls ids before d)).2 (s.call ids c (s.calls ids before t)).2 k := by
  intro d
  obtain ⟨hbefore, _, hlast⟩ := List.pairwise_append.mp honce
  have halike := (Alike.cleanup h.solvent batchSize locked now).calls before
    (fun x hx => hclock x (List.mem_append_left _ hx)) hbefore fun _ _ k _ _ _ => Set.notMem_empty k
  obtain ⟨hanswer, _, hlevel⟩ := halike.call (hclock c (by simp)) hns fun k hk hr => by
    rintro (hu | ⟨x, hx, hu⟩)
    · exact absurd hu (Set.notMem_empty k)
    · exact hlast x hx c List.mem_cons_self k hr (Operation.ns_of_mem_keys hk ▸ hns) hu hk
  exact ⟨hanswer, hlevel⟩

/-! ## A bucket of one token -/

namespace Demo

/-- Digests that tell nobody apart. -/
def identities : Identities := ⟨id, id, fun _ => 1⟩

/-- One setup attempt a minute. -/
def server : Store := { Store.fallback with setupIP := ⟨1, 60 * second, by decide⟩ }

/-- A setup attempt, some seconds after the epoch. -/
def setupAt (seconds : ℤ) : Call where
  op := .allowSetup "192.0.2.1"
  clock _ := seconds * second
  mono := monotone_const

/-- The bucket after one attempt. -/
def attempted : Buckets := (server.call identities (setupAt 0) ∅).2

theorem attempted_reachable : Reachable identities (150 * second) attempted :=
  ((Reachable.init 0).call server (setupAt 0) (by decide) fun _ => le_refl _).tick (by decide)

/-- The bucket is removed, and the next attempt does not notice. -/
theorem attempt_answered :
    (server.call identities (setupAt 150) (server.calls identities []
        (server.cleanupExpiredRateLimitBuckets 0 (fun _ => false) (150 * second) attempted))).1 =
      (server.call identities (setupAt 150) (server.calls identities [] attempted)).1 :=
  (attempted_reachable.cleanup_answer 0 (fun _ => false) [] (setupAt 150)
    (by intro x hx; cases List.mem_singleton.mp hx; decide) (by decide)
    (List.pairwise_singleton _ _)).1

/-- **Later answers differ.**  The kept bucket was last refilled, by its own intervals, at 120
seconds; the new one is refilled a minute after 150. -/
theorem cleanup_answers_differ :
    ¬ ∀ (ids : Identities) (s : Store) (now : ℤ) (t : Buckets) (batchSize : ℤ)
      (locked : Key → Bool) (before : List Call) (c : Call), Reachable ids now t →
      (∀ x ∈ before ++ [c], now ≤ x.clock 0) →
      (before ++ [c]).Pairwise (fun x y => ∀ n, x.clock n ≤ y.clock 0) →
      (s.call ids c (s.calls ids before
        (s.cleanupExpiredRateLimitBuckets batchSize locked now t))).1 = true →
      (s.call ids c (s.calls ids before t)).1 = true := by
  intro h
  have hlater := h identities server (150 * second) attempted 0 (fun _ => false)
    [setupAt 150, setupAt 180] (setupAt 210) attempted_reachable
    (by
      intro x hx
      simp only [List.cons_append, List.nil_append, List.mem_cons, List.not_mem_nil,
        or_false] at hx
      rcases hx with rfl | rfl | rfl <;> decide)
    (by
      have hle : (setupAt 150).clock 0 ≤ (setupAt 180).clock 0 ∧
          (setupAt 180).clock 0 ≤ (setupAt 210).clock 0 := by decide
      refine List.pairwise_cons.mpr ⟨?_, List.pairwise_cons.mpr ⟨?_, List.pairwise_singleton _ _⟩⟩
      · intro y hy n
        rcases List.mem_cons.mp hy with rfl | hy
        · exact hle.1
        · cases List.mem_singleton.mp hy
          exact hle.1.trans hle.2
      · intro y hy n
        cases List.mem_singleton.mp hy
        exact hle.2)
    (by decide +kernel)
  revert hlater
  decide +kernel

end Demo

end BindPlane.Limiter
