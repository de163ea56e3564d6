import BindPlane.Limiter.Bucket
import Mathlib.Data.List.Sort
import Mathlib.Data.Int.ConditionallyCompleteOrder

/-!
# The rate limiter

The table `auth_rate_limit_buckets`, the calls that charge it and the cleanup that shortens it.

**One call.**  A call is one transaction.  It inserts the rows it needs, or locks those that
exist, reads the clock, refills, decides, and writes every row back; it holds its rows until it
commits, so calls on one row come one after the other.  An operation with an `attempt` charges
that bucket first, and whatever the others say; the `business` buckets are charged together, or
not at all.

**The cleanup.**  It deletes rows that were not refilled within the retention of the policy that
is configured now; a row without a policy is deleted when its own deadline is over.
`Store.lookup_cleanup` says which rows those are.

**Three readings of a policy.**  The limiter looks up the policy of an operation when it is called,
the cleanup has a list of its own, and a row keeps the deadline of the policy with which it was
written last.  The cleanup takes the first two to agree, which they do for the operations on its
list.

**Source.**  What is modelled here is in `internal/auth/adapter/postgres/cleanup.go` and
`internal/auth/adapter/postgres/limiter.go`.
-/

namespace BindPlane.Limiter

/-! ## Rows -/

inductive Namespace
  | login | passwordReset | passwordResetComplete | invitationAccept | setup | invitationSend
  | testEmail | emailChange
  deriving DecidableEq

inductive Kind
  | global | ip | email | actor | recipient
  deriving DecidableEq

/-- A SHA-256 digest; `bytes.Compare` orders it as a number. -/
abbrev Digest := BitVec 256

/-- The primary key of a bucket. -/
structure Key where
  ns : Namespace
  kind : Kind
  digest : Digest
  deriving DecidableEq

/-- A row of `auth_rate_limit_buckets`. -/
structure Row where
  tokens : ℤ
  lastRefillAt : ℤ
  expiresAt : ℤ
  deriving DecidableEq

/-- The table, by its primary key. -/
abbrev Buckets := AList fun _ : Key => Row

/-! ## Settings and operations -/

/-- The settings of every bucket that the server was started with. -/
structure Store where
  global : Limit
  email : Limit
  loginIP : Limit
  resetGlobal : Limit
  resetEmail : Limit
  resetIP : Limit
  resetCompleteIP : Limit
  setupIP : Limit
  invitationAcceptIP : Limit
  invitationActor : Limit
  invitationRecipient : Limit
  testMailGlobal : Limit
  testMailActor : Limit
  testMailRecipient : Limit
  emailChangeActor : Limit
  emailChangeRecipient : Limit

/-- The settings that `NewStore` falls back on. -/
def Store.fallback : Store where
  global := ⟨60, 6 * second, by decide⟩
  email := ⟨5, 60 * second, by decide⟩
  loginIP := ⟨30, 6 * second, by decide⟩
  resetGlobal := ⟨10, 6 * second, by decide⟩
  resetEmail := ⟨3, 1200 * second, by decide⟩
  resetIP := ⟨30, 6 * second, by decide⟩
  resetCompleteIP := ⟨20, 60 * second, by decide⟩
  setupIP := ⟨10, 60 * second, by decide⟩
  invitationAcceptIP := ⟨30, 60 * second, by decide⟩
  invitationActor := ⟨20, 60 * second, by decide⟩
  invitationRecipient := ⟨3, 1200 * second, by decide⟩
  testMailGlobal := ⟨20, 3600 * second, by decide⟩
  testMailActor := ⟨5, 3600 * second, by decide⟩
  testMailRecipient := ⟨3, 1200 * second, by decide⟩
  emailChangeActor := ⟨5, 3600 * second, by decide⟩
  emailChangeRecipient := ⟨3, 1200 * second, by decide⟩

/-- How the text of an identity becomes a digest. -/
structure Identities where
  normalizeLimiterIdentity : String → String
  normalizeIPIdentity : String → String
  sha256 : String → Digest

/-- A bucket that an operation charges. -/
structure Spec where
  kind : Kind
  digest : Digest
  limit : Limit

def globalRateLimitDigest : Digest := 0

def globalSpec (l : Limit) : Spec := ⟨.global, globalRateLimitDigest, l⟩

section Specs

variable (ids : Identities)

def identitySpec (kind : Kind) (value : String) (l : Limit) : Spec :=
  ⟨kind, ids.sha256 (ids.normalizeLimiterIdentity value), l⟩

def ipSpec (value : String) (l : Limit) : Spec :=
  identitySpec ids .ip (ids.normalizeIPIdentity value) l

def emailSpec (value : String) (l : Limit) : Spec := identitySpec ids .email value l

def actorSpec (value : String) (l : Limit) : Spec := identitySpec ids .actor value l

def recipientSpec (value : String) (l : Limit) : Spec := identitySpec ids .recipient value l

end Specs

/-- The operations that are limited. -/
inductive Operation
  | allow (canonicalEmail : String)
  | allowLogin (sourceIP canonicalEmail : String)
  | allowPasswordReset (canonicalEmail : String)
  | allowPasswordResetFromSource (sourceIP canonicalEmail : String)
  | allowPasswordResetComplete (sourceIP : String)
  | allowInvitationAccept (sourceIP : String)
  | allowSetup (sourceIP : String)
  | allowInvitationSend (actorID canonicalEmail : String)
  | allowTestEmail (actorID canonicalEmail : String)
  | allowEmailChange (actorID canonicalEmail : String)

namespace Operation

def ns : Operation → Namespace
  | allow _ => .login
  | allowLogin _ _ => .login
  | allowPasswordReset _ => .passwordReset
  | allowPasswordResetFromSource _ _ => .passwordReset
  | allowPasswordResetComplete _ => .passwordResetComplete
  | allowInvitationAccept _ => .invitationAccept
  | allowSetup _ => .setup
  | allowInvitationSend _ _ => .invitationSend
  | allowTestEmail _ _ => .testEmail
  | allowEmailChange _ _ => .emailChange

/-- The bucket that is charged whatever the answer. -/
def attempt (ids : Identities) (s : Store) : Operation → Option Spec
  | allowLogin ip _ => some (ipSpec ids ip s.loginIP)
  | allowPasswordResetFromSource ip _ => some (ipSpec ids ip s.resetIP)
  | _ => none

/-- The buckets that are charged when all of them have a token. -/
def business (ids : Identities) (s : Store) : Operation → List Spec
  | allow email => [globalSpec s.global, emailSpec ids email s.email]
  | allowLogin _ email => [globalSpec s.global, emailSpec ids email s.email]
  | allowPasswordReset email => [globalSpec s.resetGlobal, emailSpec ids email s.resetEmail]
  | allowPasswordResetFromSource _ email =>
      [globalSpec s.resetGlobal, emailSpec ids email s.resetEmail]
  | allowPasswordResetComplete ip => [ipSpec ids ip s.resetCompleteIP]
  | allowInvitationAccept ip => [ipSpec ids ip s.invitationAcceptIP]
  | allowSetup ip => [ipSpec ids ip s.setupIP]
  | allowInvitationSend actor email =>
      [actorSpec ids actor s.invitationActor, recipientSpec ids email s.invitationRecipient]
  | allowTestEmail actor email =>
      [globalSpec s.testMailGlobal, actorSpec ids actor s.testMailActor,
        recipientSpec ids email s.testMailRecipient]
  | allowEmailChange actor email =>
      [actorSpec ids actor s.emailChangeActor, recipientSpec ids email s.emailChangeRecipient]

/-- The rows that an operation can touch. -/
def keys (ids : Identities) (s : Store) (op : Operation) : List Key :=
  ((op.attempt ids s).toList ++ op.business ids s).map fun spec => ⟨op.ns, spec.kind, spec.digest⟩

end Operation

/-! ## One row -/

/-- The retention of a bucket, as the database is told it. -/
def retention (l : Limit) : ℤ := durationMillis (bucketTTL l.capacity l.refill) * millisecond

/-- Creates a bucket, or locks the one that exists. -/
def ensureRateLimitBucket (ns : Namespace) (spec : Spec) (clock : ℤ) (t : Buckets) :
    Bucket × Buckets :=
  match t.lookup ⟨ns, spec.kind, spec.digest⟩ with
  | some row => (⟨row.tokens, truncMilli row.lastRefillAt⟩, t)
  | none =>
      let now := truncMilli clock
      (⟨spec.limit.capacity, now⟩,
        t.insert ⟨ns, spec.kind, spec.digest⟩
          ⟨spec.limit.capacity, now, now + retention spec.limit⟩)

/-- Writes a bucket back; the row is there, for the call has locked it. -/
def updateRateLimitBucket (ns : Namespace) (spec : Spec) (b : Bucket) (t : Buckets) : Buckets :=
  t.insert ⟨ns, spec.kind, spec.digest⟩
    ⟨b.tokens, truncMicro b.lastRefilled, truncMicro b.lastRefilled + retention spec.limit⟩

/-- `refillRateLimitBucket` with the settings of a bucket. -/
def Spec.refill (spec : Spec) (now : ℤ) (b : Bucket) : Bucket :=
  refillRateLimitBucket b spec.limit.capacity spec.limit.refill now

/-! ## One call -/

def rateLimitKindRank : Kind → ℕ
  | .global => 0
  | .ip => 1
  | .email => 2
  | .actor => 3
  | .recipient => 4

/-- The order in which rows are locked. -/
def Spec.before (a b : Spec) : Prop :=
  rateLimitKindRank a.kind < rateLimitKindRank b.kind ∨
    rateLimitKindRank a.kind = rateLimitKindRank b.kind ∧ a.digest ≤ b.digest

instance (a b : Spec) : Decidable (a.before b) :=
  inferInstanceAs (Decidable (rateLimitKindRank a.kind < rateLimitKindRank b.kind ∨
    rateLimitKindRank a.kind = rateLimitKindRank b.kind ∧ a.digest ≤ b.digest))

/-- A bucket with its settings. -/
structure RefilledBucket where
  spec : Spec
  bucket : Bucket

/-- The statements of `ensureBuckets`; `clock n` is what the `n`-th statement of the call
reads on the clock. -/
def ensureEach (ns : Namespace) (clock : ℕ → ℤ) :
    ℕ → List Spec → Buckets → List RefilledBucket × Buckets
  | _, [], t => ([], t)
  | n, spec :: rest, t =>
      let first := ensureRateLimitBucket ns spec (clock n) t
      let others := ensureEach ns clock (n + 1) rest first.2
      (⟨spec, first.1⟩ :: others.1, others.2)

def ensureBuckets (ns : Namespace) (clock : ℕ → ℤ) (n : ℕ) (specs : List Spec) (t : Buckets) :
    List RefilledBucket × Buckets :=
  ensureEach ns clock n (specs.insertionSort Spec.before) t

/-- The buckets, refilled. -/
def refillAll (now : ℤ) (bs : List RefilledBucket) : List RefilledBucket :=
  bs.map fun b => { b with bucket := b.spec.refill now b.bucket }

/-- Every bucket has a token. -/
def allowed (bs : List RefilledBucket) : Bool := bs.all fun b => 1 ≤ b.bucket.tokens

/-- Writes the buckets back, with one token less where the operation is allowed. -/
def updateAll (ns : Namespace) (charge : Bool) (bs : List RefilledBucket) (t : Buckets) :
    Buckets :=
  bs.foldl
    (fun t b =>
      updateRateLimitBucket ns b.spec
        (if charge then { b.bucket with tokens := b.bucket.tokens - 1 } else b.bucket) t)
    t

/-- An operation without a source: it locks its rows, reads the clock, and charges all of them
or none. -/
def allowBusinessBuckets (ns : Namespace) (specs : List Spec) (clock : ℕ → ℤ) (t : Buckets) :
    Bool × Buckets :=
  let ensured := ensureBuckets ns clock 0 specs t
  let now := truncMilli (clock specs.length)
  let buckets := refillAll now ensured.1
  (allowed buckets, updateAll ns (allowed buckets) buckets ensured.2)

/-- An operation with a source.  Where the source has no token left its bucket alone is written
back. -/
def allowAttemptAndBuckets (ns : Namespace) (attempt : Spec) (business : List Spec)
    (clock : ℕ → ℤ) (t : Buckets) : Bool × Buckets :=
  let ensured := ensureRateLimitBucket ns attempt (clock 0) t
  let now := truncMilli (clock 1)
  let source := attempt.refill now ensured.1
  if source.tokens < 1 then (false, updateRateLimitBucket ns attempt source ensured.2)
  else
    let others := ensureBuckets ns clock 2 business ensured.2
    let buckets := refillAll now others.1
    let t := updateRateLimitBucket ns attempt { source with tokens := source.tokens - 1 } others.2
    (allowed buckets, updateAll ns (allowed buckets) buckets t)

/-- A call, with what its statements read on the clock. -/
structure Call where
  op : Operation
  clock : ℕ → ℤ
  mono : Monotone clock

namespace Store

/-- The answer to a call, and the table that it leaves behind. -/
def call (ids : Identities) (s : Store) (c : Call) (t : Buckets) : Bool × Buckets :=
  match c.op.attempt ids s with
  | none => allowBusinessBuckets c.op.ns (c.op.business ids s) c.clock t
  | some attempt => allowAttemptAndBuckets c.op.ns attempt (c.op.business ids s) c.clock t

/-- The table after some calls. -/
def calls (ids : Identities) (s : Store) (cs : List Call) (t : Buckets) : Buckets :=
  cs.foldl (fun t c => (s.call ids c t).2) t

/-! ## The cleanup -/

def stateCleanupBatchSize : ℕ := 100

/-- The settings that the cleanup knows of. -/
def rateLimitCleanupPolicies (s : Store) : List (Namespace × Kind × Limit) :=
  [(.login, .global, s.global), (.login, .ip, s.loginIP), (.login, .email, s.email),
    (.passwordReset, .global, s.resetGlobal), (.passwordReset, .ip, s.resetIP),
    (.passwordReset, .email, s.resetEmail), (.passwordResetComplete, .ip, s.resetCompleteIP),
    (.invitationAccept, .ip, s.invitationAcceptIP), (.setup, .ip, s.setupIP),
    (.invitationSend, .actor, s.invitationActor),
    (.invitationSend, .recipient, s.invitationRecipient),
    (.testEmail, .global, s.testMailGlobal), (.testEmail, .actor, s.testMailActor),
    (.testEmail, .recipient, s.testMailRecipient)]

/-- The settings of a bucket, where the cleanup knows them. -/
def policy (s : Store) (k : Key) : Option Limit :=
  (s.rateLimitCleanupPolicies.find? fun p => p.1 = k.ns ∧ p.2.1 = k.kind).map (·.2.2)

/-- The condition of the cleanup. -/
def expired (s : Store) (clock : ℤ) (k : Key) (row : Row) : Bool :=
  ((s.policy k).map fun l => row.lastRefillAt + retention l).getD row.expiresAt ≤ clock

/-- The rows to delete; those that are `locked` by a call in progress are skipped. -/
def expiredRows (s : Store) (limit : ℕ) (locked : Key → Bool) (clock : ℤ) (t : Buckets) :
    List (Sigma fun _ : Key => Row) :=
  ((t.entries.filter fun e => s.expired clock e.1 e.2 && !locked e.1).insertionSort
    fun a b => a.2.expiresAt ≤ b.2.expiresAt).take limit

/-- `CleanupExpiredRateLimitBuckets`. -/
def cleanupExpiredRateLimitBuckets (s : Store) (batchSize : ℤ) (locked : Key → Bool)
    (clock : ℤ) (t : Buckets) : Buckets :=
  let limit := if batchSize ≤ 0 then stateCleanupBatchSize else batchSize.toNat
  (s.expiredRows limit locked clock t).foldl (fun t e => t.erase e.1) t

end Store

/-- The bucket of an address is deleted after a login. -/
def resetEmail (ids : Identities) (canonicalEmail : String) (t : Buckets) : Buckets :=
  t.erase ⟨.login, .email, ids.sha256 (ids.normalizeLimiterIdentity canonicalEmail)⟩

/-- The tables that the limiter can leave behind, with the time on the clock.  Every server has
settings of its own.

A call reads the clock several times, and the clock does not go back between the calls.  The cleanup
passes over the rows that somebody holds. -/
inductive Reachable (ids : Identities) : ℤ → Buckets → Prop
  | init (now : ℤ) : Reachable ids now ∅
  | tick {now now' : ℤ} {t : Buckets} : Reachable ids now t → now ≤ now' →
      Reachable ids now' t
  | call {now now' : ℤ} {t : Buckets} (s : Store) (c : Call) : Reachable ids now t →
      now ≤ c.clock 0 → (∀ n, c.clock n ≤ now') → Reachable ids now' (s.call ids c t).2
  | cleanup {now : ℤ} {t : Buckets} (s : Store) (batchSize : ℤ) (locked : Key → Bool) :
      Reachable ids now t →
      Reachable ids now (s.cleanupExpiredRateLimitBuckets batchSize locked now t)
  | reset {now : ℤ} {t : Buckets} (canonicalEmail : String) : Reachable ids now t →
      Reachable ids now (resetEmail ids canonicalEmail t)

/-! ## What the statements leave in a row -/

section Lookup

variable {ns : Namespace} {spec : Spec} {clock : ℤ} {t : Buckets}

/-- The key of a bucket. -/
abbrev Spec.key (ns : Namespace) (spec : Spec) : Key := ⟨ns, spec.kind, spec.digest⟩

theorem ensure_of_some {row : Row} (h : t.lookup (spec.key ns) = some row) :
    ensureRateLimitBucket ns spec clock t = (⟨row.tokens, truncMilli row.lastRefillAt⟩, t) := by
  unfold ensureRateLimitBucket
  rw [h]

theorem ensure_of_none (h : t.lookup (spec.key ns) = none) :
    ensureRateLimitBucket ns spec clock t =
      (⟨spec.limit.capacity, truncMilli clock⟩,
        t.insert (spec.key ns) ⟨spec.limit.capacity, truncMilli clock,
          truncMilli clock + retention spec.limit⟩) := by
  unfold ensureRateLimitBucket
  rw [h]

/-- Other rows are not touched. -/
theorem lookup_ensure_ne {k : Key} (h : k ≠ spec.key ns) :
    (ensureRateLimitBucket ns spec clock t).2.lookup k = t.lookup k := by
  unfold ensureRateLimitBucket
  split
  · rfl
  · exact AList.lookup_insert_ne h

theorem lookup_update (b : Bucket) :
    (updateRateLimitBucket ns spec b t).lookup (spec.key ns) =
      some ⟨b.tokens, truncMicro b.lastRefilled,
        truncMicro b.lastRefilled + retention spec.limit⟩ :=
  AList.lookup_insert t

theorem lookup_update_ne (b : Bucket) {k : Key} (h : k ≠ spec.key ns) :
    (updateRateLimitBucket ns spec b t).lookup k = t.lookup k :=
  AList.lookup_insert_ne h

end Lookup

theorem mem_insertionSort {spec : Spec} {specs : List Spec} :
    spec ∈ specs.insertionSort Spec.before ↔ spec ∈ specs :=
  (List.perm_insertionSort _ specs).mem_iff

namespace Store

variable {s : Store} {t : Buckets}

/-- Deleting rows leaves a row as it is, or deletes one of them. -/
theorem lookup_erase_all (es : List (Sigma fun _ : Key => Row)) (k : Key) :
    ∀ t : Buckets,
      (es.foldl (fun t e => t.erase e.1) t).lookup k =
        if k ∈ es.map Sigma.fst then none else t.lookup k := by
  induction es with
  | nil =>
      intro t
      simp
  | cons e es ih =>
      intro t
      rw [List.foldl_cons, ih]
      by_cases hk : k = e.1
      · subst hk
        simp
      · rw [AList.lookup_erase_ne hk]
        simp only [List.map_cons, List.mem_cons, hk, false_or]

theorem expired_of_mem {limit : ℕ} {locked : Key → Bool} {clock : ℤ}
    {e : Sigma fun _ : Key => Row} (h : e ∈ s.expiredRows limit locked clock t) :
    t.lookup e.1 = some e.2 ∧ s.expired clock e.1 e.2 = true := by
  have hmem := (List.perm_insertionSort _ _).mem_iff.mp (List.mem_of_mem_take h)
  obtain ⟨hentry, hcond⟩ := List.mem_filter.mp hmem
  rw [Bool.and_eq_true] at hcond
  exact ⟨AList.mem_lookup_iff.mpr hentry, hcond.1⟩

/-- **What the cleanup deletes.**  A row is as it was, or it was expired and is gone. -/
theorem lookup_cleanup (batchSize : ℤ) (locked : Key → Bool) (clock : ℤ) (k : Key) :
    (s.cleanupExpiredRateLimitBuckets batchSize locked clock t).lookup k = t.lookup k ∨
      (s.cleanupExpiredRateLimitBuckets batchSize locked clock t).lookup k = none ∧
        ∃ row, t.lookup k = some row ∧ s.expired clock k row = true := by
  unfold cleanupExpiredRateLimitBuckets
  rw [lookup_erase_all]
  by_cases hk : k ∈ (s.expiredRows (if batchSize ≤ 0 then stateCleanupBatchSize
      else batchSize.toNat) locked clock t).map Sigma.fst
  · obtain ⟨e, he, rfl⟩ := List.mem_map.mp hk
    exact Or.inr ⟨if_pos hk, e.2, expired_of_mem he⟩
  · exact Or.inl (if_neg hk)

end Store

end BindPlane.Limiter
