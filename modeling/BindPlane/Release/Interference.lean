import BindPlane.Release.Commits

/-!
# What the others leave alone

The contract of the service as an instance of the library's `Contract`, and the facts a
transaction may rely on while the others commit: a row it has locked does not change,
a key it has drawn stays unused, an address it has locked gets no new blocking release,
a preparation it has locked gets no release, and assets only grow.

Each is one induction over interference whose step is read off `JobStep`.

**Stability.**  A transaction reads a row, and commits some statements later.  Whether what it read
is still so is decided by its locks: the lemmas here say, for each kind of lock, what the others
leave alone as long as it is held.  A program is then verified forward, from statement to statement,
and each fact is carried along by the stability lemma of the lock under which it was read.
-/

namespace BindPlane

open ReadCommitted

/-! ## Assets -/

namespace Db

theorem asset?_addAssets_of_notMem (d : Db) (actor : Principal)
    {made : List (Id × NewAsset)} {t : AssetTable} {id : Id}
    (h : id ∉ made.map Prod.fst) : (d.addAssets actor made).asset? t id = d.asset? t id := by
  unfold addAssets
  induction made generalizing d with
  | nil => rfl
  | cons m made ih =>
      simp only [List.map_cons, List.mem_cons, not_or] at h
      rw [List.foldl_cons, ih _ h.2, asset?_addAssetEvent, asset?_putAsset]
      simp [h.1]

end Db

/-- **What a commit does to one asset row**: nothing, insert it under a new key, or
edit it under its lock. -/
theorem Commit.asset {P : Platform} {op : Op} {now : Instant} {K : Set (Resource Key)}
    {d d' : Db} {r : Reply} (h : Commit P op now K d d' r) (t : AssetTable) (id : Id) :
    d'.asset? t id = d.asset? t id ∨ (.serial id ∈ K ∧ d.asset? t id = none) ∨
      ∃ a set, .key (.asset t id) ∈ K ∧ d.asset? t id = some a ∧
        d'.asset? t id = some (a.edited set) := by
  -- the jobs are in another table
  have hassets : ∀ {d' : Db}, d'.assets = d.assets → d'.asset? t id = d.asset? t id := by
    intro d' h'
    rw [Db.asset?, h', Db.asset?]
  cases h with
  | idle => exact .inl rfl
  | started i j token => exact .inl (hassets (by simp))
  | swept ids es =>
      refine .inl ?_
      rw [Db.asset?_addEvents]
      exact hassets (Db.modifyJobs_assets d ids _)
  | saved job c j e =>
      refine .inl ?_
      rw [Db.asset?_addEvent]
      exact hassets (by simp)
  | beat job j => exact .inl (hassets (by simp))
  | missed => exact .inl rfl
  | loaded => exact .inl rfl
  | stopped => exact .inl rfl
  | prepared p input ip selected r i e prep hadmin hip hr hd =>
      rw [hd.result]
      exact .inl (by simp)
  | confirmed p input prepId prep i e hinput hprep hrow howner hok hnone hd =>
      rw [hd.result]
      exact .inl (by simp)
  | confirmedAgain => exact .inl rfl
  | retried p original originalId job resolved r i e reply horiginal hjob hadmin hr hd =>
      rw [hd.result]
      exact .inl (by simp)
  | edited actor table uid i version next row set e hadmin huid hrow hkey =>
      rw [Db.asset?_addAssetEvent, Db.asset?_modifyAsset]
      by_cases hid : t = table ∧ id = i
      · obtain ⟨rfl, rfl⟩ := hid
        refine .inr (.inr ⟨row, set, hkey, hrow, ?_⟩)
        simp [hrow]
      · exact .inl (if_neg hid)
  | unedited => exact .inl rfl
  | created actor made hkeys =>
      by_cases hid : id ∈ made.map Prod.fst
      · obtain ⟨m, hm, rfl⟩ := List.mem_map.mp hid
        exact .inr (.inl ⟨(hkeys m hm).1, (hkeys m hm).2 t⟩)
      · exact .inl (d.asset?_addAssets_of_notMem actor hid)

/-- Assets only grow. -/
theorem Commit.grows {P : Platform} {op : Op} {now : Instant} {K : Set (Resource Key)}
    {d d' : Db} {r : Reply} (h : Commit P op now K d d' r) : d.Grows d' := by
  intro t id a ha
  rcases h.asset t id with hsame | ⟨-, hnone⟩ | ⟨b, set, -, hb, hb'⟩
  · exact .of_eq (hsame.trans ha)
  · rw [ha] at hnone
    cases hnone
  · rw [ha] at hb
    cases hb
    exact ⟨_, hb', a.precedes_edited set⟩

/-! ## Job rows -/

/-- The columns no worker statement sets. -/
def Job.origin (j : Job) : Job :=
  { j with
    status := .queued
    phase := .queued
    beforeState := none
    afterState := none
    result := .empty
    rawBeforeOutput := none
    rawReleaseOutput := none
    rawAfterOutput := none
    errorMessage := none
    leaseToken := none
    leaseUntil := none
    updatedAt := 0
    startedAt := none
    finishedAt := none }

@[simp] theorem Job.origin_started (now : Instant) (token : Id) (j : Job) :
    (j.started now token).origin = j.origin := rfl
@[simp] theorem Job.origin_swept (now : Instant) (j : Job) :
    (j.swept now).origin = j.origin := rfl
@[simp] theorem Job.origin_checkpointed (now : Instant) (c : Checkpoint) (j : Job) :
    (j.checkpointed now c).origin = j.origin := rfl
@[simp] theorem Job.origin_extended (now : Instant) (j : Job) :
    (j.extended now).origin = j.origin := rfl

section Origin

variable {j j' : Job} (h : j'.origin = j.origin)
include h

theorem Job.kind_of_origin : j'.kind = j.kind := by simpa [origin] using congrArg kind h
theorem Job.targetIp_of_origin : j'.targetIp = j.targetIp := by
  simpa [origin] using congrArg targetIp h
theorem Job.force_of_origin : j'.force = j.force := by simpa [origin] using congrArg force h
theorem Job.pins_of_origin : j'.pins = j.pins := by simpa [origin] using congrArg pins h
theorem Job.preparationJobId_of_origin : j'.preparationJobId = j.preparationJobId := by
  simpa [origin] using congrArg preparationJobId h
theorem Job.actorId_of_origin : j'.actorId = j.actorId := by
  simpa [origin] using congrArg actorId h
theorem Job.reason_of_origin : j'.reason = j.reason := by
  simpa [origin] using congrArg reason h

end Origin

theorem Job.holds_iff {token : Id} {now : Instant} {j : Job} :
    j.holds token now = true ↔
      j.leaseToken = some token ∧ j.status = .running ∧ ∃ u, j.leaseUntil = some u ∧ now < u := by
  simp [holds, Option.any_eq_true, and_assoc]

theorem Job.expired_iff {now : Instant} {j : Job} :
    j.expired now = true ↔ j.status = .running ∧ ∃ u, j.leaseUntil = some u ∧ u < now := by
  simp [expired, Option.any_eq_true]

theorem Job.blocking_iff {j : Job} :
    j.blocking = true ↔
      j.kind = .release ∧ (j.status = .running ∨ j.status = .needsManualConfirmation) := by
  simp [blocking, occupied]

section Step

variable {P : Platform} {op : Op} {now : Instant} {K : Set (Resource Key)} {d d' : Db}
  {r : Reply} {id : Id}

/-- A row stays, with its origin. -/
theorem JobStep.kept (h : JobStep P op now K d d' r id) {j : Job} (hj : d.job? id = some j) :
    ∃ j', d'.job? id = some j' ∧ j'.origin = j.origin := by
  cases h with
  | same hjob => exact ⟨j, hjob.trans hj, rfl⟩
  | queued j' e hd => rw [hd.fresh] at hj; cases hj
  | started j₀ token _ _ hj₀ _ hjob =>
      rw [hj] at hj₀
      cases hj₀
      exact ⟨_, hjob, rfl⟩
  | checkpointed j₀ token c e _ hj₀ _ hjob =>
      rw [hj] at hj₀
      cases hj₀
      exact ⟨_, hjob, rfl⟩
  | extended j₀ token _ hj₀ _ hjob =>
      rw [hj] at hj₀
      cases hj₀
      exact ⟨_, hjob, rfl⟩
  | swept j₀ e _ hj₀ _ hjob =>
      rw [hj] at hj₀
      cases hj₀
      exact ⟨_, hjob, rfl⟩

/-- Only under the row's lock, or its new key, does anything happen to a row. -/
theorem JobStep.frame (h : JobStep P op now K d d' r id) (hrow : .key (.job id) ∉ K)
    (hnew : .serial id ∉ K) :
    d'.job? id = d.job? id ∧ d'.eventsOf id = d.eventsOf id := by
  cases h with
  | same hjob hevents _ => exact ⟨hjob, hevents⟩
  | queued j e hd => exact absurd hd.key hnew
  | started j token _ _ _ _ _ _ hr => exact absurd hr hrow
  | checkpointed j token c e _ _ _ _ _ _ _ hr => exact absurd hr hrow
  | extended j token _ _ _ _ _ hr => exact absurd hr hrow
  | swept j e _ _ _ _ _ _ _ hr => exact absurd hr hrow

/-- A row in the store changes only under its lock. -/
theorem JobStep.locked (h : JobStep P op now K d d' r id) (hrow : .key (.job id) ∉ K) {j : Job}
    (hj : d.job? id = some j) :
    d'.job? id = some j ∧ d'.eventsOf id = d.eventsOf id := by
  by_cases hnew : .serial id ∈ K
  · cases h with
    | same hjob hevents _ => exact ⟨hjob.trans hj, hevents⟩
    | queued j e hd => rw [hd.fresh] at hj; cases hj
    | started j token _ _ _ _ _ _ hr => exact absurd hr hrow
    | checkpointed j token c e _ _ _ _ _ _ _ hr => exact absurd hr hrow
    | extended j token _ _ _ _ _ hr => exact absurd hr hrow
    | swept j e _ _ _ _ _ _ _ hr => exact absurd hr hrow
  · obtain ⟨hjob, hevents⟩ := h.frame hrow hnew
    exact ⟨hjob.trans hj, hevents⟩

/-- **Only `claim` puts a release behind the barrier of its address**, and only under
the lock of the address.

This is the heart of exclusion: of all the steps one only adds a release to those that block the
address, and it holds the lock under which it has seen that there is none. -/
theorem JobStep.barrier (h : JobStep P op now K d d' r id) {j' : Job}
    (hj' : d'.job? id = some j') (hblock : j'.blocking) :
    (∃ j, d.job? id = some j ∧ j.blocking ∧ j.targetIp = j'.targetIp) ∨
      (.key (.address (P.hashtextextended j'.targetIp)) ∈ K ∧
        d.blockedBy j'.targetIp (some id) = false ∧
        ∀ id', id' ≠ id → d'.job? id' = d.job? id') := by
  cases h with
  | same hjob _ _ => exact .inl ⟨j', hjob ▸ hj', hblock, rfl⟩
  | queued j e hd =>
      rw [hd.job?, if_pos rfl] at hj'
      cases hj'
      simp [Job.blocking, Job.occupied, hd.status.1] at hblock
  | started j token _ _ hj _ hjob _ _ hbarrier honly =>
      rw [hjob] at hj'
      cases hj'
      obtain ⟨hkey, hfree⟩ := hbarrier (Job.blocking_iff.mp hblock).1
      exact .inr ⟨hkey, hfree, honly⟩
  | checkpointed j token c e _ hj hlease hjob =>
      rw [hjob] at hj'
      cases hj'
      refine .inl ⟨j, hj, ?_, rfl⟩
      exact Job.blocking_iff.mpr ⟨(Job.blocking_iff.mp hblock).1, .inl (Job.holds_iff.mp hlease).2.1⟩
  | extended j token _ hj hlease hjob =>
      rw [hjob] at hj'
      cases hj'
      exact .inl ⟨j, hj, hblock, rfl⟩
  | swept j e _ hj hexpired hjob =>
      rw [hjob] at hj'
      cases hj'
      refine .inl ⟨j, hj, ?_, rfl⟩
      exact Job.blocking_iff.mpr ⟨(Job.blocking_iff.mp hblock).1, .inl (Job.expired_iff.mp hexpired).1⟩

/-- A release of a preparation appears only under the preparation's lock. -/
theorem JobStep.releaseOf (h : JobStep P op now K d d' r id) {j' : Job} {p : Id}
    (hj' : d'.job? id = some j') (hp : j'.preparationJobId = some p) :
    (∃ j, d.job? id = some j ∧ j.preparationJobId = some p) ∨ .key (.job p) ∈ K := by
  cases hj : d.job? id with
  | some j =>
      obtain ⟨j₁, hj₁, horigin⟩ := h.kept hj
      rw [hj'] at hj₁
      cases hj₁
      exact .inl ⟨j, rfl, (Job.preparationJobId_of_origin horigin).symm.trans hp⟩
  | none =>
      cases h with
      | same hjob _ _ => rw [hjob, hj] at hj'; cases hj'
      | queued j e hd hprep =>
          rw [hd.job?, if_pos rfl] at hj'
          cases hj'
          exact .inr (hprep p hp).1
      | started j token _ _ hj₀ => rw [hj] at hj₀; cases hj₀
      | checkpointed j token c e _ hj₀ => rw [hj] at hj₀; cases hj₀
      | extended j token _ hj₀ => rw [hj] at hj₀; cases hj₀
      | swept j e _ hj₀ => rw [hj] at hj₀; cases hj₀

end Step

/-! ## The contract -/

/-- The service's contract. -/
def contract (P : Platform) : Contract Db Key Op Instant Reply where
  inv := Db.Bounded
  inv_mono := Db.Bounded.mono
  commits := Commit P

section Stable

variable {P : Platform} {K : Set (Resource Key)} {s s' : Db × ℕ}

private theorem notMem_of_disjoint {K K' : Set (Resource Key)} (h : Disjoint K K')
    {r : Resource Key} (hr : r ∈ K) : r ∉ K' := Set.disjoint_left.mp h hr

/-- A locked row and its events do not change. -/
theorem job_stable (h : (contract P).interference.rel K s s') {id : Id} {j : Job}
    (hrow : .key (.job id) ∈ K) (hj : s.1.job? id = some j) :
    s'.1.job? id = some j ∧ s'.1.eventsOf id = s.1.eventsOf id := by
  refine Contract.interference_keeps (C := contract P)
    (P := fun d => d.job? id = some j ∧ d.eventsOf id = s.1.eventsOf id) h ?_ ⟨hj, rfl⟩
  rintro op now K' d d' r hK hc ⟨hd, hev⟩
  obtain ⟨hd', hev'⟩ := (hc.jobStep id).locked (notMem_of_disjoint hK hrow) hd
  exact ⟨hd', hev'.trans hev⟩

theorem noEvent_iff {d : Db} {id : Id} :
    (∀ e ∈ d.events, e.jobId ≠ id) ↔ d.eventsOf id = [] := by
  simp [Db.eventsOf, List.filter_eq_nil_iff]

/-- A key drawn but not yet inserted stays unused. -/
theorem fresh_stable (h : (contract P).interference.rel K s s') {id : Id}
    (hkey : .serial id ∈ K) (hnone : s.1.job? id = none)
    (hevents : ∀ e ∈ s.1.events, e.jobId ≠ id) :
    s'.1.job? id = none ∧ ∀ e ∈ s'.1.events, e.jobId ≠ id := by
  rw [noEvent_iff] at hevents ⊢
  refine Contract.interference_keeps (C := contract P)
    (P := fun d => d.job? id = none ∧ d.eventsOf id = []) h ?_ ⟨hnone, hevents⟩
  rintro op now K' d d' r hK hc ⟨hd, hev⟩
  have hnew : Resource.serial id ∉ K' := notMem_of_disjoint hK hkey
  cases hc.jobStep id with
  | same hjob hev' _ => exact ⟨hjob.trans hd, hev'.trans hev⟩
  | queued j e hd => exact absurd hd.key hnew
  | started j token _ _ hj => rw [hd] at hj; cases hj
  | checkpointed j token c e _ hj => rw [hd] at hj; cases hj
  | extended j token _ hj => rw [hd] at hj; cases hj
  | swept j e _ hj => rw [hd] at hj; cases hj

/-- A locked address gets no new blocking release. -/
theorem barrier_stable (h : (contract P).interference.rel K s s') {ip : IPv4}
    {except : Option Id} (hkey : .key (.address (P.hashtextextended ip)) ∈ K)
    (hfree : s.1.blockedBy ip except = false) : s'.1.blockedBy ip except = false := by
  refine Contract.interference_keeps (C := contract P)
    (P := fun d => d.blockedBy ip except = false) h ?_ hfree
  intro op now K' d d' r hK hc hd
  rw [Db.blockedBy_eq_false] at hd ⊢
  intro id j hj hip hid
  by_contra hblock
  rw [Bool.not_eq_false] at hblock
  rcases (hc.jobStep id).barrier hj hblock with ⟨j₀, hj₀, hblock₀, hip₀⟩ | ⟨hkey', -, -⟩
  · rw [hd id j₀ hj₀ (hip₀.trans hip) hid] at hblock₀
    cases hblock₀
  · rw [hip] at hkey'
    exact notMem_of_disjoint hK hkey hkey'

/-- A locked preparation gets no release. -/
theorem noRelease_stable (h : (contract P).interference.rel K s s') {p : Id}
    (hkey : .key (.job p) ∈ K)
    (hnone : ∀ id j, s.1.job? id = some j → j.preparationJobId ≠ some p) :
    ∀ id j, s'.1.job? id = some j → j.preparationJobId ≠ some p := by
  refine Contract.interference_keeps (C := contract P)
    (P := fun d => ∀ id j, d.job? id = some j → j.preparationJobId ≠ some p) h ?_ hnone
  intro op now K' d d' r hK hc hd id j hj hp
  rcases (hc.jobStep id).releaseOf hj hp with ⟨j₀, hj₀, hp₀⟩ | hkey'
  · exact hd id j₀ hj₀ hp₀
  · exact notMem_of_disjoint hK hkey hkey'

/-- A row stays, with its origin. -/
theorem kept_stable (h : (contract P).interference.rel K s s') {id : Id} {j : Job}
    (hj : s.1.job? id = some j) : ∃ j', s'.1.job? id = some j' ∧ j'.origin = j.origin := by
  refine Contract.interference_keeps (C := contract P)
    (P := fun d => ∃ j', d.job? id = some j' ∧ j'.origin = j.origin) h ?_ ⟨j, hj, rfl⟩
  rintro op now K' d d' r - hc ⟨j₁, hj₁, ho₁⟩
  obtain ⟨j₂, hj₂, ho₂⟩ := (hc.jobStep id).kept hj₁
  exact ⟨j₂, hj₂, ho₂.trans ho₁⟩

/-- Assets only grow. -/
theorem grows_stable (h : (contract P).interference.rel K s s') : s.1.Grows s'.1 :=
  Contract.interference_induct (C := contract P) (P := Db.Grows) Db.Grows.refl
    (fun h h' => h.trans h') (fun _ hc => hc.grows) h

/-- A locked asset row does not change. -/
theorem asset_stable (h : (contract P).interference.rel K s s') {t : AssetTable} {id : Id}
    {a : Asset} (hkey : .key (.asset t id) ∈ K) (ha : s.1.asset? t id = some a) :
    s'.1.asset? t id = some a := by
  refine Contract.interference_keeps (C := contract P)
    (P := fun d => d.asset? t id = some a) h ?_ ha
  intro op now K' d d' r hK hc hd
  rcases hc.asset t id with hsame | ⟨-, hnone⟩ | ⟨b, set, hkey', -, -⟩
  · exact hsame.trans hd
  · rw [hd] at hnone
    cases hnone
  · exact absurd hkey' (notMem_of_disjoint hK hkey)

/-- A key drawn but not yet inserted stays unused in the asset tables too. -/
theorem asset_fresh_stable (h : (contract P).interference.rel K s s') {id : Id}
    (hkey : .serial id ∈ K) {t : AssetTable} (hnone : s.1.asset? t id = none) :
    s'.1.asset? t id = none := by
  refine Contract.interference_keeps (C := contract P)
    (P := fun d => d.asset? t id = none) h ?_ hnone
  intro op now K' d d' r hK hc hd
  rcases hc.asset t id with hsame | ⟨hkey', -⟩ | ⟨b, set, -, hb, -⟩
  · exact hsame.trans hd
  · exact absurd hkey' (notMem_of_disjoint hK hkey)
  · rw [hd] at hb
    cases hb

end Stable

/-! ## Keys in use -/

/-- A commit that inserts only under keys it holds keeps the keys bounded. -/
theorem Commit.bounded {P : Platform} {op : Op} {now : Instant} {K : Set (Resource Key)}
    {d d' : Db} {r : Reply} (h : Commit P op now K d d' r) {n : ℕ} (hd : d.Bounded n)
    (hK : ∀ m, .serial m ∈ K → m < n) (hevents : ∀ e ∈ d'.events, e ∈ d.events ∨
      (e.id < n ∧ e.jobId < n)) : d'.Bounded n where
  job id j hj := by
    cases hj₀ : d.job? id with
    | some j₀ => exact hd.job id j₀ hj₀
    | none =>
        cases h.jobStep id with
        | same hjob _ _ => rw [hjob, hj₀] at hj; cases hj
        | queued j e hd => exact hK id hd.key
        | started j token _ _ hj' => rw [hj₀] at hj'; cases hj'
        | checkpointed j token c e _ hj' => rw [hj₀] at hj'; cases hj'
        | extended j token _ hj' => rw [hj₀] at hj'; cases hj'
        | swept j e _ hj' => rw [hj₀] at hj'; cases hj'
  event e he := by
    rcases hevents e he with h' | h'
    · exact hd.event e h'
    · exact h'
  asset t id a ha := by
    rcases h.asset t id with hsame | ⟨hkey, -⟩ | ⟨b, set, -, hb, -⟩
    · exact hd.asset t id a (hsame ▸ ha)
    · exact hK id hkey
    · exact hd.asset t id b hb

end BindPlane
