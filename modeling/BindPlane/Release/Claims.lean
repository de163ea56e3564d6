import BindPlane.Release.Confirmation

/-!
# What an executor may rely on

A worker knows of the store what its transactions replied.  This module says what those
replies still mean later: which row a claim started, that no other claim ever starts it,
where the status of a row comes from, and which revision of the assets a dependency row
was.

* `Queue.Reachable.claimed_once`: two claims that committed with one job are one claim.
* `Queue.Reachable.row_status`: a row beyond `queued` and `running` was swept or carries
  the status of a committed checkpoint of it.
* `Queue.Reachable.loaded_after`: a row loaded by a transaction asked for later than some
  state is that state's revision or a newer one.
-/

namespace BindPlane

open ReadCommitted Contract

/-- Transaction `t` has claimed `job`. -/
def Queue.ClaimedBy (s : Queue) (t : ℕ) (job : ClaimedJob) : Prop :=
  ∃ now, s.txns t = .committed .claim now (.claimed (some job))

theorem Queue.ClaimedBy.job_eq {s : Queue} {t : ℕ} {job job' : ClaimedJob}
    (h : s.ClaimedBy t job) (h' : s.ClaimedBy t job') : job = job' := by
  obtain ⟨now, h⟩ := h
  obtain ⟨now', h'⟩ := h'
  rw [h] at h'
  cases h'
  rfl

/-- The claimed job describes the row `j`.

The origin of a row does not change, so the description is true of the row at any later time as
well. -/
structure ClaimedJob.Describes (job : ClaimedJob) (j : Job) : Prop where
  kind : job.kind = j.kind
  targetIp : job.targetIp = j.targetIp
  force : job.force = j.force
  switchId : job.switchId = j.pins.switchId
  commandProfileId : job.commandProfileId = j.pins.commandProfileId
  switchVersion : job.switchVersion = j.pins.switchVersion
  commandProfileVersion : job.commandProfileVersion = j.pins.commandProfileVersion

theorem ClaimedJob.Describes.of_origin {job : ClaimedJob} {j j' : Job} (h : job.Describes j)
    (ho : j'.origin = j.origin) : job.Describes j' where
  kind := h.kind.trans (Job.kind_of_origin ho).symm
  targetIp := h.targetIp.trans (Job.targetIp_of_origin ho).symm
  force := h.force.trans (Job.force_of_origin ho).symm
  switchId := h.switchId.trans (by rw [Job.pins_of_origin ho])
  commandProfileId := h.commandProfileId.trans (by rw [Job.pins_of_origin ho])
  switchVersion := h.switchVersion.trans (by rw [Job.pins_of_origin ho])
  commandProfileVersion := h.commandProfileVersion.trans (by rw [Job.pins_of_origin ho])

/-- The store holds a row for the claimed job, and it is not queued any more. -/
def Db.HasStarted (d : Db) (job : ClaimedJob) : Prop :=
  ∃ j, d.job? job.id = some j ∧ j.status ≠ .queued ∧ job.Describes j

section Steps

variable {P : Platform} {op : Op} {now : Instant} {K : Set (Resource Key)} {d d' : Db}
  {r : Reply}

theorem Db.HasStarted.kept {job : ClaimedJob} (hd : d.HasStarted job)
    (h : Commit P op now K d d' r) : d'.HasStarted job := by
  obtain ⟨j, hj, hq, hdesc⟩ := hd
  obtain ⟨j', hj', ho⟩ := (h.jobStep job.id).kept hj
  exact ⟨j', hj', (h.jobStep job.id).not_requeued hj hq hj', hdesc.of_origin ho⟩

/-- A claim finds its job queued and starts it. -/
theorem Commit.claims {job : ClaimedJob} (h : Commit P .claim now K d d' (.claimed (some job))) :
    (∃ j, d.job? job.id = some j ∧ j.status = .queued) ∧ d'.HasStarted job := by
  cases h with
  | started id j token hj hqueued hrow htoken hbarrier =>
      refine ⟨⟨j, hj, hqueued⟩, ⟨j.started now token, ?_, by simp [Job.started], ?_⟩⟩
      · rw [Db.job?_modifyJob]
        exact (if_pos rfl).trans (by rw [show (j.claimed id token).id = id from rfl, hj]; rfl)
      · exact ⟨rfl, rfl, rfl, rfl, rfl, rfl, rfl⟩

/-- A checkpoint leaves the row with its status. -/
theorem Commit.saves {job : JobRef} {c : Checkpoint}
    (h : Commit P (.checkpoint job c) now K d d' r) :
    ∃ j, d'.job? job.id = some j ∧ j.status = c.status := by
  cases h with
  | saved job c j e hj =>
      refine ⟨j.checkpointed now c, ?_, rfl⟩
      rw [Db.job?_addEvent, Db.job?_modifyJob, if_pos rfl, hj]
      rfl

end Steps

/-- A claimed job has been started. -/
theorem Queue.Reachable.hasStarted {P : Platform} {s : Queue} (h : s.Reachable P) {t : ℕ}
    {job : ClaimedJob} (ht : s.ClaimedBy t job) : s.db.HasStarted job := by
  obtain ⟨now, ht⟩ := ht
  induction h with
  | refl => cases ht
  | tail hrun hstep ih =>
      obtain ⟨a, ha⟩ := hstep
      cases Sound.outcome (Queue.Reachable.sound hrun) ha with
      | quiet hdb hcommitted =>
          rw [hdb]
          exact ih ((hcommitted _ _ _ _).mp ht)
      | commit op now' r w _ hcommit hcommitted =>
          rcases (hcommitted _ _ _ _).mp ht with ht | ⟨-, rfl, rfl, rfl⟩
          · exact (ih ht).kept hcommit
          · exact hcommit.claims.2

/-- **A job is claimed once.**

A claim takes a row out of `queued`, and no step leads back there.  So the second of two claims
would have found the row in another status. -/
theorem Queue.Reachable.claimed_once {P : Platform} {s : Queue} (h : s.Reachable P) {t t' : ℕ}
    {job job' : ClaimedJob} (ht : s.ClaimedBy t job) (ht' : s.ClaimedBy t' job')
    (hid : job.id = job'.id) : t = t' := by
  obtain ⟨now, ht⟩ := ht
  obtain ⟨now', ht'⟩ := ht'
  induction h with
  | refl => cases ht
  | @tail s₀ s₁ hrun hstep ih =>
      obtain ⟨a, ha⟩ := hstep
      cases Sound.outcome (Queue.Reachable.sound hrun) ha with
      | quiet hdb hcommitted =>
          exact ih ((hcommitted _ _ _ _).mp ht) ((hcommitted _ _ _ _).mp ht')
      | commit op now₀ r w _ hcommit hcommitted =>
          -- a claim that commits now finds a queued row, and the other has started it
          have hclash : ∀ {t₁ now₁ job₁ job₂}, job₁.id = job₂.id →
              s₀.txns t₁ = .committed .claim now₁ (.claimed (some job₁)) → op = .claim →
              r = .claimed (some job₂) → False := by
            rintro t₁ now₁ job₁ job₂ heq h₁ rfl rfl
            obtain ⟨j, hj, hq, -⟩ := Queue.Reachable.hasStarted hrun ⟨now₁, h₁⟩
            obtain ⟨⟨j', hj', hq'⟩, -⟩ := hcommit.claims
            rw [← heq, hj] at hj'
            cases hj'
            exact hq hq'
          rcases (hcommitted _ _ _ _).mp ht with ht | ⟨rfl, hop, -, hr⟩
          · rcases (hcommitted _ _ _ _).mp ht' with ht' | ⟨rfl, hop', -, hr'⟩
            · exact ih ht ht'
            · exact (hclash hid ht hop'.symm hr'.symm).elim
          · rcases (hcommitted _ _ _ _).mp ht' with ht' | ⟨rfl, -⟩
            · exact (hclash hid.symm ht' hop.symm hr.symm).elim
            · rfl

/-- A row stays, with its origin. -/
theorem Queue.Reachable.origin {P : Platform} {s s' : Queue} (h : s.Reachable P)
    (hs : Queue.Steps P s s') {id : Id} {j : Job} (hj : s.db.job? id = some j) :
    ∃ j', s'.db.job? id = some j' ∧ j'.origin = j.origin :=
  h.steps_row hs (I := fun o => ∃ j', o = some j' ∧ j'.origin = j.origin)
    (fun hc ⟨j₁, hj₁, ho₁⟩ => by
      obtain ⟨j₂, hj₂, ho₂⟩ := hc.kept hj₁
      exact ⟨j₂, hj₂, ho₂.trans ho₁⟩) ⟨j, hj, rfl⟩

/-! ## Where a status comes from -/

/-- A committed checkpoint gave job `id` the status `status`. -/
def Queue.Saved (s : Queue) (id : Id) (status : Status) : Prop :=
  ∃ t token c now r, s.txns t = .committed (.checkpoint ⟨id, token⟩ c) now r ∧ c.status = status

/-- **Where the status of a row comes from.** -/
theorem Queue.Reachable.row_status {P : Platform} {s : Queue} (h : s.Reachable P) {id : Id}
    {j : Job} (hj : s.db.job? id = some j) :
    j.status = .queued ∨ j.status = .running ∨ j.status = .needsManualConfirmation ∨
      s.Saved id j.status := by
  induction h generalizing j with
  | refl => simp [start, Sys.init, Db.empty, Db.job?] at hj
  | @tail s₀ s₁ hrun hstep ih =>
      obtain ⟨a, ha⟩ := hstep
      cases Sound.outcome (Queue.Reachable.sound hrun) ha with
      | quiet hdb hcommitted =>
          refine (ih (hdb ▸ hj)).imp (fun h => h) (.imp (fun h => h) (.imp (fun h => h) ?_))
          rintro ⟨t, token, c, now, r, ht, hc⟩
          exact ⟨t, token, c, now, r, (hcommitted _ _ _ _).mpr ht, hc⟩
      | commit op now r w _ hcommit hcommitted =>
          -- a commit that leaves the status alone leaves where it comes from
          have hold : ∀ {j₀}, s₀.db.job? id = some j₀ → j₀.status = j.status →
              j.status = .queued ∨ j.status = .running ∨ j.status = .needsManualConfirmation ∨
                Queue.Saved s₁ id j.status := by
            intro j₀ hj₀ hstatus
            rw [← hstatus]
            refine (ih hj₀).imp (fun h => h) (.imp (fun h => h) (.imp (fun h => h) ?_))
            rintro ⟨t, token, c, now, r, ht, hc⟩
            exact ⟨t, token, c, now, r, (hcommitted _ _ _ _).mpr (.inl ht), hc⟩
          cases hcommit.jobStep id with
          | same hjob => exact hold (hjob ▸ hj) rfl
          | queued j₀ e hd =>
              rw [hd.job?, if_pos rfl] at hj
              cases hj
              exact .inl hd.status.1
          | started j₀ token _ _ _ _ hjob =>
              rw [hjob] at hj
              cases hj
              exact .inr (.inl rfl)
          -- the checkpoint that is committed is the one that saves it
          | checkpointed j₀ token c e hop _ _ hjob =>
              rw [hjob] at hj
              cases hj
              refine .inr (.inr (.inr ⟨a.txn, token, c, now, r, ?_, rfl⟩))
              exact (hcommitted _ _ _ _).mpr (.inr ⟨rfl, hop.symm, rfl, rfl⟩)
          | extended j₀ token _ hj₀ _ hjob =>
              rw [hjob] at hj
              cases hj
              exact hold hj₀ rfl
          | swept j₀ e _ _ _ hjob =>
              rw [hjob] at hj
              cases hj
              exact .inr (.inr (.inl rfl))

/-- A checkpoint that ends a job is the last word on its status. -/
theorem Queue.Reachable.saved_final {P : Platform} {s : Queue} (h : s.Reachable P) {t : ℕ}
    {job : JobRef} {c : Checkpoint} {now : Instant} {r : Reply}
    (ht : s.txns t = .committed (.checkpoint job c) now r) (hc : c.status ≠ .running) :
    ∃ j, s.db.job? job.id = some j ∧ j.status = c.status := by
  induction h with
  | refl => cases ht
  | tail hrun hstep ih =>
      obtain ⟨a, ha⟩ := hstep
      cases Sound.outcome (Queue.Reachable.sound hrun) ha with
      | quiet hdb hcommitted =>
          rw [hdb]
          exact ih ((hcommitted _ _ _ _).mp ht)
      | commit op now' r' w _ hcommit hcommitted =>
          rcases (hcommitted _ _ _ _).mp ht with ht | ⟨-, rfl, rfl, rfl⟩
          · obtain ⟨j, hj, hstatus⟩ := ih ht
            refine ⟨j, (hcommit.jobStep job.id).settled hj ?_ ?_, hstatus⟩
            · rw [hstatus]
              exact c.status_ne
            · rwa [hstatus]
          · exact hcommit.saves

/-! ## Which revision a job is pinned to -/

/-- Every job is pinned to a revision of its switch and profile. -/
def Db.Pinned (d : Db) : Prop :=
  ∀ id j, d.job? id = some j → ∃ r : Joined, j.pins = r.pins ∧ d.SeenJoined r

theorem Commit.pinned {P : Platform} {op : Op} {now : Instant} {K : Set (Resource Key)}
    {d d' : Db} {r : Reply} (h : Commit P op now K d d' r) (hd : d.Pinned) : d'.Pinned := by
  intro id j hj
  have hold : ∀ {i j₀}, d.job? i = some j₀ → j.pins = j₀.pins →
      ∃ r : Joined, j.pins = r.pins ∧ d'.SeenJoined r := by
    intro i j₀ hj₀ hpins
    obtain ⟨r, hr, hseen⟩ := hd i j₀ hj₀
    exact ⟨r, hpins.trans hr, hseen.grows h.grows⟩
  cases h.row hj with
  | kept j₀ hj₀ horigin => exact hold hj₀ (Job.pins_of_origin horigin)
  | prepared _ _ _ hpins =>
      obtain ⟨r, hr, hseen⟩ := hpins
      exact ⟨r, hr, hseen.grows h.grows⟩
  | confirmed princ input p prep _ _ hprep _ _ _ _ hj' => exact hold hprep (hj' ▸ rfl)

theorem Queue.Reachable.pinned {P : Platform} {s : Queue} (h : s.Reachable P) : s.db.Pinned :=
  h.induct (by intro id j hj; simp [Db.empty, Db.job?] at hj) fun hc hd => hc.pinned hd

/-! ## Which revision a load returned -/

/-- Transaction `t` loaded the row `dep` of a switch and a profile.

The reply of the transaction is all that the worker has.  The tables may have changed by the time it
reads the reply, and what it knows for sure is the pair of versions in the row. -/
def Queue.Loads (s : Queue) (t : ℕ) (switchId profileId : Id) (dep : Dependencies) : Prop :=
  ∃ now, s.txns t =
    .committed (.loadDependencies switchId profileId) now (.dependencies (some dep))

/-- The row joins the switch and the profile in a state later than `a` and `b`. -/
structure Joined.Follows (r : Joined) (switchId profileId : Id) (a b : Asset) : Prop where
  switchId : r.switchId = switchId
  profileId : r.profileId = profileId
  switch : a.Precedes r.switch
  profile : b.Precedes r.profile

/-- What a load replies when it begins in a store that holds `a` and `b`, or a later state of
them. -/
theorem loadDependencies_follows {P : Platform} {switchId profileId : Id} {now : Instant}
    {a b : Asset} {v : View Db Key} (hv : (contract P).Good v) (hpending : v.pending = id)
    (ha : v.db.Seen .switches switchId a) (hb : v.db.Seen .commandProfiles profileId b) :
    (body P (.loadDependencies switchId profileId) now).Ensures (contract P).interference
      (fun r _ => ∀ dep, r = .ok (.dependencies (some dep)) →
        ∃ j : Joined, dep = j.dependencies ∧ j.Follows switchId profileId a b) v := by
  simp only [body, loadDependencies, Tx.bind_eq, Tx.pure_eq, Tx.bind_assoc, Tx.pure_bind]
  refine hv.snapshot fun v' hl hv' => hv'.pure fun _ _ _ dep hdep => ?_
  rw [snapshot_eq (hl.pending.trans hpending)] at hdep
  simp only [Except.ok.injEq, Reply.dependencies.injEq, Option.map_eq_some_iff,
    Option.filter_eq_some_iff, decide_eq_true_eq] at hdep
  obtain ⟨r, ⟨hr, hprofile⟩, rfl⟩ := hdep
  obtain ⟨hswitch, hs, -, hp⟩ := Db.usableSwitch_eq_some hr
  obtain ⟨a', ha', haa'⟩ := ha.grows (grows_stable hl.rel)
  obtain ⟨b', hb', hbb'⟩ := hb.grows (grows_stable hl.rel)
  rw [hprofile] at hp
  rw [hs] at ha'
  rw [hp] at hb'
  cases ha'
  cases hb'
  exact ⟨r, rfl, hswitch, hprofile, haa', hbb'⟩

/-- **A load asked for later sees no earlier revision.** -/
theorem Queue.Reachable.loaded_after {P : Platform} {s₁ s : Queue} (h : s₁.Reachable P)
    (hs : Queue.Steps P s₁ s) {t : ℕ} (hfresh : s₁.txns t = .absent) {switchId profileId : Id}
    {a b : Asset} (ha : s₁.db.asset? .switches switchId = some a)
    (hb : s₁.db.asset? .commandProfiles profileId = some b) {dep : Dependencies}
    (ht : s.Loads t switchId profileId dep) :
    ∃ r : Joined, dep = r.dependencies ∧ r.Follows switchId profileId a b := by
  let Q : Except Failure Reply → Prop := fun r => ∀ dep, r = .ok (.dependencies (some dep)) →
    ∃ j : Joined, dep = j.dependencies ∧ j.Follows switchId profileId a b
  -- until it is asked for it is absent, and from then on it is tracked
  have hrun : s.txns t = .absent ∨ ∃ op, (s.txns t).op? = some op ∧
      (op = .loadDependencies switchId profileId → Tracked (contract P) (body P) Q s t) := by
    clear ht
    induction hs with
    | refl => exact .inl hfresh
    | @tail s₂ s₃ hrun hstep ih =>
        obtain ⟨act, hact⟩ := hstep
        rcases ih with habsent | ⟨op, hop, htracked⟩
        · cases hop : (s₃.txns t).op? with
          | none => exact .inl (Fate.op?_eq_none.mp hop)
          | some op =>
            refine .inr ⟨op, rfl, fun heq => ?_⟩
            subst heq
            have hgrows : s₁.db.Grows s₃.db := Sound.steps_rel (service_kept P) (P := Db.Grows)
              Db.Grows.refl (fun h h' => h.trans h') (fun hc => Commit.grows hc) h.sound
              (hrun.tail ⟨act, hact⟩)
            rcases Sys.step_op_back hact hop with hop' | rfl
            · rw [habsent] at hop'
              cases hop'
            simp only [Sys.step, habsent, Option.some.injEq] at hact
            subst hact
            simp only [Tracked, Sys.set_txns, Function.update_self]
            intro now v hinv hrel hpending hheld
            refine loadDependencies_follows ⟨hinv, by simp [hheld]⟩ hpending ?_ ?_
            · exact ((Db.Seen.of_eq ha).grows hgrows).grows (grows_stable hrel)
            · exact ((Db.Seen.of_eq hb).grows hgrows).grows (grows_stable hrel)
        · exact .inr ⟨op, (Sys.step_moved hact).op hop, fun heq =>
            (htracked heq).step (Queue.Reachable.sound (h.trans hrun)) hact⟩
  obtain ⟨now, ht⟩ := ht
  rcases hrun with habsent | htracked
  · rw [ht] at habsent
    cases habsent
  · obtain ⟨op, hop, htracked⟩ := htracked
    rw [ht] at hop
    cases hop
    have hend := htracked rfl
    simp only [Tracked, ht] at hend
    exact hend dep rfl

end BindPlane
