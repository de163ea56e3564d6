import BindPlane.Release.QueueKept

/-!
# The API keeps the contract

Prepare, Confirm and Retry end in `Enqueues`: a row under a key only this transaction
holds, with the event that announces it.  The preparation locked by Confirm is the one
it commits against, and no release of it can appear in between.  With the admin edits
this completes `service_kept`: every operation of the service keeps its contract.
-/

namespace BindPlane

open ReadCommitted Contract

variable {P : Platform} {β : Type} {v : View Db Key}
  {Q : Except Failure β → View Db Key → Prop}

/-! ## Statements -/

theorem selectJobForUpdate_bind {i : Id} {g : Option Job → Txn β} (hv : (contract P).Good v)
    (hpending : v.pending = id)
    (hnone : ∀ v', (contract P).Later v v' → (contract P).Good v' → v'.db.job? i = none →
      (g none).Ensures (contract P).interference Q v')
    (hsome : ∀ j v', (contract P).Later v v' → (contract P).Good v' →
      .key (.job i) ∈ v'.held → v'.db.job? i = some j →
      (g (some j)).Ensures (contract P).interference Q v') :
    ((selectJobForUpdate i).bind g).Ensures (contract P).interference Q v := by
  simp only [selectJobForUpdate, Tx.bind_eq, Tx.bind_assoc, Tx.pure_eq]
  refine hv.snapshot fun v₁ h₁ hv₁ => ?_
  rw [snapshot_eq (h₁.pending.trans hpending)]
  split
  · next hj => exact hnone v₁ h₁ hv₁ hj
  · simp only [Tx.bind_assoc, Tx.pure_bind]
    refine hv₁.acquire fun v₂ h₂ hv₂ hkey => hv₂.snapshot fun v₃ h₃ hv₃ => ?_
    rw [snapshot_eq (h₃.pending.trans (h₂.pending.trans (h₁.pending.trans hpending)))]
    cases hj : v₃.db.job? i with
    | none => exact hnone v₃ (h₁.trans (h₂.trans h₃)) hv₃ hj
    | some j => exact hsome j v₃ (h₁.trans (h₂.trans h₃)) hv₃ (h₃.held hkey) hj

/-- The two statements that queue a job: what the transaction has written, and that it
may commit it. -/
theorem enqueue_bind {now : Instant} {j : Job} {message : Option String}
    {retryOfId : Option Id} {g : Id → Txn β} (hv : (contract P).Good v)
    (hpending : v.pending = id) (hstatus : j.status = .queued ∧ j.phase = .queued)
    (hlease : j.leaseToken = none)
    (h : ∀ i v', (contract P).Good v' →
      (∀ v'', (contract P).Later v' v'' → (contract P).Good v'' →
        (contract P).Since v v'' ∧ ∃ e, Enqueues v''.held v''.db v''.snapshot i j e) →
      (g i).Ensures (contract P).interference Q v') :
    ((insertJob j).bind fun i =>
      (insertEvent now i .queued .queued message retryOfId).bind fun _ => g i).Ensures
      (contract P).interference Q v := by
  simp only [insertJob, Tx.bind_eq, Tx.bind_assoc, Tx.pure_eq, Tx.pure_bind]
  refine hv.nextSerial fun i v₁ h₁ hv₁ hkey _ hbound => ?_
  have hnone₁ : v₁.db.job? i = none := hbound.job_none
  have hevents₁ : ∀ e ∈ v₁.db.events, e.jobId ≠ i :=
    fun e he heq => absurd (hbound.event e he).2 (heq ▸ lt_irrefl _)
  refine hv₁.update fun v₂ h₂ hv₂ => ?_
  obtain ⟨hnone₂, hevents₂⟩ := fresh_stable h₂.rel hkey hnone₁ hevents₁
  refine insertEvent_bind (v := v₂.queue _) hv₂ (fun v' hl => ?_) ?_
  · have hafter := (fresh_stable hl.rel (h₂.held hkey) hnone₂ hevents₂).2
    rw [noEvent_iff.mp hafter]
    exact (noEvent_iff.mp hevents₂).symm
  intro e v₃ h₃ hv₃ hserial hnewest hjob hphase hestatus
  refine h i (v₃.queue _) hv₃ fun v₄ h₄ hv₄ => ?_
  have hl₂ : (contract P).Since v₂ v₄ := h₃.since.trans h₄.since
  obtain ⟨hnone₄, hevents₄⟩ := fresh_stable hl₂.rel (h₂.held hkey) hnone₂ hevents₂
  refine ⟨h₁.since.trans (h₂.since.trans hl₂), e, ?_⟩
  · refine ⟨?_, hl₂.held (h₂.held hkey), h₄.held hserial, hnone₄, hevents₄, hjob,
      ⟨hstatus.1, hstatus.2, hestatus, hphase⟩, hlease⟩
    rw [View.snapshot, h₄.pending, View.queue_pending, h₃.pending, View.queue_pending,
      h₂.pending, h₁.pending, hpending]
    rfl

/-- A commit that queues a job keeps the keys bounded. -/
theorem ended_of_enqueues {op : Op} {now : Instant} {r : Reply} {i : Id} {j : Job}
    {e : JobEvent} (hv : (contract P).Good v) (hd : Enqueues v.held v.db v.snapshot i j e)
    (hc : Commit P op now v.held v.db v.snapshot r) :
    (contract P).Ended (ε := Failure) op now (.ok r) v := by
  refine ended_of_commit hv hc fun e' he' => ?_
  rw [hd.result, Db.events_addEvent, Db.events_putJob, List.mem_cons] at he'
  rcases he' with rfl | he'
  · exact .inr ⟨hv.2 _ hd.eventKey, hd.job ▸ hv.2 _ hd.key⟩
  · exact .inl he'

/-! ## Prepare -/

theorem insertPreparation_kept {now : Instant} {p : Principal} {input : PrepareInput}
    {ip : IPv4} {selected : Selection} (hv : (contract P).Good v) (hpending : v.pending = id)
    (hadmin : input.force → p.admin) (hip : parseAddr input.targetIp = some ip) :
    (insertPreparation now p input ip selected).Ensures (contract P).interference
      ((contract P).Finishes (.prepare p input) now Reply.prepared) v := by
  simp only [insertPreparation, Tx.bind_eq, Tx.pure_eq]
  refine hv.snapshot fun v₁ h₁ hv₁ => ?_
  refine Tx.Ensures.expect_bind (fun r hr => ?_) (fun _ _ _ => trivial)
  rw [snapshot_eq (h₁.pending.trans hpending), Option.filter_eq_some_iff] at hr
  obtain ⟨-, hseen⟩ := Db.seenJoined_of_usableSwitch hr.1
  refine enqueue_bind hv₁ (h₁.pending.trans hpending) ⟨rfl, rfl⟩ rfl fun i v₂ hv₂ hlast => ?_
  refine Good.finish hv₂ fun v₃ h₃ hv₃ => ?_
  obtain ⟨hl, e, hd⟩ := hlast v₃ h₃ hv₃
  exact ended_of_enqueues hv₃ hd
    (.prepared p input ip selected r i e _ hadmin hip (hseen.grows (grows_stable hl.rel)) hd rfl)

theorem prepare_kept {now : Instant} {p : Principal} {input : PrepareInput}
    (hv : (contract P).Good v) (hpending : v.pending = id) :
    (body P (.prepare p input) now).Ensures (contract P).interference
      ((contract P).Ended (.prepare p input) now) v := by
  refine wrap ?_
  have hstopped : ∀ status v', (contract P).Later v v' → (contract P).Good v' →
      (Tx.pure (stoppedPreparation input status) : Txn Preparation).Ensures
        (contract P).interference
        ((contract P).Finishes (.prepare p input) now Reply.prepared) v' := by
    intro status v' hl hv'
    refine Good.finish hv' fun v'' hl' hv'' => ?_
    exact ended_unchanged hv'' (hl'.pending.trans (hl.pending.trans hpending))
      (.stopped p input _ rfl)
  simp only [prepare, storePrepare, Tx.bind_eq, Tx.pure_eq]
  refine Tx.Ensures.require_bind (fun _ => ?_) (fun _ _ _ => trivial)
  refine Tx.Ensures.require_bind (fun hforce => ?_) (fun _ _ _ => trivial)
  refine Tx.Ensures.require_bind (fun _ => ?_) (fun _ _ _ => trivial)
  refine Tx.Ensures.require_bind (fun _ => ?_) (fun _ _ _ => trivial)
  refine Tx.Ensures.require_bind (fun _ => ?_) (fun _ _ _ => trivial)
  have hadmin : input.force → p.admin := by
    intro hf
    simp only [hf, Bool.true_and, Bool.not_or, Bool.and_eq_true, Bool.not_not] at hforce
    exact hforce.1
  refine Tx.Ensures.expect_bind (fun ip hip => ?_) (fun _ _ _ => trivial)
  refine hv.snapshot fun v₁ h₁ hv₁ => ?_
  have hpending₁ := h₁.pending.trans hpending
  split
  · exact hstopped _ v₁ h₁ hv₁
  · split
    · refine Tx.Ensures.expect_bind (fun switchId _ => ?_) (fun _ _ _ => trivial)
      refine hv₁.snapshot fun v₂ h₂ hv₂ => ?_
      refine Tx.Ensures.require_bind (fun _ => ?_) (fun _ _ _ => trivial)
      exact insertPreparation_kept hv₂ (h₂.pending.trans hpending₁) hadmin hip
    · exact hstopped _ v₁ h₁ hv₁
  · exact fun _ _ => trivial
  · refine Tx.Ensures.require_bind (fun _ => ?_) (fun _ _ _ => trivial)
    exact insertPreparation_kept hv₁ hpending₁ hadmin hip

/-! ## Confirm -/

theorem pinnedSwitchCurrent_bind {ip : IPv4} {pins : Pins} {resolved : Option Id}
    {g : PUnit → Txn β} (hv : (contract P).Good v)
    (hfail : ∀ e v', Q (.error e) v')
    (h : ∀ v', (contract P).Later v v' → (contract P).Good v' →
      (g ⟨⟩).Ensures (contract P).interference Q v') :
    ((pinnedSwitchCurrent ip pins resolved).bind g).Ensures (contract P).interference Q v := by
  simp only [pinnedSwitchCurrent, Tx.bind_eq, Tx.bind_assoc, Tx.pure_eq]
  refine hv.snapshot fun v₁ h₁ hv₁ => ?_
  refine Tx.Ensures.require_bind (fun _ => ?_) (fun _ _ _ => hfail _ _)
  split
  · simp only [Tx.bind_assoc]
    refine hv₁.snapshot fun v₂ h₂ hv₂ => ?_
    exact Tx.Ensures.require_bind (fun _ => h v₂ (h₁.trans h₂) hv₂) (fun _ _ _ => hfail _ _)
  · exact h v₁ h₁ hv₁

theorem confirm_kept {now : Instant} {p : Principal} {input : ConfirmInput}
    (hv : (contract P).Good v) (hpending : v.pending = id) :
    (body P (.confirm p input) now).Ensures (contract P).interference
      ((contract P).Ended (.confirm p input) now) v := by
  refine wrap ?_
  simp only [confirm, storeConfirm, Tx.bind_eq, Tx.pure_eq]
  refine Tx.Ensures.require_bind (fun _ => ?_) (fun _ _ _ => trivial)
  refine Tx.Ensures.require_bind (fun _ => ?_) (fun _ _ _ => trivial)
  refine Tx.Ensures.require_bind (fun _ => ?_) (fun _ _ _ => trivial)
  refine Tx.Ensures.expect_bind (fun prepId hinput => ?_) (fun _ _ _ => trivial)
  refine selectJobForUpdate_bind hv hpending (fun _ _ _ _ _ _ => trivial) ?_
  intro prep v₁ h₁ hv₁ hkey hprep
  have hpending₁ := h₁.pending.trans hpending
  have hcanonical : input.preparationJobId = .canonical prepId := by
    cases hid : input.preparationJobId <;> rw [hid] at hinput <;> cases hinput
    rfl
  show Tx.Ensures _ _ ((Tx.require _ _).bind _) v₁
  refine Tx.Ensures.require_bind (fun howner => ?_) (fun _ _ _ => trivial)
  refine Tx.Ensures.require_bind (fun hok => ?_) (fun _ _ _ => trivial)
  refine Tx.Ensures.require_bind (fun _ => ?_) (fun _ _ _ => trivial)
  have howner : prep.actorId = p.userId := by simpa using howner
  refine hv₁.snapshot fun v₂ h₂ hv₂ => ?_
  have hpending₂ := h₂.pending.trans hpending₁
  rw [snapshot_eq hpending₂]
  split
  · next existing row hexisting =>
      -- the same request again: the release it queued is still there
      obtain ⟨hrow, hof⟩ := Db.releaseOf_eq_some hexisting
      refine Tx.Ensures.require_bind (fun hforce => ?_) (fun _ _ _ => trivial)
      have hforce : row.force = input.force := by simpa using hforce
      refine Good.finish hv₂ fun v₃ h₃ hv₃ => ?_
      obtain ⟨row', hrow', horigin⟩ := kept_stable h₃.rel hrow
      rw [hforce]
      exact ended_unchanged hv₃ (h₃.pending.trans hpending₂)
        (.confirmedAgain p input prepId prep existing row' row.status row.phase hcanonical
          (job_stable (h₂.trans h₃).rel hkey hprep).1 howner hrow'
          ((Job.preparationJobId_of_origin horigin).trans hof)
          ((Job.force_of_origin horigin).trans hforce))
  · next hnone =>
      rw [Db.releaseOf_eq_none] at hnone
      refine hv₂.snapshot fun v₃ h₃ hv₃ => ?_
      refine Tx.Ensures.require_bind (fun _ => ?_) (fun _ _ _ => trivial)
      refine pinnedSwitchCurrent_bind hv₃ (fun _ _ => trivial) fun v₄ h₄ hv₄ => ?_
      simp only [insertRelease, Tx.bind_eq, Tx.bind_assoc]
      refine hv₄.snapshot fun v₅ h₅ hv₅ => ?_
      have hl₅ := h₂.trans (h₃.trans (h₄.trans h₅))
      have hpending₅ := hl₅.pending.trans hpending₁
      rw [snapshot_eq hpending₅, (job_stable hl₅.rel hkey hprep).1]
      show Tx.Ensures _ _ ((Tx.acquire _).bind _) v₅
      refine hv₅.acquire fun v₆ h₆ hv₆ _ => hv₆.snapshot fun v₇ h₇ hv₇ => ?_
      refine Tx.Ensures.require_bind (fun _ => ?_) (fun _ _ _ => trivial)
      have hl₇ := hl₅.trans (h₆.trans h₇)
      refine enqueue_bind hv₇ (hl₇.pending.trans hpending₁) ⟨rfl, rfl⟩ rfl
        fun i v₈ hv₈ hlast => ?_
      refine Good.finish hv₈ fun v₉ h₉ hv₉ => ?_
      obtain ⟨hl, e, hd⟩ := hlast v₉ h₉ hv₉
      have hl₉ := hl₇.since.trans hl
      have hnone₉ := noRelease_stable
        ((h₃.trans (h₄.trans (h₅.trans (h₆.trans h₇)))).since.trans hl).rel (h₂.held hkey) hnone
      exact ended_of_enqueues hv₉ hd (.confirmed p input prepId prep i e hcanonical
        (job_stable hl₉.rel hkey hprep).1 (hl₉.held hkey) howner hok hnone₉ hd)

/-! ## Retry -/

theorem resolveAgain_bind {original : Job} {g : Id × Option Id → Txn β}
    (hv : (contract P).Good v) (hfail : ∀ e v', Q (.error e) v')
    (h : ∀ target v', (contract P).Later v v' → (contract P).Good v' →
      (g target).Ensures (contract P).interference Q v') :
    ((resolveAgain original).bind g).Ensures (contract P).interference Q v := by
  simp only [resolveAgain, Tx.bind_eq, Tx.pure_eq]
  split
  · simp only [Tx.bind_assoc]
    refine hv.snapshot fun v₁ h₁ hv₁ => ?_
    split
    · exact fun _ _ => hfail _ _
    · exact h _ v₁ h₁ hv₁
  · exact h _ v (.refl v) hv

theorem retry_kept {now : Instant} {p : Principal} {original : UuidText}
    (hv : (contract P).Good v) (hpending : v.pending = id) :
    (body P (.retry p original) now).Ensures (contract P).interference
      ((contract P).Ended (.retry p original) now) v := by
  refine wrap ?_
  simp only [retry, storeRetry, Tx.bind_eq, Tx.pure_eq]
  refine Tx.Ensures.require_bind (fun _ => ?_) (fun _ _ _ => trivial)
  refine Tx.Ensures.expect_bind (fun originalId hinput => ?_) (fun _ _ _ => trivial)
  refine selectJobForUpdate_bind hv hpending (fun _ _ _ _ _ _ => trivial) ?_
  intro job v₁ h₁ hv₁ hkey hjob
  have hpending₁ := h₁.pending.trans hpending
  have hcanonical : original = .canonical originalId := by
    cases original <;> cases hinput
    rfl
  show Tx.Ensures _ _ ((Tx.require _ _).bind _) v₁
  refine Tx.Ensures.require_bind (fun _ => ?_) (fun _ _ _ => trivial)
  refine Tx.Ensures.require_bind (fun hforce => ?_) (fun _ _ _ => trivial)
  refine Tx.Ensures.require_bind (fun _ => ?_) (fun _ _ _ => trivial)
  have hadmin : job.force → p.admin := by
    intro hf
    simpa [hf] using hforce
  refine resolveAgain_bind hv₁ (fun _ _ => trivial) fun target v₂ h₂ hv₂ => ?_
  refine hv₂.snapshot fun v₃ h₃ hv₃ => ?_
  have hl₃ := h₂.trans h₃
  have hpending₃ := hl₃.pending.trans hpending₁
  rw [snapshot_eq hpending₃, (job_stable hl₃.rel hkey hjob).1]
  refine Tx.Ensures.expect_bind (fun row hrow => ?_) (fun _ _ _ => trivial)
  cases hrow
  refine Tx.Ensures.expect_bind (fun r hr => ?_) (fun _ _ _ => trivial)
  rw [Option.filter_eq_some_iff] at hr
  obtain ⟨-, hseen⟩ := Db.seenJoined_of_usableSwitch hr.1
  refine enqueue_bind hv₃ hpending₃ ⟨rfl, rfl⟩ rfl fun i v₄ hv₄ hlast => ?_
  refine Good.finish hv₄ fun v₅ h₅ hv₅ => ?_
  obtain ⟨hl, e, hd⟩ := hlast v₅ h₅ hv₅
  exact ended_of_enqueues hv₅ hd (.retried p original originalId job target.2 r i e _
    hcanonical (job_stable (hl₃.since.trans hl).rel hkey hjob).1 hadmin
    (hseen.grows (grows_stable hl.rel)) hd rfl)

/-! ## Admin edits -/

theorem updateAudited_kept {now : Instant} {actor : Principal} {table : AssetTable}
    {uid : UuidText} {version : ℕ} {next : Column → Option Cell}
    (hv : (contract P).Good v) (hpending : v.pending = id) :
    (body P (.updateAudited actor table uid version next) now).Ensures
      (contract P).interference
      ((contract P).Ended (.updateAudited actor table uid version next) now) v := by
  refine wrap ?_
  simp only [updateAudited, selectAssetForUpdate, Tx.bind_eq, Tx.pure_eq]
  refine Tx.Ensures.require_bind (fun _ => ?_) (fun _ _ _ => trivial)
  refine Tx.Ensures.require_bind (fun hadmin => ?_) (fun _ _ _ => trivial)
  refine Tx.Ensures.expect_bind (fun i hi => ?_) (fun _ _ _ => trivial)
  have huid : uid = .canonical i := by
    cases uid <;> cases hi
    rfl
  refine Tx.Ensures.require_bind (fun _ => ?_) (fun _ _ _ => trivial)
  rw [Tx.bind_assoc]
  refine hv.snapshot fun v₁ h₁ hv₁ => ?_
  split
  · exact fun _ _ => trivial
  · simp only [Tx.bind_assoc, Tx.pure_bind]
    -- the row is read again behind its lock
    refine hv₁.acquire fun v₂ h₂ hv₂ hkey => hv₂.snapshot fun v₃ h₃ hv₃ => ?_
    have hpending₃ := h₃.pending.trans (h₂.pending.trans (h₁.pending.trans hpending))
    rw [snapshot_eq hpending₃]
    refine Tx.Ensures.expect_bind (fun row hrow => ?_) (fun _ _ _ => trivial)
    refine Tx.Ensures.require_bind (fun hversion => ?_) (fun _ _ _ => trivial)
    have hversion : row.version = version := by simpa using hversion
    generalize (assetKind table).fields.filterMap (auditField P row next) = edits
    split
    · refine Good.finish hv₃ fun v₄ h₄ hv₄ => ?_
      rw [hversion]
      exact ended_unchanged hv₄ (h₄.pending.trans hpending₃) (.unedited ..)
    · next hedits =>
        generalize hset : edits.map (fun e => (e.1, e.2.1)) = set
        have hne : set ≠ [] := by
          rw [← hset]
          simpa using hedits
        refine hv₃.update fun v₄ h₄ hv₄ => Good.update (v := v₄.queue _) hv₄ fun v₅ h₅ hv₅ => ?_
        refine Good.finish (v := v₅.queue _) hv₅ fun v₆ h₆ hv₆ => ?_
        have hl := h₄.since.trans (h₅.since.trans h₆.since)
        -- what the lock protects is so at the commit
        have hcommit : ∀ e, Commit P (.updateAudited actor table uid version next) now v₆.held
            v₆.db ((v₆.db.modifyAsset table i (Asset.edited set)).addAssetEvent e)
            (.version (row.version + 1)) := fun e =>
          .edited actor table uid i version next row set e hadmin huid
            (asset_stable hl.rel (h₃.held hkey) hrow) (hl.held (h₃.held hkey)) hversion hne
        have hsnap : v₆.snapshot = v₆.pending v₆.db := rfl
        rw [h₆.pending, View.queue_pending, h₅.pending, View.queue_pending, h₄.pending,
          hpending₃] at hsnap
        refine ended_of_commit hv₆ ?_ fun e he => .inl ?_
        · rw [hsnap]
          exact hcommit _
        · rw [hsnap] at he
          simpa using he

/-- The rows inserted so far: each under a key the transaction holds and the store does
not know. -/
structure Made (v : View Db Key) (made : List (Id × NewAsset)) : Prop where
  keys : ∀ m ∈ made, .serial m.1 ∈ v.held ∧ ∀ t, v.db.asset? t m.1 = none
  nodup : (made.map Prod.fst).Nodup

theorem Made.since {v v' : View Db Key} {made : List (Id × NewAsset)} (h : Made v made)
    (hl : (contract P).Since v v') : Made v' made where
  keys m hm := ⟨hl.held (h.keys m hm).1,
    fun t => asset_fresh_stable hl.rel (h.keys m hm).1 ((h.keys m hm).2 t)⟩
  nodup := h.nodup

theorem insertAssets_bind {actor : Principal} {rows : List NewAsset}
    {made : List (Id × NewAsset)} {g : List Id → Txn β}
    (hv : (contract P).Good v) (hmade : Made v made)
    (hpending : v.pending = (·.addAssets actor made))
    (h : ∀ more v', (contract P).Good v' → more.map Prod.snd = rows → Made v' (made ++ more) →
      v'.pending = (·.addAssets actor (made ++ more)) →
      (g (more.map Prod.fst)).Ensures (contract P).interference Q v') :
    ((insertAssets actor rows).bind g).Ensures (contract P).interference Q v := by
  induction rows generalizing v made g with
  | nil =>
      refine h [] v hv rfl ?_ ?_
      · rwa [List.append_nil]
      · rwa [List.append_nil]
  | cons row rows ih =>
      simp only [insertAssets, insertAsset, Tx.bind_eq, Tx.bind_assoc, Tx.pure_eq, Tx.pure_bind]
      refine hv.nextSerial fun n v₁ h₁ hv₁ hkey hnew hbound => ?_
      refine hv₁.update fun v₂ h₂ hv₂ => Good.update (v := v₂.queue _) hv₂ fun v₃ h₃ hv₃ => ?_
      have hl := h₂.since.trans h₃.since
      have hmade₃ : Made v₃ (made ++ [(n, row)]) := by
        have hold := hmade.since (h₁.since.trans hl)
        refine ⟨fun m hm => ?_, ?_⟩
        · rcases List.mem_append.mp hm with hm | hm
          · exact hold.keys m hm
          · rw [List.mem_singleton] at hm
            subst hm
            exact ⟨hl.held hkey, fun t => asset_fresh_stable hl.rel hkey (hbound.asset_none t)⟩
        · rw [List.map_append, List.nodup_append]
          refine ⟨hold.nodup, by simp, fun i hi k hk hik => ?_⟩
          obtain ⟨m, hm, rfl⟩ := List.mem_map.mp hi
          simp only [List.map_cons, List.map_nil, List.mem_singleton] at hk
          exact hnew (hk ▸ hik ▸ (hmade.keys m hm).1)
      refine ih (v := v₃.queue _) hv₃ ⟨hmade₃.keys, hmade₃.nodup⟩ ?_
        fun more v' hv' hmore hmade' hpending' => ?_
      · rw [View.queue_pending, h₃.pending, View.queue_pending, h₂.pending, h₁.pending, hpending]
        funext d
        simp [Db.addAssets, List.foldl_append]
      · refine h ((n, row) :: more) v' hv' (by simp [hmore]) ?_ ?_
        · simpa using hmade'
        · simpa using hpending'

theorem createAssets_kept {now : Instant} {actor : Principal} {rows : List NewAsset}
    (hv : (contract P).Good v) (hpending : v.pending = id) :
    (body P (.createAssets actor rows) now).Ensures (contract P).interference
      ((contract P).Ended (.createAssets actor rows) now) v := by
  refine wrap ?_
  simp only [createAssets, Tx.bind_eq]
  refine Tx.Ensures.require_bind (fun _ => ?_) (fun _ _ _ => trivial)
  refine Tx.Ensures.require_bind (fun _ => ?_) (fun _ _ _ => trivial)
  rw [← Tx.bind_pure (insertAssets ..)]
  have hmade₀ : Made v [] := ⟨by simp, by simp⟩
  refine insertAssets_bind hv hmade₀ (by rw [hpending]; rfl) ?_
  intro made v₁ hv₁ hrows hmade hpending₁
  refine Good.finish hv₁ fun v₂ h₂ hv₂ => ?_
  rw [List.nil_append] at hmade hpending₁
  have hmade₂ := hmade.since h₂.since
  have hsnap : v₂.snapshot = v₂.db.addAssets actor made := by
    rw [View.snapshot, h₂.pending, hpending₁]
  have hcommit : Commit P (.createAssets actor (made.map Prod.snd)) now v₂.held v₂.db
      (v₂.db.addAssets actor made) (.created (made.map Prod.fst)) :=
    .created actor made hmade₂.keys hmade₂.nodup
  rw [hrows] at hcommit
  refine ended_of_commit hv₂ (hsnap ▸ hcommit) fun e he => .inl ?_
  rwa [hsnap, (v₂.db.addAssets_jobs actor made).2] at he

/-- **The service keeps its contract.**

Each program has been walked through once, under the interference of all the others.  From here on
the service is a system of commits. -/
theorem service_kept (P : Platform) : (contract P).Kept (body P) := by
  intro op now v hinv hpending hheld
  have hv : (contract P).Good v := ⟨hinv, by simp [hheld]⟩
  cases op with
  | prepare p input => exact prepare_kept hv hpending
  | confirm p input => exact confirm_kept hv hpending
  | retry p original => exact retry_kept hv hpending
  | updateAudited actor table id version next => exact updateAudited_kept hv hpending
  | createAssets actor rows => exact createAssets_kept hv hpending
  | sweepExpired => exact sweepExpired_kept hv hpending
  | claim => exact claim_kept hv hpending
  | checkpoint job c => exact checkpoint_kept hv hpending
  | heartbeat job => exact heartbeat_kept hv hpending
  | loadDependencies switchId profileId => exact loadDependencies_kept hv hpending

end BindPlane
