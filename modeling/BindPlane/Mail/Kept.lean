import BindPlane.Mail.Commits

/-!
# The outbox keeps the contract

**Rows that are held stay.**  A row moves under its own lock only, so what a statement has read of
a row behind its lock holds until the commit (`row_stable`).

**Statements.**  `pickRows_bind` says of each row that is picked when it was read; the two
statements that write the history say what they have added.  The operations follow, and
`body_kept` is all of them.

**Picking.**  A claim and a sweep lock rows that nobody else holds, one after the other, from the
list that their statement has seen at its begin.  A row may have changed before it was locked; it is
read again behind the lock, and its condition tested once more.
-/

namespace BindPlane.Mail

open ReadCommitted Contract

/-! ## What the others leave alone -/

section Stable

variable {K : Set (Resource Key)} {s s' : Db × ℕ}

theorem row_stable (h : contract.interference.rel K s s') {id : ℕ} {t : MailTask}
    (hkey : .key (.task id) ∈ K) (ht : s.1.tasks.get? id = some t) :
    s'.1.tasks.get? id = some t := by
  refine Contract.interference_keeps (C := contract) (P := fun d => d.tasks.get? id = some t) h
    (fun hdisj hc ht => ?_) ht
  have hother := Set.disjoint_left.mp hdisj hkey
  cases Commit.task hc id with
  | same h' => exact h'.trans ht
  | enqueued input now hserial h => rw [ht] at h; cases h
  | moved t₀ t' hkey' => exact absurd hkey' hother
  | retried t₀ now hop hkey' => exact absurd hkey' hother

theorem fresh_stable (h : contract.interference.rel K s s') {id : ℕ}
    (hserial : .serial id ∈ K) (ht : s.1.tasks.get? id = none) :
    s'.1.tasks.get? id = none := by
  refine Contract.interference_keeps (C := contract) (P := fun d => d.tasks.get? id = none) h
    (fun hdisj hc ht => ?_) ht
  cases Commit.task hc id with
  | same h' => exact h'.trans ht
  | enqueued input now hserial' h => exact absurd hserial' (Set.disjoint_left.mp hdisj hserial)
  | moved t₀ t' hkey' h => rw [ht] at h; cases h
  | retried t₀ now hop hkey' h => rw [ht] at h; cases h

theorem clock_stable (h : contract.interference.rel K s s') : s.1.clock ≤ s'.1.clock :=
  Contract.interference_induct (C := contract) (P := fun d d' => d.clock ≤ d'.clock)
    (fun _ => Nat.le_refl _) (fun h h' => Nat.le_trans h h') (fun _ hc => Commit.clock hc) h

theorem handed_stable (h : contract.interference.rel K s s') {job : MailJob}
    (hj : job ∈ s.1.handed) : job ∈ s'.1.handed :=
  Contract.interference_keeps (C := contract) h (fun _ hc hj => Commit.handed_mono hc hj) hj

theorem recorded_stable (h : contract.interference.rel K s s') (hs : s.1.Valid s.2)
    {k : AttemptKey} (hk : s.1.Recorded k) : s'.1.Recorded k :=
  Contract.interference_induct_inv (C := contract) (P := fun d d' => d.Recorded k → d'.Recorded k)
    (fun _ hk => hk) (fun h h' hk => h' (h hk))
    (fun hd _ hc => (Commit.record hc ⟨_, hd⟩).1 k) h hs hk

end Stable

variable {β : Type} {v : View Db Key} {Q : Except Failure β → View Db Key → Prop}

theorem snapshot_eq (h : v.pending = id) : v.snapshot = v.db := by
  rw [View.snapshot, h]
  rfl

/-- An operation that ends in a commit under the contract. -/
theorem ended_of_commit {op : Op} {r : Reply} (hv : contract.Good v)
    (hc : Commit op () v.held v.db v.snapshot r) :
    contract.Ended (ε := Failure) op () (.ok r) v := ⟨hc.valid hv.1 hv.2, hc⟩

/-! ## Statements -/

section Rows

variable {ρ : Type} [DecidableEq ρ] {key : ℕ → Key} {table : Db → Table ρ}
  {p : ρ → Instant → Bool}

/-- **A row that was picked**: at some moment it was read behind its lock, and it satisfied the
condition then, or when the statement began.

The first case of the condition is that of a row which nobody has changed since the statement began:
PostgreSQL does not test its condition again. -/
structure Picked (v v' : View Db Key) (key : ℕ → Key) (table : Db → Table ρ)
    (p : ρ → Instant → Bool) (start : Instant) (id : ℕ) (r : ρ) (w : View Db Key) : Prop where
  before : contract.Later v w
  after : contract.Later w v'
  held : .key (key id) ∈ w.held
  row : (table w.snapshot).get? id = some r
  cond : p r start = true ∨ p r w.snapshot.clock = true

omit [DecidableEq ρ] in
theorem Picked.later {v₀ v v' v₁ w : View Db Key} {start : Instant} {id : ℕ} {r : ρ}
    (h : Picked v v' key table p start id r w) (h₀ : contract.Later v₀ v)
    (h₁ : contract.Later v' v₁) : Picked v₀ v₁ key table p start id r w :=
  ⟨h₀.trans h.before, h.after.trans h₁, h.held, h.row, h.cond⟩

theorem pickRows_bind (start : Instant) {rows : List (ℕ × ρ)}
    (hrows : ∀ x ∈ rows, p x.2 start = true) {n : ℕ} {g : List (ℕ × ρ) → Txn β}
    (hv : contract.Good v)
    (h : ∀ picked v', contract.Later v v' → contract.Good v' →
      (∀ x ∈ picked, ∃ w, Picked v v' key table p start x.1 x.2 w) →
      (g picked).Ensures contract.interference Q v') :
    ((pickRows key table p rows n).bind g).Ensures contract.interference Q v := by
  -- no row is left, or none is wanted
  have hnone : ∀ (g : List (ℕ × ρ) → Txn β) (v : View Db Key), contract.Good v →
      (∀ picked v', contract.Later v v' → contract.Good v' →
        (∀ x ∈ picked, ∃ w, Picked v v' key table p start x.1 x.2 w) →
        (g picked).Ensures contract.interference Q v') →
      ((pure [] : Txn (List (ℕ × ρ))).bind g).Ensures contract.interference Q v :=
    fun g v hv h => h [] v (Later.refl v) hv nofun
  induction rows generalizing n g v with
  | nil => cases n <;> exact hnone g v hv h
  | cons x rows ih =>
      obtain ⟨id, r⟩ := x
      have hrest : ∀ x ∈ rows, p x.2 start = true := fun x hx =>
        hrows x (List.mem_cons_of_mem _ hx)
      cases n with
      | zero => exact hnone g v hv h
      | succ n =>
          simp only [pickRows, Tx.bind_eq, Tx.bind_assoc]
          refine hv.tryAcquire (fun v₁ h₁ hv₁ hkey => ?_) fun v₁ h₁ hv₁ => ?_
          · -- the row is locked: it is picked if it is as it was, or satisfies the condition again
            refine hv₁.snapshot fun v₂ h₂ hv₂ => ?_
            have hl := h₁.trans h₂
            split
            · next u hu =>
                obtain ⟨hu, hc⟩ := Option.filter_eq_some_iff.mp hu
                rw [Tx.bind_assoc]
                refine ih hrest hv₂ fun picked v₃ h₃ hv₃ hpicked => ?_
                rw [Tx.pure_eq, Tx.pure_bind]
                refine h _ v₃ (hl.trans h₃) hv₃ fun x hx => ?_
                rcases List.mem_cons.mp hx with rfl | hx
                · refine ⟨v₂, hl, h₃, h₂.held hkey, hu, ?_⟩
                  rw [Bool.true_and, Bool.or_eq_true] at hc
                  refine hc.imp_left fun heq => ?_
                  rw [of_decide_eq_true heq]
                  exact hrows _ List.mem_cons_self
                · obtain ⟨w, hw⟩ := hpicked x hx
                  exact ⟨w, hw.later hl (Later.refl v₃)⟩
            · refine ih hrest hv₂ fun picked v₃ h₃ hv₃ hpicked => ?_
              refine h picked v₃ (hl.trans h₃) hv₃ fun x hx => ?_
              obtain ⟨w, hw⟩ := hpicked x hx
              exact ⟨w, hw.later hl (Later.refl v₃)⟩
          · -- somebody has the row: it is passed over
            refine hv₁.snapshot fun v₂ h₂ hv₂ => ?_
            have hl := h₁.trans h₂
            split
            · next u hu => cases (Option.filter_eq_some_iff.mp hu).2
            · refine ih hrest hv₂ fun picked v₃ h₃ hv₃ hpicked => ?_
              refine h picked v₃ (hl.trans h₃) hv₃ fun x hx => ?_
              obtain ⟨w, hw⟩ := hpicked x hx
              exact ⟨w, hw.later hl (Later.refl v₃)⟩

end Rows

/-- The attempts that are inserted are those that are asked for. -/
theorem insertAttempts_bind {xs : List (AttemptKey × String)} {g : Unit → Txn β}
    (hv : contract.Good v) (he : ∀ e v', Q (.error e) v')
    (h : ∀ as v', contract.Since v v' → contract.Good v' →
      as.map Attempt.key = xs.map Prod.fst →
      v'.pending = (fun d : Db => d.addAttempts as) ∘ v.pending →
      (g ()).Ensures contract.interference Q v') :
    ((insertAttempts xs).bind g).Ensures contract.interference Q v := by
  induction xs generalizing v with
  | nil => exact h [] v (Later.refl v).since hv rfl rfl
  | cons x xs ih =>
      obtain ⟨k, code⟩ := x
      simp only [insertAttempts, Tx.bind_eq, Tx.bind_assoc]
      refine hv.acquire fun v₁ h₁ hv₁ _ => hv₁.snapshot fun v₂ h₂ hv₂ => ?_
      refine Tx.Ensures.require_bind (fun _ => ?_) (fun _ _ _ => he _ _)
      refine hv₂.update fun v₃ h₃ hv₃ => ?_
      have hl := (h₁.trans h₂).trans h₃
      refine ih hv₃ fun as v₄ h₄ hv₄ hkeys hpending => ?_
      refine h (⟨k, .failed, some code, v₂.snapshot.clock⟩ :: as) v₄ ?_ hv₄ ?_ ?_
      · exact hl.since.trans h₄
      · rw [List.map_cons, List.map_cons, hkeys]
      · rw [hpending, View.queue_pending, hl.pending]
        rfl

theorem upsertMailAttempt_bind {k : AttemptKey} {outcome : Outcome} {errorCode : String}
    {g : Unit → Txn β} (hv : contract.Good v) (he : ∀ e v', Q (.error e) v')
    (h : ∀ x v', contract.Since v v' → contract.Good v' → x.key = k →
      v'.pending = (fun d : Db => d.upsertAttempt x) ∘ v.pending →
      (g ()).Ensures contract.interference Q v') :
    ((upsertMailAttempt k outcome errorCode).bind g).Ensures contract.interference Q v := by
  simp only [upsertMailAttempt, Tx.bind_eq, Tx.bind_assoc]
  refine hv.acquire fun v₁ h₁ hv₁ _ => hv₁.snapshot fun v₂ h₂ hv₂ => ?_
  refine Tx.Ensures.require_bind (fun _ => ?_) (fun _ _ _ => he _ _)
  refine hv₂.update fun v₃ h₃ hv₃ => ?_
  have hl := (h₁.trans h₂).trans h₃
  refine h ⟨k, outcome, if errorCode = "" then none else some errorCode, v₂.snapshot.clock⟩
    (v₃.queue _) hl.since hv₃ rfl ?_
  rw [View.queue_pending, hl.pending]

/-! ## ClaimMail -/

section Claim

variable {id : ℕ} {t : MailTask} {as : List Attempt} {d : Db} {n : ℕ}

theorem MailTask.claimable_spec {a : Authority} {now : Instant}
    (h : t.claimable a now = true) : t.open? = true ∧ t.unleased now = true := by
  unfold MailTask.claimable at h
  simp only [Bool.and_eq_true] at h
  exact ⟨h.1.1.1.1, h.1.1.2⟩

theorem MailTask.unleased_mono {now now' : Instant} (hle : now ≤ now')
    (h : t.unleased now = true) : t.unleased now' = true := by
  unfold MailTask.unleased at *
  cases hlease : t.leaseExpiresAt with
  | none => rfl
  | some time =>
      rw [hlease] at h
      exact decide_eq_true ((of_decide_eq_true h).trans hle)

/-- The attempts with which a claim closes the round. -/
structure Closes (d : Db) (id : ℕ) (t : MailTask) (as : List Attempt) : Prop where
  counted : ∀ x ∈ as, ∃ i, 1 ≤ i ∧ i ≤ t.roundAttemptCount ∧ x.key = ⟨id, t.roundNumber, i⟩
  complete : ∀ i, 1 ≤ i → i ≤ t.roundAttemptCount →
    (d.addAttempts as).Recorded ⟨id, t.roundNumber, i⟩

/-- Nothing is closed where the last attempt is recorded, or there is none. -/
theorem Closes.nothing (hd : d.Valid n) (ht : d.tasks.get? id = some t)
    (hlast : 0 < t.roundAttemptCount → d.Recorded ⟨id, t.roundNumber, t.roundAttemptCount⟩) :
    Closes d id t [] := by
  refine ⟨nofun, fun i hi hle => ?_⟩
  show d.Recorded ⟨id, t.roundNumber, i⟩
  rcases hle.lt_or_eq with hlt | rfl
  · exact (hd.recorded_round ht).2 hi hlt
  · exact hlast hi

theorem Closes.since {v v' : View Db Key} (h : Closes v.db id t as) (hv : contract.Good v)
    (hl : contract.Since v v') : Closes v'.db id t as := by
  refine ⟨h.counted, fun i hi hle => Db.recorded_addAttempts.mpr ?_⟩
  exact (Db.recorded_addAttempts.mp (h.complete i hi hle)).imp_left (recorded_stable hl.rel hv.1)

/-- The last attempt alone can be missing. -/
theorem Closes.last {last : ℕ} (hd : d.Valid n) (ht : d.tasks.get? id = some t)
    (hlt : last < t.roundAttemptCount)
    (hkeys : as.map Attempt.key =
      (missing id t.roundNumber last t.roundAttemptCount).map Prod.fst) : Closes d id t as := by
  have hmem : ∀ k, (∃ x ∈ as, x.key = k) ↔
      ∃ i, (last < i ∧ i ≤ t.roundAttemptCount) ∧ k = ⟨id, t.roundNumber, i⟩ := by
    intro k
    rw [← List.mem_map, hkeys, missing, List.map_map, List.mem_map]
    refine exists_congr fun i => ?_
    rw [List.mem_range'_1, Function.comp_apply, eq_comm (b := k)]
    refine and_congr_left' ?_
    omega
  refine ⟨fun x hx => ?_, fun i hi hle => Db.recorded_addAttempts.mpr ?_⟩
  · obtain ⟨i, ⟨hi, hle⟩, hkey⟩ := (hmem x.key).mp ⟨x, hx, rfl⟩
    exact ⟨i, by omega, hle, hkey⟩
  · rcases hle.lt_or_eq with hi' | rfl
    · exact Or.inl ((hd.recorded_round ht).2 hi hi')
    · obtain ⟨x, hx, hkey⟩ := (hmem _).mpr ⟨_, ⟨hlt, le_rfl⟩, rfl⟩
      exact Or.inr ⟨x, hx, hkey.symm⟩

/-- The last recorded number is recorded, and is the greatest. -/
theorem lastRecorded_spec (d : Db) (id round : ℕ) :
    (0 < d.lastRecorded id round → d.Recorded ⟨id, round, d.lastRecorded id round⟩) ∧
      ∀ i, d.Recorded ⟨id, round, i⟩ → i ≤ d.lastRecorded id round := by
  have hfold : ∀ as : List Attempt,
      (0 < as.foldr (fun a n => max a.key.attemptNumber n) 0 →
        ∃ a ∈ as, a.key.attemptNumber = as.foldr (fun a n => max a.key.attemptNumber n) 0) ∧
      ∀ a ∈ as, a.key.attemptNumber ≤ as.foldr (fun a n => max a.key.attemptNumber n) 0 := by
    intro as
    induction as with
    | nil => exact ⟨fun h => absurd h (lt_irrefl 0), nofun⟩
    | cons a as ih =>
        rw [List.foldr_cons]
        refine ⟨fun _ => ?_, fun b hb => ?_⟩
        · rcases le_total (as.foldr (fun a n => max a.key.attemptNumber n) 0)
            a.key.attemptNumber with h | h
          · exact ⟨a, List.mem_cons_self, (max_eq_left h).symm⟩
          · rw [max_eq_right h]
            rcases Nat.eq_zero_or_pos (as.foldr (fun a n => max a.key.attemptNumber n) 0) with
              hz | hpos
            · exact ⟨a, List.mem_cons_self, by omega⟩
            · obtain ⟨b, hb, hmax⟩ := ih.1 hpos
              exact ⟨b, List.mem_cons_of_mem _ hb, hmax⟩
        · rcases List.mem_cons.mp hb with rfl | hb
          · exact le_max_left _ _
          · exact (ih.2 b hb).trans (le_max_right _ _)
  have hfold := hfold (d.attempts.filter fun a => a.key.taskId = id && a.key.roundNumber = round)
  have hkey : ∀ a : Attempt, (a.key.taskId = id && a.key.roundNumber = round) = true ↔
      a.key = ⟨id, round, a.key.attemptNumber⟩ := by
    intro a
    obtain ⟨⟨x, y, z⟩, _, _, _⟩ := a
    simp
  unfold Db.lastRecorded
  refine ⟨fun hpos => ?_, fun i hi => ?_⟩
  · obtain ⟨a, ha, hmax⟩ := hfold.1 hpos
    obtain ⟨ha, hround⟩ := List.mem_filter.mp ha
    exact ⟨a, ha, hmax ▸ (hkey a).mp hround⟩
  · obtain ⟨a, ha, hround⟩ := hi
    have hnumber : a.key.attemptNumber = i := by rw [hround]
    rw [← hnumber]
    exact hfold.2 a (List.mem_filter.mpr ⟨ha, (hkey a).mpr (by rw [hround])⟩)

end Claim

theorem closeAttempts_bind {i : ℕ} {t : MailTask} {g : Unit → Txn β} (hv : contract.Good v)
    (hpending : v.pending = id) (hkey : .key (.task i) ∈ v.held) (ht : v.db.tasks.get? i = some t)
    (he : ∀ e v', Q (.error e) v')
    (h : ∀ as v', contract.Since v v' → contract.Good v' → Closes v'.db i t as →
      v'.pending = (fun d : Db => d.addAttempts as) →
      (g ()).Ensures contract.interference Q v') :
    ((closeAttempts i t.roundNumber t.roundAttemptCount).bind g).Ensures
      contract.interference Q v := by
  have hnothing : ∀ v', contract.Later v v' → contract.Good v' →
      (0 < t.roundAttemptCount → v'.db.Recorded ⟨i, t.roundNumber, t.roundAttemptCount⟩) →
      (g ()).Ensures contract.interference Q v' := fun v' h' hv' hlast =>
    h [] v' h'.since hv' (.nothing hv'.1 (row_stable h'.rel hkey ht) hlast)
      (h'.pending.trans hpending)
  unfold closeAttempts
  split
  · next hpos =>
      simp only [Tx.bind_eq, Tx.bind_assoc]
      refine hv.snapshot fun v₁ h₁ hv₁ => ?_
      rw [snapshot_eq (h₁.pending.trans hpending)]
      have ht₁ := row_stable h₁.rel hkey ht
      obtain ⟨hlast, hmax⟩ := lastRecorded_spec v₁.db i t.roundNumber
      split
      · next hlt =>
          refine insertAttempts_bind hv₁ he fun as v₂ h₂ hv₂ hkeys hpending₂ => ?_
          refine h as v₂ (h₁.since.trans h₂) hv₂ ?_ ?_
          · exact .last hv₂.1 (row_stable h₂.rel (h₁.held hkey) ht₁) hlt hkeys
          · rw [hpending₂, h₁.pending, hpending]
            rfl
      · next hge =>
          refine hnothing v₁ h₁ hv₁ fun _ => ?_
          have hrec := hlast (hpos.trans_le (Nat.le_of_not_lt hge))
          have hle := ((hv₁.1.recorded_round ht₁).1 hrec).2
          rwa [Nat.le_antisymm hle (Nat.le_of_not_lt hge)] at hrec
  · next hzero => exact hnothing v (Later.refl v) hv fun hpos => absurd hpos hzero

theorem claimMail_kept (token : String) (duration : ℕ) (hv : contract.Good v)
    (hpending : v.pending = id) :
    (body (.claimMail token duration) ()).Ensures contract.interference
      (contract.Ended (.claimMail token duration) ()) v := by
  simp only [body, claimMail, Tx.bind_eq, Tx.bind_assoc]
  refine hv.snapshot fun v₁ h₁ hv₁ => ?_
  have hpending₁ := h₁.pending.trans hpending
  -- of the rows that may be claimed the first one that nobody holds
  refine pickRows_bind v₁.snapshot.clock ?_ hv₁ fun picked v₂ h₂ hv₂ hpicked => ?_
  · intro x hx
    rw [Db.claimables, List.mem_insertionSort] at hx
    exact (List.mem_filter.mp hx).2
  · match picked with
    | [] =>
        refine hv₂.pure fun v₃ h₃ hv₃ => ended_of_commit hv₃ ?_
        rw [snapshot_eq (h₃.pending.trans (h₂.pending.trans hpending₁))]
        exact .idle token duration
    | (i, t) :: _ =>
        obtain ⟨w, hw⟩ := hpicked (i, t) List.mem_cons_self
        have hpendingw := hw.before.pending.trans hpending₁
        have htw : w.db.tasks.get? i = some t := by
          have hrow := hw.row
          rwa [snapshot_eq hpendingw] at hrow
        have hopen : t.open? = true ∧ t.unleased w.db.clock = true := by
          have hclock₁ : v₁.snapshot.clock ≤ w.db.clock := by
            rw [snapshot_eq hpending₁]
            exact clock_stable hw.before.rel
          have hcond := hw.cond
          rw [snapshot_eq hpendingw] at hcond
          rcases hcond with hcond | hcond
          · obtain ⟨hopen, hunleased⟩ := MailTask.claimable_spec hcond
            exact ⟨hopen, MailTask.unleased_mono hclock₁ hunleased⟩
          · exact MailTask.claimable_spec hcond
        have ht₂ := row_stable hw.after.rel hw.held htw
        simp only [Tx.bind_assoc]
        refine closeAttempts_bind hv₂ (h₂.pending.trans hpending₁) (hw.after.held hw.held) ht₂
          (fun _ _ => trivial) fun as v₃ h₃ hv₃ hcloses hpending₃ => ?_
        refine hv₃.snapshot fun v₄ h₄ hv₄ => ?_
        refine Tx.Ensures.require_bind (fun _ => ?_) (fun _ _ _ => trivial)
        refine hv₄.update fun v₅ h₅ hv₅ => ?_
        refine Good.update (v := v₅.queue _) hv₅ fun v₆ h₆ hv₆ => ?_
        refine Good.pure (v := v₆.queue _) hv₆ fun v₇ h₇ hv₇ => ended_of_commit hv₇ ?_
        have hsince : contract.Since v₃ v₇ :=
          (h₄.since.trans h₅.since).trans (h₆.since.of_queue.trans h₇.since.of_queue)
        have hall := (hw.after.since.trans h₃).trans hsince
        have hwrites : v₇.snapshot = ((v₇.db.addAttempts as).modifyTask i
            (MailTask.claimed token (v₄.snapshot.clock + duration))).hand
              (t.job i v₁.snapshot.authority token) := by
          rw [View.snapshot, h₇.pending, View.queue_pending, h₆.pending, View.queue_pending,
            h₅.pending, h₄.pending, hpending₃]
          rfl
        have hcloses₇ := hcloses.since hv₃ hsince
        rw [hwrites]
        exact .claimed token duration i t _ as _ (hall.held hw.held)
          (row_stable hall.rel hw.held htw) hopen.1
          (MailTask.unleased_mono (clock_stable hall.rel) hopen.2) hcloses₇.counted
          hcloses₇.complete

/-! ## The other operations -/

theorem acknowledge_kept {op : Op} {a : Ack} (hack : op.ack = some a) (hv : contract.Good v)
    (hpending : v.pending = id) :
    ((acknowledge a.id a.leaseToken a.set a.outcome a.errorCode).bind fun r =>
      Tx.pure (Reply.held r)).Ensures contract.interference (contract.Ended op ()) v := by
  -- without the lease nothing is written
  have hlost : ∀ v', v'.pending = id → contract.Good v' →
      ((Tx.pure false : Txn Bool).bind fun r => Tx.pure (Reply.held r)).Ensures
        contract.interference (contract.Ended op ()) v' := by
    intro v' hpending' hv'
    refine hv'.pure fun v₁ h₁ hv₁ => ended_of_commit hv₁ ?_
    rw [snapshot_eq (h₁.pending.trans hpending')]
    exact .lost op a hack
  simp only [acknowledge, Tx.bind_eq, Tx.bind_assoc]
  refine hv.snapshot fun v₁ h₁ hv₁ => ?_
  have hpending₁ := h₁.pending.trans hpending
  split
  · rw [Tx.bind_assoc]
    refine hv₁.acquireIf (fun v₂ h₂ hv₂ hkey hheld => ?_) fun v₂ h₂ hv₂ _ => ?_
    · have hpending₂ := h₂.pending.trans hpending₁
      rw [if_pos rfl, Tx.bind_assoc]
      refine hv₂.snapshot fun v₃ h₃ hv₃ => ?_
      have hpending₃ := h₃.pending.trans hpending₂
      rw [Tx.bind_assoc]
      refine Tx.Ensures.expect_bind (fun t ht => ?_) (fun _ _ _ => trivial)
      rw [snapshot_eq hpending₃] at ht
      rw [snapshot_eq hpending₂, Option.any_eq_true] at hheld
      obtain ⟨t₂, ht₂, hheld⟩ := hheld
      cases (row_stable h₃.rel hkey ht₂).symm.trans ht
      rw [Tx.bind_assoc]
      refine Tx.Ensures.require_bind (fun _ => ?_) (fun _ _ _ => trivial)
      rw [Tx.bind_assoc]
      refine hv₃.update fun v₄ h₄ hv₄ => ?_
      rw [Tx.bind_assoc]
      refine upsertMailAttempt_bind (v := v₄.queue _) hv₄ (fun _ _ => trivial)
        fun x v₅ h₅ hv₅ hx hpending₅ => ?_
      refine hv₅.pure fun v₆ h₆ hv₆ => ended_of_commit hv₆ ?_
      have hall := h₄.since.trans (h₅.of_queue.trans h₆.since)
      -- with it the task and its attempt are
      have hwrites : v₆.snapshot =
          (v₆.db.modifyTask a.id (a.set v₃.snapshot.clock)).upsertAttempt x := by
        rw [View.snapshot, h₆.pending, hpending₅, View.queue_pending, h₄.pending, hpending₃]
        rfl
      rw [hwrites]
      exact .acknowledged op a hack t x _ (hall.held (h₃.held hkey))
        (row_stable hall.rel (h₃.held hkey) ht) hheld hx
    · rw [if_neg Bool.false_ne_true]
      exact hlost v₂ (h₂.pending.trans hpending₁) hv₂
  · exact hlost v₁ hpending₁ hv₁

theorem recordMailAttempt_kept (job : MailJob) (outcome : Outcome) (code : String)
    (hv : contract.Good v) (hpending : v.pending = id) :
    (body (.recordMailAttempt job outcome code) ()).Ensures contract.interference
      (contract.Ended (.recordMailAttempt job outcome code) ()) v := by
  simp only [body, recordMailAttempt, Tx.bind_eq, Tx.bind_assoc]
  refine hv.snapshot fun v₁ h₁ hv₁ => ?_
  have hpending₁ := h₁.pending.trans hpending
  refine Tx.Ensures.require_bind (fun hjob => ?_) (fun _ _ _ => trivial)
  rw [snapshot_eq hpending₁, List.contains_iff_mem] at hjob
  refine upsertMailAttempt_bind hv₁ (fun _ _ => trivial) fun x v₂ h₂ hv₂ hx hpending₂ => ?_
  refine hv₂.pure fun v₃ h₃ hv₃ => ended_of_commit hv₃ ?_
  have hwrites : v₃.snapshot = v₃.db.upsertAttempt x := by
    rw [View.snapshot, h₃.pending, hpending₂, hpending₁]
    rfl
  rw [hwrites]
  exact .recorded job outcome code x (handed_stable (h₂.trans h₃.since).rel hjob) hx

theorem retryMailTask_kept (i : ℕ) (hv : contract.Good v) (hpending : v.pending = id) :
    (body (.retryMailTask i) ()).Ensures contract.interference
      (contract.Ended (.retryMailTask i) ()) v := by
  simp only [body, retryMailTask, Tx.bind_eq, Tx.bind_assoc]
  refine hv.snapshot fun v₁ h₁ hv₁ => ?_
  refine Tx.Ensures.expect_bind (fun _ _ => ?_) (fun _ _ _ => trivial)
  refine hv₁.acquire fun v₂ h₂ hv₂ hkey => hv₂.snapshot fun v₃ h₃ hv₃ => ?_
  have hpending₃ := h₃.pending.trans (h₂.pending.trans (h₁.pending.trans hpending))
  refine Tx.Ensures.expect_bind (fun t ht => ?_) (fun _ _ _ => trivial)
  rw [snapshot_eq hpending₃] at ht
  refine Tx.Ensures.require_bind (fun _ => ?_) (fun _ _ _ => trivial)
  refine Tx.Ensures.require_bind (fun hended => ?_) (fun _ _ _ => trivial)
  refine hv₃.snapshot fun v₄ h₄ hv₄ => hv₄.update fun v₅ h₅ hv₅ => ?_
  refine Good.pure (v := v₅.queue _) hv₅ fun v₆ h₆ hv₆ => ended_of_commit hv₆ ?_
  have hall := h₄.since.trans (h₅.since.trans h₆.since.of_queue)
  have hwrites : v₆.snapshot = v₆.db.modifyTask i (MailTask.nextRound v₄.snapshot.clock) := by
    rw [View.snapshot, h₆.pending, View.queue_pending, h₅.pending, h₄.pending, hpending₃]
    rfl
  rw [hwrites]
  exact .retried i t _ (hall.held (h₃.held hkey)) (row_stable hall.rel (h₃.held hkey) ht)
    (Bool.or_eq_true_iff.mp hended)

theorem enqueueMailTask_kept (input : MailTaskInput) (hv : contract.Good v)
    (hpending : v.pending = id) :
    (body (.enqueueMailTask input) ()).Ensures contract.interference
      (contract.Ended (.enqueueMailTask input) ()) v := by
  simp only [body, enqueueMailTask, Tx.bind_eq, Tx.bind_assoc]
  refine hv.snapshot fun v₁ h₁ hv₁ => hv₁.nextSerial fun i v₂ h₂ hv₂ hserial _ hinv => ?_
  have hpending₂ := h₂.pending.trans (h₁.pending.trans hpending)
  have hfresh : v₂.db.tasks.get? i = none := by
    cases ht : v₂.db.tasks.get? i with
    | none => rfl
    | some t => exact absurd (Db.Valid.numbered hinv i t ht) (lt_irrefl i)
  refine hv₂.update fun v₃ h₃ hv₃ => ?_
  refine Good.pure (v := v₃.queue _) hv₃ fun v₄ h₄ hv₄ => ended_of_commit hv₄ ?_
  have hall := h₃.since.trans h₄.since.of_queue
  rw [View.snapshot, h₄.pending, View.queue_pending, h₃.pending, hpending₂]
  exact .enqueued input i _ (hall.held hserial) (fresh_stable hall.rel hserial hfresh)

/-! ## SweepMail -/

/-- What the sweep closes was handed out. -/
theorem handed_of_unrecorded {d : Db} {n : ℕ} (hd : d.Valid n) {k : AttemptKey}
    (hk : k ∈ d.unrecorded.map Prod.fst) : d.Handed k := by
  obtain ⟨⟨k, code⟩, hmem, rfl⟩ := List.mem_map.mp hk
  obtain ⟨⟨i, t⟩, hrow, hk⟩ := List.mem_filterMap.mp hmem
  have ht : d.tasks.get? i = some t := Table.mem_rows.mp hrow
  simp only [Option.ite_none_right_eq_some, Bool.and_eq_true, decide_eq_true_eq,
    Option.some.injEq, Prod.mk.injEq] at hk
  obtain ⟨⟨⟨⟨hpos, -⟩, -⟩, -⟩, rfl, -⟩ := hk
  exact (hd.counted i t ht _).mpr ⟨hpos, le_rfl⟩

/-- Tasks that a sweep may cancel: they are open, and it holds their rows. -/
def Cancels (v : View Db Key) (ids : List ℕ) : Prop :=
  ∀ i ∈ ids, .key (.task i) ∈ v.held ∧ ∃ t, v.db.tasks.get? i = some t ∧ t.open? = true

theorem Cancels.since {v' : View Db Key} {ids : List ℕ} (h : Cancels v ids)
    (hl : contract.Since v v') : Cancels v' ids := by
  intro i hi
  obtain ⟨hkey, t, ht, hopen⟩ := h i hi
  exact ⟨hl.held hkey, t, row_stable hl.rel hkey ht, hopen⟩

theorem sweepTasks_bind {p : MailTask → Instant → Bool}
    {order : ℕ × MailTask → ℕ × MailTask → Prop} [DecidableRel order] {code : String}
    {g : Unit → Txn β} (hp : ∀ t now, p t now = true → t.open? = true)
    (hv : contract.Good v)
    (hopen : ∀ d i t, (v.pending d).tasks.get? i = some t → t.open? = true →
      d.tasks.get? i = some t)
    (h : ∀ ids now v', contract.Since v v' → contract.Good v' → Cancels v' ids →
      v'.pending = (fun d : Db => d.cancelTasks ids now code) ∘ v.pending →
      (g ()).Ensures contract.interference Q v') {s : Db} :
    ((sweepTasks p order code s).bind g).Ensures contract.interference Q v := by
  simp only [sweepTasks, Tx.bind_eq, Tx.bind_assoc]
  refine pickRows_bind s.clock ?_ hv fun picked v₁ h₁ hv₁ hpicked => ?_
  · intro x hx
    rw [List.mem_insertionSort] at hx
    exact (List.mem_filter.mp hx).2
  refine hv₁.snapshot fun v₂ h₂ hv₂ => hv₂.update fun v₃ h₃ hv₃ => ?_
  have hl := (h₁.trans h₂).trans h₃
  refine h (picked.map Prod.fst) v₂.snapshot.clock (v₃.queue _) hl.since hv₃ ?_ ?_
  · intro i hi
    obtain ⟨⟨i, t⟩, hx, rfl⟩ := List.mem_map.mp hi
    obtain ⟨w, hw⟩ := hpicked _ hx
    have ht : t.open? = true := hw.cond.elim (hp t _) (hp t _)
    have hrow : w.db.tasks.get? i = some t := by
      refine hopen w.db i t ?_ ht
      rw [← hw.before.pending]
      exact hw.row
    have hafter := (hw.after.trans h₂).trans h₃
    exact ⟨hafter.held hw.held, t, row_stable hafter.rel hw.held hrow, ht⟩
  · rw [View.queue_pending, hl.pending]

/-- Of the tasks that were canceled none is open. -/
theorem open_cancelTasks {d : Db} {ids : List ℕ} {now : Instant} {code : String} {i : ℕ}
    {t : MailTask} (ht : (d.cancelTasks ids now code).tasks.get? i = some t)
    (hopen : t.open? = true) : d.tasks.get? i = some t := by
  rw [get?_cancelTasks, Option.map_eq_some_iff] at ht
  obtain ⟨t₀, ht₀, rfl⟩ := ht
  split at hopen
  · obtain ⟨-, hcanceled, -⟩ := MailTask.open_iff.mp hopen
    cases hcanceled
  · next hi => rw [if_neg hi, ht₀]

theorem sweepMail_kept (hv : contract.Good v) (hpending : v.pending = id) :
    (body .sweepMail ()).Ensures contract.interference (contract.Ended .sweepMail ()) v := by
  simp only [body, sweepMail, Tx.bind_eq, Tx.bind_assoc]
  refine hv.snapshot fun v₁ h₁ hv₁ => ?_
  have hpending₁ := h₁.pending.trans hpending
  -- first the attempts that were handed out and not recorded
  refine insertAttempts_bind hv₁ (fun _ _ => trivial) fun as v₂ h₂ hv₂ hkeys hpending₂ => ?_
  refine hv₂.snapshot fun v₃ h₃ hv₃ => ?_
  have hpending₃ : v₃.pending = fun d : Db => d.addAttempts as := by
    rw [h₃.pending, hpending₂, hpending₁]
    rfl
  have hhanded : ∀ x ∈ as, v₃.db.Handed x.key := by
    intro x hx
    rw [snapshot_eq hpending₁] at hkeys
    have hmem := hkeys ▸ List.mem_map_of_mem hx
    obtain ⟨job, hjob, hkey⟩ := handed_of_unrecorded hv₁.1 hmem
    exact ⟨job, handed_stable (h₂.trans h₃.since).rel hjob, hkey⟩
  -- then the tasks that have expired
  refine sweepTasks_bind ?_ hv₃ ?_ fun expired now v₄ h₄ hv₄ hexpired hpending₄ => ?_
  · intro t now ht
    simp only [MailTask.sweptExpired, Bool.and_eq_true] at ht
    exact ht.1.1.1
  · intro d i t ht _
    rw [hpending₃] at ht
    exact (congrArg (·.get? i) (Db.addAttempts_tasks as)).symm.trans ht
  refine hv₄.snapshot fun v₅ h₅ hv₅ => ?_
  have hpending₅ := h₅.pending.trans hpending₄
  -- and those that something later has superseded
  refine sweepTasks_bind ?_ hv₅ ?_ fun superseded now' v₆ h₆ hv₆ hsuperseded hpending₆ => ?_
  · intro t now ht
    simp only [MailTask.sweptSuperseded, Bool.and_eq_true] at ht
    exact ht.1.2
  · intro d i t ht hopen
    rw [hpending₅, hpending₃] at ht
    exact (congrArg (·.get? i) (Db.addAttempts_tasks as)).symm.trans (open_cancelTasks ht hopen)
  refine hv₆.snapshot fun v₇ h₇ hv₇ => ?_
  -- at last the credentials that nobody may use any more
  refine pickRows_bind v₇.snapshot.clock (fun x hx => ?_) hv₇ fun resets v₈ h₈ hv₈ _ => ?_
  · rw [List.mem_insertionSort] at hx
    exact (List.mem_filter.mp hx).2
  refine hv₈.update fun v₉ h₉ hv₉ => ?_
  refine Good.snapshot (v := v₉.queue _) hv₉ fun v₁₀ h₁₀ hv₁₀ => ?_
  refine pickRows_bind v₁₀.snapshot.clock (fun x hx => ?_) hv₁₀ fun changes v₁₁ h₁₁ hv₁₁ _ => ?_
  · rw [List.mem_insertionSort] at hx
    exact (List.mem_filter.mp hx).2
  refine hv₁₁.update fun v₁₂ h₁₂ hv₁₂ => ?_
  refine Good.pure (v := v₁₂.queue _) hv₁₂ fun v₁₃ h₁₃ hv₁₃ => ended_of_commit hv₁₃ ?_
  -- what was locked on the way is as it was read
  have hlast : contract.Since v₆ v₁₃ :=
    ((h₇.trans h₈).trans h₉).since.trans (((h₁₀.since.of_queue.trans h₁₁.since).trans
      h₁₂.since).trans h₁₃.since.of_queue)
  have hall := h₄.trans (h₅.since.trans (h₆.trans hlast))
  have hids : Cancels v₁₃ (expired ++ superseded) := by
    intro i hi
    rcases List.mem_append.mp hi with hi | hi
    · exact hexpired.since (h₅.since.trans (h₆.trans hlast)) i hi
    · exact hsuperseded.since hlast i hi
  have hwrites : v₁₃.snapshot =
      { ((v₁₃.db.addAttempts as).cancelTasks expired now "expired").cancelTasks superseded now'
          "superseded" with
        authority := { v₁₃.db.authority with
          resets := v₁₃.db.authority.resets.deleteWhere
            fun i _ => (resets.map Prod.fst).contains i
          emailChanges := v₁₃.db.authority.emailChanges.deleteWhere
            fun i _ => (changes.map Prod.fst).contains i } } := by
    rw [View.snapshot, h₁₃.pending, View.queue_pending, h₁₂.pending, h₁₁.pending, h₁₀.pending,
      View.queue_pending, h₉.pending, h₈.pending, h₇.pending, hpending₆, hpending₅, hpending₃]
    show Db.deleteEmailChanges (Db.deleteResets (((v₁₃.db.addAttempts as).cancelTasks expired now
      "expired").cancelTasks superseded now' "superseded") _) _ = _
    rw [← Db.addAttempts_authority (d := v₁₃.db) as]
    rfl
  rw [hwrites]
  refine .swept as expired superseded now now' (fun a => { a with
    resets := a.resets.deleteWhere fun i _ => (resets.map Prod.fst).contains i
    emailChanges := a.emailChanges.deleteWhere fun i _ => (changes.map Prod.fst).contains i }) ?_
    hids
  intro x hx
  obtain ⟨job, hjob, hkey⟩ := hhanded x hx
  exact ⟨job, handed_stable hall.rel hjob, hkey⟩

/-- **Every operation keeps the contract.** -/
theorem body_kept : contract.Kept body := by
  intro op now v hinv hpending hheld
  have hv : contract.Good v := ⟨hinv, by simp [hheld]⟩
  cases op with
  | elapse time =>
      refine hv.update fun v₁ h₁ hv₁ => ?_
      refine Good.pure (v := v₁.queue _) hv₁ fun v₂ h₂ hv₂ => ended_of_commit hv₂ ?_
      rw [View.snapshot, h₂.pending, View.queue_pending, h₁.pending, hpending]
      exact .elapsed time
  | changeAuthority a =>
      refine hv.update fun v₁ h₁ hv₁ => ?_
      refine Good.pure (v := v₁.queue _) hv₁ fun v₂ h₂ hv₂ => ended_of_commit hv₂ ?_
      rw [View.snapshot, h₂.pending, View.queue_pending, h₁.pending, hpending]
      exact .changed a
  | enqueueMailTask input => exact enqueueMailTask_kept input hv hpending
  | claimMail token duration => exact claimMail_kept token duration hv hpending
  | markMailSent i token =>
      exact acknowledge_kept (a := ⟨i, token, MailTask.markSent, .sent, ""⟩)
        rfl hv hpending
  | retryMail i token delay code =>
      exact acknowledge_kept (a := ⟨i, token, MailTask.retry delay code, .failed, code⟩)
        rfl hv hpending
  | deadLetterMail i token code =>
      exact acknowledge_kept (a := ⟨i, token, MailTask.deadLetter code, .failed, code⟩)
        rfl hv hpending
  | discardMail i token code =>
      exact acknowledge_kept (a := ⟨i, token, fun now => MailTask.cancel now code, .failed, code⟩)
        rfl hv hpending
  | recordMailAttempt job outcome code =>
      exact recordMailAttempt_kept job outcome code hv hpending
  | sweepMail => exact sweepMail_kept hv hpending
  | retryMailTask i => exact retryMailTask_kept i hv hpending

end BindPlane.Mail
