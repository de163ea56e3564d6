import BindPlane.Auth.Kept

/-!
# Sessions, accounts and the sweep keep the contract
-/

namespace BindPlane.Auth

open ReadCommitted
open Mail (Bytes MailTask)

variable {box : Sealer} {v v' : View Db Key} {now : Instant}

/-! ## Reads -/

/-- A transaction that has only read. -/
theorem reads_kept {α : Type} {op : Op} {f : α → Reply} {a : α} (hv : (contract box).Good v)
    (hpending : v.pending = id) (hop : op.reads (f a) = true) :
    (Tx.pure a : Txn α).Ensures (contract box).interference ((contract box).Finishes op now f) v :=
  hv.finish fun _ h₁ hv₁ => ended hv₁ (.read op (f a) hop) (snapshot_eq (h₁.pending.trans hpending))

theorem publicAccount_kept {op : Op} {userId : ℕ} (hv : (contract box).Good v)
    (hpending : v.pending = id) (hop : ∀ u, op.reads (.account userId u) = true) :
    (publicAccount userId).Ensures (contract box).interference
      ((contract box).Finishes op now fun u => .account userId u) v := by
  simp only [publicAccount, Tx.bind_eq]
  refine hv.snapshot fun v₁ h₁ hv₁ => ?_
  cases v₁.snapshot.findPublicAccount userId with
  | none => exact fun _ _ => trivial
  | some u => exact reads_kept hv₁ (h₁.pending.trans hpending) (hop u)

theorem accountByEmail_kept {canonical : String} (hv : (contract box).Good v)
    (hpending : v.pending = id) :
    (accountByEmail canonical).Ensures (contract box).interference
      ((contract box).Finishes (.findByCanonicalEmail canonical) now
        fun x => .account x.1 x.2) v := by
  simp only [accountByEmail, Tx.bind_eq]
  refine hv.snapshot fun v₁ h₁ hv₁ => ?_
  cases v₁.snapshot.findByCanonicalEmail canonical with
  | none => exact fun _ _ => trivial
  | some x => exact reads_kept hv₁ (h₁.pending.trans hpending) rfl

theorem resolve_kept {tokenDigest : Bytes} (hv : (contract box).Good v)
    (hpending : v.pending = id) :
    (resolve tokenDigest).Ensures (contract box).interference
      ((contract box).Finishes (.resolve tokenDigest) now fun r => .resolved r) v := by
  simp only [resolve, Tx.bind_eq]
  refine hv.snapshot fun v₁ h₁ hv₁ => ?_
  cases v₁.snapshot.resolve tokenDigest with
  | error e => exact fun _ _ => trivial
  | ok r => exact reads_kept hv₁ (h₁.pending.trans hpending) rfl

/-! ## Sessions -/

theorem createSession_kept {tokenDigest : Bytes} {userId version idle absolute : ℕ}
    {clockFirst : Bool} (hv : (contract box).Good v) (hpending : v.pending = id)
    (hnow : now ≤ v.db.clock) :
    (createSession tokenDigest userId version idle absolute clockFirst).Ensures
      (contract box).interference ((contract box).Finishes
        (.createSession tokenDigest userId version idle absolute clockFirst) now fun _ => .done)
      v := by
  simp only [createSession, shareAccount, Tx.bind_eq, Tx.bind_assoc]
  refine Tx.Ensures.require_bind (fun hversion => ?_) fun _ _ _ => trivial
  refine hv.snapshot fun v₁ h₁ hv₁ => ?_
  refine Tx.Ensures.expect_bind (fun _ _ => ?_) fun _ _ _ => trivial
  refine hv₁.acquireIf (fun _ _ _ _ h => nomatch h) fun v₂ h₂ hv₂ _ => hv₂.snapshot
    fun v₃ h₃ hv₃ => ?_
  refine Tx.Ensures.expect_bind (fun _ _ => ?_) fun _ _ _ => trivial
  rw [Tx.pure_eq, Tx.pure_bind]
  refine hv₃.acquire fun v₄ h₄ hv₄ _ => hv₄.snapshot fun v₅ h₅ hv₅ => ?_
  refine Tx.Ensures.require_bind (fun _ => ?_) fun _ _ _ => trivial
  refine Tx.Ensures.require_bind (fun hpositive => ?_) fun _ _ _ => trivial
  rw [Bool.and_eq_true, decide_eq_true_eq, decide_eq_true_eq] at hpositive
  refine hv₅.nextSerial fun sessionId v₆ h₆ hv₆ hserial _ hinv => hv₆.update fun v₇ h₇ hv₇ =>
    Contract.Good.finish (v := v₇.queue _) hv₇ fun v₈ h₈ hv₈ => ?_
  have hpending₁ : v₁.pending = id := h₁.pending.trans hpending
  have hpending₃ : v₃.pending = id := (h₂.trans h₃).pending.trans hpending₁
  have hlast : (contract box).Since v₆ v₈ := h₇.since.trans h₈.since.of_queue
  have hsince₃ : (contract box).Since v₃ v₈ := (h₄.trans (h₅.trans h₆)).since.trans hlast
  have hnow₁ : now ≤ v₁.db.clock := hnow.trans (others h₁.since).clock_le
  have hle : v₁.db.clock ≤ v₃.db.clock := (others (h₂.trans h₃).since).clock_le
  refine ended hv₈ (.sessionCreated tokenDigest userId version idle absolute clockFirst
    (if clockFirst then v₁.snapshot.clock else v₃.snapshot.clock) sessionId
    (of_decide_eq_true hversion) hpositive.1 hpositive.2 (Moment.since ?_ hsince₃)
    (hlast.held hserial) ((others hlast).fresh hserial hinv.1.fresh)) ?_
  · rw [snapshot_eq hpending₁, snapshot_eq hpending₃]
    split_ifs
    · exact ⟨hnow₁, hle⟩
    · exact ⟨hnow₁.trans hle, le_rfl⟩
  · rw [View.snapshot, h₈.pending, View.queue_pending, h₇.pending, h₆.pending, h₅.pending,
      h₄.pending, hpending₃]
    rfl

theorem resolveAndTouch_kept {tokenDigest : Bytes} {idle : ℕ} (hv : (contract box).Good v)
    (hpending : v.pending = id) (hnow : now ≤ v.db.clock) :
    (resolveAndTouch tokenDigest idle).Ensures (contract box).interference
      ((contract box).Finishes (.resolveAndTouch tokenDigest idle) now fun r => .resolved r) v := by
  simp only [resolveAndTouch, Tx.bind_eq]
  refine hv.findForUpdate (fun v₁ h₁ hv₁ => ?_) fun userId user w v₁ hw _ h₁ hv₁ huser hrow _ => ?_
  · exact reads_kept hv₁ (h₁.pending.trans hpending) rfl
  have hl : (contract box).Later v v₁ := hw.trans h₁
  refine hv₁.findForUpdate (fun v₂ h₂ hv₂ => ?_)
    fun sessionId x w' v₂ hw' _ h₂ hv₂ hkey hx hdigest => ?_
  · exact reads_kept hv₂ (h₂.pending.trans (hl.pending.trans hpending)) rfl
  refine hv₂.snapshot fun v₃ h₃ hv₃ => ?_
  have hl₃ : (contract box).Later v₁ v₃ := (hw'.trans h₂).trans h₃
  have hpending₂ : v₂.pending = id := ((hl.trans hw').trans h₂).pending.trans hpending
  have hpending₃ : v₃.pending = id := h₃.pending.trans hpending₂
  rw [snapshot_eq hpending₂] at hx
  split_ifs with hlive hdisabled hgone
  · exact reads_kept hv₃ hpending₃ rfl
  · exact fun _ _ => trivial
  · exact reads_kept hv₃ hpending₃ rfl
  · refine Tx.Ensures.require_bind (fun hidle => ?_) fun _ _ _ => trivial
    refine hv₃.update fun v₄ h₄ hv₄ => Contract.Good.finish (v := v₄.queue _) hv₄
      fun v₅ h₅ hv₅ => ?_
    have hlast : (contract box).Since v₃ v₅ := h₄.since.trans h₅.since.of_queue
    have hclock : v₃.snapshot.clock = v₃.db.clock := by rw [snapshot_eq hpending₃]
    rw [Bool.not_eq_true', Bool.not_eq_false] at hlive
    rw [Bool.or_eq_true, not_or, Bool.not_eq_true', Bool.not_eq_false, Bool.not_eq_true] at hgone
    refine ended hv₅ (.touched tokenDigest idle sessionId x v₃.snapshot.clock
      (hlast.held (h₃.held hkey)) ((others (h₃.since.trans hlast)).session hkey hx)
      (of_decide_eq_true hdigest) hlive hgone.2 (of_decide_eq_true hidle) ?_) ?_
    · rw [hclock]
      exact ⟨hnow.trans (others (hl.trans hl₃).since).clock_le, (others hlast).clock_le⟩
    · rw [View.snapshot, h₅.pending, View.queue_pending, h₄.pending, hpending₃]
      rfl

theorem deleteSession_kept {tokenDigest : Bytes} (hv : (contract box).Good v)
    (hpending : v.pending = id) :
    (deleteSession tokenDigest).Ensures (contract box).interference
      ((contract box).Finishes (.deleteSession tokenDigest) now fun _ => .done) v := by
  simp only [deleteSession, Tx.bind_eq]
  refine hv.snapshot fun v₁ h₁ hv₁ => Contract.Good.collectForUpdate hv₁ fun ids v₂ h₂ hv₂ hids =>
    hv₂.update fun v₃ h₃ hv₃ => Contract.Good.finish (v := v₃.queue _) hv₃ fun v₄ h₄ hv₄ => ?_
  refine ended hv₄ (.sessionsDeleted tokenDigest ids fun i hi => ?_) ?_
  · obtain ⟨x, w, -, hb, -⟩ := hids i hi
    exact (h₃.since.trans h₄.since.of_queue).held (hb.after.held hb.held)
  · rw [View.snapshot, h₄.pending, View.queue_pending, h₃.pending, h₂.pending, h₁.pending, hpending]
    rfl

theorem cleanupSessions_kept {limit : ℕ} (hv : (contract box).Good v) (hpending : v.pending = id) :
    (cleanupSessions limit).Ensures (contract box).interference
      ((contract box).Finishes (.cleanupSessions limit) now fun _ => .done) v := by
  simp only [cleanupSessions, Tx.bind_eq]
  refine hv.snapshot fun v₁ h₁ hv₁ => Contract.Good.pickForUpdate hv₁ fun picked v₂ h₂ hv₂ hpicked =>
    hv₂.update fun v₃ h₃ hv₃ => Contract.Good.finish (v := v₃.queue _) hv₃ fun v₄ h₄ hv₄ => ?_
  have hpending₁ : v₁.pending = id := h₁.pending.trans hpending
  have hlast : (contract box).Since v₂ v₄ := h₃.since.trans h₄.since.of_queue
  refine ended hv₄ (.sessionsCleaned limit (picked.map Prod.fst) fun i hi => ?_) ?_
  · obtain ⟨p, hp, rfl⟩ := List.mem_map.mp hi
    obtain ⟨w, hw, hb, hexpired⟩ := hpicked p hp
    have hsince : (contract box).Since w v₄ := hb.after.since.trans hlast
    have hrow := hb.row
    rw [snapshot_eq (hw.pending.trans hpending₁)] at hrow hexpired
    refine ⟨hsince.held hb.held, p.2, (others hsince).session hb.held hrow, ?_⟩
    -- it was over at an earlier moment
    refine Session.live_mono (others hsince).clock_le ?_
    rcases hexpired with hmem | hexpired
    · have hmem' := (List.mem_filter.mp ((List.mem_insertionSort _).mp hmem)).2
      rw [snapshot_eq hpending₁, Bool.not_eq_true'] at hmem'
      exact Session.live_mono (others hw.since).clock_le hmem'
    · simpa using hexpired
  · rw [View.snapshot, h₄.pending, View.queue_pending, h₃.pending, h₂.pending, hpending₁]
    rfl

/-! ## Accounts -/

/-- An update of an account by its owner. -/
theorem updateUser_kept {op : Op} {userId : ℕ} {f : User → User} (hv : (contract box).Good v)
    (hpending : v.pending = id)
    (h : ∀ {K d user}, Holds K d userId user → Effect box now K d op (d.modifyUser userId f) .done) :
    (updateUser userId f).Ensures (contract box).interference
      ((contract box).Finishes op now fun _ => .done) v := by
  simp only [updateUser, Tx.bind_eq]
  refine hv.findForUpdate (fun v₁ h₁ hv₁ => ?_) fun i user w v₁ hw _ h₁ hv₁ hkey hrow hp => ?_
  · exact Tx.Ensures.expect_bind (fun _ h => nomatch h) fun _ _ _ => trivial
  refine Tx.Ensures.expect_bind (fun _ _ => ?_) fun _ _ _ => trivial
  have hpending₁ : v₁.pending = id := (hw.trans h₁).pending.trans hpending
  rw [snapshot_eq hpending₁] at hrow
  rw [Bool.and_eq_true, decide_eq_true_eq] at hp
  obtain ⟨rfl, henabled⟩ := hp
  refine hv₁.update fun v₂ h₂ hv₂ => Contract.Good.finish (v := v₂.queue _) hv₂ fun v₃ h₃ hv₃ => ?_
  refine ended hv₃ (h (Holds.since ⟨hkey, hrow, henabled⟩ (h₂.since.trans h₃.since.of_queue))) ?_
  rw [View.snapshot, h₃.pending, View.queue_pending, h₂.pending, hpending₁]
  rfl

theorem initializeLocale_kept {userId : ℕ} {locale : String} (hv : (contract box).Good v)
    (hpending : v.pending = id) :
    (initializeLocale userId locale).Ensures (contract box).interference
      ((contract box).Finishes (.initializeLocale userId locale) now
        fun u => .account userId u) v := by
  unfold initializeLocale
  split_ifs
  · simp only [Tx.bind_eq]
    refine hv.findForUpdate (fun v₁ h₁ hv₁ => ?_) fun i user w v₁ hw _ h₁ hv₁ hkey hrow hp => ?_
    · exact publicAccount_kept hv₁ (h₁.pending.trans hpending) fun _ => rfl
    have hpending₁ : v₁.pending = id := (hw.trans h₁).pending.trans hpending
    rw [snapshot_eq hpending₁] at hrow
    simp only [Bool.and_eq_true, decide_eq_true_eq, Option.isNone_iff_eq_none] at hp
    obtain ⟨⟨rfl, henabled⟩, hnone⟩ := hp
    refine hv₁.update fun v₂ h₂ hv₂ => Contract.Good.finish (v := v₂.queue _) hv₂
      fun v₃ h₃ hv₃ => ?_
    refine ended hv₃ (.localeInitialized i locale user
      (Holds.since ⟨hkey, hrow, henabled⟩ (h₂.since.trans h₃.since.of_queue)) hnone) ?_
    rw [View.snapshot, h₃.pending, View.queue_pending, h₂.pending, hpending₁]
    rfl
  · exact publicAccount_kept hv hpending fun _ => rfl

theorem saveSystemIdentity_kept {revision : ℕ} {systemName : Name} (hv : (contract box).Good v)
    (hpending : v.pending = id) :
    (saveSystemIdentity revision systemName).Ensures (contract box).interference
      ((contract box).Finishes (.saveSystemIdentity revision systemName) now fun _ => .done) v := by
  simp only [saveSystemIdentity, Tx.bind_eq]
  refine hv.acquire fun v₁ h₁ hv₁ _ => hv₁.snapshot fun v₂ h₂ hv₂ => ?_
  refine Tx.Ensures.require_bind (fun _ => ?_) fun _ _ _ => trivial
  refine hv₂.update fun v₃ h₃ hv₃ => Contract.Good.finish (v := v₃.queue _) hv₃ fun v₄ h₄ hv₄ => ?_
  refine ended hv₄ (.identitySaved revision systemName) ?_
  rw [View.snapshot, h₄.pending, View.queue_pending, h₃.pending, h₂.pending, h₁.pending, hpending]
  rfl

/-! ## The sweep -/

/-- Rows that have expired when they are picked have expired at the end. -/
theorem pickExpired_bind {β ρ : Type} [DecidableEq ρ] {Q : Except Failure β → View Db Key → Prop}
    {table : Db → Table ρ} {key : ℕ → Key} {expiresAt : ρ → Instant}
    {order : ℕ × ρ → ℕ × ρ → Prop} [DecidableRel order] {n : ℕ} {g : List (ℕ × ρ) → Txn β}
    (hv : (contract box).Good v) (hclock : ∀ d, (v.pending d).clock = d.clock)
    (hrows : ∀ d, table (v.pending d) = table d)
    (h : ∀ picked v', (contract box).Later v v' → (contract box).Good v' →
      (∀ p ∈ picked, ∃ w, (contract box).Since w v' ∧ .key (key p.1) ∈ w.held ∧
        (table w.db).get? p.1 = some p.2 ∧ expiresAt p.2 ≤ w.db.clock) →
      (g picked).Ensures (contract box).interference Q v') :
    (Tx.snapshot.bind fun s => (Tx.pickForUpdate table key
      (fun s r => decide (expiresAt r ≤ s.clock)) (((table s).rows.filter fun r =>
        decide (expiresAt r.2 ≤ s.clock)).insertionSort order) n).bind g).Ensures
      (contract box).interference Q v := by
  refine hv.snapshot fun v₁ h₁ hv₁ => Contract.Good.pickForUpdate hv₁ fun picked v₂ h₂ hv₂ hpicked =>
    h picked v₂ (h₁.trans h₂) hv₂ fun p hp => ?_
  obtain ⟨w, hw, hb, hexpired⟩ := hpicked p hp
  have hpending : w.pending = v.pending := (h₁.trans hw).pending
  have hrow := hb.row
  rw [View.snapshot, hpending, hrows] at hrow
  refine ⟨w, hb.after.since, hb.held, hrow, ?_⟩
  rcases hexpired with hmem | hexpired
  · have hmem' := (List.mem_filter.mp ((List.mem_insertionSort _).mp hmem)).2
    rw [View.snapshot, h₁.pending, hclock, decide_eq_true_eq] at hmem'
    exact hmem'.trans (others hw.since).clock_le
  · rw [View.snapshot, hpending, hclock] at hexpired
    exact of_decide_eq_true hexpired

theorem sweepAuthorities_kept (hv : (contract box).Good v) (hpending : v.pending = id) :
    sweepAuthorities.Ensures (contract box).interference
      ((contract box).Finishes .sweepMail now fun _ => .done) v := by
  simp only [sweepAuthorities, Tx.bind_eq]
  refine pickExpired_bind hv (fun d => by rw [hpending]; rfl) (fun d => by rw [hpending]; rfl)
    fun resets v₁ h₁ hv₁ hresets => hv₁.update fun v₂ h₂ hv₂ => ?_
  have hpending₂ : v₂.pending = id := (h₁.trans h₂).pending.trans hpending
  refine pickExpired_bind (v := v₂.queue _) hv₂ (fun d => ?_) (fun d => ?_)
    fun requests v₃ h₃ hv₃ hrequests => hv₃.update fun v₄ h₄ hv₄ =>
      Contract.Good.finish (v := v₄.queue _) hv₄ fun v₅ h₅ hv₅ => ?_
  · rw [View.queue_pending, hpending₂]
    rfl
  · rw [View.queue_pending, hpending₂]
    rfl
  have hlast : (contract box).Since v₃ v₅ := h₄.since.trans h₅.since.of_queue
  have hall : (contract box).Since v₁ v₅ := h₂.since.trans (h₃.since.of_queue.trans hlast)
  refine ended hv₅ (.swept (resets.map Prod.fst) (requests.map Prod.fst) (fun i hi => ?_)
    fun i hi => ?_) ?_
  · obtain ⟨p, hp, rfl⟩ := List.mem_map.mp hi
    obtain ⟨w, hw, hkey, hrow, hexpired⟩ := hresets p hp
    have hsince := hw.trans hall
    exact ⟨hsince.held hkey, p.2, ((others hsince).reset hkey).trans hrow,
      hexpired.trans (others hsince).clock_le⟩
  · obtain ⟨p, hp, rfl⟩ := List.mem_map.mp hi
    obtain ⟨w, hw, hkey, hrow, hexpired⟩ := hrequests p hp
    have hsince := hw.trans hlast
    exact ⟨hsince.held hkey, p.2, (others hsince).request hkey hrow,
      hexpired.trans (others hsince).clock_le⟩
  · rw [View.snapshot, h₅.pending, View.queue_pending, h₄.pending, h₃.pending, View.queue_pending,
      hpending₂]
    rfl

end BindPlane.Auth
