import BindPlane.Auth.Kept

/-!
# Passwords and their recovery keep the contract
-/

namespace BindPlane.Auth

open ReadCommitted
open Mail (Bytes MailTask)

variable {box : Sealer} {v : View Db Key} {now : Instant} {nonce : Bytes}

/-- A new reset, of an account that is locked. -/
theorem issueReset_kept {userId : ℕ} {user : User} {selector digest : Bytes} {ttl : ℕ}
    {locale canonical : String} (hv : (contract box).Good v) (hpending : v.pending = id)
    (hnow : now ≤ v.db.clock) (huser : Holds v.held v.db userId user)
    (hcanonical : user.email.canonical = canonical) :
    (issueReset box nonce userId selector digest ttl locale).Ensures (contract box).interference
      ((contract box).Finishes (.requestPasswordReset nonce canonical selector digest ttl locale)
        now fun _ => .done) v := by
  simp only [issueReset, Tx.bind_eq]
  -- the writes: the old mails, and the row under the locks of the reset and of the selector
  refine supersedeMail_bind hv fun t₁ v₁ h₁ hv₁ hp₁ => hv₁.acquire fun v₂ h₂ hv₂ hkey =>
    hv₂.acquire fun v₃ h₃ hv₃ _ => hv₃.snapshot fun v₄ h₄ hv₄ => ?_
  refine Tx.Ensures.require_bind (fun hrequired => ?_) (fun _ _ _ => trivial)
  refine hv₄.update fun v₅ h₅ hv₅ => Contract.Good.snapshot (v := v₅.queue _) hv₅
    fun v₆ h₆ hv₆ => ?_
  -- what has been written when the clock is read
  have hpending₄ : v₄.pending = (·.supersede (resetMailOf userId) t₁ "superseded") := by
    rw [h₄.pending, h₃.pending, h₂.pending, hp₁, hpending]
    rfl
  have hpending₆ : v₆.pending = (·.putReset userId ⟨selector, digest, v₄.snapshot.clock + ttl,
      v₄.snapshot.clock⟩) ∘ v₄.pending := by
    rw [h₆.pending, View.queue_pending, h₅.pending]
  have hsince₄ : (contract box).Since v v₄ :=
    h₁.trans (h₂.since.trans (h₃.since.trans h₄.since))
  have hsince₆ : (contract box).Since v₄ v₆ := h₅.since.trans h₆.since.of_queue
  have husers : v₆.snapshot.users = v₆.db.users := by
    rw [View.snapshot, hpending₆, hpending₄]
    rfl
  -- the mail is made from the row that was just written
  have hresets : v₆.snapshot.resets.get? userId =
      some ⟨selector, digest, v₄.snapshot.clock + ttl, v₄.snapshot.clock⟩ := by
    rw [View.snapshot, hpending₆]
    exact Table.get?_insert_self _ _ _
  have hmoment : Moment now v₄.db v₄.snapshot.clock := by
    rw [View.snapshot, hpending₄]
    exact ⟨hnow.trans (others hsince₄).clock_le, le_rfl⟩
  have huser₆ := huser.since (hsince₄.trans hsince₆)
  refine Tx.Ensures.expect_bind (fun user' huser' => ?_) (fun _ _ _ => trivial)
  obtain rfl : user' = user := by
    rw [husers, huser₆.row] at huser'
    exact (Option.some.inj (Option.filter_eq_some_iff.mp huser').1).symm
  refine Tx.Ensures.expect_bind (fun reset hreset => ?_) (fun _ _ _ => trivial)
  obtain rfl := Option.some.inj (hresets.symm.trans hreset)
  refine queueMail_bind hv₆ (fun _ _ => trivial) fun id task v₇ h₇ hv₇ hmail hp₇ => ?_
  refine hv₇.update fun v₈ h₈ hv₈ => Contract.Good.finish (v := v₈.queue _) hv₈
    fun v₉ h₉ hv₉ => ?_
  have hlast : (contract box).Since v₇ v₉ := h₈.since.trans h₉.since.of_queue
  refine ended hv₉ (.resetIssued nonce canonical selector digest ttl locale userId user' _ t₁ id
    task (huser₆.since (h₇.trans hlast)) hcanonical ?_ (hmoment.since
      (hsince₆.trans (h₇.trans hlast))) ?_ (hmail.since hlast)) ?_
  · exact (h₃.since.trans (h₄.since.trans (hsince₆.trans (h₇.trans hlast)))).held hkey
  · simp only [Bool.and_eq_true, decide_eq_true_eq] at hrequired
    exact hrequired.1
  · rw [View.snapshot, h₉.pending, View.queue_pending, h₈.pending, hp₇, hpending₆, hpending₄]
    rfl

theorem requestPasswordReset_kept {canonical : String} {selector digest : Bytes} {ttl : ℕ}
    {locale : String} (hv : (contract box).Good v) (hpending : v.pending = id)
    (hnow : now ≤ v.db.clock) :
    (requestPasswordReset box nonce canonical selector digest ttl locale).Ensures
      (contract box).interference
      ((contract box).Finishes (.requestPasswordReset nonce canonical selector digest ttl locale)
        now fun _ => .done) v := by
  simp only [requestPasswordReset, Tx.bind_eq]
  refine hv.findForUpdate (fun v₁ h₁ hv₁ => ?_) fun userId user w v₁ hw hvw h₁ hv₁ hkey hrow hp => ?_
  · refine hv₁.finish fun v₂ h₂ hv₂ => ended hv₂ (.unknown nonce canonical selector digest ttl
      locale) (snapshot_eq ?_)
    rw [h₂.pending, h₁.pending, hpending]
  · have hpending₁ : v₁.pending = id := h₁.pending.trans (hw.pending.trans hpending)
    rw [snapshot_eq hpending₁] at hrow
    simp only [Bool.and_eq_true, decide_eq_true_eq] at hp
    exact issueReset_kept hv₁ hpending₁ (hnow.trans (others (hw.trans h₁).since).clock_le)
      ⟨hkey, hrow, hp.2⟩ hp.1

/-! ## Completion -/

theorem lockReset_bind {β : Type} {Q : Except Failure β → View Db Key → Prop} {selector : Bytes}
    {g : ℕ × PasswordReset × Instant → Txn β} (hv : (contract box).Good v)
    (hpending : v.pending = id) (hnow : now ≤ v.db.clock) (he : ∀ e v', Q (.error e) v')
    (h : ∀ userId user r t v', (contract box).Later v v' → (contract box).Good v' →
      Holds v'.held v'.db userId user → .key (.reset userId) ∈ v'.held →
      v'.db.resets.get? userId = some r → r.selector = selector → Moment now v'.db t →
      (g (userId, r, t)).Ensures (contract box).interference Q v') :
    ((lockReset selector).bind g).Ensures (contract box).interference Q v := by
  simp only [lockReset, Tx.bind_eq, Tx.bind_assoc]
  refine hv.snapshot fun v₁ h₁ hv₁ => ?_
  refine Tx.Ensures.expect_bind (fun joined _ => ?_) (fun _ _ _ => he _ _)
  obtain ⟨userId, r₀⟩ := joined
  refine hv₁.acquire fun v₂ h₂ hv₂ hkey => hv₂.acquire fun v₃ h₃ hv₃ huser =>
    hv₃.snapshot fun v₄ h₄ hv₄ => ?_
  have hl : (contract box).Later v₁ v₄ := h₂.trans (h₃.trans h₄)
  have hpending₁ : v₁.pending = id := h₁.pending.trans hpending
  have hpending₄ : v₄.pending = id := hl.pending.trans hpending₁
  refine Tx.Ensures.expect_bind (fun r hr => ?_) (fun _ _ _ => he _ _)
  refine Tx.Ensures.require_bind (fun henabled => ?_) (fun _ _ _ => he _ _)
  rw [snapshot_eq hpending₄] at hr henabled
  obtain ⟨hr, hselector⟩ := Option.filter_eq_some_iff.mp hr
  obtain ⟨user, hu, henabled⟩ := (Option.any_eq_true _ _).mp henabled
  rw [Tx.pure_eq, Tx.pure_bind, snapshot_eq hpending₄, snapshot_eq hpending₁]
  have hnow₁ : now ≤ v₁.db.clock := hnow.trans (others h₁.since).clock_le
  have hle : v₁.db.clock ≤ v₄.db.clock := (others hl.since).clock_le
  refine h userId user r _ v₄ (h₁.trans hl) hv₄ ⟨h₄.held huser, hu, henabled⟩
    ((h₃.trans h₄).held hkey) hr (of_decide_eq_true hselector) ?_
  -- the expiry is checked when the statement begins, or behind the locks
  split
  · exact ⟨hnow₁, hle⟩
  · exact ⟨hnow₁.trans hle, le_rfl⟩

theorem consumeReset_kept {selector digest : Bytes} {hash locale : String} {ttl : ℕ}
    (hv : (contract box).Good v) (hpending : v.pending = id) (hnow : now ≤ v.db.clock) :
    (consumeReset box nonce selector digest hash locale ttl).Ensures
      (contract box).interference ((contract box).Finishes
        (.completePasswordReset nonce selector digest hash locale ttl) now fun t => .changedAt t)
      v := by
  simp only [consumeReset, Tx.bind_eq]
  refine lockReset_bind hv hpending hnow (fun _ _ => trivial)
    fun userId user r t v₁ h₁ hv₁ huser hkey hrow hselector hmoment => ?_
  refine Tx.Ensures.require_bind (fun hrequired => ?_) (fun _ _ _ => trivial)
  simp only [Bool.and_eq_true, decide_eq_true_eq] at hrequired
  refine supersedeMail_bind hv₁ fun t₁ v₂ h₂ hv₂ hp₂ => hv₂.snapshot fun v₃ h₃ hv₃ => ?_
  refine Tx.Ensures.expect_bind (fun _ _ => ?_) (fun _ _ _ => trivial)
  refine hv₃.update fun v₄ h₄ hv₄ => deleteReset_bind (v := v₄.queue _) hv₄
    fun v₅ h₅ hv₅ hkey₅ hp₅ => hv₅.snapshot fun v₆ h₆ hv₆ => ?_
  have hpending₆ : v₆.pending = (·.deleteResets [userId]) ∘ (·.modifyUser userId
      (User.setPassword hash)) ∘ (·.supersede (resetMailOf userId) t₁ "superseded") := by
    rw [h₆.pending, hp₅, View.queue_pending, h₄.pending, h₃.pending, hp₂, h₁.pending, hpending]
    rfl
  have hsince : (contract box).Since v₁ v₆ :=
    h₂.trans (h₃.since.trans (h₄.since.trans (h₅.of_queue.trans h₆.since)))
  refine Tx.Ensures.expect_bind (fun user' huser' => ?_) (fun _ _ _ => trivial)
  obtain rfl : user' = User.setPassword hash user := by
    have hrow' := (huser.since hsince).row
    rw [View.snapshot, hpending₆] at huser'
    have hmodified : (v₆.db.users.modify userId (User.setPassword hash)).get? userId =
        some user' := huser'
    rw [Table.get?_modify_self, hrow'] at hmodified
    exact (Option.some.inj hmodified).symm
  refine queueMail_bind hv₆ (fun _ _ => trivial) fun id task v₇ h₇ hv₇ hmail hp₇ => ?_
  refine hv₇.update fun v₈ h₈ hv₈ => Contract.Good.finish (v := v₈.queue _) hv₈
    fun v₉ h₉ hv₉ => ?_
  have hlast : (contract box).Since v₇ v₉ := h₈.since.trans h₉.since.of_queue
  have hall : (contract box).Since v₁ v₉ := hsince.trans (h₇.trans hlast)
  refine ended hv₉ (.passwordReset nonce selector digest hash locale ttl userId user r t t₁
    v₃.snapshot.clock id task (huser.since hall) (hall.held hkey)
    (((others hall).reset hkey).trans hrow) hselector hrequired.2 (hmoment.since hall)
    hrequired.1 (hmail.since hlast)) ?_
  rw [View.snapshot, h₉.pending, View.queue_pending, h₈.pending, hp₇, hpending₆]
  rfl

theorem completePasswordReset_kept {selector digest : Bytes} {hash locale : String} {ttl : ℕ}
    (hv : (contract box).Good v) (hpending : v.pending = id) (hnow : now ≤ v.db.clock) :
    (completePasswordReset box nonce selector digest hash locale ttl).Ensures
      (contract box).interference ((contract box).Finishes
        (.completePasswordReset nonce selector digest hash locale ttl) now fun t => .changedAt t)
      v := by
  simp only [completePasswordReset, Tx.bind_eq]
  refine hv.findForUpdate (fun v₁ h₁ hv₁ => ?_) fun userId user w v₁ hw hvw h₁ hv₁ _ _ _ => ?_
  · exact Tx.Ensures.expect_bind (fun _ h => nomatch h) (fun _ _ _ => trivial)
  · refine Tx.Ensures.expect_bind (fun _ _ => ?_) (fun _ _ _ => trivial)
    exact consumeReset_kept hv₁ (h₁.pending.trans (hw.pending.trans hpending))
      (hnow.trans (others (hw.trans h₁).since).clock_le)

/-! ## ChangePassword -/

theorem changePassword_kept {userId version : ℕ} {hash locale : String} {ttl : ℕ}
    (hv : (contract box).Good v) (hpending : v.pending = id) :
    (changePassword box nonce userId version hash locale ttl).Ensures (contract box).interference
      ((contract box).Finishes (.changePassword nonce userId version hash locale ttl) now
        fun t => .changedAt t) v := by
  simp only [changePassword, Tx.bind_eq]
  refine hv.selectForUpdate (fun _ _ => trivial) fun user v₁ h₁ hv₁ hkey hrow => ?_
  refine Tx.Ensures.require_bind (fun henabled => ?_) (fun _ _ _ => trivial)
  refine Tx.Ensures.require_bind (fun hversion => ?_) (fun _ _ _ => trivial)
  have hpending₁ : v₁.pending = id := h₁.pending.trans hpending
  rw [snapshot_eq hpending₁] at hrow
  have huser : Holds v₁.held v₁.db userId user := ⟨hkey, hrow, henabled⟩
  refine supersedeMail_bind hv₁ fun t₁ v₂ h₂ hv₂ hp₂ => hv₂.snapshot fun v₃ h₃ hv₃ => ?_
  have hpending₃ : v₃.pending = (·.supersede (resetMailOf userId) t₁ "superseded") := by
    rw [h₃.pending, hp₂, hpending₁]
    rfl
  have huser₃ := huser.since (h₂.trans h₃.since)
  refine Tx.Ensures.expect_bind (fun user' huser' => ?_) (fun _ _ _ => trivial)
  obtain rfl : user' = user := by
    rw [View.snapshot, hpending₃] at huser'
    have hread : v₃.db.users.get? userId = some user' := (Option.filter_eq_some_iff.mp huser').1
    exact Option.some.inj (hread.symm.trans huser₃.row)
  refine hv₃.update fun v₄ h₄ hv₄ => deleteReset_bind (v := v₄.queue _) hv₄
    fun v₅ h₅ hv₅ hkey₅ hp₅ => ?_
  refine queueMail_bind hv₅ (fun _ _ => trivial) fun id task v₆ h₆ hv₆ hmail hp₆ => ?_
  refine hv₆.update fun v₇ h₇ hv₇ => Contract.Good.finish (v := v₇.queue _) hv₇
    fun v₈ h₈ hv₈ => ?_
  have hlast : (contract box).Since v₆ v₈ := h₇.since.trans h₈.since.of_queue
  refine ended hv₈ (.passwordChanged nonce userId version hash locale ttl user' t₁
    v₃.snapshot.clock id task
    (huser₃.since (h₄.since.trans (h₅.of_queue.trans (h₆.trans hlast))))
    ((h₆.trans hlast).held hkey₅) (of_decide_eq_true hversion) (hmail.since hlast)) ?_
  rw [View.snapshot, h₈.pending, View.queue_pending, h₇.pending, hp₆, hp₅, View.queue_pending,
    h₄.pending, hpending₃]
  rfl

end BindPlane.Auth
