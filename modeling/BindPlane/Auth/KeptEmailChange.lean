import BindPlane.Auth.Kept

/-!
# The change of an address keeps the contract

A user has one request at most, and nobody issues a code for a user without the lock of its row.  So
what `lockPreviousRequest` finds behind that lock is the last request of the user, or there is none
(`LastRequest`), and it stays so until the commit.
-/

namespace BindPlane.Auth

open ReadCommitted
open Mail (Bytes MailTask)

variable {box : Sealer} {v v' : View Db Key} {now : Instant} {nonce : Bytes}

/-! ## The last request -/

/-- **The last request of a user**, behind whose code another one may be issued at `t`.

A request that the user made before may be in the table or may have been swept away.  In the second
case only the journal tells when its code was issued. -/
structure LastRequest (v : View Db Key) (userId : ℕ) (previous : Option (ℕ × EmailChangeRequest))
    (t : Instant) : Prop where
  row : ∀ p ∈ previous, .key (.emailChange p.1) ∈ v.held ∧
    v.db.emailChanges.get? p.1 = some p.2 ∧ p.2.userId = userId ∧ p.2.resendAfter ≤ t
  all : ∀ i x, v.db.emailChanges.get? i = some x → x.userId = userId →
    i ∈ (previous.map Prod.fst).toList
  due : v.db.CodeDue userId t

namespace LastRequest

variable {userId : ℕ} {previous : Option (ℕ × EmailChangeRequest)} {t t' : Instant}

theorem later (h : LastRequest v userId previous t) (ht : t ≤ t') :
    LastRequest v userId previous t' := by
  refine ⟨fun p hp => ?_, h.all, fun issuedAt expiresAt hissued => ?_⟩
  · obtain ⟨hkey, hrow, huser, hresend⟩ := h.row p hp
    exact ⟨hkey, hrow, huser, hresend.trans ht⟩
  · exact (h.due issuedAt expiresAt hissued).trans ht

theorem since (h : LastRequest v userId previous t) (hkey : .key (.user userId) ∈ v.held)
    (hl : (contract box).Since v v') : LastRequest v' userId previous t := by
  refine ⟨fun p hp => ?_, fun i x hx huser => ?_, ?_⟩
  · obtain ⟨hp, hrow, huser, hresend⟩ := h.row p hp
    exact ⟨hl.held hp, (others hl).request hp hrow, huser, hresend⟩
  · obtain ⟨x₀, hx₀, huser₀⟩ := (others hl).requested hkey ⟨x, hx, huser⟩
    exact h.all i x₀ hx₀ huser₀
  · intro issuedAt expiresAt hissued
    rw [(others hl).codeOfUser hkey] at hissued
    exact h.due issuedAt expiresAt hissued

/-- Where a user has no request. -/
theorem none (hv : (contract box).Good v)
    (hnone : ∀ i x, v.db.emailChanges.get? i = some x → x.userId ≠ userId) :
    LastRequest v userId none v.db.clock := by
  refine ⟨nofun, fun i x hx huser => absurd huser (hnone i x hx), ?_⟩
  rcases hv.1.2.due userId with ⟨i, x, hx, huser⟩ | hdue
  · exact absurd huser (hnone i x hx)
  · exact hdue

/-- Where its request may be replaced. -/
theorem some {id : ℕ} {r : EmailChangeRequest} (hv : (contract box).Good v)
    (hkey : .key (.emailChange id) ∈ v.held) (hrow : v.db.emailChanges.get? id = some r)
    (huser : r.userId = userId) (hresend : r.resendAfter ≤ t) :
    LastRequest v userId (some (id, r)) t := by
  refine ⟨?_, fun i x hx hxuser => ?_, fun issuedAt expiresAt hissued => ?_⟩
  · rintro p ⟨⟩
    exact ⟨hkey, hrow, huser, hresend⟩
  · rw [hv.1.2.single i id x r hx hrow (hxuser.trans huser.symm)]
    exact List.mem_singleton_self id
  · obtain ⟨t₀, hword, hafter⟩ := (hv.1.2.request id r hrow).user
    rw [huser] at hword
    cases hword.symm.trans hissued
    rw [hafter] at hresend
    exact (min_le_left _ _).trans hresend

end LastRequest

theorem lockPreviousRequest_bind {β : Type} {Q : Except Failure β → View Db Key → Prop}
    {userId : ℕ} {g : Option (ℕ × EmailChangeRequest) → Txn β} (hv : (contract box).Good v)
    (hpending : v.pending = id) (hkey : .key (.user userId) ∈ v.held)
    (he : ∀ e v', Q (.error e) v')
    (h : ∀ previous v', (contract box).Later v v' → (contract box).Good v' →
      LastRequest v' userId previous v'.db.clock →
      (g previous).Ensures (contract box).interference Q v') :
    ((lockPreviousRequest userId).bind g).Ensures (contract box).interference Q v := by
  simp only [lockPreviousRequest, Tx.bind_eq, Tx.bind_assoc]
  refine hv.findForUpdate_rec (fun v₁ h₁ hv₁ hnone => ?_)
    (fun requestId r w v₁ hw hvw h₁ hv₁ _ hfound hlost => ?_)
    fun requestId r w v₁ hw _ h₁ hv₁ hrequest hrow hp => ?_
  · rw [snapshot_eq (h₁.pending.trans hpending), Table.find?_eq_none] at hnone
    refine h none v₁ h₁ hv₁ (.none hv₁ fun i x hx => ?_)
    exact of_decide_eq_false (hnone i x hx)
  · -- whoever had it found its request, which is gone
    have hpending₁ : v₁.pending = id := h₁.pending.trans (hw.pending.trans hpending)
    rw [snapshot_eq (hw.pending.trans hpending)] at hfound
    rw [snapshot_eq hpending₁] at hlost
    obtain ⟨hr, huser⟩ := Table.find?_eq_some hfound
    refine h none v₁ (hw.trans h₁) hv₁ (.none hv₁ fun i x hx hxuser => ?_)
    obtain ⟨x₀, hx₀, hxuser₀⟩ := (others h₁.since).requested (hw.held hkey) ⟨x, hx, hxuser⟩
    obtain rfl : i = requestId :=
      hvw.1.2.single i requestId x₀ r hx₀ hr (hxuser₀.trans (of_decide_eq_true huser).symm)
    rw [hx, Option.filter_some, decide_eq_true hxuser] at hlost
    cases hlost
  · refine hv₁.snapshot fun v₂ h₂ hv₂ => ?_
    simp only [Tx.pure_eq, Tx.pure_bind, Tx.bind_assoc]
    refine Tx.Ensures.require_bind (fun hresend => ?_) fun _ _ _ => he _ _
    have hl : (contract box).Later v v₁ := hw.trans h₁
    have hpending₂ : v₂.pending = id := h₂.pending.trans (hl.pending.trans hpending)
    rw [snapshot_eq (hl.pending.trans hpending)] at hrow
    rw [snapshot_eq hpending₂] at hresend
    refine h _ v₂ (hl.trans h₂) hv₂ (.some hv₂ (h₂.held hrequest)
      ((others h₂.since).request hrequest hrow) (of_decide_eq_true hp)
      (of_decide_eq_true hresend))

/-- An address that is not occupied. -/
theorem vacant {d : Db} {canonical : String} {userId : ℕ}
    (h : (!d.occupied canonical userId) = true) : d.Vacant canonical userId := by
  rw [Bool.not_eq_true', Db.occupied, Bool.or_eq_false_iff, Table.any_eq_false,
    Table.any_eq_false] at h
  refine ⟨fun i u hu hcanonical => ?_, fun i x hx => of_decide_eq_false (h.2 i x hx)⟩
  have hi := h.1 i u hu
  rw [decide_eq_true hcanonical, Bool.true_and] at hi
  exact not_not.mp (of_decide_eq_false hi)

/-! ## RequestEmailChange -/

theorem requestEmailChange_kept {userId : ℕ} {newEmail : Email} {selector digest : Bytes}
    {ttl : ℕ} {locale : String} (hv : (contract box).Good v) (hpending : v.pending = id)
    (hnow : now ≤ v.db.clock) :
    (requestEmailChange box nonce userId newEmail selector digest ttl locale).Ensures
      (contract box).interference ((contract box).Finishes
        (.requestEmailChange nonce userId newEmail selector digest ttl locale) now
          fun r => .request r.1 r.2) v := by
  simp only [requestEmailChange, insertRequest, queueCode, Tx.bind_eq, Tx.bind_assoc]
  -- the locks: the address, the account, the request that is replaced
  refine hv.acquire fun v₁ h₁ hv₁ haddress => hv₁.selectForUpdate (fun _ _ => trivial)
    fun user v₂ h₂ hv₂ hkey hrow => ?_
  refine Tx.Ensures.require_bind (fun henabled => ?_) fun _ _ _ => trivial
  refine Tx.Ensures.require_bind (fun _ => ?_) fun _ _ _ => trivial
  refine hv₂.snapshot fun v₃ h₃ hv₃ => ?_
  refine Tx.Ensures.require_bind (fun hfree => ?_) fun _ _ _ => trivial
  have hpending₂ : v₂.pending = id := (h₁.trans h₂).pending.trans hpending
  have hpending₃ : v₃.pending = id := h₃.pending.trans hpending₂
  rw [snapshot_eq hpending₂] at hrow
  rw [snapshot_eq hpending₃] at hfree
  have huser : Holds v₂.held v₂.db userId user := ⟨hkey, hrow, henabled⟩
  have hvacant := vacant hfree
  have haddress₃ := (h₂.trans h₃).held haddress
  refine lockPreviousRequest_bind hv₃ hpending₃ (h₃.held hkey) (fun _ _ => trivial)
    fun previous v₄ h₄ hv₄ hlast => ?_
  -- the writes: the old mails, the old row, the new one, its mail
  refine supersedeMail_bind hv₄ fun t₁ v₅ h₅ hv₅ hp₅ => hv₅.update fun v₆ h₆ hv₆ =>
    Contract.Good.acquire (v := v₆.queue _) hv₆ fun v₇ h₇ hv₇ _ => hv₇.acquire
      fun v₈ h₈ hv₈ _ => hv₈.snapshot fun v₉ h₉ hv₉ => ?_
  refine Tx.Ensures.require_bind (fun _ => ?_) fun _ _ _ => trivial
  refine hv₉.nextSerial fun requestId v₁₀ h₁₀ hv₁₀ hserial _ hinv => hv₁₀.update
    fun v₁₁ h₁₁ hv₁₁ => ?_
  rw [Tx.pure_eq, Tx.pure_bind]
  refine Contract.Good.snapshot (v := v₁₁.queue _) hv₁₁ fun v₁₂ h₁₂ hv₁₂ => ?_
  refine queueMail_bind hv₁₂ (fun _ _ => trivial) fun id task v₁₃ h₁₃ hv₁₃ hmail hp₁₃ =>
    hv₁₃.finish fun v₁₄ h₁₄ hv₁₄ => ?_
  -- what has been written when the clock is read
  have hpending₉ : v₉.pending = (·.deleteEmailChanges (previous.map Prod.fst).toList) ∘
      (·.supersede (codeMailOf userId) t₁ "superseded") := by
    rw [h₉.pending, h₈.pending, h₇.pending, View.queue_pending, h₆.pending, hp₅, h₄.pending,
      hpending₃]
    rfl
  have hsince₉ : (contract box).Since v₄ v₉ :=
    h₅.trans (h₆.since.trans (h₇.trans (h₈.trans h₉)).since.of_queue)
  have hsince₁₄ : (contract box).Since v₁₀ v₁₄ :=
    h₁₁.since.trans (h₁₂.since.of_queue.trans (h₁₃.trans h₁₄.since))
  have hlast₁₄ : (contract box).Since v₉ v₁₄ := h₁₀.since.trans hsince₁₄
  have hclock : v₉.snapshot.clock = v₉.db.clock := by
    rw [View.snapshot, hpending₉]
    rfl
  have hsince₄ : (contract box).Since v₄ v₁₄ := hsince₉.trans hlast₁₄
  have hprevious := ((hlast.since (h₄.held (h₃.held hkey)) hsince₉).later
    (others hsince₉).clock_le).since (hsince₉.held (h₄.held (h₃.held hkey))) hlast₁₄
  rw [← hclock] at hprevious
  -- the effect at the commit, from what was found behind the locks
  refine ended hv₁₄ (.codeIssued nonce userId newEmail selector digest ttl locale user previous
    v₉.snapshot.clock t₁ _ requestId id task
    (huser.since ((h₃.trans h₄).since.trans hsince₄)) ((h₄.since.trans hsince₄).held haddress₃)
    (hvacant.since haddress₃ (h₄.since.trans hsince₄)) hprevious.row hprevious.all hprevious.due
    ?_ (hsince₁₄.held hserial) ((others hsince₁₄).fresh hserial hinv.1.fresh)
    (hmail.since h₁₄.since)) ?_
  · rw [hclock]
    refine ⟨?_, (others hlast₁₄).clock_le⟩
    exact hnow.trans (others ((h₁.trans (h₂.trans (h₃.trans h₄))).since.trans hsince₉)).clock_le
  · rw [View.snapshot, h₁₄.pending, hp₁₃, h₁₂.pending, View.queue_pending, h₁₁.pending,
      h₁₀.pending, hpending₉]
    rfl

/-! ## ResendEmailChange -/

theorem resendEmailChange_kept {userId : ℕ} {selector digest : Bytes} {ttl : ℕ} {locale : String}
    (hv : (contract box).Good v) (hpending : v.pending = id) (hnow : now ≤ v.db.clock) :
    (resendEmailChange box nonce userId selector digest ttl locale).Ensures
      (contract box).interference ((contract box).Finishes
        (.resendEmailChange nonce userId selector digest ttl locale) now
          fun r => .request r.1 r.2) v := by
  simp only [resendEmailChange, queueCode, Tx.bind_eq]
  refine hv.selectForUpdate (fun _ _ => trivial) fun user v₁ h₁ hv₁ hkey hrow => ?_
  refine Tx.Ensures.require_bind (fun henabled => ?_) fun _ _ _ => trivial
  have hpending₁ : v₁.pending = id := h₁.pending.trans hpending
  rw [snapshot_eq hpending₁] at hrow
  have huser : Holds v₁.held v₁.db userId user := ⟨hkey, hrow, henabled⟩
  refine hv₁.findForUpdate (fun v₂ h₂ hv₂ => ?_)
    fun requestId r w v₂ hw _ hw₂ hv₂ hrequest hr hp => ?_
  · exact Tx.Ensures.expect_bind (fun _ h => nomatch h) fun _ _ _ => trivial
  refine Tx.Ensures.expect_bind (fun x hx => ?_) fun _ _ _ => trivial
  obtain rfl := Option.some.inj hx
  refine hv₂.snapshot fun v₃ h₃ hv₃ => ?_
  refine Tx.Ensures.require_bind (fun hexpiry => ?_) fun _ _ _ => trivial
  refine Tx.Ensures.require_bind (fun hattempts => ?_) fun _ _ _ => trivial
  refine Tx.Ensures.require_bind (fun hresend => ?_) fun _ _ _ => trivial
  have h₂ : (contract box).Later v₁ v₂ := hw.trans hw₂
  have hpending₂ : v₂.pending = id := h₂.pending.trans hpending₁
  have hpending₃ : v₃.pending = id := h₃.pending.trans hpending₂
  rw [snapshot_eq hpending₂] at hr
  rw [snapshot_eq hpending₃] at hexpiry hresend
  have hnow₃ : now ≤ v₃.db.clock := hnow.trans (others (h₁.trans (h₂.trans h₃)).since).clock_le
  have hpresentable : Presentable v₃.held now v₃.db userId requestId r :=
    ⟨h₃.held hrequest, (others h₃.since).request hrequest hr, of_decide_eq_true hp,
      ⟨v₃.db.clock, ⟨hnow₃, le_rfl⟩, of_decide_eq_true hexpiry⟩, of_decide_eq_true hattempts⟩
  refine supersedeMail_bind hv₃ fun t₁ v₄ h₄ hv₄ hp₄ => hv₄.acquire fun v₅ h₅ hv₅ _ =>
    hv₅.snapshot fun v₆ h₆ hv₆ => ?_
  refine Tx.Ensures.require_bind (fun _ => ?_) fun _ _ _ => trivial
  refine hv₆.update fun v₇ h₇ hv₇ => Contract.Good.snapshot (v := v₇.queue _) hv₇
    fun v₈ h₈ hv₈ => ?_
  refine queueMail_bind hv₈ (fun _ _ => trivial) fun id task v₉ h₉ hv₉ hmail hp₉ =>
    hv₉.finish fun v₁₀ h₁₀ hv₁₀ => ?_
  have hpending₆ : v₆.pending = (·.supersede (codeMailOf userId) t₁ "superseded") := by
    rw [h₆.pending, h₅.pending, hp₄, hpending₃]
    rfl
  have hclock : v₆.snapshot.clock = v₆.db.clock := by
    rw [View.snapshot, hpending₆]
    rfl
  have hsince₆ : (contract box).Since v₃ v₆ := h₄.trans (h₅.trans h₆).since
  have hlast : (contract box).Since v₆ v₁₀ :=
    h₇.since.trans (h₈.since.of_queue.trans (h₉.trans h₁₀.since))
  have hsince : (contract box).Since v₃ v₁₀ := hsince₆.trans hlast
  refine ended hv₁₀ (.codeReissued nonce userId selector digest ttl locale user requestId r
    v₆.snapshot.clock t₁ _ id task (huser.since ((h₂.trans h₃).since.trans hsince))
    (hpresentable.since hsince) ?_ ?_ (hmail.since h₁₀.since)) ?_
  · rw [hclock]
    exact (of_decide_eq_true hresend).trans (others hsince₆).clock_le
  · rw [hclock]
    exact ⟨hnow₃.trans (others hsince₆).clock_le, (others hlast).clock_le⟩
  · rw [View.snapshot, h₁₀.pending, hp₉, h₈.pending, View.queue_pending, h₇.pending, hpending₆]
    rfl

/-! ## CompleteEmailChange -/

/-- A wrong code. -/
theorem countWrongCode_kept {userId requestId : ℕ} {digest : Bytes} {locale : String} {ttl : ℕ}
    {user : User} {r : EmailChangeRequest} (hv : (contract box).Good v) (hpending : v.pending = id)
    (huser : Holds v.held v.db userId user)
    (hr : Presentable v.held now v.db userId requestId r) (hdigest : r.verifierDigest ≠ digest) :
    (countWrongCode requestId userId r).Ensures (contract box).interference
      ((contract box).Finishes (.completeEmailChange nonce userId requestId digest locale ttl) now
        fun answer => .code answer) v := by
  simp only [countWrongCode, Tx.bind_eq]
  refine hv.update fun v₁ h₁ hv₁ => Contract.Good.update (v := v₁.queue _) hv₁ fun v₂ h₂ hv₂ => ?_
  have hsince : (contract box).Since v v₂ := h₁.since.trans h₂.since.of_queue
  have hpending₂ : v₂.pending = (·.modifyEmailChange requestId EmailChangeRequest.fail) := by
    rw [h₂.pending, View.queue_pending, h₁.pending, hpending]
    rfl
  split_ifs with hlast
  · refine supersedeMail_bind (v := v₂.queue _) hv₂ fun t₁ v₃ h₃ hv₃ hp₃ =>
      hv₃.finish fun v₄ h₄ hv₄ => ?_
    have hsince₄ : (contract box).Since v v₄ := hsince.trans (h₃.of_queue.trans h₄.since)
    refine ended hv₄ (.lastWrongCode nonce userId requestId digest locale ttl user r t₁
      (huser.since hsince₄) (hr.since hsince₄) hdigest
      (Nat.le_antisymm hlast hr.attempts)) ?_
    rw [View.snapshot, h₄.pending, hp₃, View.queue_pending, hpending₂]
    rfl
  · refine Contract.Good.finish (v := v₂.queue _) hv₂ fun v₃ h₃ hv₃ => ?_
    have hsince₃ : (contract box).Since v v₃ := hsince.trans h₃.since.of_queue
    refine ended hv₃ (.wrongCode nonce userId requestId digest locale ttl user r
      (huser.since hsince₃) (hr.since hsince₃) hdigest (Nat.not_le.mp hlast)) ?_
    rw [View.snapshot, h₃.pending, View.queue_pending, hpending₂]
    rfl

/-- The right code. -/
theorem applyEmailChange_kept {userId requestId : ℕ} {digest : Bytes} {locale : String} {ttl : ℕ}
    {user : User} {r : EmailChangeRequest} (hv : (contract box).Good v) (hpending : v.pending = id)
    (huser : Holds v.held v.db userId user)
    (hr : Presentable v.held now v.db userId requestId r) (hdigest : r.verifierDigest = digest)
    (haddress : .key (.address r.newEmail.canonical) ∈ v.held) :
    (applyEmailChange box nonce userId requestId user r locale ttl).Ensures
      (contract box).interference
      ((contract box).Finishes (.completeEmailChange nonce userId requestId digest locale ttl) now
        fun answer => .code answer) v := by
  simp only [applyEmailChange, Tx.bind_eq]
  refine Tx.Ensures.require_bind (fun hold => ?_) fun _ _ _ => trivial
  refine hv.snapshot fun v₁ h₁ hv₁ => ?_
  refine Tx.Ensures.require_bind (fun hfree => ?_) fun _ _ _ => trivial
  have hpending₁ : v₁.pending = id := h₁.pending.trans hpending
  rw [snapshot_eq hpending₁] at hfree
  refine supersedeMail_bind hv₁ fun t₁ v₂ h₂ hv₂ hp₂ => supersedeMail_bind hv₂
    fun t₂ v₃ h₃ hv₃ hp₃ => hv₃.acquire fun v₄ h₄ hv₄ _ => hv₄.snapshot fun v₅ h₅ hv₅ => ?_
  refine Tx.Ensures.require_bind (fun _ => ?_) fun _ _ _ => trivial
  refine Tx.Ensures.expect_bind (fun _ _ => ?_) fun _ _ _ => trivial
  refine hv₅.update fun v₆ h₆ hv₆ => Contract.Good.update (v := v₆.queue _) hv₆
    fun v₇ h₇ hv₇ => deleteReset_bind (v := v₇.queue _) hv₇ fun v₈ h₈ hv₈ hkey hp₈ => ?_
  refine queueMail_bind hv₈ (fun _ _ => trivial) fun id task v₉ h₉ hv₉ hmail hp₉ =>
    hv₉.update fun v₁₀ h₁₀ hv₁₀ => Contract.Good.finish (v := v₁₀.queue _) hv₁₀
      fun v₁₁ h₁₁ hv₁₁ => ?_
  have hlast : (contract box).Since v₉ v₁₁ := h₁₀.since.trans h₁₁.since.of_queue
  have hsince : (contract box).Since v₁ v₁₁ :=
    h₂.trans (h₃.trans ((h₄.trans (h₅.trans h₆)).since.trans
      (h₇.since.of_queue.trans (h₈.of_queue.trans (h₉.trans hlast)))))
  subst hdigest
  refine ended hv₁₁ (.emailChanged nonce userId requestId r.verifierDigest locale ttl user r t₁ t₂ _
    id task (huser.since (h₁.since.trans hsince)) (hr.since (h₁.since.trans hsince)) rfl
    (of_decide_eq_true hold) ((h₉.trans hlast).held hkey)
    ((h₁.since.trans hsince).held haddress)
    ((vacant hfree).since (h₁.held haddress) hsince) (hmail.since hlast)) ?_
  rw [View.snapshot, h₁₁.pending, View.queue_pending, h₁₀.pending, hp₉, hp₈, View.queue_pending,
    h₇.pending, View.queue_pending, h₆.pending, h₅.pending, h₄.pending, hp₃, hp₂, hpending₁]
  rfl

theorem completeEmailChange_kept {userId requestId : ℕ} {digest : Bytes} {locale : String}
    {ttl : ℕ} (hv : (contract box).Good v) (hpending : v.pending = id)
    (hnow : now ≤ v.db.clock) :
    (completeEmailChange box nonce userId requestId digest locale ttl).Ensures
      (contract box).interference
      ((contract box).Finishes (.completeEmailChange nonce userId requestId digest locale ttl) now
        fun answer => .code answer) v := by
  simp only [completeEmailChange, Tx.bind_eq]
  refine hv.snapshot fun v₁ h₁ hv₁ => ?_
  refine Tx.Ensures.expect_bind (fun target htarget => ?_) fun _ _ _ => trivial
  refine hv₁.acquire fun v₂ h₂ hv₂ haddress => hv₂.selectForUpdate (fun _ _ => trivial)
    fun user v₃ h₃ hv₃ hkey hrow => ?_
  refine Tx.Ensures.require_bind (fun henabled => ?_) fun _ _ _ => trivial
  have hpending₁ : v₁.pending = id := h₁.pending.trans hpending
  have hpending₃ : v₃.pending = id := (h₂.trans h₃).pending.trans hpending₁
  rw [snapshot_eq hpending₁] at htarget
  rw [snapshot_eq hpending₃] at hrow
  refine hv₃.findForUpdate (fun v₄ h₄ hv₄ => ?_)
    fun i r w v₄ hw _ hw₄ hv₄ hrequest hr hp => ?_
  · exact Tx.Ensures.expect_bind (fun _ h => nomatch h) fun _ _ _ => trivial
  refine Tx.Ensures.expect_bind (fun x hx => ?_) fun _ _ _ => trivial
  obtain rfl := Option.some.inj hx
  refine hv₄.snapshot fun v₅ h₅ hv₅ => ?_
  refine Tx.Ensures.require_bind (fun hexpiry => ?_) fun _ _ _ => trivial
  refine Tx.Ensures.require_bind (fun hattempts => ?_) fun _ _ _ => trivial
  have h₄ : (contract box).Later v₃ v₄ := hw.trans hw₄
  have hpending₄ : v₄.pending = id := h₄.pending.trans hpending₃
  have hpending₅ : v₅.pending = id := h₅.pending.trans hpending₄
  rw [snapshot_eq hpending₄] at hr
  rw [snapshot_eq hpending₅] at hexpiry
  simp only [Bool.and_eq_true, decide_eq_true_eq] at hp
  obtain ⟨rfl, huser⟩ := hp
  have hl : (contract box).Later v₁ v₅ := h₂.trans (h₃.trans (h₄.trans h₅))
  have hnow₅ : now ≤ v₅.db.clock := hnow.trans (others (h₁.trans hl).since).clock_le
  have hr₅ := (others h₅.since).request hrequest hr
  have hpresentable : Presentable v₅.held now v₅.db userId i r :=
    ⟨h₅.held hrequest, hr₅, huser, ⟨v₅.db.clock, ⟨hnow₅, le_rfl⟩, of_decide_eq_true hexpiry⟩,
      of_decide_eq_true hattempts⟩
  have hholds : Holds v₅.held v₅.db userId user :=
    Holds.since ⟨hkey, hrow, henabled⟩ (h₄.trans h₅).since
  -- the address that was locked is that of the row: it has never changed
  have hsame : r.newEmail = target.newEmail := by
    obtain ⟨htarget, -⟩ := Option.filter_eq_some_iff.mp htarget
    have hborn := (others hl.since).born ((Good.valid hv₁).request i target htarget)
    have hidentity := (Good.valid hv₅).once i _ _ ((Good.valid hv₅).request i r hr₅) hborn
    injection hidentity with hidentity
    injection hidentity with _ hidentity
    injection hidentity
  split_ifs with hdigest
  · refine applyEmailChange_kept hv₅ hpending₅ hholds hpresentable hdigest ?_
    rw [hsame]
    exact (h₃.trans (h₄.trans h₅)).held haddress
  · exact countWrongCode_kept hv₅ hpending₅ hholds hpresentable hdigest

end BindPlane.Auth
