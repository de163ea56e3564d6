import BindPlane.Auth.KeptAccess

/-!
# Invitations keep the contract

A transaction finds an invitation before it has any lock, and locks the address and the roles that
it has read of it.  They are those of the row that it locks in the end, since the identity of an
invitation never changes (`Good.invitation_identity`).
-/

namespace BindPlane.Auth

open ReadCommitted
open Mail (Bytes MailTask)

variable {box : Sealer} {v v' : View Db Key} {now : Instant} {nonce : Bytes}

/-- An invitation is the same whenever it is looked at. -/
theorem Good.invitation_identity (hv : (contract box).Good v) (hv' : (contract box).Good v')
    (hl : (contract box).Since v v') {invitationId : ℕ} {i i' : Invitation}
    (hi : v.db.invitations.get? invitationId = some i)
    (hi' : v'.db.invitations.get? invitationId = some i') :
    i.name = i'.name ∧ i.email = i'.email ∧ i.roles = i'.roles := by
  have hborn := (others hl).born ((Good.valid hv).invitation invitationId i hi)
  have hsame := (Good.valid hv').once invitationId _ _ hborn
    ((Good.valid hv').invitation invitationId i' hi')
  injection hsame with hsame
  injection hsame with hname hsame
  injection hsame with hemail hroles
  exact ⟨hname, hemail, hroles⟩

theorem invitationRoleIds_eq {d : Db} {invitationId : ℕ} {i : Invitation}
    (h : d.invitations.get? invitationId = some i) : d.invitationRoleIds invitationId = i.roles := by
  unfold Db.invitationRoleIds
  rw [h]
  rfl

/-! ## createInvitation -/

theorem createInvitation_kept {actorId : ℕ} {name : Name} {email : Email} {locale : String}
    {roleIds : List ℕ} {selector digest : Bytes} {ttl : ℕ} (hv : (contract box).Good v)
    (hpending : v.pending = id) (hnow : now ≤ v.db.clock) :
    (createInvitation box nonce actorId name email locale roleIds selector digest ttl).Ensures
      (contract box).interference ((contract box).Finishes
        (.createInvitation nonce actorId name email locale roleIds selector digest ttl) now
          fun id => .created id) v := by
  simp only [createInvitation, insertInvitation, queueInvitation, Tx.bind_eq, Tx.bind_assoc]
  refine hv.acquire fun v₁ h₁ hv₁ haddress => hv₁.snapshot fun v₂ h₂ hv₂ => ?_
  refine Tx.Ensures.require_bind (fun huser => ?_) fun _ _ _ => trivial
  refine hv₂.snapshot fun v₃ h₃ hv₃ => ?_
  refine Tx.Ensures.require_bind (fun hnone => ?_) fun _ _ _ => trivial
  have hpending₂ : v₂.pending = id := (h₁.trans h₂).pending.trans hpending
  have hpending₃ : v₃.pending = id := h₃.pending.trans hpending₂
  rw [snapshot_eq hpending₂, Bool.not_eq_true', Table.any_eq_false] at huser
  rw [snapshot_eq hpending₃, Bool.not_eq_true', Table.any_eq_false] at hnone
  refine lockActor_bind hv₃ hpending₃ (fun _ _ => trivial) fun a v₄ h₄ hv₄ hactor hroles => ?_
  refine Tx.Ensures.require_bind (fun hmay => ?_) fun _ _ _ => trivial
  have hpending₄ : v₄.pending = id := h₄.pending.trans hpending₃
  refine authorizeRolesUnlessSuper_bind hv₄ hpending₄ hactor (fun _ _ => trivial)
    fun v₅ h₅ hv₅ hgrants => hv₅.acquire fun v₆ h₆ hv₆ _ => hv₆.acquire fun v₇ h₇ hv₇ _ =>
      hv₇.snapshot fun v₈ h₈ hv₈ => ?_
  refine Tx.Ensures.require_bind (fun _ => ?_) fun _ _ _ => trivial
  refine Tx.Ensures.require_bind (fun _ => ?_) fun _ _ _ => trivial
  refine Tx.Ensures.require_bind (fun hrequired => ?_) fun _ _ _ => trivial
  simp only [Bool.and_eq_true, decide_eq_true_eq] at hrequired
  refine hv₈.nextSerial fun invitationId v₉ h₉ hv₉ hserial _ hinv => hv₉.update
    fun v₁₀ h₁₀ hv₁₀ => ?_
  rw [Tx.pure_eq, Tx.pure_bind]
  refine queueMail_bind (v := v₁₀.queue _) hv₁₀ (fun _ _ => trivial)
    fun id task v₁₁ h₁₁ hv₁₁ hmail hp₁₁ => hv₁₁.finish fun v₁₂ h₁₂ hv₁₂ => ?_
  have h₈' : (contract box).Later v₅ v₈ := h₆.trans (h₇.trans h₈)
  have hpending₈ : v₈.pending = _ := (h₅.trans h₈').pending.trans hpending₄
  have hclock : v₈.snapshot.clock = v₈.db.clock := by
    rw [snapshot_eq hpending₈]
  have hsince₉ : (contract box).Since v₉ v₁₂ := h₁₀.since.trans (h₁₁.of_queue.trans h₁₂.since)
  have hsince₈ : (contract box).Since v₈ v₁₂ := h₉.since.trans hsince₉
  have hsince₅ : (contract box).Since v₅ v₁₂ := h₈'.since.trans hsince₈
  have hsince₃ : (contract box).Since v₃ v₁₂ := (h₄.trans h₅).since.trans hsince₅
  have hauthorized := (hactor.since h₅.since).authorized hmay
  have haddress₃ := (h₂.trans h₃).held haddress
  refine ended hv₁₂ (.invited nonce actorId name email locale roleIds selector digest ttl
    v₈.snapshot.clock invitationId id task (hauthorized.since hsince₅)
    (hgrants.since hauthorized hsince₅) (hsince₃.held haddress₃) (fun j u hu hcanonical => ?_)
    (fun j x hx hcanonical => ?_) ?_ hrequired.1 (hsince₉.held hserial)
    ((others hsince₉).fresh hserial hinv.1.fresh) (hmail.since h₁₂.since)) ?_
  · obtain ⟨u₀, hu₀, hcanonical₀⟩ := (others (h₃.since.trans hsince₃)).occupant
      (h₂.held haddress) ⟨u, hu, hcanonical⟩
    exact of_decide_eq_false (huser j u₀ hu₀) hcanonical₀
  · obtain ⟨x₀, hx₀, hcanonical₀⟩ := (others hsince₃).invitee haddress₃ ⟨x, hx, hcanonical⟩
    exact of_decide_eq_false (hnone j x₀ hx₀) hcanonical₀
  · rw [hclock]
    have hl : (contract box).Later v v₈ := h₁.trans (h₂.trans (h₃.trans (h₄.trans (h₅.trans h₈'))))
    exact ⟨hnow.trans (others hl.since).clock_le, (others hsince₈).clock_le⟩
  · rw [View.snapshot, h₁₂.pending, hp₁₁, View.queue_pending, h₁₀.pending, h₉.pending, hpending₈]
    rfl

/-! ## The invitation that an actor may manage -/

/-- **The invitation that an actor manages**, and its lock. -/
structure Managed (v : View Db Key) (actorId invitationId : ℕ) (i : Invitation) : Prop where
  actor : Authorized v.held v.db actorId ["invitations.write", "roles.read"]
  grants : v.db.Grants actorId i.roles
  key : .key (.invitation invitationId) ∈ v.held
  row : v.db.invitations.get? invitationId = some i

theorem Managed.since {actorId invitationId : ℕ} {i : Invitation}
    (h : Managed v actorId invitationId i) (hl : (contract box).Since v v') :
    Managed v' actorId invitationId i :=
  ⟨h.actor.since hl, h.grants.since h.actor hl, hl.held h.key, (others hl).invitation h.key h.row⟩

theorem lockInvitation_bind {β : Type} {Q : Except Failure β → View Db Key → Prop}
    {actorId invitationId : ℕ} {g : Invitation → Txn β} (hv : (contract box).Good v)
    (hpending : v.pending = id) (he : ∀ e v', Q (.error e) v')
    (h : ∀ i v', (contract box).Later v v' → (contract box).Good v' →
      Managed v' actorId invitationId i → (g i).Ensures (contract box).interference Q v') :
    ((lockInvitation actorId invitationId).bind g).Ensures (contract box).interference Q v := by
  simp only [lockInvitation, Tx.bind_eq, Tx.bind_assoc]
  refine hv.snapshot fun v₁ h₁ hv₁ => ?_
  refine Tx.Ensures.expect_bind (fun found _ => ?_) fun _ _ _ => he _ _
  refine hv₁.acquire fun v₂ h₂ hv₂ _ => hv₂.snapshot fun v₃ h₃ hv₃ => ?_
  have hpending₃ : v₃.pending = id := (h₁.trans (h₂.trans h₃)).pending.trans hpending
  refine lockActor_bind hv₃ hpending₃ he fun a v₄ h₄ hv₄ hactor _ => ?_
  refine hv₄.selectForUpdate (fun _ _ => he _ _) fun i v₅ h₅ hv₅ hkey hrow => ?_
  refine hv₅.snapshot fun v₆ h₆ hv₆ => ?_
  refine Tx.Ensures.require_bind (fun hmay => ?_) fun _ _ _ => he _ _
  have hpending₅ : v₅.pending = id := (h₄.trans h₅).pending.trans hpending₃
  have hpending₆ : v₆.pending = id := h₆.pending.trans hpending₅
  rw [snapshot_eq hpending₅] at hrow
  have hactor₆ := hactor.since (h₅.trans h₆).since
  have hroles : v₆.snapshot.invitationRoleIds invitationId = i.roles := by
    rw [snapshot_eq hpending₆]
    exact invitationRoleIds_eq ((others h₆.since).invitation hkey hrow)
  rw [hroles]
  refine authorizeRolesUnlessSuper_bind hv₆ hpending₆ hactor₆ he fun v₇ h₇ hv₇ hgrants => ?_
  rw [Tx.pure_eq, Tx.pure_bind]
  refine h i v₇ (h₁.trans (h₂.trans (h₃.trans (h₄.trans (h₅.trans (h₆.trans h₇)))))) hv₇ ?_
  exact ⟨(hactor₆.since h₇.since).authorized hmay, hgrants, (h₆.trans h₇).held hkey,
    (others (h₆.trans h₇).since).invitation hkey hrow⟩

theorem resendInvitation_kept {actorId invitationId : ℕ} {locale : String}
    {selector digest : Bytes} {ttl : ℕ} (hv : (contract box).Good v) (hpending : v.pending = id)
    (hnow : now ≤ v.db.clock) :
    (resendInvitation box nonce actorId invitationId locale selector digest ttl).Ensures
      (contract box).interference ((contract box).Finishes
        (.resendInvitation nonce actorId invitationId locale selector digest ttl) now
          fun _ => .done) v := by
  simp only [resendInvitation, queueInvitation, Tx.bind_eq]
  refine lockInvitation_bind hv hpending (fun _ _ => trivial) fun i v₁ h₁ hv₁ hi => ?_
  refine supersedeMail_bind hv₁ fun t₁ v₂ h₂ hv₂ hp₂ => hv₂.acquire fun v₃ h₃ hv₃ _ =>
    hv₃.snapshot fun v₄ h₄ hv₄ => ?_
  refine Tx.Ensures.require_bind (fun hrequired => ?_) fun _ _ _ => trivial
  rw [Bool.and_eq_true, decide_eq_true_eq] at hrequired
  refine hv₄.update fun v₅ h₅ hv₅ => queueMail_bind (v := v₅.queue _) hv₅ (fun _ _ => trivial)
    fun id task v₆ h₆ hv₆ hmail hp₆ => hv₆.update fun v₇ h₇ hv₇ =>
      Contract.Good.finish (v := v₇.queue _) hv₇ fun v₈ h₈ hv₈ => ?_
  have hpending₄ : v₄.pending = (·.supersede (mailOfInvitation invitationId) t₁ "superseded") := by
    rw [h₄.pending, h₃.pending, hp₂, h₁.pending, hpending]
    rfl
  have hclock : v₄.snapshot.clock = v₄.db.clock := by
    rw [View.snapshot, hpending₄]
    rfl
  have hsince₄ : (contract box).Since v₁ v₄ := h₂.trans (h₃.trans h₄).since
  have hlast : (contract box).Since v₆ v₈ := h₇.since.trans h₈.since.of_queue
  have hsince : (contract box).Since v₄ v₈ := h₅.since.trans (h₆.of_queue.trans hlast)
  have hi₈ := hi.since (hsince₄.trans hsince)
  refine ended hv₈ (.reinvited nonce actorId invitationId locale selector digest ttl i
    v₄.snapshot.clock t₁ id task hi₈.actor hi₈.grants hi₈.key hi₈.row ?_ hrequired.1
    (hmail.since hlast)) ?_
  · rw [hclock]
    exact ⟨hnow.trans (others (h₁.since.trans hsince₄)).clock_le, (others hsince).clock_le⟩
  · rw [View.snapshot, h₈.pending, View.queue_pending, h₇.pending, hp₆, View.queue_pending,
      h₅.pending, hpending₄]
    rfl

theorem revokeInvitation_kept {actorId invitationId : ℕ} (hv : (contract box).Good v)
    (hpending : v.pending = id) :
    (revokeInvitation actorId invitationId).Ensures (contract box).interference
      ((contract box).Finishes (.revokeInvitation actorId invitationId) now fun _ => .done) v := by
  simp only [revokeInvitation, Tx.bind_eq]
  refine lockInvitation_bind hv hpending (fun _ _ => trivial) fun i v₁ h₁ hv₁ hi => ?_
  refine supersedeMail_bind hv₁ fun t₁ v₂ h₂ hv₂ hp₂ => hv₂.update fun v₃ h₃ hv₃ =>
    Contract.Good.update (v := v₃.queue _) hv₃ fun v₄ h₄ hv₄ =>
      Contract.Good.finish (v := v₄.queue _) hv₄ fun v₅ h₅ hv₅ => ?_
  have hi₅ := hi.since (h₂.trans (h₃.since.trans (h₄.since.of_queue.trans h₅.since.of_queue)))
  refine ended hv₅ (.revoked actorId invitationId i t₁ hi₅.actor hi₅.key hi₅.row) ?_
  rw [View.snapshot, h₅.pending, View.queue_pending, h₄.pending, View.queue_pending, h₃.pending,
    hp₂, h₁.pending, hpending]
  rfl

/-! ## CompleteInvitation -/

theorem lockInvitationRow_bind {β : Type} {Q : Except Failure β → View Db Key → Prop}
    {invitationId : ℕ} {g : Invitation × Instant → Txn β} (hv : (contract box).Good v)
    (hpending : v.pending = id) (hnow : now ≤ v.db.clock) (he : ∀ e v', Q (.error e) v')
    (h : ∀ i t v', (contract box).Later v v' → (contract box).Good v' →
      .key (.invitation invitationId) ∈ v'.held →
      v'.db.invitations.get? invitationId = some i → Moment now v'.db t →
      (g (i, t)).Ensures (contract box).interference Q v') :
    ((lockInvitationRow invitationId).bind g).Ensures (contract box).interference Q v := by
  simp only [lockInvitationRow, Tx.bind_eq, Tx.bind_assoc]
  refine hv.snapshot fun v₁ h₁ hv₁ => ?_
  refine Tx.Ensures.expect_bind (fun before _ => ?_) fun _ _ _ => he _ _
  refine hv₁.acquire fun v₂ h₂ hv₂ hkey => hv₂.snapshot fun v₃ h₃ hv₃ => ?_
  refine Tx.Ensures.expect_bind (fun i hi => ?_) fun _ _ _ => he _ _
  have hpending₁ : v₁.pending = id := h₁.pending.trans hpending
  have hpending₃ : v₃.pending = id := (h₂.trans h₃).pending.trans hpending₁
  rw [snapshot_eq hpending₃] at hi
  rw [Tx.pure_eq, Tx.pure_bind, snapshot_eq hpending₁, snapshot_eq hpending₃]
  have hnow₁ : now ≤ v₁.db.clock := hnow.trans (others h₁.since).clock_le
  have hle : v₁.db.clock ≤ v₃.db.clock := (others (h₂.trans h₃).since).clock_le
  refine h i _ v₃ (h₁.trans (h₂.trans h₃)) hv₃ (h₃.held hkey) hi ?_
  split_ifs
  · exact ⟨hnow₁, hle⟩
  · exact ⟨hnow₁.trans hle, le_rfl⟩

theorem completeInvitation_kept {selector digest : Bytes} {hash locale : String}
    (hv : (contract box).Good v) (hpending : v.pending = id) (hnow : now ≤ v.db.clock) :
    (completeInvitation selector digest hash locale).Ensures (contract box).interference
      ((contract box).Finishes (.completeInvitation selector digest hash locale) now
        fun _ => .done) v := by
  simp only [completeInvitation, activateAccount, Tx.bind_eq, Tx.bind_assoc]
  refine hv.snapshot fun v₁ h₁ hv₁ => ?_
  refine Tx.Ensures.expect_bind (fun p hfound => ?_) fun _ _ _ => trivial
  obtain ⟨invitationId, found⟩ := p
  have hpending₁ : v₁.pending = id := h₁.pending.trans hpending
  rw [snapshot_eq hpending₁] at hfound
  obtain ⟨hfound, -⟩ := Table.find?_eq_some hfound
  refine hv₁.acquire fun v₂ h₂ hv₂ haddress => hv₂.snapshot fun v₃ h₃ hv₃ => ?_
  have hpending₃ : v₃.pending = id := (h₂.trans h₃).pending.trans hpending₁
  refine lockRoles_bind hv₃ hpending₃ (fun _ _ => trivial) fun v₄ h₄ hv₄ hlocked => ?_
  have hpending₄ : v₄.pending = id := h₄.pending.trans hpending₃
  have hl₄ : (contract box).Later v₁ v₄ := h₂.trans (h₃.trans h₄)
  have hnow₄ : now ≤ v₄.db.clock := hnow.trans (others (h₁.trans hl₄).since).clock_le
  refine lockInvitationRow_bind hv₄ hpending₄ hnow₄ (fun _ _ => trivial)
    fun i t v₅ h₅ hv₅ hkey hrow hmoment => ?_
  refine Tx.Ensures.require_bind (fun hrequired => ?_) fun _ _ _ => trivial
  simp only [Bool.and_eq_true, decide_eq_true_eq] at hrequired
  -- the row is what was found, and so are the address and the roles that are locked
  have hl₅ : (contract box).Later v₁ v₅ := hl₄.trans h₅
  have hpending₅ : v₅.pending = id := h₅.pending.trans hpending₄
  obtain ⟨hname, hemail, -⟩ := Good.invitation_identity hv₁ hv₅ hl₅.since hfound hrow
  have haddress₃ : .key (.address i.email.canonical) ∈ v₃.held := hemail ▸ h₃.held haddress
  obtain ⟨i₃, hi₃, -⟩ := (others (h₄.trans h₅).since).invitee haddress₃ ⟨i, hrow, rfl⟩
  have hroles : v₃.snapshot.invitationRoleIds invitationId = i.roles := by
    rw [snapshot_eq hpending₃, invitationRoleIds_eq hi₃]
    exact (Good.invitation_identity hv₃ hv₅ (h₄.trans h₅).since hi₃ hrow).2.2
  rw [hroles] at hlocked
  refine supersedeMail_bind hv₅ fun t₁ v₆ h₆ hv₆ hp₆ => hv₆.acquire fun v₇ h₇ hv₇ _ =>
    hv₇.snapshot fun v₈ h₈ hv₈ => ?_
  refine Tx.Ensures.require_bind (fun hfree => ?_) fun _ _ _ => trivial
  refine hv₈.nextSerial fun userId v₉ h₉ hv₉ hserial _ hinv => hv₉.snapshot
    fun v₁₀ h₁₀ hv₁₀ => ?_
  refine Tx.Ensures.require_bind (fun hsome => ?_) fun _ _ _ => trivial
  have hpending₈ : v₈.pending = (·.supersede (mailOfInvitation invitationId) t₁ "superseded") := by
    rw [h₈.pending, h₇.pending, hp₆, hpending₅]
    rfl
  have hpending₁₀ : v₁₀.pending = v₈.pending := (h₉.trans h₁₀).pending
  have hsince₈ : (contract box).Since v₅ v₈ := h₆.trans (h₇.trans h₈).since
  have hroles₁₀ : v₁₀.snapshot.invitationRoleIds invitationId = i.roles := by
    refine invitationRoleIds_eq ?_
    rw [View.snapshot, hpending₁₀, hpending₈]
    exact (others (hsince₈.trans (h₉.trans h₁₀).since)).invitation hkey hrow
  rw [hroles₁₀] at hsome ⊢
  refine hv₁₀.update fun v₁₁ h₁₁ hv₁₁ => ?_
  rw [Tx.pure_eq, Tx.pure_bind]
  refine Contract.Good.update (v := v₁₁.queue _) hv₁₁ fun v₁₂ h₁₂ hv₁₂ =>
    Contract.Good.update (v := v₁₂.queue _) hv₁₂ fun v₁₃ h₁₃ hv₁₃ =>
      Contract.Good.finish (v := v₁₃.queue _) hv₁₃ fun v₁₄ h₁₄ hv₁₄ => ?_
  have hsince₉ : (contract box).Since v₉ v₁₄ := h₁₀.since.trans (h₁₁.since.trans
    (h₁₂.since.of_queue.trans (h₁₃.since.of_queue.trans h₁₄.since.of_queue)))
  have hsince₁₄ : (contract box).Since v₈ v₁₄ := h₉.since.trans hsince₉
  have hall : (contract box).Since v₅ v₁₄ := hsince₈.trans hsince₁₄
  have haddress₈ : .key (.address i.email.canonical) ∈ v₈.held :=
    hsince₈.held ((h₄.trans h₅).held haddress₃)
  have hno : v₉.db.users.get? userId = none := by
    rw [Option.eq_none_iff_forall_ne_some]
    exact fun u hu => absurd (hinv.1.users userId u hu) (lt_irrefl _)
  refine ended hv₁₄ (.accepted selector digest hash locale invitationId i t t₁ userId
    (hall.held hkey) ((others hall).invitation hkey hrow) hrequired.2 (hmoment.since hall)
    hrequired.1 ?_ (fun j hj => ?_) (hsince₁₄.held haddress₈) (fun j u hu hcanonical => ?_)
    (hsince₉.held hserial) ((others hsince₉).no_user hserial hno)) ?_
  · rintro hnil
    rw [hnil] at hsome
    cases hsome
  · exact (hlocked j hj).since (h₅.since.trans hall)
  · obtain ⟨u₀, hu₀, hcanonical₀⟩ := (others hsince₁₄).occupant haddress₈ ⟨u, hu, hcanonical⟩
    rw [View.snapshot, hpending₈, Bool.not_eq_true', Table.any_eq_false] at hfree
    have hfree₀ := hfree j u₀ hu₀
    rw [hemail] at hfree₀
    exact of_decide_eq_false hfree₀ hcanonical₀
  · rw [View.snapshot, h₁₄.pending, View.queue_pending, h₁₃.pending, View.queue_pending,
      h₁₂.pending, View.queue_pending, h₁₁.pending, hpending₁₀, hpending₈, hname, hemail]
    rfl

end BindPlane.Auth
