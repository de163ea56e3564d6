import BindPlane.Auth.Journal

/-!
# The rules of the auth service

How a transaction of the service is proved to keep the contract: what it knows stays known while the
others move (`Holds.since`, `Authorized.since`, …), and every group of statements that the
transactions have in common has one rule.

**Shared statements.**  Nearly every transaction locks an account and checks that it is enabled,
many queue a mail, and most of those of an administrator check an authority.  The rule of such a
group says what is known behind it, in the terms in which `Effect` will ask for it, so that the
proof about a transaction is a walk through its groups.
-/

namespace BindPlane.Auth

open ReadCommitted
open Mail (Bytes MailTask)
open Settings (trimSpace)

variable {box : Sealer} {v v' : View Db Key} {now : Instant}

/-! ## What stays known -/

/-- What the others do meanwhile. -/
theorem others (h : (contract box).Since v v') : Others v.held v.db v'.db :=
  Contract.interference_induct (P := Others v.held) (fun _ => .refl) (fun h h' => h.trans h')
    (fun hK hcommit => .of_moves hK (Effect.moves hcommit)) h.rel

theorem Good.valid (hv : (contract box).Good v) : v.db.Valid v.seq := hv.1.1

theorem snapshot_eq (h : v.pending = id) : v.snapshot = v.db := by
  show v.pending v.db = v.db
  rw [h]
  rfl

theorem Moment.since {t : Instant} (ht : Moment now v.db t) (h : (contract box).Since v v') :
    Moment now v'.db t := ⟨ht.1, ht.2.trans (others h).clock_le⟩

theorem Holds.since {userId : ℕ} {user : User} (hu : Holds v.held v.db userId user)
    (h : (contract box).Since v v') : Holds v'.held v'.db userId user :=
  ⟨h.held hu.key, (others h).user hu.key hu.row, hu.enabled⟩

theorem Mailed.since {nonce : Bytes} {subject : MailSubject} {material : String → MailTaskMaterial}
    {id : ℕ} {t : MailTask} (ht : Mailed box v.held v.db nonce subject material id t)
    (h : (contract box).Since v v') : Mailed box v'.held v'.db nonce subject material id t :=
  ⟨h.held ht.serial, (others h).no_task ht.serial ht.fresh, ht.row⟩

theorem Db.Vacant.since {canonical : String} {userId : ℕ} (hd : v.db.Vacant canonical userId)
    (haddress : .key (.address canonical) ∈ v.held) (h : (contract box).Since v v') :
    v'.db.Vacant canonical userId := by
  refine ⟨fun id u hu hcanonical => ?_, fun id i hi hcanonical => ?_⟩
  · obtain ⟨u₀, hu₀, hcanonical₀⟩ := (others h).occupant haddress ⟨u, hu, hcanonical⟩
    exact hd.user id u₀ hu₀ hcanonical₀
  · obtain ⟨i₀, hi₀, hcanonical₀⟩ := (others h).invitee haddress ⟨i, hi, hcanonical⟩
    exact hd.invitation id i₀ hi₀ hcanonical₀

/-- Behind the lock of the system role an actor keeps its authority. -/
theorem authority_since {actorId : ℕ} {user : User} (hsuper : .key (.role superRole) ∈ v.held)
    (hu : v.db.users.get? actorId = some user) (h : (contract box).Since v v') :
    v'.db.authority actorId = v.db.authority actorId := by
  obtain ⟨user', hu', hroles, -⟩ := (others h).standing hsuper hu
  unfold Db.authority Db.roleIdsForUser Db.permissionsOf
  rw [hu, hu', (others h).roles hsuper, Option.map_some, Option.map_some, hroles]

theorem Authorized.since {actorId : ℕ} {required : List String}
    (ha : Authorized v.held v.db actorId required) (h : (contract box).Since v v') :
    Authorized v'.held v'.db actorId required := by
  obtain ⟨user, hu, henabled⟩ := ha.actor
  obtain ⟨user', hu', -, hdisabled⟩ := (others h).standing ha.super hu
  refine ⟨h.held ha.super, ⟨user', hu', ?_⟩, ?_⟩
  · unfold User.enabled at henabled ⊢
    rwa [hdisabled]
  · rw [authority_since ha.super hu h]
    exact ha.has

theorem Db.Grants.since {actorId : ℕ} {required : List String} {roleIds : List ℕ}
    (hg : v.db.Grants actorId roleIds) (ha : Authorized v.held v.db actorId required)
    (h : (contract box).Since v v') : v'.db.Grants actorId roleIds := by
  obtain ⟨user, hu, -⟩ := ha.actor
  unfold Db.Grants
  rw [authority_since ha.super hu h, (others h).roles ha.super]
  exact hg

theorem Db.OtherAdmin.since {userId : ℕ} (hd : v.db.OtherAdmin userId)
    (hsuper : .key (.role superRole) ∈ v.held) (h : (contract box).Since v v') :
    v'.db.OtherAdmin userId := by
  obtain ⟨id, u, hne, hu, henabled, hrole⟩ := hd
  obtain ⟨u', hu', hroles, hdisabled⟩ := (others h).standing hsuper hu
  refine ⟨id, u', hne, hu', ?_, hroles ▸ hrole⟩
  unfold User.enabled at henabled ⊢
  rwa [hdisabled]

theorem Target.since {userId revision : ℕ} {user : User} {ends : Prop}
    (ht : Target v.held v.db userId revision user ends) (h : (contract box).Since v v') :
    Target v'.held v'.db userId revision user ends :=
  ⟨h.held ht.key, h.held ht.super, (others h).user ht.key ht.row, ht.version,
    fun hends henabled hrole => (ht.other hends henabled hrole).since ht.super h⟩

theorem Presentable.since {userId requestId : ℕ} {r : EmailChangeRequest}
    (hr : Presentable v.held now v.db userId requestId r) (h : (contract box).Since v v') :
    Presentable v'.held now v'.db userId requestId r := by
  obtain ⟨t, ht, hexpiry⟩ := hr.unexpired
  exact ⟨h.held hr.key, (others h).request hr.key hr.row, hr.user, ⟨t, ht.since h, hexpiry⟩,
    hr.attempts⟩

/-! ## The end of a transaction -/

/-- **An effect is a commit of the contract.** -/
theorem ended {op : Op} {r : Reply} {d' : Db} (hv : (contract box).Good v)
    (h : Effect box now v.held v.db op d' r) (hd' : v.snapshot = d') :
    (contract box).Ended (ε := Failure) op now (.ok r) v := by
  subst hd'
  exact ⟨⟨h.moves.valid hv.2 hv.1.1, h.recorded hv.1.2⟩, h⟩

/-! ## Statements -/

section Statements

variable {β : Type} {Q : Except Failure β → View Db Key → Prop} {g : Unit → Txn β}

theorem supersedeMail_bind (hv : (contract box).Good v) {p : MailTask → Bool} {code : String}
    (h : ∀ t v', (contract box).Since v v' → (contract box).Good v' →
      v'.pending = (·.supersede p t code) ∘ v.pending →
      (g ()).Ensures (contract box).interference Q v') :
    ((supersedeMail p code).bind g).Ensures (contract box).interference Q v := by
  simp only [supersedeMail, Tx.bind_eq, Tx.bind_assoc]
  refine hv.snapshot fun v₁ h₁ hv₁ => hv₁.update fun v₂ h₂ hv₂ => ?_
  refine h v₁.snapshot.clock _ (h₁.since.trans h₂.since) hv₂ ?_
  rw [View.queue_pending, h₂.pending, h₁.pending]

theorem deleteReset_bind (hv : (contract box).Good v) {userId : ℕ}
    (h : ∀ v', (contract box).Since v v' → (contract box).Good v' →
      .key (.reset userId) ∈ v'.held → v'.pending = (·.deleteResets [userId]) ∘ v.pending →
      (g ()).Ensures (contract box).interference Q v') :
    ((deleteReset userId).bind g).Ensures (contract box).interference Q v := by
  simp only [deleteReset, Tx.bind_eq, Tx.bind_assoc]
  refine hv.acquire fun v₁ h₁ hv₁ hkey => hv₁.update fun v₂ h₂ hv₂ => ?_
  refine h _ (h₁.since.trans h₂.since) hv₂ (h₂.held hkey) ?_
  rw [View.queue_pending, h₂.pending, h₁.pending]

theorem Db.mailTaskSystemName_valid (d : Db) : validSystemName d.mailTaskSystemName := by
  unfold Db.mailTaskSystemName
  split
  · exact ⟨by decide, by decide⟩
  · next i _ =>
      split_ifs with hempty
      · exact ⟨by decide, by decide⟩
      · exact ⟨hempty, i.systemName.single⟩

theorem queueMail_bind (hv : (contract box).Good v) {nonce : Bytes} {subject : MailSubject}
    {material : String → MailTaskMaterial} (he : ∀ e v', Q (.error e) v')
    (h : ∀ id t v', (contract box).Since v v' → (contract box).Good v' →
      Mailed box v'.held v'.db nonce subject material id t →
      v'.pending = (·.addMail id t) ∘ v.pending →
      (g ()).Ensures (contract box).interference Q v') :
    ((queueMail box nonce subject material).bind g).Ensures (contract box).interference Q v := by
  simp only [queueMail, Tx.bind_eq, Tx.bind_assoc]
  refine hv.snapshot fun v₁ h₁ hv₁ => ?_
  refine Tx.Ensures.expect_bind (fun ciphertext hbox => ?_) fun _ _ _ => he _ _
  refine hv₁.snapshot fun v₂ h₂ hv₂ => hv₂.nextSerial fun id v₃ h₃ hv₃ hserial _ hinv => ?_
  have hfresh : v₃.db.outbox.get? id = none := by
    rw [Option.eq_none_iff_forall_ne_some]
    exact fun t ht => absurd (hinv.1.outbox id t ht) (lt_irrefl id)
  have hmail : Mailed box v₃.held v₃.db nonce subject material id
      (((material v₁.snapshot.mailTaskSystemName).task subject ciphertext).row
        v₂.snapshot.clock) :=
    ⟨hserial, hfresh, _, ciphertext, _, Db.mailTaskSystemName_valid _, hbox, rfl⟩
  refine hv₃.update fun v₄ h₄ hv₄ => ?_
  refine h id _ _ ((h₁.since.trans h₂.since).trans (h₃.since.trans h₄.since)) hv₄
    (hmail.since h₄.since) ?_
  rw [View.queue_pending, h₄.pending, h₃.pending, h₂.pending, h₁.pending]

end Statements

end BindPlane.Auth
