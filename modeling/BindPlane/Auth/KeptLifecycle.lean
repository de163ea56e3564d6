import BindPlane.Auth.KeptAccess

/-!
# The life of an account keeps the contract

`mutateUserLifecycle` takes the locks of all roles, the system role among them, and those of the two
accounts.  Behind them the target is what the checks have found (`requireTarget_bind`), and whoever
else is an enabled super admin stays one until the commit.
-/

namespace BindPlane.Auth

open ReadCommitted
open Mail (MailTask)

variable {box : Sealer} {v v' : View Db Key} {now : Instant}

/-! ## The checks -/

/-- Whoever has the role of the super admin is one. -/
theorem Db.Valid.superAdmin_iff {d : Db} {n : ℕ} (h : d.Valid n) {roles : List ℕ} :
    d.superAdmin roles = true ↔ superRole ∈ roles := by
  unfold Db.superAdmin
  rw [List.any_eq_true]
  constructor
  · rintro ⟨roleId, hroleId, hsystem⟩
    obtain ⟨r, hr, hkey⟩ := (Option.any_eq_true _ _).mp hsystem
    rwa [← h.system roleId r hr (by rw [of_decide_eq_true hkey]; rfl)]
  · intro hsuper
    obtain ⟨r, hr, hkey⟩ := h.super
    refine ⟨superRole, hsuper, ?_⟩
    rw [hr]
    exact decide_eq_true hkey

section Statements

variable {β : Type} {Q : Except Failure β → View Db Key → Prop}

theorem requireUsersWrite_bind {actorId : ℕ} {g : Unit → Txn β} (hv : (contract box).Good v)
    (hpending : v.pending = id) (hsuper : .key (.role superRole) ∈ v.held)
    (he : ∀ e v', Q (.error e) v')
    (h : ∀ v', (contract box).Later v v' → (contract box).Good v' →
      Authorized v'.held v'.db actorId ["users.write"] →
      (g ()).Ensures (contract box).interference Q v') :
    ((requireUsersWrite actorId).bind g).Ensures (contract box).interference Q v := by
  simp only [requireUsersWrite, Tx.bind_eq, Tx.bind_assoc]
  refine hv.snapshot fun v₁ h₁ hv₁ => ?_
  refine Tx.Ensures.expect_bind (fun actor hactor => ?_) fun _ _ _ => he _ _
  refine Tx.Ensures.require_bind (fun hmay => ?_) fun _ _ _ => he _ _
  rw [snapshot_eq (h₁.pending.trans hpending)] at hactor hmay
  rw [Bool.and_eq_true, Bool.or_eq_true] at hmay
  obtain ⟨henabled, hmay⟩ := hmay
  have hroles : v₁.db.roleIdsForUser actorId = actor.roles := by
    unfold Db.roleIdsForUser
    rw [hactor]
    rfl
  refine h v₁ h₁ hv₁ ⟨h₁.held hsuper, ⟨actor, hactor, henabled⟩, ?_⟩
  unfold Db.authority Authority.has
  rw [hroles, Bool.or_eq_true]
  refine hmay.imp (fun hadmin => ?_) fun hcontains => ?_
  · exact List.contains_iff_mem.mpr ((Good.valid hv₁).superAdmin_iff.mp hadmin)
  · show (["users.write"].all fun p => (v₁.db.permissionsOf actor.roles).contains p) = true
    rw [List.all_cons, hcontains]
    rfl

theorem requireTarget_bind {userId revision : ℕ} {action : LifecycleAction} {g : User → Txn β}
    (hv : (contract box).Good v) (hpending : v.pending = id)
    (hsuper : .key (.role superRole) ∈ v.held) (hkey : .key (.user userId) ∈ v.held)
    (he : ∀ e v', Q (.error e) v')
    (h : ∀ user v', (contract box).Later v v' → (contract box).Good v' →
      Target v'.held v'.db userId revision user (action ≠ .reactivate) →
      (action = .deactivate → user.enabled = true) →
      (action = .reactivate → user.enabled = false) →
      (g user).Ensures (contract box).interference Q v') :
    ((requireTarget userId revision action).bind g).Ensures (contract box).interference Q v := by
  simp only [requireTarget, Tx.bind_eq, Tx.bind_assoc]
  refine hv.snapshot fun v₁ h₁ hv₁ => ?_
  refine Tx.Ensures.expect_bind (fun user huser => ?_) fun _ _ _ => he _ _
  refine Tx.Ensures.require_bind (fun hversion => ?_) fun _ _ _ => he _ _
  refine Tx.Ensures.require_bind (fun haction => ?_) fun _ _ _ => he _ _
  refine hv₁.snapshot fun v₂ h₂ hv₂ => ?_
  refine Tx.Ensures.require_bind (fun hlast => ?_) fun _ _ _ => he _ _
  rw [Tx.pure_eq, Tx.pure_bind]
  have hpending₁ : v₁.pending = id := h₁.pending.trans hpending
  rw [snapshot_eq hpending₁] at huser hlast
  rw [snapshot_eq (h₂.pending.trans hpending₁)] at hlast
  have huser₂ := (others h₂.since).user (h₁.held hkey) huser
  refine h user v₂ (h₁.trans h₂) hv₂ ⟨(h₁.trans h₂).held hkey, (h₁.trans h₂).held hsuper, huser₂,
    of_decide_eq_true hversion, fun hends henabled hrole => ?_⟩ (fun hdeactivate => ?_)
    fun hreactivate => ?_
  · -- it is an enabled super admin, and not the only one
    have hadmin := (Good.valid hv₁).superAdmin_iff.mpr hrole
    have hone : 1 < v₂.db.availableAdmins := by
      simpa [hends, hadmin, henabled] using hlast
    refine otherAdmin (p := fun _ u => u.enabled && v₂.db.superAdmin u.roles) ?_ (fun i u hu => ?_)
      userId
    · unfold Table.keysWhere
      rw [List.length_map]
      exact hone
    · rw [Bool.and_eq_true] at hu
      exact ⟨hu.1, (Good.valid hv₂).superAdmin_iff.mp hu.2⟩
  · simpa [hdeactivate] using haction
  · simpa [hreactivate] using haction

/-- The sessions that a deactivation revokes. -/
theorem revokeSessions_bind {userId revision : ℕ} {g : Unit → Txn β} (hv : (contract box).Good v)
    (h : ∀ ids v', (contract box).Since v v' → (contract box).Good v' →
      (∀ i ∈ ids, .key (.session i) ∈ v'.held) →
      v'.pending = (·.modifySessions ids Session.revoke) ∘ v.pending →
      (g ()).Ensures (contract box).interference Q v') :
    ((revokeSessions userId revision).bind g).Ensures (contract box).interference Q v := by
  simp only [revokeSessions, Tx.bind_eq, Tx.bind_assoc]
  refine hv.snapshot fun v₁ h₁ hv₁ => Contract.Good.collectForUpdate hv₁
    fun ids v₂ h₂ hv₂ hids => hv₂.update fun v₃ h₃ hv₃ => ?_
  refine h ids _ (h₁.since.trans (h₂.since.trans h₃.since)) hv₃ (fun i hi => ?_) ?_
  · obtain ⟨x, w, -, hb, -⟩ := hids i hi
    exact h₃.held (hb.after.held hb.held)
  · rw [View.queue_pending, h₃.pending, h₂.pending, h₁.pending]

end Statements

/-! ## The actions -/

theorem reactivateUser_kept {actorId userId revision : ℕ} {user : User}
    (hv : (contract box).Good v) (hpending : v.pending = id)
    (hactor : Authorized v.held v.db actorId ["users.write"]) (hself : actorId ≠ userId)
    (huser : Target v.held v.db userId revision user False) (hdisabled : user.enabled = false) :
    (reactivateUser userId).Ensures (contract box).interference ((contract box).Finishes
      (.mutateUserLifecycle actorId userId revision .reactivate) now fun _ => .done) v := by
  simp only [reactivateUser, Tx.bind_eq]
  refine hv.update fun v₁ h₁ hv₁ => Contract.Good.update (v := v₁.queue _) hv₁ fun v₂ h₂ hv₂ =>
    Contract.Good.finish (v := v₂.queue _) hv₂ fun v₃ h₃ hv₃ => ?_
  have hsince : (contract box).Since v v₃ :=
    h₁.since.trans (h₂.since.of_queue.trans h₃.since.of_queue)
  refine ended hv₃ (.reactivated actorId userId revision user (hactor.since hsince) hself
    (huser.since hsince) hdisabled) ?_
  rw [View.snapshot, h₃.pending, View.queue_pending, h₂.pending, View.queue_pending, h₁.pending,
    hpending]
  rfl

theorem deactivateUser_kept {actorId userId revision : ℕ} {user : User}
    (hv : (contract box).Good v) (hpending : v.pending = id)
    (hactor : Authorized v.held v.db actorId ["users.write"]) (hself : actorId ≠ userId)
    (huser : Target v.held v.db userId revision user True) (henabled : user.enabled = true) :
    (deactivateUser userId revision).Ensures (contract box).interference ((contract box).Finishes
      (.mutateUserLifecycle actorId userId revision .deactivate) now fun _ => .done) v := by
  simp only [deactivateUser, Tx.bind_eq]
  refine revokeSessions_bind hv fun sessions v₁ h₁ hv₁ hsessions hp₁ => hv₁.snapshot
    fun v₂ h₂ hv₂ => hv₂.update fun v₃ h₃ hv₃ => deleteReset_bind (v := v₃.queue _) hv₃
      fun v₄ h₄ hv₄ hkey hp₄ => ?_
  refine supersedeMail_bind hv₄ fun t₁ v₅ h₅ hv₅ hp₅ => hv₅.update fun v₆ h₆ hv₆ =>
    Contract.Good.finish (v := v₆.queue _) hv₆ fun v₇ h₇ hv₇ => ?_
  have hlast : (contract box).Since v₄ v₇ := h₅.trans (h₆.since.trans h₇.since.of_queue)
  have hsince₁ : (contract box).Since v₁ v₇ :=
    h₂.since.trans (h₃.since.trans (h₄.of_queue.trans hlast))
  have hsince : (contract box).Since v v₇ := h₁.trans hsince₁
  refine ended hv₇ (.deactivated actorId userId revision user sessions v₂.snapshot.clock t₁
    (hactor.since hsince) hself (huser.since hsince) henabled (hlast.held hkey)
    fun i hi => hsince₁.held (hsessions i hi)) ?_
  rw [View.snapshot, h₇.pending, View.queue_pending, h₆.pending, hp₅, hp₄, View.queue_pending,
    h₃.pending, h₂.pending, hp₁, hpending]
  rfl

theorem deleteUser_kept {actorId userId revision : ℕ} {user : User}
    (hv : (contract box).Good v) (hpending : v.pending = id)
    (hactor : Authorized v.held v.db actorId ["users.write"]) (hself : actorId ≠ userId)
    (huser : Target v.held v.db userId revision user True) :
    (deleteUser userId).Ensures (contract box).interference ((contract box).Finishes
      (.mutateUserLifecycle actorId userId revision .delete) now fun _ => .done) v := by
  simp only [deleteUser, Tx.bind_eq]
  -- the invitations that the account has created, and its mails
  refine hv.snapshot fun v₁ h₁ hv₁ => Contract.Good.acquireAll hv₁ fun v₂ h₂ hv₂ hcreated =>
    hv₂.update fun v₃ h₃ hv₃ => supersedeMail_bind (v := v₃.queue _) hv₃
      fun t₁ v₄ h₄ hv₄ hp₄ => ?_
  -- its requests
  refine hv₄.snapshot fun v₅ h₅ hv₅ => Contract.Good.acquireAll hv₅ fun v₆ h₆ hv₆ hrequests =>
    hv₆.update fun v₇ h₇ hv₇ => Contract.Good.snapshot (v := v₇.queue _) hv₇ fun v₈ h₈ hv₈ => ?_
  -- its sessions and its reset
  refine Contract.Good.collectForUpdate hv₈ fun sessions v₉ h₉ hv₉ hsessions =>
    hv₉.update fun v₁₀ h₁₀ hv₁₀ => deleteReset_bind (v := v₁₀.queue _) hv₁₀
      fun v₁₁ h₁₁ hv₁₁ hkey hp₁₁ => ?_
  refine hv₁₁.update fun v₁₂ h₁₂ hv₁₂ => Contract.Good.update (v := v₁₂.queue _) hv₁₂
    fun v₁₃ h₁₃ hv₁₃ => Contract.Good.finish (v := v₁₃.queue _) hv₁₃ fun v₁₄ h₁₄ hv₁₄ => ?_
  have hlast : (contract box).Since v₁₁ v₁₄ :=
    h₁₂.since.trans (h₁₃.since.of_queue.trans h₁₄.since.of_queue)
  have hsince₉ : (contract box).Since v₉ v₁₄ := h₁₀.since.trans (h₁₁.of_queue.trans hlast)
  have hsince₆ : (contract box).Since v₆ v₁₄ :=
    h₇.since.trans (h₈.since.of_queue.trans (h₉.since.trans hsince₉))
  have hsince₅ : (contract box).Since v₅ v₁₄ := h₆.since.trans hsince₆
  have hsince₂ : (contract box).Since v₂ v₁₄ :=
    h₃.since.trans (h₄.of_queue.trans (h₅.since.trans hsince₅))
  have hsince : (contract box).Since v v₁₄ := (h₁.trans h₂).since.trans hsince₂
  have hsince₀₅ : (contract box).Since v v₅ :=
    (h₁.trans (h₂.trans h₃)).since.trans (h₄.of_queue.trans h₅.since)
  have hpending₅ : v₅.pending = (·.supersede (mailOfUser userId) t₁ "superseded") ∘
      (·.clearCreator userId (v₁.snapshot.invitations.keysWhere
        fun _ i => i.createdBy = some userId)) := by
    rw [h₅.pending, hp₄, View.queue_pending, h₃.pending, h₂.pending, h₁.pending, hpending]
    rfl
  have hread : ∀ i, i ∈ v₅.snapshot.emailChanges.keysWhere (fun _ r => r.userId = userId) ↔
      ∃ x, v₅.db.emailChanges.get? i = some x ∧ x.userId = userId := by
    intro i
    rw [View.snapshot, hpending₅, Table.mem_keysWhere]
    simp only [decide_eq_true_eq]
    rfl
  -- all of these are locked until the commit
  refine ended hv₁₄ (.deleted actorId userId revision user _ _ sessions t₁ (hactor.since hsince)
    hself (huser.since hsince) (hlast.held hkey) (fun i hi => hsince₂.held (hcreated i hi))
    (fun i hi => hsince₆.held (hrequests i hi)) (fun i x hx hxuser => ?_) (fun i hi x hx => ?_)
    fun i hi => ?_) ?_
  · exact (hread i).mpr ((others hsince₅).requested (hsince₀₅.held huser.key) ⟨x, hx, hxuser⟩)
  · -- a request is that of the same user whenever it is looked at
    obtain ⟨x₀, hx₀, hxuser⟩ := (hread i).mp hi
    have hborn := (others hsince₅).born ((Good.valid hv₅).request i x₀ hx₀)
    have hsame := (Good.valid hv₁₄).once i _ _ hborn ((Good.valid hv₁₄).request i x hx)
    injection hsame with hsame
    injection hsame with hsame
    exact hsame.symm.trans hxuser
  · obtain ⟨x, w, -, hb, -⟩ := hsessions i hi
    exact hsince₉.held (hb.after.held hb.held)
  · rw [View.snapshot, h₁₄.pending, View.queue_pending, h₁₃.pending, View.queue_pending,
      h₁₂.pending, hp₁₁, View.queue_pending, h₁₀.pending, h₉.pending, h₈.pending,
      View.queue_pending, h₇.pending, h₆.pending, hpending₅]
    rfl

theorem mutateUserLifecycle_kept {actorId userId revision : ℕ} {action : LifecycleAction}
    (hv : (contract box).Good v) (hpending : v.pending = id) :
    (mutateUserLifecycle actorId userId revision action).Ensures (contract box).interference
      ((contract box).Finishes (.mutateUserLifecycle actorId userId revision action) now
        fun _ => .done) v := by
  simp only [mutateUserLifecycle, Tx.bind_eq]
  refine Tx.Ensures.require_bind (fun hself => ?_) fun _ _ _ => trivial
  refine hv.snapshot fun v₁ h₁ hv₁ => ?_
  refine Tx.Ensures.expect_bind (fun found _ => ?_) fun _ _ _ => trivial
  refine hv₁.acquire fun v₂ h₂ hv₂ _ => hv₂.snapshot fun v₃ h₃ hv₃ => ?_
  have hpending₃ : v₃.pending = id := (h₁.trans (h₂.trans h₃)).pending.trans hpending
  refine Contract.Good.acquireAll hv₃ fun v₄ h₄ hv₄ hroles =>
    lockUsers_bind hv₄ (fun _ _ => trivial) fun v₅ h₅ hv₅ husers => ?_
  have hsuper : .key (.role superRole) ∈ v₄.held := by
    obtain ⟨r, hr, -⟩ := (Good.valid hv₃).super
    refine hroles superRole ((List.mem_insertionSort _).mpr (List.mem_map.mpr ⟨(superRole, r), ?_⟩))
    rw [snapshot_eq hpending₃]
    exact ⟨Table.mem_rows.mpr hr, rfl⟩
  have hpending₅ : v₅.pending = id := (h₄.trans h₅).pending.trans hpending₃
  refine requireUsersWrite_bind hv₅ hpending₅ (h₅.held hsuper) (fun _ _ => trivial)
    fun v₆ h₆ hv₆ hactor => ?_
  have hpending₆ : v₆.pending = id := h₆.pending.trans hpending₅
  refine requireTarget_bind hv₆ hpending₆ hactor.super
    (h₆.held (husers userId (List.mem_cons_of_mem _ (List.mem_singleton_self _))))
    (fun _ _ => trivial) fun user v₇ h₇ hv₇ htarget hdeactivate hreactivate => ?_
  refine Tx.Ensures.require_bind (fun _ => ?_) fun _ _ _ => trivial
  have hpending₇ : v₇.pending = id := h₇.pending.trans hpending₆
  have hactor₇ := hactor.since h₇.since
  have hne := of_decide_eq_true hself
  cases action with
  | deactivate =>
      have htarget : Target v₇.held v₇.db userId revision user True :=
        { htarget with other := fun _ => htarget.other nofun }
      exact deactivateUser_kept hv₇ hpending₇ hactor₇ hne htarget (hdeactivate rfl)
  | reactivate =>
      have htarget : Target v₇.held v₇.db userId revision user False :=
        { htarget with other := nofun }
      exact reactivateUser_kept hv₇ hpending₇ hactor₇ hne htarget (hreactivate rfl)
  | delete =>
      have htarget : Target v₇.held v₇.db userId revision user True :=
        { htarget with other := fun _ => htarget.other nofun }
      exact deleteUser_kept hv₇ hpending₇ hactor₇ hne htarget

end BindPlane.Auth
