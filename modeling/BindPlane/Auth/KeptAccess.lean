import BindPlane.Auth.Kept

/-!
# Roles keep the contract

Every transaction of an actor takes the lock of the system role before it reads the authority of the
actor.  Behind that lock neither the roles nor anybody's roles and standing move, so that what the
transaction has read of them is what its commit finds (`Actor`).
-/

namespace BindPlane.Auth

open ReadCommitted

variable {box : Sealer} {v v' : View Db Key} {now : Instant}

/-! ## The authority of an actor -/

theorem Db.Valid.superRoleId_eq {d : Db} {n id : ℕ} (h : d.Valid n)
    (hid : d.superRoleId = some id) : id = superRole := by
  obtain ⟨⟨i, r⟩, hfind, rfl⟩ := Option.map_eq_some_iff.mp hid
  obtain ⟨hr, hkey⟩ := Table.find?_eq_some hfind
  refine h.system i r hr ?_
  rw [of_decide_eq_true hkey]
  rfl

/-- **An actor**, behind the lock of the system role: its account is enabled, and `a` is its
authority.

An authority is computed from several rows, the account, its roles and their permissions, read by
one statement each.  Since nobody can write any of them behind the lock, it is the authority at
every later moment of the transaction as well. -/
structure Actor (v : View Db Key) (actorId : ℕ) (a : Authority) : Prop where
  super : .key (.role superRole) ∈ v.held
  user : ∃ u, v.db.users.get? actorId = some u ∧ u.enabled = true
  authority : v.db.authority actorId = a

namespace Actor

variable {actorId : ℕ} {a : Authority}

theorem authorized {required : List String} (h : Actor v actorId a)
    (hhas : a.has required = true) : Authorized v.held v.db actorId required :=
  ⟨h.super, h.user, h.authority ▸ hhas⟩

theorem since (h : Actor v actorId a) (hl : (contract box).Since v v') : Actor v' actorId a := by
  obtain ⟨u, hu, henabled⟩ := h.user
  obtain ⟨u', hu', -, hdisabled⟩ := (others hl).standing h.super hu
  refine ⟨hl.held h.super, ⟨u', hu', ?_⟩, ?_⟩
  · unfold User.enabled at henabled ⊢
    rwa [hdisabled]
  · rw [authority_since h.super hu hl]
    exact h.authority

/-- No role moves either. -/
theorem roles (h : Actor v actorId a) (hl : (contract box).Since v v') :
    v'.db.roles = v.db.roles := (others hl).roles h.super

end Actor

/-- A role that is there, and its lock. -/
def RoleLocked (v : View Db Key) (roleId : ℕ) : Prop :=
  .key (.role roleId) ∈ v.held ∧ ∃ r, v.db.roles.get? roleId = some r

theorem RoleLocked.since {roleId : ℕ} (hrole : RoleLocked v roleId)
    (h : (contract box).Since v v') : RoleLocked v' roleId := by
  obtain ⟨hkey, r, hr⟩ := hrole
  exact ⟨h.held hkey, r, (others h).role hkey hr⟩

section Statements

variable {β : Type} {Q : Except Failure β → View Db Key → Prop}

theorem lockRoles_bind {ids : List ℕ} {g : Unit → Txn β} (hv : (contract box).Good v)
    (hpending : v.pending = id) (he : ∀ e v', Q (.error e) v')
    (h : ∀ v', (contract box).Later v v' → (contract box).Good v' →
      (∀ roleId ∈ ids, RoleLocked v' roleId) → (g ()).Ensures (contract box).interference Q v') :
    ((lockRoles ids).bind g).Ensures (contract box).interference Q v := by
  refine Contract.Good.lockAll hv (fun _ _ => he _ _) fun v₁ h₁ hv₁ hall => ?_
  refine h v₁ h₁ hv₁ fun roleId hid => ?_
  obtain ⟨r, w, hw, hb⟩ := hall roleId ((List.mem_insertionSort _).mpr hid)
  have hrow := hb.row
  rw [snapshot_eq (hw.pending.trans hpending)] at hrow
  exact RoleLocked.since ⟨hb.held, r, hrow⟩ hb.after.since

theorem lockUsers_bind {ids : List ℕ} {g : Unit → Txn β} (hv : (contract box).Good v)
    (he : ∀ e v', Q (.error e) v')
    (h : ∀ v', (contract box).Later v v' → (contract box).Good v' →
      (∀ id ∈ ids, .key (.user id) ∈ v'.held) → (g ()).Ensures (contract box).interference Q v') :
    ((lockUsers ids).bind g).Ensures (contract box).interference Q v := by
  refine Contract.Good.lockAll hv (fun _ _ => he _ _) fun v₁ h₁ hv₁ hall => ?_
  refine h v₁ h₁ hv₁ fun id hid => ?_
  obtain ⟨r, w, -, hb⟩ := hall id ((List.mem_insertionSort _).mpr (List.mem_dedup.mpr hid))
  exact hb.after.held hb.held

theorem effectivePermissions_bind {actorId : ℕ} {g : Authority → Txn β}
    (hv : (contract box).Good v) (hpending : v.pending = id)
    (hsuper : .key (.role superRole) ∈ v.held) (he : ∀ e v', Q (.error e) v')
    (h : ∀ a v', (contract box).Later v v' → (contract box).Good v' → Actor v' actorId a →
      (g a).Ensures (contract box).interference Q v') :
    ((effectivePermissions actorId superRole).bind g).Ensures (contract box).interference Q v := by
  simp only [effectivePermissions, Tx.bind_eq, Tx.bind_assoc]
  refine hv.snapshot fun v₁ h₁ hv₁ => ?_
  refine Tx.Ensures.expect_bind (fun user huser => ?_) fun _ _ _ => he _ _
  refine Tx.Ensures.require_bind (fun henabled => ?_) fun _ _ _ => he _ _
  rw [snapshot_eq (h₁.pending.trans hpending)] at huser
  have hactor : Actor v₁ actorId (v₁.db.authority actorId) :=
    ⟨h₁.held hsuper, ⟨user, huser, henabled⟩, rfl⟩
  refine hv₁.snapshot fun v₂ h₂ hv₂ => hv₂.snapshot fun v₃ h₃ hv₃ => ?_
  have hpending₂ : v₂.pending = id := h₂.pending.trans (h₁.pending.trans hpending)
  rw [Tx.pure_eq, Tx.pure_bind, snapshot_eq hpending₂, snapshot_eq (h₃.pending.trans hpending₂)]
  refine h _ v₃ (h₁.trans (h₂.trans h₃)) hv₃ ?_
  have hactor₃ := hactor.since (h₂.trans h₃).since
  refine ⟨hactor₃.super, hactor₃.user, ?_⟩
  -- whether it is a super admin was read in an earlier statement
  have hsame : v₃.db.authority actorId = v₂.db.authority actorId :=
    hactor₃.authority.trans (hactor.since h₂.since).authority.symm
  show Authority.mk _ _ = Authority.mk _ _
  rw [Authority.mk.injEq]
  exact ⟨congrArg Authority.superAdmin hsame, rfl⟩

/-- **The locks of an actor**, and of the roles it is going to touch. -/
theorem lockActor_bind {actorId : ℕ} {additional : List ℕ} {g : Authority → Txn β}
    (hv : (contract box).Good v) (hpending : v.pending = id) (he : ∀ e v', Q (.error e) v')
    (h : ∀ a v', (contract box).Later v v' → (contract box).Good v' → Actor v' actorId a →
      (∀ roleId ∈ additional, RoleLocked v' roleId) →
      (g a).Ensures (contract box).interference Q v') :
    ((lockActorForRoleMutation actorId additional).bind g).Ensures (contract box).interference
      Q v := by
  simp only [lockActorForRoleMutation, Tx.bind_eq, Tx.bind_assoc]
  refine hv.snapshot fun v₁ h₁ hv₁ => ?_
  refine Tx.Ensures.expect_bind (fun superRoleId hid => ?_) fun _ _ _ => he _ _
  have hpending₁ : v₁.pending = id := h₁.pending.trans hpending
  rw [snapshot_eq hpending₁] at hid
  obtain rfl := (Good.valid hv₁).superRoleId_eq hid
  refine hv₁.snapshot fun v₂ h₂ hv₂ => lockRoles_bind hv₂ (h₂.pending.trans hpending₁) he
    fun v₃ h₃ hv₃ hroles => lockUsers_bind hv₃ he fun v₄ h₄ hv₄ _ => ?_
  have hsuper : .key (.role superRole) ∈ v₃.held :=
    (hroles _ (List.mem_append_right _ (List.mem_singleton_self _))).1
  have hpending₄ : v₄.pending = id :=
    h₄.pending.trans (h₃.pending.trans (h₂.pending.trans hpending₁))
  refine effectivePermissions_bind hv₄ hpending₄ (h₄.held hsuper) he fun a v₅ h₅ hv₅ hactor => ?_
  refine h a v₅ (h₁.trans (h₂.trans (h₃.trans (h₄.trans h₅)))) hv₅ hactor fun i hi => ?_
  exact (hroles i (List.mem_append_left _ (List.mem_append_right _ hi))).since
    (h₄.trans h₅).since

/-- The checks of some roles. -/
theorem authorizeRoles_bind {actorId : ℕ} {a : Authority} {e : Failure} {ids : List ℕ}
    {g : Unit → Txn β} (hv : (contract box).Good v) (hpending : v.pending = id)
    (hactor : Actor v actorId a) (he : ∀ e v', Q (.error e) v')
    (h : ∀ v', (contract box).Later v v' → (contract box).Good v' →
      (∀ id ∈ ids, ∃ r, v'.db.roles.get? id = some r ∧ r.systemKey = none ∧
        a.contains r.permissions = true) → (g ()).Ensures (contract box).interference Q v') :
    ((authorizeRoles a e ids).bind g).Ensures (contract box).interference Q v := by
  induction ids generalizing v with
  | nil => exact h v (.refl v) hv nofun
  | cons id ids ih =>
      simp only [authorizeRoles, rolePermissions, Tx.bind_eq, Tx.bind_assoc]
      refine hv.snapshot fun v₁ h₁ hv₁ => ?_
      refine Tx.Ensures.expect_bind (fun role hrole => ?_) fun _ _ _ => he _ _
      refine hv₁.snapshot fun v₂ h₂ hv₂ => ?_
      rw [Tx.pure_eq, Tx.pure_bind]
      refine Tx.Ensures.require_bind (fun hrequired => ?_) fun _ _ _ => he _ _
      have hl := h₁.trans h₂
      have hpending₁ := h₁.pending.trans hpending
      have hpending₂ := hl.pending.trans hpending
      rw [snapshot_eq hpending₁] at hrole
      have hrole₂ : v₂.db.roles.get? id = some role := by
        rw [(hactor.since h₁.since).roles h₂.since]
        exact hrole
      rw [snapshot_eq hpending₂, Bool.and_eq_true, Option.isNone_iff_eq_none] at hrequired
      have hpermissions : v₂.db.permissionsOf [id] = role.permissions := by
        simp [Db.permissionsOf, hrole₂]
      rw [hpermissions] at hrequired
      refine ih hv₂ hpending₂ (hactor.since hl.since) fun v₃ h₃ hv₃ hids => ?_
      refine h v₃ (hl.trans h₃) hv₃ fun i hi => ?_
      rcases List.mem_cons.mp hi with rfl | hi
      · refine ⟨role, ?_, hrequired.1, hrequired.2⟩
        rw [(hactor.since hl.since).roles h₃.since]
        exact hrole₂
      · exact hids i hi

theorem authorizeRolesUnlessSuper_bind {actorId : ℕ} {a : Authority} {e : Failure}
    {ids : List ℕ} {g : Unit → Txn β} (hv : (contract box).Good v) (hpending : v.pending = id)
    (hactor : Actor v actorId a) (he : ∀ e v', Q (.error e) v')
    (h : ∀ v', (contract box).Later v v' → (contract box).Good v' → v'.db.Grants actorId ids →
      (g ()).Ensures (contract box).interference Q v') :
    ((authorizeRolesUnlessSuper a e ids).bind g).Ensures (contract box).interference Q v := by
  unfold authorizeRolesUnlessSuper
  split_ifs with hadmin
  · refine h v (.refl v) hv (Or.inl ?_)
    rw [hactor.authority]
    exact hadmin
  · refine authorizeRoles_bind hv hpending hactor he fun v₁ h₁ hv₁ hids => ?_
    refine h v₁ h₁ hv₁ (Or.inr fun id hid => ?_)
    rw [(hactor.since h₁.since).authority]
    exact hids id hid

end Statements

/-! ## Roles -/

theorem permissionsOf_singleton {d : Db} {roleId : ℕ} {role : Role}
    (h : d.roles.get? roleId = some role) : d.permissionsOf [roleId] = role.permissions := by
  simp [Db.permissionsOf, h]

theorem bumpVersions_nil {d : Db} : d.bumpVersions [] = d := by
  show ({ d with users := d.users.updateWhere (fun _ _ => false) _ } : Db) = d
  rw [Table.updateWhere_false]

/-- A role that somebody has is referred to. -/
theorem roleReferences_ne_zero {d : Db} {i roleId : ℕ} {u : User} (hu : d.users.get? i = some u)
    (hid : roleId ∈ u.roles) : d.roleReferences roleId ≠ 0 := by
  intro hzero
  have hlength := (Nat.add_eq_zero_iff.mp hzero).1
  have hmem : (i, u) ∈ d.users.rows.filter fun u => u.2.roles.contains roleId :=
    List.mem_filter.mpr ⟨Table.mem_rows.mpr hu, List.contains_iff_mem.mpr hid⟩
  rw [List.length_eq_zero_iff.mp hlength] at hmem
  cases hmem

theorem createRole_kept {actorId : ℕ} {name canonical description : String}
    {permissions : List String} (hv : (contract box).Good v) (hpending : v.pending = id) :
    (createRole actorId name canonical description permissions).Ensures
      (contract box).interference ((contract box).Finishes
        (.createRole actorId name canonical description permissions) now fun id => .created id)
      v := by
  simp only [createRole, Tx.bind_eq]
  refine lockActor_bind hv hpending (fun _ _ => trivial) fun a v₁ h₁ hv₁ hactor _ => ?_
  refine Tx.Ensures.require_bind (fun hmay => ?_) fun _ _ _ => trivial
  refine Tx.Ensures.require_bind (fun hhas => ?_) fun _ _ _ => trivial
  refine hv₁.acquire fun v₂ h₂ hv₂ _ => hv₂.snapshot fun v₃ h₃ hv₃ => ?_
  refine Tx.Ensures.require_bind (fun _ => ?_) fun _ _ _ => trivial
  refine Tx.Ensures.require_bind (fun _ => ?_) fun _ _ _ => trivial
  refine hv₃.nextSerial fun id v₄ h₄ hv₄ hserial _ hinv => hv₄.update fun v₅ h₅ hv₅ =>
    Contract.Good.finish (v := v₅.queue _) hv₅ fun v₆ h₆ hv₆ => ?_
  have hlast : (contract box).Since v₄ v₆ := h₅.since.trans h₆.since.of_queue
  have hactor₆ := hactor.since ((h₂.trans (h₃.trans h₄)).since.trans hlast)
  refine ended hv₆ (.roleCreated actorId name canonical description permissions id
    (hactor₆.authorized hmay) (by rw [hactor₆.authority]; exact hhas) (hlast.held hserial)
    ((others hlast).fresh hserial hinv.1.fresh)) ?_
  rw [View.snapshot, h₆.pending, View.queue_pending, h₅.pending, h₄.pending, h₃.pending,
    h₂.pending, h₁.pending, hpending]
  rfl

/-- `bumpHolders`, of a role that is locked. -/
theorem bumpHolders_kept {op : Op} {id : ℕ} (hv : (contract box).Good v)
    (hsuper : .key (.role superRole) ∈ v.held) (hkey : .key (.role id) ∈ v.held)
    (husers : ∀ d, (v.pending d).users = d.users)
    (h : ∀ v' holders, (contract box).Since v v' → (contract box).Good v' →
      v'.pending = (·.bumpVersions holders) ∘ v.pending → (∀ i ∈ holders, .key (.user i) ∈ v'.held) →
      (∀ i u, v'.db.users.get? i = some u → id ∈ u.roles → i ∈ holders) →
      (contract box).Ended (ε := Failure) op now (.ok .done) v') :
    (bumpHolders id).Ensures (contract box).interference
      ((contract box).Finishes op now fun _ => .done) v := by
  simp only [bumpHolders, Tx.bind_eq]
  refine hv.snapshot fun v₁ h₁ hv₁ => Contract.Good.acquireAll hv₁ fun v₂ h₂ hv₂ hall =>
    hv₂.snapshot fun v₃ h₃ hv₃ => ?_
  refine Tx.Ensures.require_bind (fun _ => ?_) fun _ _ _ => trivial
  refine hv₃.update fun v₄ h₄ hv₄ => Contract.Good.finish (v := v₄.queue _) hv₄
    fun v₅ h₅ hv₅ => ?_
  have hlater := h₁.trans (h₂.trans (h₃.trans h₄))
  have hafter : (contract box).Since v₂ v₅ := (h₃.trans h₄).since.trans h₅.since.of_queue
  refine h v₅ _ (hlater.since.trans h₅.since.of_queue) hv₅ ?_
    (fun i hi => hafter.held (hall i hi)) fun i u hu hid => ?_
  · rw [h₅.pending, View.queue_pending, hlater.pending]
  · obtain ⟨u₀, hu₀, hid₀⟩ := (others (h₂.since.trans hafter)).holder (h₁.held hsuper)
      (h₁.held hkey) ⟨u, hu, hid⟩
    refine Table.mem_keysWhere.mpr ⟨u₀, ?_, List.contains_iff_mem.mpr hid₀⟩
    rw [View.snapshot, h₁.pending, husers]
    exact hu₀

theorem replaceRole_kept {actorId roleId revision : ℕ} {name canonical description : String}
    {permissions : List String} (hv : (contract box).Good v) (hpending : v.pending = id) :
    (replaceRole actorId roleId revision name canonical description permissions).Ensures
      (contract box).interference ((contract box).Finishes
        (.replaceRole actorId roleId revision name canonical description permissions) now
          fun _ => .done) v := by
  simp only [replaceRole, Tx.bind_eq]
  refine lockActor_bind hv hpending (fun _ _ => trivial) fun a v₁ h₁ hv₁ hactor hroles => ?_
  refine hv₁.snapshot fun v₂ h₂ hv₂ => ?_
  refine Tx.Ensures.expect_bind (fun role hrole => ?_) fun _ _ _ => trivial
  refine Tx.Ensures.require_bind (fun hsystem => ?_) fun _ _ _ => trivial
  refine Tx.Ensures.require_bind (fun hrevision => ?_) fun _ _ _ => trivial
  refine hv₂.snapshot fun v₃ h₃ hv₃ => ?_
  refine Tx.Ensures.require_bind (fun hmay => ?_) fun _ _ _ => trivial
  refine Tx.Ensures.require_bind (fun hhas => ?_) fun _ _ _ => trivial
  refine Tx.Ensures.require_bind (fun _ => ?_) fun _ _ _ => trivial
  refine hv₃.acquire fun v₄ h₄ hv₄ _ => hv₄.snapshot fun v₅ h₅ hv₅ => ?_
  refine Tx.Ensures.require_bind (fun _ => ?_) fun _ _ _ => trivial
  refine Tx.Ensures.require_bind (fun _ => ?_) fun _ _ _ => trivial
  refine hv₅.update fun v₆ h₆ hv₆ => ?_
  have hpending₂ : v₂.pending = id := (h₁.trans h₂).pending.trans hpending
  have hpending₃ : v₃.pending = id := h₃.pending.trans hpending₂
  have hlater : (contract box).Later v₂ v₆ := h₃.trans (h₄.trans (h₅.trans h₆))
  have hpending₆ : v₆.pending = id := hlater.pending.trans hpending₂
  rw [snapshot_eq hpending₂] at hrole
  have hpermissions : v₃.snapshot.permissionsOf [roleId] = role.permissions := by
    rw [snapshot_eq hpending₃]
    refine permissionsOf_singleton ?_
    rw [(hactor.since h₂.since).roles h₃.since]
    exact hrole
  rw [hpermissions] at hhas ⊢
  have hkey : .key (.role roleId) ∈ v₆.held :=
    (h₂.trans hlater).held (hroles roleId (List.mem_singleton_self _)).1
  have hactor₆ := hactor.since (h₂.trans hlater).since
  have hrole₆ : v₆.db.roles.get? roleId = some role := by
    rw [(hactor.since h₂.since).roles hlater.since]
    exact hrole
  -- what the commit finds, whoever else is bumped
  have hends : ∀ v' holders, (contract box).Since v₆ v' → (contract box).Good v' →
      (∀ i ∈ holders, .key (.user i) ∈ v'.held) →
      (samePermissionSet role.permissions permissions = true ∨
        ∀ i u, v'.db.users.get? i = some u → roleId ∈ u.roles → i ∈ holders) →
      v'.snapshot = ((v'.db.modifyRole roleId (Role.replace name canonical description
        permissions)).bumpVersions holders) → (contract box).Ended (ε := Failure)
        (.replaceRole actorId roleId revision name canonical description permissions) now
        (.ok .done) v' := by
    intro v' holders hsince hv' hheld hall hsnapshot
    have hactor' := hactor₆.since hsince
    refine ended hv' (.roleReplaced actorId roleId revision name canonical description permissions
      role holders (hactor'.authorized hmay) ?_ (Option.isNone_iff_eq_none.mp hsystem)
      (of_decide_eq_true hrevision).symm (hsince.held hkey) (by rw [hactor'.authority]; exact hhas)
      hheld hall) hsnapshot
    rw [hactor₆.roles hsince]
    exact hrole₆
  split_ifs with hsame
  · refine Contract.Good.finish (v := v₆.queue _) hv₆ fun v₇ h₇ hv₇ => ?_
    refine hends v₇ [] h₇.since.of_queue hv₇ nofun (Or.inl hsame) ?_
    rw [View.snapshot, h₇.pending, View.queue_pending, hpending₆, bumpVersions_nil]
    rfl
  · refine bumpHolders_kept (v := v₆.queue _) hv₆ hactor₆.super hkey (fun d => ?_)
      fun v' holders hsince hv' hp hheld hall => ?_
    · rw [View.queue_pending, hpending₆]
      rfl
    · refine hends v' holders hsince.of_queue hv' hheld (Or.inr hall) ?_
      rw [View.snapshot, hp, View.queue_pending, hpending₆]
      rfl

theorem deleteRole_kept {actorId roleId : ℕ} (hv : (contract box).Good v)
    (hpending : v.pending = id) :
    (deleteRole actorId roleId).Ensures (contract box).interference
      ((contract box).Finishes (.deleteRole actorId roleId) now fun _ => .done) v := by
  simp only [deleteRole, rolePermissions, Tx.bind_eq, Tx.bind_assoc]
  -- from here on the role and what the actor may do are locked
  refine lockActor_bind hv hpending (fun _ _ => trivial) fun a v₁ h₁ hv₁ hactor hroles => ?_
  refine hv₁.snapshot fun v₂ h₂ hv₂ => ?_
  refine Tx.Ensures.expect_bind (fun role hrole => ?_) fun _ _ _ => trivial
  refine Tx.Ensures.require_bind (fun hsystem => ?_) fun _ _ _ => trivial
  refine Tx.Ensures.require_bind (fun hmay => ?_) fun _ _ _ => trivial
  refine hv₂.snapshot fun v₃ h₃ hv₃ => ?_
  refine Tx.Ensures.expect_bind (fun _ _ => ?_) fun _ _ _ => trivial
  refine hv₃.snapshot fun v₄ h₄ hv₄ => ?_
  rw [Tx.pure_eq, Tx.pure_bind]
  refine Tx.Ensures.require_bind (fun hhas => ?_) fun _ _ _ => trivial
  refine hv₄.snapshot fun v₅ h₅ hv₅ => ?_
  refine Tx.Ensures.require_bind (fun _ => ?_) fun _ _ _ => trivial
  refine Tx.Ensures.require_bind (fun _ => ?_) fun _ _ _ => trivial
  refine hv₅.snapshot fun v₆ h₆ hv₆ => ?_
  refine Tx.Ensures.require_bind (fun hunused => ?_) fun _ _ _ => trivial
  refine hv₆.update fun v₇ h₇ hv₇ => Contract.Good.finish (v := v₇.queue _) hv₇
    fun v₈ h₈ hv₈ => ?_
  have hpending₂ : v₂.pending = id := (h₁.trans h₂).pending.trans hpending
  have hpending₄ : v₄.pending = id := (h₃.trans h₄).pending.trans hpending₂
  have hpending₆ : v₆.pending = id := (h₅.trans h₆).pending.trans hpending₄
  have hlast : (contract box).Since v₆ v₈ := h₇.since.trans h₈.since.of_queue
  have hsince₂ : (contract box).Since v₂ v₈ :=
    (h₃.trans (h₄.trans (h₅.trans h₆))).since.trans hlast
  have hactor₂ := hactor.since h₂.since
  have hactor₈ := hactor₂.since hsince₂
  rw [snapshot_eq hpending₂] at hrole
  -- the permissions that are checked are those of the row
  have hpermissions : v₄.snapshot.permissionsOf [roleId] = role.permissions := by
    rw [snapshot_eq hpending₄]
    refine permissionsOf_singleton ?_
    rw [hactor₂.roles (h₃.trans h₄).since]
    exact hrole
  rw [hpermissions] at hhas
  have hkey : .key (.role roleId) ∈ v₂.held := h₂.held (hroles _ (List.mem_singleton_self _)).1
  refine ended hv₈ (.roleDeleted actorId roleId role (hactor₈.authorized hmay) ?_
    (Option.isNone_iff_eq_none.mp hsystem) (hsince₂.held hkey)
    (by rw [hactor₈.authority]; exact hhas) fun i u hu hid => ?_) ?_
  · rw [hactor₂.roles hsince₂]
    exact hrole
  · -- nobody had it when that was checked, and nobody has got it since
    have hkey₆ : .key (.role roleId) ∈ v₆.held := (h₃.trans (h₄.trans (h₅.trans h₆))).held hkey
    obtain ⟨u₀, hu₀, hid₀⟩ := (others hlast).holder
      (hactor₂.since (h₃.trans (h₄.trans (h₅.trans h₆))).since).super hkey₆ ⟨u, hu, hid⟩
    rw [snapshot_eq hpending₆] at hunused
    exact roleReferences_ne_zero hu₀ hid₀ (of_decide_eq_true hunused)
  · rw [View.snapshot, h₈.pending, View.queue_pending, h₇.pending, hpending₆]
    rfl

/-! ## The roles of an account -/

/-- Where a second account is enabled and a super admin, there is another one. -/
theorem otherAdmin {d : Db} {p : ℕ → User → Bool} (h : 1 < (d.users.keysWhere p).length)
    (hp : ∀ i u, p i u = true → u.enabled = true ∧ superRole ∈ u.roles) (userId : ℕ) :
    d.OtherAdmin userId := by
  obtain ⟨i, u, hne, hu, hpu⟩ := Table.exists_ne_of_one_lt h userId
  exact ⟨i, u, hne, hu, hp i u hpu⟩

theorem replaceUserRoles_kept {actorId userId version : ℕ} {roleIds : List ℕ}
    (hv : (contract box).Good v) (hpending : v.pending = id) :
    (replaceUserRoles actorId userId version roleIds).Ensures (contract box).interference
      ((contract box).Finishes (.replaceUserRoles actorId userId version roleIds) now
        fun _ => .done) v := by
  simp only [replaceUserRoles, Tx.bind_eq]
  refine Tx.Ensures.require_bind (fun _ => ?_) fun _ _ _ => trivial
  refine hv.snapshot fun v₁ h₁ hv₁ => ?_
  refine Tx.Ensures.expect_bind (fun superRoleId hid => ?_) fun _ _ _ => trivial
  have hpending₁ : v₁.pending = id := h₁.pending.trans hpending
  rw [snapshot_eq hpending₁] at hid
  obtain rfl := (Good.valid hv₁).superRoleId_eq hid
  refine hv₁.snapshot fun v₂ h₂ hv₂ => hv₂.snapshot fun v₃ h₃ hv₃ => ?_
  have hpending₃ : v₃.pending = id := (h₂.trans h₃).pending.trans hpending₁
  -- the locks: the roles, then the accounts, then the row of the target
  refine lockRoles_bind hv₃ hpending₃ (fun _ _ => trivial) fun v₄ h₄ hv₄ hroles =>
    lockUsers_bind hv₄ (fun _ _ => trivial) fun v₅ h₅ hv₅ _ => ?_
  refine hv₅.selectForUpdate (fun _ _ => trivial) fun target v₆ h₆ hv₆ hkey hrow => ?_
  refine Tx.Ensures.require_bind (fun hversion => ?_) fun _ _ _ => trivial
  refine hv₆.snapshot fun v₇ h₇ hv₇ => ?_
  have hpending₆ : v₆.pending = id := (h₄.trans (h₅.trans h₆)).pending.trans hpending₃
  have hpending₇ : v₇.pending = id := h₇.pending.trans hpending₆
  -- the new roles are there until the end
  have hlocked : ∀ i, i ∈ roleIds ∨ i = superRole → RoleLocked v₇ i := by
    intro i hi
    refine (hroles i (List.mem_append_left _ (List.mem_append_left _ ?_))).since
      (h₅.trans (h₆.trans h₇)).since
    exact List.mem_append.mpr (hi.imp_right List.mem_singleton.mpr)
  have hsuper : .key (.role superRole) ∈ v₇.held := (hlocked _ (Or.inr rfl)).1
  rw [snapshot_eq hpending₆] at hrow
  have hrow₇ := (others h₇.since).user hkey hrow
  have hold : v₇.snapshot.roleIdsForUser userId = target.roles := by
    rw [snapshot_eq hpending₇]
    unfold Db.roleIdsForUser
    rw [hrow₇]
    rfl
  rw [hold]
  -- the checks, all of them behind the lock of the system role
  refine effectivePermissions_bind hv₇ hpending₇ hsuper (fun _ _ => trivial)
    fun a v₈ h₈ hv₈ hactor => ?_
  refine Tx.Ensures.require_bind (fun hmay => ?_) fun _ _ _ => trivial
  have hpending₈ : v₈.pending = id := h₈.pending.trans hpending₇
  refine authorizeRolesUnlessSuper_bind hv₈ hpending₈ hactor (fun _ _ => trivial)
    fun v₉ h₉ hv₉ hgrants => hv₉.snapshot fun v₁₀ h₁₀ hv₁₀ => ?_
  refine Tx.Ensures.require_bind (fun hlast => ?_) fun _ _ _ => trivial
  refine Tx.Ensures.require_bind (fun _ => ?_) fun _ _ _ => trivial
  refine hv₁₀.update fun v₁₁ h₁₁ hv₁₁ => Contract.Good.finish (v := v₁₁.queue _) hv₁₁
    fun v₁₂ h₁₂ hv₁₂ => ?_
  have hpending₁₀ : v₁₀.pending = id := (h₉.trans h₁₀).pending.trans hpending₈
  -- what they have found is so at the commit
  have hsince₁₀ : (contract box).Since v₁₀ v₁₂ := h₁₁.since.trans h₁₂.since.of_queue
  have hsince₉ : (contract box).Since v₉ v₁₂ := h₁₀.since.trans hsince₁₀
  have hsince₇ : (contract box).Since v₇ v₁₂ := (h₈.trans h₉).since.trans hsince₉
  have hauthorized := (hactor.since h₉.since).authorized hmay
  have hsuper₁₀ := (h₈.trans (h₉.trans h₁₀)).held hsuper
  refine ended hv₁₂ (.rolesReplaced actorId userId version roleIds target
    (decide (target.roles.insertionSort (· ≤ ·) ≠ roleIds.insertionSort (· ≤ ·)))
    (hauthorized.since hsince₉)
    ⟨hsince₇.held (h₇.held hkey), hsince₇.held hsuper, ?_, of_decide_eq_true hversion, ?_⟩
    (hgrants.since hauthorized hsince₉) ?_ fun i hi => ?_) ?_
  · exact (others hsince₇).user (h₇.held hkey) hrow₇
  · intro hends henabled hrole
    refine Db.OtherAdmin.since ?_ hsuper₁₀ hsince₁₀
    rw [snapshot_eq hpending₁₀] at hlast
    have hone : 1 < v₁₀.db.enabledHolders superRole := by
      simpa [hends, henabled, hrole] using hlast
    refine otherAdmin (p := fun _ u => u.enabled && u.roles.contains superRole) ?_
      (fun i u hu => ?_) userId
    · unfold Table.keysWhere
      rw [List.length_map]
      exact hone
    · rw [Bool.and_eq_true] at hu
      exact ⟨hu.1, List.contains_iff_mem.mp hu.2⟩
  · by_cases hsame : target.roles.insertionSort (· ≤ ·) = roleIds.insertionSort (· ≤ ·)
    · right
      exact (List.perm_insertionSort _ _).symm.trans
        (hsame ▸ List.perm_insertionSort _ roleIds)
    · exact Or.inl (decide_eq_true hsame)
  · exact ((hlocked i (Or.inl hi)).since hsince₇).2
  · rw [View.snapshot, h₁₂.pending, View.queue_pending, h₁₁.pending, hpending₁₀]
    rfl

/-! ## The sessions of an account -/

theorem revokeUserSessions_kept {actorId userId : ℕ} (hv : (contract box).Good v)
    (hpending : v.pending = id) :
    (revokeUserSessions actorId userId).Ensures (contract box).interference
      ((contract box).Finishes (.revokeUserSessions actorId userId) now fun _ => .done) v := by
  simp only [revokeUserSessions, Tx.bind_eq]
  refine hv.snapshot fun v₁ h₁ hv₁ => ?_
  refine Tx.Ensures.expect_bind (fun superRoleId hid => ?_) fun _ _ _ => trivial
  have hpending₁ : v₁.pending = id := h₁.pending.trans hpending
  rw [snapshot_eq hpending₁] at hid
  obtain rfl := (Good.valid hv₁).superRoleId_eq hid
  refine hv₁.snapshot fun v₂ h₂ hv₂ => ?_
  have hpending₂ : v₂.pending = id := h₂.pending.trans hpending₁
  refine lockRoles_bind hv₂ hpending₂ (fun _ _ => trivial) fun v₃ h₃ hv₃ hroles =>
    lockUsers_bind hv₃ (fun _ _ => trivial) fun v₄ h₄ hv₄ husers => ?_
  have hsuper : .key (.role superRole) ∈ v₄.held :=
    h₄.held (hroles _ (List.mem_append_right _ (List.mem_singleton_self _))).1
  have hkey : .key (.user userId) ∈ v₄.held :=
    husers userId (List.mem_cons_of_mem _ (List.mem_singleton_self _))
  have hpending₄ : v₄.pending = id := (h₃.trans h₄).pending.trans hpending₂
  refine effectivePermissions_bind hv₄ hpending₄ hsuper (fun _ _ => trivial)
    fun a v₅ h₅ hv₅ hactor => ?_
  refine Tx.Ensures.require_bind (fun hmay => ?_) fun _ _ _ => trivial
  refine hv₅.snapshot fun v₆ h₆ hv₆ => ?_
  refine Tx.Ensures.expect_bind (fun _ _ => ?_) fun _ _ _ => trivial
  refine Tx.Ensures.require_bind (fun _ => ?_) fun _ _ _ => trivial
  refine hv₆.update fun v₇ h₇ hv₇ => Contract.Good.finish (v := v₇.queue _) hv₇
    fun v₈ h₈ hv₈ => ?_
  have hlast : (contract box).Since v₆ v₈ := h₇.since.trans h₈.since.of_queue
  have hsince : (contract box).Since v₅ v₈ := h₆.since.trans hlast
  refine ended hv₈ (.sessionsRevoked actorId userId ((hactor.since hsince).authorized hmay)
    (hsince.held (h₅.held hkey))) ?_
  rw [View.snapshot, h₈.pending, View.queue_pending, h₇.pending, h₆.pending, h₅.pending,
    hpending₄]
  rfl

end BindPlane.Auth
