import BindPlane.Auth.KeptService

/-!
# Somebody is in charge

Two transactions count the enabled super admins before they take one of them away: that of the life
of an account and that of its roles.  Both hold the lock of the system role by then, so that no
other transaction takes the one that was counted.

A commit changes the standing of one account at most, which its caller names (`Op.target`).

**The last one.**  Nobody outside the system can make somebody a super admin, so that an
installation without one would stay without.  An account may be a super admin and disabled, and then
it does not count.
-/

namespace BindPlane.Auth

open ReadCommitted

variable {box : Sealer} {now : Instant} {K : Set (Resource Key)} {d d' : Db} {op : Op} {r : Reply}

/-- The account whose roles and standing an operation may change. -/
def Op.target : Op → Option ℕ
  | .mutateUserLifecycle _ userId _ _ | .replaceUserRoles _ userId _ _ => some userId
  | _ => none

theorem Op.target_of_reads (h : op.reads r = true) : op.target = none := by
  cases op with
  | mutateUserLifecycle => cases h
  | replaceUserRoles => cases h
  | _ => rfl

/-- An enabled super admin. -/
def Db.IsAdmin (d : Db) (userId : ℕ) : Prop :=
  ∃ u, d.users.get? userId = some u ∧ u.enabled = true ∧ superRole ∈ u.roles

/-- **The standing of everybody else** stays as it is. -/
theorem Effect.standing (h : Effect box now K d op d' r) {i : ℕ} {u : User}
    (hu : d.users.get? i = some u) (hi : op.target ≠ some i) :
    ∃ u', d'.users.get? i = some u' ∧ u'.roles = u.roles ∧ u'.disabledAt = u.disabledAt := by
  -- an update that leaves the standing alone, and one of somebody else
  have hupdate : ∀ (p : ℕ → User → Bool) (f : User → User),
      (∀ x, (f x).roles = x.roles ∧ (f x).disabledAt = x.disabledAt) →
      ∃ u', (d.users.updateWhere p f).get? i = some u' ∧ u'.roles = u.roles ∧
        u'.disabledAt = u.disabledAt := by
    intro p f hf
    rw [Table.get?_updateWhere, hu]
    refine ⟨if p i u then f u else u, rfl, ?_⟩
    split_ifs
    · exact hf u
    · exact ⟨rfl, rfl⟩
  have hother : ∀ (id : ℕ) (f : User → User), some id ≠ some i →
      ∃ u', (d.users.modify id f).get? i = some u' ∧ u'.roles = u.roles ∧
        u'.disabledAt = u.disabledAt := by
    intro id f hid
    refine ⟨u, ?_, rfl, rfl⟩
    rw [Table.get?_modify_of_ne _ fun h => hid (congrArg some h.symm)]
    exact hu
  cases h with
  | passwordReset => exact hupdate _ _ fun _ => ⟨rfl, rfl⟩
  | passwordChanged => exact hupdate _ _ fun _ => ⟨rfl, rfl⟩
  | emailChanged => exact hupdate _ _ fun _ => ⟨rfl, rfl⟩
  | roleReplaced => exact hupdate _ _ fun _ => ⟨rfl, rfl⟩
  | sessionsRevoked => exact hupdate _ _ fun _ => ⟨rfl, rfl⟩
  | nameUpdated => exact hupdate _ _ fun _ => ⟨rfl, rfl⟩
  | localeUpdated => exact hupdate _ _ fun _ => ⟨rfl, rfl⟩
  | localeInitialized => exact hupdate _ _ fun _ => ⟨rfl, rfl⟩
  | deactivated _ userId => exact hother userId _ hi
  | reactivated _ userId => exact hother userId _ hi
  | rolesReplaced _ userId => exact hother userId _ hi
  | deleted _ userId =>
      refine ⟨u, ?_, rfl, rfl⟩
      show (d.users.deleteWhere _).get? i = some u
      rw [Table.get?_deleteWhere, hu, Option.filter_some]
      have hne : ¬i = userId := fun h => hi (h ▸ rfl)
      simp [hne]
  | accepted =>
      rename_i userId _ _ _ _ _ _ _ _ _ _ hfresh
      refine ⟨u, (Table.get?_insert_of_ne _ ?_ _).trans hu, rfl, rfl⟩
      rintro rfl
      rw [hfresh] at hu
      cases hu
  | _ => exact ⟨u, hu, rfl, rfl⟩

/-- So somebody else who is in charge stays so. -/
theorem Effect.isAdmin (h : Effect box now K d op d' r) {i : ℕ} (hd : d.IsAdmin i)
    (hi : op.target ≠ some i) : d'.IsAdmin i := by
  obtain ⟨u, hu, henabled, hrole⟩ := hd
  obtain ⟨u', hu', hroles, hdisabled⟩ := h.standing hu hi
  refine ⟨u', hu', ?_, hroles ▸ hrole⟩
  unfold User.enabled at henabled ⊢
  rwa [hdisabled]

/-- **Every commit leaves somebody in charge.**

Most commits do not touch the standing of anybody.  Of those that do, a deactivation, a deletion and
a change of roles have counted the others behind the lock, and everybody but their target keeps the
standing that it had. -/
theorem Effect.administered (h : Effect box now K d op d' r) (hd : ∃ i, d.IsAdmin i) :
    ∃ i, d'.IsAdmin i := by
  obtain ⟨i, hadmin⟩ := hd
  by_cases hi : op.target = some i
  · -- it is the target: another one was counted, or it stays in charge
    obtain ⟨u, hu, henabled, hrole⟩ := hadmin
    have hanother : ∀ {user ends}, d.users.get? i = some user →
        (ends → user.enabled = true → superRole ∈ user.roles → d.OtherAdmin i) → ends →
        ∃ j, d'.IsAdmin j := by
      intro user ends huser hother hends
      obtain rfl := Option.some.inj (huser.symm.trans hu)
      obtain ⟨j, x, hne, hx⟩ := hother hends henabled hrole
      refine ⟨j, h.isAdmin ⟨x, hx⟩ fun hj => hne ?_⟩
      exact Option.some.inj (hj.symm.trans hi)
    cases h with
    | deactivated =>
        rename_i huser _ _ _
        obtain rfl := Option.some.inj hi
        exact hanother huser.row huser.other trivial
    | deleted =>
        rename_i huser _ _ _ _ _ _
        obtain rfl := Option.some.inj hi
        exact hanother huser.row huser.other trivial
    | reactivated =>
        obtain rfl := Option.some.inj hi
        refine ⟨_, _, (Table.get?_modify_self d.users _ _).trans (congrArg (Option.map _) hu), rfl,
          hrole⟩
    | rolesReplaced _ _ _ roleIds user changed hactor huser =>
        obtain rfl := Option.some.inj hi
        by_cases hkeeps : superRole ∈ roleIds
        · exact ⟨_, _, (Table.get?_modify_self d.users _ _).trans (congrArg (Option.map _) hu),
            henabled, hkeeps⟩
        · exact hanother huser.row huser.other hkeeps
    | read op r hop =>
        rw [Op.target_of_reads hop] at hi
        cases hi
    | _ => cases hi
  · exact ⟨i, h.isAdmin hadmin hi⟩

/-- **Somebody is in charge**, in every state of every run: an enabled account has the one role that
is the system's own.

Two administrators who disable each other at the same moment are the case to fear: each transaction
sees the other account enabled.  Both count behind the lock of the system role, however, and the
second one begins to count when the first has committed.  So the invariant is about one commit
(`Effect.administered`), with the table as it is at that commit. -/
theorem Accounts.Reachable.always_administered {s : Accounts} (h : Accounts.Reachable box s) :
    ∃ userId u role, s.db.users.get? userId = some u ∧ u.enabled = true ∧ superRole ∈ u.roles ∧
      s.db.roles.get? superRole = some role ∧ role.systemKey = some "super_admin" := by
  have hadmin : ∃ i, s.db.IsAdmin i := by
    refine h.keeps (fun x => ?_) fun hc _ _ hd => hc.administered hd
    exact ⟨3, _, Table.get?_insert_self _ _ _, rfl, List.mem_singleton_self _⟩
  obtain ⟨i, u, hu, henabled, hrole⟩ := hadmin
  obtain ⟨role, hsystem, hkey⟩ := h.valid.super
  exact ⟨i, u, role, hu, henabled, hrole, hsystem, hkey⟩

/-- Somebody else is invited to be in charge, and the first one is no longer. -/
def Demo.succession : List Op :=
  [.createInvitation [0] 3 Demo.clerk Demo.clerkEmail "en" [0] [1] [2] 1000,
    .completeInvitation [1] [2] "hash" "en", .replaceUserRoles 6 3 1 [1]]

/-- Somebody is in charge behind that. -/
theorem Demo.succession_administered : ∃ userId u role,
    (after succession).db.users.get? userId = some u ∧ u.enabled = true ∧ superRole ∈ u.roles ∧
      (after succession).db.roles.get? superRole = some role ∧
        role.systemKey = some "super_admin" :=
  (after_reachable succession).always_administered

end BindPlane.Auth
