import BindPlane.Auth.KeptService

/-!
# Versions

The number of an account is its own for good: nobody gets it again once the account is deleted
(`gone`).  Its version only grows, and as long as it is the same the account is the one it was
(`version_pins`): its password, its address, its standing, its roles, and what they permit, whoever
changes the roles meanwhile.

This is what a session rests on, which has a version and nothing else to compare.

**What a number means.**  A version is not a counter of changes, since some changes leave it alone:
a name, a language.  It is raised by whatever a session should not survive, and by changes of the
roles themselves for every account that has them.
-/

namespace BindPlane.Auth

open ReadCommitted

variable {box : Sealer} {now : Instant} {K : Set (Resource Key)} {d d' d'' : Db} {op : Op}
  {r : Reply} {s s' : Accounts} {userId : ℕ} {u u' u'' : User}

/-! ## The number of an account -/

/-- An account that is new is under a number that its transaction has drawn. -/
theorem Effect.no_user (h : Effect box now K d op d' r) (hserial : .serial userId ∉ K)
    (hnone : d.users.get? userId = none) : d'.users.get? userId = none := by
  have hothers : Others {.serial userId} d d' :=
    .of_moves (Set.disjoint_singleton_left.mpr hserial) h.moves
  exact hothers.no_user (Set.mem_singleton _) hnone

/-- The number of an account has been drawn, and whoever drew it has ended. -/
theorem Accounts.Reachable.retired (h : Accounts.Reachable box s)
    (hu : s.db.users.get? userId = some u) : s.Retired userId := by
  obtain ⟨x, hrun⟩ := h
  induction hrun generalizing u with
  | refl =>
      obtain ⟨rfl, -⟩ := installed_users hu
      exact ⟨Nat.lt_succ_self 3, rfl⟩
  | @tail s₁ s₂ hrun hstep ih =>
      obtain ⟨a, ha⟩ := hstep
      have hsound : Sound (contract box) s₁ := Accounts.Reachable.sound ⟨x, hrun⟩
      cases hsound.outcome ha with
      | quiet hdb _ => exact Sys.step_retired ha (ih (hdb ▸ hu))
      | commit op now r w hactive hcommit hcommitted =>
          by_cases hserial : .serial userId ∈ s₁.heldBy a.txn
          · refine Sys.retires hsound.undrawn ha hactive hserial ?_
            exact (hcommitted _ op now r).mpr (Or.inr ⟨rfl, rfl, rfl, rfl⟩)
          · cases hold : s₁.db.users.get? userId with
            | some u₀ => exact Sys.step_retired ha (ih hold)
            | none =>
                rw [Effect.no_user hcommit hserial hold] at hu
                cases hu

/-- **Nobody gets the number of an account that is gone.** -/
theorem Accounts.Reachable.gone (h : Accounts.Reachable box s) (hs : Sys.Steps (body box) s s')
    (hretired : s.Retired userId) (hnone : s.db.users.get? userId = none) :
    s'.db.users.get? userId = none := by
  refine h.sound.steps_keep_where body_kept (P := fun d => d.users.get? userId = none)
    (N := {userId}) (c := fun _ _ _ => True) (fun _ hserial _ hc hd => ?_) hs (fun i hi => ?_)
    (fun _ _ _ _ _ => Or.inr trivial) hnone
  · exact Effect.no_user hc (hserial userId (Set.mem_singleton _)) hd
  · exact Set.mem_singleton_iff.mp hi ▸ hretired

/-! ## The version of an account -/

/-- **The account is the one it was**, but for its name and its language.

These are the columns that a version speaks for.  The permissions are compared through the rows of
the roles, which others may edit; an edit that changes them gives every holder a new version. -/
structure Db.Pinned (d d' : Db) (u u' : User) : Prop where
  password : u'.passwordHash = u.passwordHash
  email : u'.email = u.email
  disabledAt : u'.disabledAt = u.disabledAt
  roles : ∀ i, i ∈ u'.roles ↔ i ∈ u.roles
  /-- What its roles permit. -/
  permissions : ∀ p, p ∈ d'.permissionsOf u'.roles ↔ p ∈ d.permissionsOf u.roles

namespace Db

theorem mem_permissionsOf {roles : List ℕ} {p : String} :
    p ∈ d.permissionsOf roles ↔ ∃ i ∈ roles, ∃ x, d.roles.get? i = some x ∧ p ∈ x.permissions := by
  unfold permissionsOf
  rw [List.mem_flatMap]
  refine exists_congr fun i => and_congr_right fun _ => ?_
  cases d.roles.get? i with
  | none => simp
  | some x => simp

/-- Roles that have not moved permit what they did. -/
theorem permissionsOf_congr {roles roles' : List ℕ} (hroles : ∀ i, i ∈ roles' ↔ i ∈ roles)
    (hsame : ∀ i ∈ roles, ∀ p, (∃ x, d'.roles.get? i = some x ∧ p ∈ x.permissions) ↔
      ∃ x, d.roles.get? i = some x ∧ p ∈ x.permissions) (p : String) :
    p ∈ d'.permissionsOf roles' ↔ p ∈ d.permissionsOf roles := by
  rw [mem_permissionsOf, mem_permissionsOf]
  refine exists_congr fun i => ?_
  rw [hroles i]
  exact and_congr_right fun hi => hsame i hi p

namespace Pinned

theorem trans (h : d.Pinned d' u u') (h' : d'.Pinned d'' u' u'') : d.Pinned d'' u u'' where
  password := h'.password.trans h.password
  email := h'.email.trans h.email
  disabledAt := h'.disabledAt.trans h.disabledAt
  roles i := (h'.roles i).trans (h.roles i)
  permissions p := (h'.permissions p).trans (h.permissions p)

/-- Where no role moves. -/
theorem of_roles (hd : d'.roles = d.roles) (hpassword : u'.passwordHash = u.passwordHash)
    (hemail : u'.email = u.email) (hdisabled : u'.disabledAt = u.disabledAt)
    (hroles : ∀ i, i ∈ u'.roles ↔ i ∈ u.roles) : d.Pinned d' u u' :=
  ⟨hpassword, hemail, hdisabled, hroles, permissionsOf_congr hroles fun _ _ _ => by rw [hd]⟩

/-- Where only roles move, and none of these permits anything else. -/
theorem of_users (hsame : ∀ i ∈ u.roles, ∀ p,
    (∃ x, d'.roles.get? i = some x ∧ p ∈ x.permissions) ↔
      ∃ x, d.roles.get? i = some x ∧ p ∈ x.permissions) : d.Pinned d' u u :=
  ⟨rfl, rfl, rfl, fun _ => Iff.rfl, permissionsOf_congr (fun _ => Iff.rfl) hsame⟩

/-- Whatever is asked of it, it may do what it might. -/
theorem has (h : d.Pinned d' u u') (hu : d.users.get? userId = some u)
    (hu' : d'.users.get? userId = some u') (required : List String) :
    (d'.authority userId).has required = (d.authority userId).has required := by
  have hroles : d.roleIdsForUser userId = u.roles := by rw [roleIdsForUser, hu]; rfl
  have hroles' : d'.roleIdsForUser userId = u'.roles := by rw [roleIdsForUser, hu']; rfl
  unfold authority
  rw [hroles, hroles', Bool.eq_iff_iff]
  simp only [Authority.has, Authority.contains, Bool.or_eq_true, List.contains_iff_mem,
    List.all_eq_true]
  exact or_congr (h.roles superRole) (forall₂_congr fun p _ => h.permissions p)

end Pinned

end Db

/-- What a commit does to an account: its version grows, or it stays the one it was. -/
def Db.Follows (d d' : Db) (u u' : User) : Prop :=
  u.authVersion < u'.authVersion ∨ u'.authVersion = u.authVersion ∧ d.Pinned d' u u'

/-- A replaced role permits what it did, or its holders get another version. -/
theorem roleReplaced_follows {id : ℕ} {name canonical description : String}
    {permissions : List String} {role : Role} {holders : List ℕ}
    (hrow : d.roles.get? id = some role)
    (hall : samePermissionSet role.permissions permissions = true ∨
      ∀ i u, d.users.get? i = some u → id ∈ u.roles → i ∈ holders)
    (hu' : ((d.modifyRole id (Role.replace name canonical description permissions)).bumpVersions
      holders).users.get? userId = some u') :
    ∃ u, d.users.get? userId = some u ∧ d.Follows
      ((d.modifyRole id (Role.replace name canonical description permissions)).bumpVersions holders)
      u u' := by
  obtain ⟨u, hu, ⟨rfl, hkept⟩ | ⟨rfl, -⟩⟩ := updateWhere_eq_some hu'
  · refine ⟨u', hu, Or.inr ⟨rfl, .of_users fun i hi p => ?_⟩⟩
    show (∃ x, (d.roles.modify id _).get? i = some x ∧ _) ↔ _
    by_cases hid : i = id
    · subst hid
      rw [Table.get?_modify_self, hrow]
      rcases hall with hsame | hholders
      · simp only [samePermissionSet, Bool.and_eq_true, List.all_eq_true, List.contains_iff_mem]
          at hsame
        simp only [Option.map_some, Option.some.injEq, exists_eq_left', Role.replace]
        exact ⟨hsame.2 p, hsame.1 p⟩
      · -- it is a holder, and has another version
        rw [List.contains_iff_mem.mpr (hholders userId u' hu hi)] at hkept
        cases hkept
    · rw [Table.get?_modify_of_ne _ hid]
  · exact ⟨u, hu, Or.inl (Nat.lt_succ_self _)⟩

/-- **One commit**, of an account that is not new.

An account is written by few operations, and each of them either raises the version or leaves alone
what the version stands for.  A change of a role writes no account at all; it raises the versions of
all that have the role. -/
theorem Effect.follows {n : ℕ} (h : Effect box now K d op d' r) (hd : d.Valid n)
    (hserial : .serial userId ∉ K) (hu' : d'.users.get? userId = some u') :
    ∃ u, d.users.get? userId = some u ∧ d.Follows d' u u' := by
  -- an update of accounts that gives those it touches another version, and one that touches
  -- nothing but what is not pinned
  have hbump : ∀ (p : ℕ → User → Bool) (f : User → User),
      (∀ x, x.authVersion < (f x).authVersion) → d'.roles = d.roles →
      (d.users.updateWhere p f).get? userId = some u' →
      ∃ u, d.users.get? userId = some u ∧ d.Follows d' u u' := by
    intro p f hf hroles hu'
    obtain ⟨u, hu, ⟨rfl, -⟩ | ⟨rfl, -⟩⟩ := updateWhere_eq_some hu'
    · exact ⟨u', hu, Or.inr ⟨rfl, .of_roles hroles rfl rfl rfl fun _ => Iff.rfl⟩⟩
    · exact ⟨u, hu, Or.inl (hf u)⟩
  have hkeep : ∀ (f : User → User), (∀ x, (f x).authVersion = x.authVersion ∧
      (f x).passwordHash = x.passwordHash ∧ (f x).email = x.email ∧
        (f x).disabledAt = x.disabledAt ∧ (f x).roles = x.roles) → d'.roles = d.roles →
      ∀ id, (d.users.modify id f).get? userId = some u' →
      ∃ u, d.users.get? userId = some u ∧ d.Follows d' u u' := by
    intro f hf hroles id hu'
    obtain ⟨u, hu, rfl | ⟨-, rfl⟩⟩ := modify_eq_some hu'
    · exact ⟨u', hu, Or.inr ⟨rfl, .of_roles hroles rfl rfl rfl fun _ => Iff.rfl⟩⟩
    · obtain ⟨hversion, hpassword, hemail, hdisabled, hsame⟩ := hf u
      refine ⟨u, hu, Or.inr ⟨hversion, .of_roles hroles hpassword hemail hdisabled fun i => ?_⟩⟩
      rw [hsame]
  have hsame : d'.users = d.users → d'.roles = d.roles →
      ∃ u, d.users.get? userId = some u ∧ d.Follows d' u u' := by
    intro husers hroles
    rw [husers] at hu'
    exact ⟨u', hu', Or.inr ⟨rfl, .of_roles hroles rfl rfl rfl fun _ => Iff.rfl⟩⟩
  cases h with
  | passwordReset => exact hbump _ _ (fun _ => Nat.lt_succ_self _) rfl hu'
  | passwordChanged => exact hbump _ _ (fun _ => Nat.lt_succ_self _) rfl hu'
  | emailChanged => exact hbump _ _ (fun _ => Nat.lt_succ_self _) rfl hu'
  | deactivated => exact hbump _ _ (fun _ => Nat.lt_succ_self _) rfl hu'
  | reactivated => exact hbump _ _ (fun _ => Nat.lt_succ_self _) rfl hu'
  | sessionsRevoked => exact hbump _ _ (fun _ => Nat.lt_succ_self _) rfl hu'
  | nameUpdated =>
      refine hkeep _ ?_ rfl _ hu'
      exact fun _ => ⟨rfl, rfl, rfl, rfl, rfl⟩
  | localeUpdated =>
      refine hkeep _ ?_ rfl _ hu'
      exact fun _ => ⟨rfl, rfl, rfl, rfl, rfl⟩
  | localeInitialized =>
      refine hkeep _ ?_ rfl _ hu'
      exact fun _ => ⟨rfl, rfl, rfl, rfl, rfl⟩
  | deleted =>
      obtain ⟨hu, -⟩ := deleteWhere_eq_some hu'
      exact ⟨u', hu, Or.inr ⟨rfl, .of_roles rfl rfl rfl rfl fun _ => Iff.rfl⟩⟩
  | roleCreated =>
      rename_i id _ _ _ hfresh
      refine ⟨u', hu', Or.inr ⟨rfl, .of_users fun i hi p => ?_⟩⟩
      obtain ⟨x, hx⟩ := hd.held userId u' hu' i hi
      show (∃ y, (d.roles.insert id _).get? i = some y ∧ _) ↔ _
      rw [Table.get?_insert_of_ne]
      rintro rfl
      cases hfresh.role.symm.trans hx
  | roleReplaced =>
      rename_i hrow _ _ _ _ _ hall
      exact roleReplaced_follows hrow hall hu'
  | roleDeleted =>
      rename_i id _ _ _ _ _ _ hunused
      refine ⟨u', hu', Or.inr ⟨rfl, .of_users fun i hi p => ?_⟩⟩
      have hid : i ≠ id := by
        rintro rfl
        exact hunused userId u' hu' hi
      have hkept : (d.deleteRole id).roles.get? i = d.roles.get? i := by
        show (d.roles.deleteWhere _).get? i = _
        rw [Table.get?_deleteWhere]
        cases d.roles.get? i with
        | none => rfl
        | some x => simp [hid]
      rw [hkept]
  | rolesReplaced =>
      rename_i roleIds user changed _ huser _ hchanged _
      obtain ⟨u, hu, rfl | ⟨rfl, rfl⟩⟩ := modify_eq_some hu'
      · exact ⟨u', hu, Or.inr ⟨rfl, .of_roles rfl rfl rfl rfl fun _ => Iff.rfl⟩⟩
      · obtain rfl := Option.some.inj (huser.row.symm.trans hu)
        rcases hchanged with rfl | hperm
        · exact ⟨_, hu, Or.inl (Nat.lt_succ_self _)⟩
        · cases changed with
          | true => exact ⟨_, hu, Or.inl (Nat.lt_succ_self _)⟩
          | false =>
              exact ⟨_, hu, Or.inr ⟨rfl, .of_roles rfl rfl rfl rfl fun i => hperm.mem_iff.symm⟩⟩
  | accepted =>
      rename_i hserial' _
      rcases insert_eq_some hu' with hu | ⟨rfl, -⟩
      · exact ⟨u', hu, Or.inr ⟨rfl, .of_roles rfl rfl rfl rfl fun _ => Iff.rfl⟩⟩
      · exact absurd hserial' hserial
  | _ => exact hsame rfl rfl

/-- In a later state of a run the account has another version, which is higher, or is pinned. -/
theorem Accounts.Reachable.follows (h : Accounts.Reachable box s) (hs : Sys.Steps (body box) s s')
    (hu : s.db.users.get? userId = some u) (hu' : s'.db.users.get? userId = some u') :
    s.db.Follows s'.db u u' := by
  refine h.sound.steps_keep_where body_kept (N := {userId}) (c := fun _ _ _ => True)
    (P := fun d' => ∀ u', d'.users.get? userId = some u' → s.db.Follows d' u u')
    (fun hinv hserial _ hc hd u'' hu'' => ?_) hs (fun i hi => ?_) (fun _ _ _ _ _ => Or.inr trivial)
    (fun u' hu' => ?_) u' hu'
  · obtain ⟨u', hu', hstep⟩ := Effect.follows hc hinv.1 (hserial userId (Set.mem_singleton _)) hu''
    rcases hd u' hu' with hlt | ⟨heq, hpinned⟩
    · rcases hstep with hlt' | ⟨heq', -⟩
      · exact Or.inl (hlt.trans hlt')
      · exact Or.inl (hlt.trans_eq heq'.symm)
    · rcases hstep with hlt' | ⟨heq', hpinned'⟩
      · exact Or.inl (heq.symm.trans_lt hlt')
      · exact Or.inr ⟨heq'.trans heq, hpinned.trans hpinned'⟩
  · exact Set.mem_singleton_iff.mp hi ▸ h.retired hu
  · obtain rfl := Option.some.inj (hu.symm.trans hu')
    exact Or.inr ⟨rfl, .of_roles rfl rfl rfl rfl fun _ => Iff.rfl⟩

/-- A version never falls. -/
theorem Accounts.Reachable.version_le (h : Accounts.Reachable box s)
    (hs : Sys.Steps (body box) s s') (hu : s.db.users.get? userId = some u)
    (hu' : s'.db.users.get? userId = some u') : u.authVersion ≤ u'.authVersion := by
  rcases h.follows hs hu hu' with hlt | ⟨heq, -⟩
  · exact hlt.le
  · exact heq.ge

/-- What a version that is the same pins. -/
theorem Accounts.Reachable.pinned (h : Accounts.Reachable box s) (hs : Sys.Steps (body box) s s')
    (hu : s.db.users.get? userId = some u) (hu' : s'.db.users.get? userId = some u')
    (hsame : u'.authVersion = u.authVersion) : s.db.Pinned s'.db u u' ∧
      ∀ required, (s'.db.authority userId).has required = (s.db.authority userId).has required := by
  rcases h.follows hs hu hu' with hlt | ⟨-, hpinned⟩
  · exact absurd hsame hlt.ne'
  · exact ⟨hpinned, fun required => hpinned.has hu hu' required⟩

/-- **A version stands for an account as it is.**

The version of an account never falls.  In two states of a run in which it is the same the account
has one password, address and standing, and the same roles, which permit the same, whoever edits,
renames, creates or deletes roles in between.  And the number of the account is not given to another
one: once the account is gone, nobody has the number again.

The three together are what makes the pair of a number and a version, which is all that a session
keeps, stand for the account that logged in. -/
theorem Accounts.Reachable.version_pins (h : Accounts.Reachable box s)
    (hs : Sys.Steps (body box) s s')
    (hu : s.db.users.get? userId = some u) (hu' : s'.db.users.get? userId = some u') :
    u.authVersion ≤ u'.authVersion ∧
      (u'.authVersion = u.authVersion → s.db.Pinned s'.db u u' ∧ ∀ required,
        (s'.db.authority userId).has required = (s.db.authority userId).has required) ∧
      ∀ s₁ s₂, Sys.Steps (body box) s s₁ → Sys.Steps (body box) s₁ s₂ →
        s₁.db.users.get? userId = none → s₂.db.users.get? userId = none :=
  ⟨h.version_le hs hu hu', h.pinned hs hu hu', fun _ _ hfirst hrest hnone =>
    (h.steps hfirst).gone hrest (Sys.steps_retired hfirst (h.retired hu)) hnone⟩

namespace Demo

/-- Somebody is invited to a role of its own. -/
def staffing : List Op :=
  [.createRole 3 "Clerks" "clerks" "" ["users.read"],
    .createInvitation [0] 3 clerk clerkEmail "en" [4] [1] [2] 1000,
    .completeInvitation [1] [2] "hash" "en"]

/-- The role gets another name, and its permissions are sent again. -/
def relabelling : List Op := [.replaceRole 3 4 1 "Readers" "readers" "" ["users.read"]]

/-- The account of the run above. -/
def member : User := ⟨clerk, clerkEmail, "hash", 1, none, some "en", [4]⟩

theorem staffing_pinned : member.authVersion ≤ member.authVersion ∧
    (member.authVersion = member.authVersion →
      (after staffing).db.Pinned (acts (after staffing) 3 relabelling).db member member ∧
        ∀ required, ((acts (after staffing) 3 relabelling).db.authority 7).has required =
          ((after staffing).db.authority 7).has required) ∧
    ∀ s₁ s₂, Sys.Steps (body sealer) (after staffing) s₁ → Sys.Steps (body sealer) s₁ s₂ →
      s₁.db.users.get? 7 = none → s₂.db.users.get? 7 = none :=
  (after_reachable staffing).version_pins (acts_steps _ _ relabelling) (by decide +kernel)
    (by decide +kernel)

end Demo

end BindPlane.Auth
