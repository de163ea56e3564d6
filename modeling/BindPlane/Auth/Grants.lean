import BindPlane.Auth.Counting
import BindPlane.Auth.Versions

/-!
# Nobody gives what he does not have

The scope of an actor is checked where roles are created, replaced, given to an account or offered
to somebody who is invited.  Each check compares with what the actor may do at that moment, and its
roles and those it is about are locked until the commit, so that neither moves behind the check.

What the checks are for is a property of a run (`no_escalation`): accounts that may not do
something, and that alone manage roles, cannot make anybody able to do it, whatever they do together
and in any order.  A role that was offered before may still be accepted.

**Collusion.**  One actor alone is easy: it cannot give what it does not have.  With several of them
each check is made against another authority, at another moment, and what one of them gives another
one may pass on.  The set `A` of all of them has no way in: as long as none of its members may do
something, no check lets any of them give it.
-/

namespace BindPlane.Auth

open ReadCommitted
open Mail (Bytes)

variable {box : Sealer} {now : Instant} {K : Set (Resource Key)} {d d' : Db} {op : Op} {r : Reply}
  {s s' : Accounts} {p : String} {a n : ℕ}

/-- Who creates, replaces, gives or offers roles. -/
def Op.grantor : Op → Option ℕ
  | .createRole actorId _ _ _ _ | .replaceRole actorId _ _ _ _ _ _ | .replaceUserRoles actorId _ _ _
  | .createInvitation _ actorId _ _ _ _ _ _ _ => some actorId
  | _ => none

namespace Db

/-- What a role permits: that of the super admin, everything. -/
def Permits (d : Db) (p : String) (roleId : ℕ) : Prop :=
  roleId = superRole ∨ ∃ x, d.roles.get? roleId = some x ∧ p ∈ x.permissions

/-- What an account may do. -/
def May (d : Db) (p : String) (userId : ℕ) : Prop := (d.authority userId).has [p] = true

/-- What is offered by an invitation. -/
def Offers (d : Db) (p : String) (i : Invitation) : Prop := ∃ j ∈ i.roles, d.Permits p j

/-- An account may do what one of its roles permits. -/
theorem may_iff {userId : ℕ} :
    d.May p userId ↔ ∃ u, d.users.get? userId = some u ∧ ∃ j ∈ u.roles, d.Permits p j := by
  have hone : d.May p userId ↔ superRole ∈ d.roleIdsForUser userId ∨
      p ∈ d.permissionsOf (d.roleIdsForUser userId) := by
    simp only [May, authority, Authority.has, Authority.contains, Bool.or_eq_true,
      List.contains_iff_mem, List.all_cons, List.all_nil, Bool.and_true]
  rw [hone, mem_permissionsOf, roleIdsForUser]
  cases d.users.get? userId with
  | none => simp
  | some u =>
      simp only [Option.map_some, Option.getD_some, Option.some.injEq, exists_eq_left', Permits]
      constructor
      · rintro (hsuper | ⟨j, hj, hx⟩)
        · exact ⟨superRole, hsuper, Or.inl rfl⟩
        · exact ⟨j, hj, Or.inr hx⟩
      · rintro ⟨j, hj, rfl | hx⟩
        · exact Or.inl hj
        · exact Or.inr ⟨j, hj, hx⟩

/-- What an actor has does not contain what it may not do. -/
theorem not_mem_of_has {required : List String} (ha : ¬d.May p a)
    (hhas : (d.authority a).has required = true) : p ∉ required := by
  intro hp
  refine ha ?_
  simp only [May, Authority.has, Authority.contains, Bool.or_eq_true, List.all_eq_true] at hhas ⊢
  refine hhas.imp_right fun hall q hq => ?_
  exact hall q (List.mem_singleton.mp hq ▸ hp)

/-- Nor do the roles that it may give. -/
theorem not_permits_of_grants {roleIds : List ℕ} (hd : d.Valid n) (ha : ¬d.May p a)
    (hgrants : d.Grants a roleIds) : ∀ j ∈ roleIds, ¬d.Permits p j := by
  intro j hj hpermits
  rcases hgrants with hsuper | hall
  · refine ha ?_
    rw [May, Authority.has, hsuper, Bool.true_or]
  · obtain ⟨x, hx, hsystem, hcontains⟩ := hall j hj
    rcases hpermits with rfl | ⟨y, hy, hp⟩
    · obtain ⟨y, hy, hkey⟩ := hd.super
      rw [hx] at hy
      obtain rfl := Option.some.inj hy
      rw [hsystem] at hkey
      cases hkey
    · rw [hx] at hy
      obtain rfl := Option.some.inj hy
      exact not_mem_of_has ha (by rw [Authority.has, hcontains, Bool.or_true]) hp

end Db

/-! ## One commit -/

namespace Effect

/-- No role permits more than it did. -/
theorem permits (h : Effect box now K d op d' r) (hactor : ∀ a, op.grantor = some a → ¬d.May p a)
    {j : ℕ} (hj : d'.Permits p j) : d.Permits p j := by
  rcases hj with hsuper | ⟨x, hx, hp⟩
  · exact Or.inl hsuper
  right
  cases h with
  | roleCreated =>
      rename_i hhas _ _
      rcases insert_eq_some hx with hx | ⟨rfl, rfl⟩
      · exact ⟨x, hx, hp⟩
      · exact absurd hp (Db.not_mem_of_has (hactor _ rfl) hhas)
  | roleReplaced =>
      rename_i hhas _ _
      obtain ⟨y, hy, rfl | ⟨rfl, rfl⟩⟩ := modify_eq_some hx
      · exact ⟨x, hy, hp⟩
      · refine absurd ?_ (Db.not_mem_of_has (hactor _ rfl) hhas)
        exact List.mem_append_right _ hp
  | roleDeleted => exact ⟨x, (deleteWhere_eq_some hx).1, hp⟩
  | _ => exact ⟨x, hx, hp⟩

/-- No invitation offers more than it did. -/
theorem offers (h : Effect box now K d op d' r) (hd : d.Valid n)
    (hactor : ∀ a, op.grantor = some a → ¬d.May p a) {id : ℕ} {i : Invitation}
    (hi : d'.invitations.get? id = some i) (hoffers : d'.Offers p i) :
    ∃ i₀, d.invitations.get? id = some i₀ ∧ d.Offers p i₀ := by
  obtain ⟨j, hj, hpermits⟩ := hoffers
  replace hpermits := h.permits hactor hpermits
  cases h with
  | invited =>
      rename_i hgrants _ _ _ _ _ _ _ _
      rcases insert_eq_some hi with hi | ⟨rfl, rfl⟩
      · exact ⟨i, hi, j, hj, hpermits⟩
      · exact absurd hpermits (Db.not_permits_of_grants hd (hactor _ rfl) hgrants j hj)
  | reinvited =>
      rename_i hrow _ _ _
      obtain ⟨i₀, hi₀, rfl | ⟨rfl, rfl⟩⟩ := modify_eq_some hi
      · exact ⟨i, hi₀, j, hj, hpermits⟩
      · exact ⟨_, hrow, j, hj, hpermits⟩
  | deleted =>
      obtain ⟨i₀, hi₀, ⟨rfl, -⟩ | ⟨rfl, -⟩⟩ := updateWhere_eq_some hi
      · exact ⟨i, hi₀, j, hj, hpermits⟩
      · exact ⟨i₀, hi₀, j, hj, hpermits⟩
  | revoked => exact ⟨i, (deleteWhere_eq_some hi).1, j, hj, hpermits⟩
  | accepted => exact ⟨i, (deleteWhere_eq_some hi).1, j, hj, hpermits⟩
  | _ => exact ⟨i, hi, j, hj, hpermits⟩

/-- No account may do more than it might, unless it has just accepted what was offered. -/
theorem may (h : Effect box now K d op d' r) (hd : d.Valid n)
    (hactor : ∀ a, op.grantor = some a → ¬d.May p a) {userId : ℕ} (hmay : d'.May p userId) :
    d.May p userId ∨ .serial userId ∈ K ∧ ∃ id i selector digest, d.invitations.get? id = some i ∧
      d.Offers p i ∧ d'.journal = d.journal ++ [.accepted id userId selector digest] := by
  obtain ⟨u, hu, j, hj, hpermits⟩ := Db.may_iff.mp hmay
  replace hpermits := h.permits hactor hpermits
  -- an update that leaves the roles alone
  have hupdate : ∀ (q : ℕ → User → Bool) (f : User → User),
      (d.users.updateWhere q f).get? userId = some u → (∀ x, (f x).roles = x.roles) →
      d.May p userId := by
    intro q f hu hf
    obtain ⟨u₀, hu₀, ⟨rfl, -⟩ | ⟨rfl, -⟩⟩ := updateWhere_eq_some hu
    · exact Db.may_iff.mpr ⟨u, hu₀, j, hj, hpermits⟩
    · exact Db.may_iff.mpr ⟨u₀, hu₀, j, hf u₀ ▸ hj, hpermits⟩
  cases h with
  | passwordReset => exact Or.inl (hupdate _ _ hu fun _ => rfl)
  | passwordChanged => exact Or.inl (hupdate _ _ hu fun _ => rfl)
  | emailChanged => exact Or.inl (hupdate _ _ hu fun _ => rfl)
  | deactivated => exact Or.inl (hupdate _ _ hu fun _ => rfl)
  | reactivated => exact Or.inl (hupdate _ _ hu fun _ => rfl)
  | deleted =>
      exact Or.inl (Db.may_iff.mpr ⟨u, (deleteWhere_eq_some hu).1, j, hj, hpermits⟩)
  | roleReplaced => exact Or.inl (hupdate _ _ hu fun _ => rfl)
  | rolesReplaced =>
      rename_i userId₀ _ roleIds user changed _ huser hgrants _ _
      obtain ⟨u₀, hu₀, rfl | ⟨rfl, rfl⟩⟩ := modify_eq_some hu
      · exact Or.inl (Db.may_iff.mpr ⟨u, hu₀, j, hj, hpermits⟩)
      · obtain rfl := Option.some.inj (huser.row.symm.trans hu₀)
        by_cases hold : j ∈ user.roles
        · exact Or.inl (Db.may_iff.mpr ⟨user, hu₀, j, hold, hpermits⟩)
        · -- a role that is given is one that the actor may give
          refine absurd hpermits (Db.not_permits_of_grants hd (hactor _ rfl) hgrants j ?_)
          refine List.mem_append_right _ (List.mem_filter.mpr ⟨hj, ?_⟩)
          simpa using hold
  | sessionsRevoked => exact Or.inl (hupdate _ _ hu fun _ => rfl)
  | nameUpdated => exact Or.inl (hupdate _ _ hu fun _ => rfl)
  | localeUpdated => exact Or.inl (hupdate _ _ hu fun _ => rfl)
  | localeInitialized => exact Or.inl (hupdate _ _ hu fun _ => rfl)
  | accepted =>
      rename_i hrow _ _ _ _ _ _ _ hserial _
      rcases insert_eq_some hu with hu | ⟨rfl, rfl⟩
      · exact Or.inl (Db.may_iff.mpr ⟨u, hu, j, hj, hpermits⟩)
      · exact Or.inr ⟨hserial, _, _, _, _, hrow, ⟨j, hj, hpermits⟩, rfl⟩
  | _ => exact Or.inl (Db.may_iff.mpr ⟨u, hu, j, hj, hpermits⟩)

end Effect

/-! ## Whole runs -/

/-- What may be done behind a state, and what is offered: no more than was in `d`.

The second field is there for the induction: an invitation that offers the permission is a promise
for later, and if one could be made, so could an account. -/
structure Db.Within (d d' : Db) (p : String) : Prop where
  accounts : ∀ userId, d'.May p userId → d.May p userId ∨ d.users.get? userId = none ∧
    ∃ id i selector digest, d.invitations.get? id = some i ∧ d.Offers p i ∧
      .accepted id userId selector digest ∈ d'.journal
  invitations : ∀ id i, d'.invitations.get? id = some i → d'.Offers p i →
    ∃ i₀, d.invitations.get? id = some i₀ ∧ d.Offers p i₀

/-- **Nobody gains by collusion what none of the colluders has.**  As long as only accounts that may
not do `p` create, replace, give and offer roles, whoever may do it in the end could do it before, or
is a new account that has accepted an invitation that offered it before; and no invitation offers it
that did not.

`A` may be any set of accounts, and they may act in any order and at the same time.  The invariant
`Within` is about accounts and invitations together, because an invitation is a way to give a
permission to somebody who does not exist yet.  An account that is new has accepted an invitation
which offered the permission from the beginning; the colluders had no part in that. -/
theorem Accounts.Reachable.no_escalation (h : Accounts.Reachable box s)
    (hs : Sys.Steps (body box) s s') {A : Set ℕ}
    (hA : ∀ a ∈ A, (∃ u, s.db.users.get? a = some u) ∧ ¬s.db.May p a)
    (hactors : ∀ t op now r, s'.txns t = .committed op now r →
      s.txns t = .committed op now r ∨ ∀ a, op.grantor = some a → a ∈ A) :
    s.db.Within s'.db p := by
  have hretired : ∀ i ∈ {i | ∃ u, s.db.users.get? i = some u}, s.Retired i := by
    rintro i ⟨u, hu⟩
    exact h.retired hu
  refine h.sound.steps_keep_where body_kept (P := fun d => s.db.Within d p)
    (c := fun op _ _ => ∀ a, op.grantor = some a → a ∈ A)
    (fun {op now K d d' r n} hinv hserial hop hc hd => ?_) hs hretired hactors
    ⟨fun _ hmay => Or.inl hmay, fun _ i hi hoffers => ⟨i, hi, hoffers⟩⟩
  -- the colluders still may not: none of them is new
  have hactor : ∀ a, op.grantor = some a → ¬d.May p a := by
    intro a ha hmay
    obtain ⟨⟨u, hu⟩, hnot⟩ := hA a (hop a ha)
    rcases hd.accounts a hmay with hbefore | ⟨hnone, -⟩
    · exact hnot hbefore
    · rw [hu] at hnone
      cases hnone
  have heffect : Effect box now K d op d' r := hc
  refine ⟨fun userId hmay => ?_, fun id i hi hoffers => ?_⟩
  · rcases heffect.may hinv.1 hactor hmay with hbefore | ⟨hnew, id, i, selector, digest, hi, hoffers,
      hsaid⟩
    · refine (hd.accounts userId hbefore).imp_right fun hnew => ⟨hnew.1, ?_⟩
      obtain ⟨-, id, i, selector, digest, hi, hoffers, hmem⟩ := hnew
      exact ⟨id, i, selector, digest, hi, hoffers, heffect.journal_prefix.subset hmem⟩
    · right
      refine ⟨?_, ?_⟩
      · cases hold : s.db.users.get? userId with
        | none => rfl
        | some u => exact absurd hnew (hserial userId ⟨u, hold⟩)
      · obtain ⟨i₀, hi₀, hoffers₀⟩ := hd.invitations id i hi hoffers
        refine ⟨id, i₀, selector, digest, hi₀, hoffers₀, ?_⟩
        rw [hsaid]
        exact List.mem_append_right _ (List.mem_singleton_self _)
  · obtain ⟨i₀, hi₀, hoffers₀⟩ := heffect.offers hinv.1 hactor hi hoffers
    exact hd.invitations id i₀ hi₀ hoffers₀

namespace Demo

/-- Somebody who may give roles, and see them, and nothing else. -/
def managing : List Op :=
  [.createRole 3 "Managers" "managers" "" ["users.write", "roles.read"],
    .createInvitation [0] 3 clerk clerkEmail "en" [4] [1] [2] 1000,
    .completeInvitation [1] [2] "hash" "en"]

/-- It gives itself another role. -/
def promotion : Op := .replaceUserRoles 7 7 1 [4, 1]

/-- It may not change the settings for that, nor may anybody else who might not. -/
theorem managing_within :
    (after managing).db.Within (act (after managing) 3 promotion).db "settings.write" := by
  have hpromoted : outcome (act (after managing) 3 promotion) 3 = some (promotion, 0, .done) := by
    decide +kernel
  refine (after_reachable managing).no_escalation (A := {7}) (act_steps _ _ _) (fun a ha => ?_)
    fun t op now r ht => ?_
  · obtain rfl := Set.mem_singleton_iff.mp ha
    have huser : ((after managing).db.users.get? 7).isSome = true := by decide +kernel
    exact ⟨Option.isSome_iff_exists.mp huser, by unfold Db.May; decide +kernel⟩
  · by_cases hthird : t = 3
    · subst hthird
      cases (outcome_committed hpromoted).symm.trans ht
      exact Or.inr fun a ha => Set.mem_singleton_iff.mpr (Option.some.inj ha).symm
    · rw [act_others hthird (after_reachable managing)] at ht
      exact Or.inl ht

end Demo

end BindPlane.Auth
