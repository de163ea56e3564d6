import BindPlane.Auth.KeptService

/-!
# Addresses

Accounts and invitations are two tables, with an index on the address each.  That an address is in
one of them only rests on the advisory lock of the address, which every transaction takes that gives
it to somebody.

**Letters.**  Addresses are compared by a canonical form, and both indexes and the advisory lock use
the same one.  The display form is what a mail is sent to.
-/

namespace BindPlane.Auth

open ReadCommitted

variable {box : Sealer} {now : Instant} {K : Set (Resource Key)} {d d' : Db} {op : Op} {r : Reply}

/-- **An address is that of one account or of one invitation**, if it is anybody's.

The unique indexes of the two tables give the first two parts.  Nothing in the schema gives the
third: it holds because whoever takes an address has the advisory lock of the address and looks in
both tables behind it. -/
structure Db.Exclusive (d : Db) : Prop where
  accounts : ∀ i j u v, d.users.get? i = some u → d.users.get? j = some v →
    u.email.canonical = v.email.canonical → i = j
  invitations : ∀ i j x y, d.invitations.get? i = some x → d.invitations.get? j = some y →
    x.email.canonical = y.email.canonical → i = j
  apart : ∀ i j u x, d.users.get? i = some u → d.invitations.get? j = some x →
    u.email.canonical ≠ x.email.canonical

/-- Where nobody gets an address. -/
theorem Db.Exclusive.mono (hd : d.Exclusive)
    (husers : ∀ i u, d'.users.get? i = some u →
      ∃ u₀, d.users.get? i = some u₀ ∧ u₀.email = u.email)
    (hinvitations : ∀ j x, d'.invitations.get? j = some x →
      ∃ x₀, d.invitations.get? j = some x₀ ∧ x₀.email = x.email) : d'.Exclusive := by
  refine ⟨fun i j u v hu hv h => ?_, fun i j x y hx hy h => ?_, fun i j u x hu hx h => ?_⟩
  · obtain ⟨u₀, hu₀, hu⟩ := husers i u hu
    obtain ⟨v₀, hv₀, hv⟩ := husers j v hv
    exact hd.accounts i j u₀ v₀ hu₀ hv₀ (by rw [hu, hv, h])
  · obtain ⟨x₀, hx₀, hx⟩ := hinvitations i x hx
    obtain ⟨y₀, hy₀, hy⟩ := hinvitations j y hy
    exact hd.invitations i j x₀ y₀ hx₀ hy₀ (by rw [hx, hy, h])
  · obtain ⟨u₀, hu₀, hu⟩ := husers i u hu
    obtain ⟨x₀, hx₀, hx⟩ := hinvitations j x hx
    exact hd.apart i j u₀ x₀ hu₀ hx₀ (by rw [hu, hx, h])

/-- Where a new account gets the address of an invitation that goes. -/
theorem Db.Exclusive.accept (hd : d.Exclusive) {userId invitationId : ℕ} {u : User}
    {x : Invitation} (hx : d.invitations.get? invitationId = some x) (hemail : u.email = x.email)
    (hnone : ∀ j v, d.users.get? j = some v → v.email.canonical ≠ x.email.canonical) :
    Db.Exclusive { d with
      users := d.users.insert userId u
      invitations := d.invitations.deleteWhere fun i _ => i = invitationId } := by
  have husers : ∀ i v, (d.users.insert userId u).get? i = some v →
      d.users.get? i = some v ∧ v.email.canonical ≠ u.email.canonical ∨ i = userId ∧ v = u := by
    intro i v hv
    refine (insert_eq_some hv).imp_left fun hv => ⟨hv, ?_⟩
    rw [hemail]
    exact hnone i v hv
  have hinvitations : ∀ j y, (d.invitations.deleteWhere fun i _ => i = invitationId).get? j =
      some y → d.invitations.get? j = some y ∧ j ≠ invitationId := by
    intro j y hy
    obtain ⟨hy, hj⟩ := deleteWhere_eq_some hy
    exact ⟨hy, of_decide_eq_false hj⟩
  refine ⟨fun i j v w hv hw h => ?_, fun i j y z hy hz h => ?_, fun i j v y hv hy h => ?_⟩
  · rcases husers i v hv with ⟨hv, hne⟩ | ⟨rfl, rfl⟩
    · rcases husers j w hw with ⟨hw, -⟩ | ⟨rfl, rfl⟩
      · exact hd.accounts i j v w hv hw h
      · exact absurd h hne
    · rcases husers j w hw with ⟨hw, hne⟩ | ⟨rfl, rfl⟩
      · exact absurd h.symm hne
      · rfl
  · exact hd.invitations i j y z (hinvitations i y hy).1 (hinvitations j z hz).1 h
  · obtain ⟨hy₀, hj⟩ := hinvitations j y hy
    rcases husers i v hv with ⟨hv₀, -⟩ | ⟨rfl, rfl⟩
    · exact hd.apart i j v y hv₀ hy₀ h
    · rw [hemail] at h
      exact hj (hd.invitations j invitationId y x hy₀ hx h.symm)

/-- **No commit gives an address to a second one.** -/
theorem Effect.exclusive (h : Effect box now K d op d' r) (hd : d.Exclusive) : d'.Exclusive := by
  -- an update of accounts, of invitations
  have husers : ∀ (p : ℕ → User → Bool) (f : User → User), (∀ u, (f u).email = u.email) → ∀ i u,
      (d.users.updateWhere p f).get? i = some u →
      ∃ u₀, d.users.get? i = some u₀ ∧ u₀.email = u.email := by
    intro p f hf i u hu
    obtain ⟨u₀, hu₀, ⟨rfl, -⟩ | ⟨rfl, -⟩⟩ := updateWhere_eq_some hu
    · exact ⟨u, hu₀, rfl⟩
    · exact ⟨u₀, hu₀, (hf u₀).symm⟩
  have hsame : ∀ i u, d.users.get? i = some u →
      ∃ u₀, d.users.get? i = some u₀ ∧ u₀.email = u.email := fun i u hu => ⟨u, hu, rfl⟩
  have hsame' : ∀ j x, d.invitations.get? j = some x →
      ∃ x₀, d.invitations.get? j = some x₀ ∧ x₀.email = x.email := fun j x hx => ⟨x, hx, rfl⟩
  cases h with
  | passwordReset => exact hd.mono (husers _ _ fun _ => rfl) hsame'
  | passwordChanged => exact hd.mono (husers _ _ fun _ => rfl) hsame'
  | deactivated => exact hd.mono (husers _ _ fun _ => rfl) hsame'
  | reactivated => exact hd.mono (husers _ _ fun _ => rfl) hsame'
  | roleReplaced => exact hd.mono (husers _ _ fun _ => rfl) hsame'
  | rolesReplaced => exact hd.mono (husers _ _ fun _ => rfl) hsame'
  | sessionsRevoked => exact hd.mono (husers _ _ fun _ => rfl) hsame'
  | nameUpdated => exact hd.mono (husers _ _ fun _ => rfl) hsame'
  | localeUpdated => exact hd.mono (husers _ _ fun _ => rfl) hsame'
  | localeInitialized => exact hd.mono (husers _ _ fun _ => rfl) hsame'
  | deleted =>
      refine hd.mono (fun i u hu => ⟨u, (deleteWhere_eq_some hu).1, rfl⟩) fun j x hx => ?_
      obtain ⟨x₀, hx₀, ⟨rfl, -⟩ | ⟨rfl, -⟩⟩ := updateWhere_eq_some hx
      · exact ⟨x, hx₀, rfl⟩
      · exact ⟨x₀, hx₀, rfl⟩
  | reinvited =>
      rename_i invitationId _ _ _ _ i₀ t _ _ _ _ _ _ hrow _ _ _
      refine hd.mono hsame fun j x hx => ?_
      obtain ⟨x₀, hx₀, rfl | ⟨rfl, rfl⟩⟩ := modify_eq_some hx
      · exact ⟨x, hx₀, rfl⟩
      · exact ⟨i₀, hrow, rfl⟩
  | revoked => exact hd.mono hsame fun j x hx => ⟨x, (deleteWhere_eq_some hx).1, rfl⟩
  | emailChanged =>
      rename_i userId _ _ _ _ _ row _ _ _ _ _ _ _ _ _ _ _ hvacant _
      have hmodify : ∀ i u, (d.users.modify userId (User.setEmail row.newEmail)).get? i = some u →
          (i ≠ userId ∧ d.users.get? i = some u) ∨ i = userId ∧ u.email = row.newEmail := by
        intro i u hu
        by_cases hi : i = userId
        · subst hi
          rw [Table.get?_modify_self] at hu
          obtain ⟨u₀, -, rfl⟩ := Option.map_eq_some_iff.mp hu
          exact Or.inr ⟨rfl, rfl⟩
        · exact Or.inl ⟨hi, (Table.get?_modify_of_ne _ hi _).symm.trans hu⟩
      refine ⟨fun i j u v hu hv h => ?_, hd.invitations, fun i j u x hu hx h => ?_⟩
      · rcases hmodify i u hu with ⟨-, hu₀⟩ | ⟨rfl, hnew⟩
        · rcases hmodify j v hv with ⟨-, hv₀⟩ | ⟨rfl, hnew⟩
          · exact hd.accounts i j u v hu₀ hv₀ h
          · exact hvacant.user i u hu₀ (by rw [h, hnew])
        · rcases hmodify j v hv with ⟨-, hv₀⟩ | ⟨rfl, -⟩
          · exact (hvacant.user j v hv₀ (by rw [← h, hnew])).symm
          · rfl
      · rcases hmodify i u hu with ⟨-, hu₀⟩ | ⟨rfl, hnew⟩
        · exact hd.apart i j u x hu₀ hx h
        · exact hvacant.invitation j x hx (by rw [← h, hnew])
  | invited =>
      rename_i email _ _ _ _ _ t invitationId _ _ _ _ _ huser hnone _ _ _ _ _
      refine ⟨hd.accounts, fun i j x y hx hy h => ?_, fun i j u x hu hx h => ?_⟩
      · rcases insert_eq_some hx with hx₀ | ⟨rfl, rfl⟩
        · rcases insert_eq_some hy with hy₀ | ⟨rfl, rfl⟩
          · exact hd.invitations i j x y hx₀ hy₀ h
          · exact absurd h (hnone i x hx₀)
        · rcases insert_eq_some hy with hy₀ | ⟨rfl, rfl⟩
          · exact absurd h.symm (hnone j y hy₀)
          · rfl
      · rcases insert_eq_some hx with hx₀ | ⟨rfl, rfl⟩
        · exact hd.apart i j u x hu hx₀ h
        · exact huser i u hu h
  | accepted =>
      rename_i hrow _ _ _ _ _ _ hnone _ _
      exact (hd.accept hrow rfl hnone).mono (fun i u hu => ⟨u, hu, rfl⟩) fun j x hx => ⟨x, hx, rfl⟩
  | _ => exact hd.mono hsame hsame'

/-- **An address is nobody else's**, in every state of every run: no two accounts have it, no two
invitations, and no account that of an invitation.

No index spans the two tables, so the store alone would let an invitation and an account have the
same address.  What keeps them apart is that whoever gives an address to somebody holds its advisory
lock from before the check to the commit, and that the check looks into both tables. -/
theorem Accounts.Reachable.addresses_exclusive {s : Accounts} (h : Accounts.Reachable box s) :
    s.db.Exclusive := by
  refine h.keeps (fun x => ⟨fun i j u v hu hv _ => ?_, nofun, nofun⟩)
    fun hc _ _ hd => hc.exclusive hd
  exact (installed_users hu).1.trans (installed_users hv).1.symm

/-- The addresses of an account and of an invitation are two. -/
theorem Demo.invited_exclusive : (after [.createInvitation [0] 3 clerk clerkEmail "en" [1] [1] [2]
    1000]).db.Exclusive :=
  (after_reachable _).addresses_exclusive

end BindPlane.Auth
