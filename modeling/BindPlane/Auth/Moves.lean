import BindPlane.Auth.Service
import BindPlane.ReadCommitted.Journal

/-!
# What holds of every write

A commit is a number of moves (`Move`), each of which is made under the locks that the transactions
of the service agree on: a row moves under its own lock; the roles, those of an account, its
standing and its end under the lock of the system role as well; an address is taken under its
advisory lock.

`Db.Valid` is what every move keeps: numbers are drawn, the roles of an account are there, and the
identity of a row that a transaction finds before it has any lock, an invitation or a request for
another address, is that with which the journal says it was created.  So it cannot change between
two looks.
-/

namespace BindPlane.Auth

open ReadCommitted
open Mail (Bytes MailTask)

/-! ## The identity of rows -/

/-- The id of the role of the super admin. -/
def superRole : ℕ := 0

/-- The row that an event brings into being, with what of it never changes: the name, the address
and the roles of an invitation, the user and the two addresses of a request. -/
def Event.identity? : Event → Option (ℕ × ((Name × Email × List ℕ) ⊕ (ℕ × Email × Email)))
  | .invited id name email roles _ _ _ => some (id, .inl (name, email, roles))
  | .codeIssued id userId oldEmail newEmail _ _ _ _ => some (id, .inr (userId, oldEmail, newEmail))
  | _ => none

/-- What an event says about the code of a user: when the last one was issued and when it expires,
or that it is over. -/
def Event.codeOfUser (userId : ℕ) : Event → Option (Option (Instant × Instant))
  | .codeIssued _ id _ _ _ _ issuedAt expiresAt =>
      if id = userId then some (some (issuedAt, expiresAt)) else none
  | .emailChanged _ id _ | .deleted id => if id = userId then some none else none
  | _ => none

namespace Invitation

/-- What of an invitation never changes. -/
def identity (i : Invitation) : (Name × Email × List ℕ) ⊕ (ℕ × Email × Email) :=
  .inl (i.name, i.email, i.roles)

end Invitation

namespace EmailChangeRequest

/-- What of a request never changes. -/
def identity (r : EmailChangeRequest) : (Name × Email × List ℕ) ⊕ (ℕ × Email × Email) :=
  .inr (r.userId, r.oldEmail, r.newEmail)

end EmailChangeRequest

namespace Db

/-- The journal says that a row was created with an identity. -/
def Born (d : Db) (id : ℕ) (x : (Name × Email × List ℕ) ⊕ (ℕ × Email × Email)) : Prop :=
  ∃ e ∈ d.journal, e.identity? = some (id, x)

/-- **What every write keeps.**

The roles of an account are there because a role that somebody has cannot be deleted, and the check
for that is made behind the lock of the role.  The rest is what the sequence and the journal give:
no row has a number that has not been drawn, and a row has the identity with which it was created.
-/
structure Valid (d : Db) (n : ℕ) : Prop where
  users : ∀ id r, d.users.get? id = some r → id < n
  sessions : ∀ id r, d.sessions.get? id = some r → id < n
  emailChanges : ∀ id r, d.emailChanges.get? id = some r → id < n
  invitations : ∀ id r, d.invitations.get? id = some r → id < n
  roles : ∀ id r, d.roles.get? id = some r → id < n
  outbox : ∀ id r, d.outbox.get? id = some r → id < n
  born : ∀ id x, d.Born id x → id < n
  once : ∀ id x y, d.Born id x → d.Born id y → x = y
  invitation : ∀ id i, d.invitations.get? id = some i → d.Born id i.identity
  request : ∀ id r, d.emailChanges.get? id = some r → d.Born id r.identity
  super : ∃ r, d.roles.get? superRole = some r ∧ r.systemKey = some "super_admin"
  system : ∀ id r, d.roles.get? id = some r → r.systemKey.isSome = true → id = superRole
  held : ∀ id u, d.users.get? id = some u → ∀ i ∈ u.roles, ∃ r, d.roles.get? i = some r

end Db

/-- Numbers are only ever drawn. -/
theorem Db.Valid.up {d : Db} {n m : ℕ} (h : d.Valid n) (hn : n ≤ m) : d.Valid m :=
  { h with
    users := fun id r hr => (h.users id r hr).trans_le hn
    sessions := fun id r hr => (h.sessions id r hr).trans_le hn
    emailChanges := fun id r hr => (h.emailChanges id r hr).trans_le hn
    invitations := fun id r hr => (h.invitations id r hr).trans_le hn
    roles := fun id r hr => (h.roles id r hr).trans_le hn
    outbox := fun id r hr => (h.outbox id r hr).trans_le hn
    born := fun id x hx => (h.born id x hx).trans_le hn }

/-! ## Moves -/

/-- **A write**, under the locks `K`.

Most of what must be kept is kept by each write for its own sake, whatever transaction it is part
of.  So an effect is taken apart into moves, and an invariant has as many cases as there are kinds
of moves, which are fewer than the operations. -/
inductive Move (K : Set (Resource Key)) (d : Db) : Db → Prop
  | clock (t : Instant) (h : d.clock ≤ t) : Move K d { d with clock := t }
  | mail (id : ℕ) (t : MailTask) (hserial : .serial id ∈ K) : Move K d (d.addMail id t)
  | supersede (p : MailTask → Bool) (now : Instant) (code : String) :
      Move K d (d.supersede p now code)
  | identity (x : Option SystemIdentity) : Move K d { d with identity := x }
  | record (e : Event) (h : e.identity? = none)
      (huser : ∀ userId, e.codeOfUser userId ≠ none → .key (.user userId) ∈ K) :
      Move K d (d.record e)
  | users (p : ℕ → User → Bool) (f : User → User)
      (hkey : ∀ id row, p id row = true → .key (.user id) ∈ K)
      (hf : ∀ u, (f u).email = u.email ∧ (f u).disabledAt = u.disabledAt ∧ (f u).roles = u.roles)
      (hversion : ∀ u, u.authVersion ≤ (f u).authVersion) :
      Move K d { d with users := d.users.updateWhere p f }
  | standing (id : ℕ) (f : User → User) (hkey : .key (.user id) ∈ K)
      (hsuper : .key (.role superRole) ∈ K) (hf : ∀ u, (f u).email = u.email)
      (hversion : ∀ u, u.authVersion ≤ (f u).authVersion)
      (hroles : ∀ u, d.users.get? id = some u → ∀ i ∈ (f u).roles,
        i ∈ u.roles ∨ ∃ r, d.roles.get? i = some r) :
      Move K d (d.modifyUser id f)
  | address (id : ℕ) (email : Email) (hkey : .key (.user id) ∈ K)
      (haddress : .key (.address email.canonical) ∈ K) :
      Move K d (d.modifyUser id (User.setEmail email))
  | addUser (id : ℕ) (u : User) (hserial : .serial id ∈ K)
      (haddress : .key (.address u.email.canonical) ∈ K) (hfresh : d.users.get? id = none)
      (hroles : ∀ i ∈ u.roles, .key (.role i) ∈ K ∧ ∃ r, d.roles.get? i = some r) :
      Move K d (d.addUser id u)
  | deleteUser (id : ℕ) (hkey : .key (.user id) ∈ K) (hsuper : .key (.role superRole) ∈ K) :
      Move K d (d.deleteUser id)
  | addSession (id : ℕ) (x : Session) (hserial : .serial id ∈ K)
      (hfresh : d.sessions.get? id = none) : Move K d (d.addSession id x)
  | modifySessions (ids : List ℕ) (f : Session → Session)
      (hkey : ∀ id ∈ ids, .key (.session id) ∈ K) : Move K d (d.modifySessions ids f)
  | deleteSessions (ids : List ℕ) (hkey : ∀ id ∈ ids, .key (.session id) ∈ K) :
      Move K d (d.deleteSessions ids)
  | putReset (id : ℕ) (r : PasswordReset) (hkey : .key (.reset id) ∈ K) :
      Move K d (d.putReset id r)
  | deleteResets (ids : List ℕ) (hkey : ∀ id ∈ ids, .key (.reset id) ∈ K) :
      Move K d (d.deleteResets ids)
  | issueCode (id : ℕ) (r : EmailChangeRequest) (now : Instant) (hserial : .serial id ∈ K)
      (huser : .key (.user r.userId) ∈ K) (hfresh : d.emailChanges.get? id = none)
      (hunborn : ∀ x, ¬ d.Born id x) :
      Move K d ((d.addEmailChange id r).record (r.issued id now))
  | reissueCode (id : ℕ) (r r' : EmailChangeRequest) (now : Instant)
      (hkey : .key (.emailChange id) ∈ K) (huser : .key (.user r.userId) ∈ K)
      (hrow : d.emailChanges.get? id = some r) (hsame : r'.identity = r.identity) :
      Move K d ((d.modifyEmailChange id fun _ => r').record (r'.issued id now))
  | failCode (id : ℕ) (hkey : .key (.emailChange id) ∈ K) :
      Move K d (d.modifyEmailChange id EmailChangeRequest.fail)
  | deleteCodes (ids : List ℕ) (hkey : ∀ id ∈ ids, .key (.emailChange id) ∈ K) :
      Move K d (d.deleteEmailChanges ids)
  | invite (id : ℕ) (i : Invitation) (hserial : .serial id ∈ K)
      (haddress : .key (.address i.email.canonical) ∈ K) (hfresh : d.invitations.get? id = none)
      (hunborn : ∀ x, ¬ d.Born id x) :
      Move K d ((d.addInvitation id i).record (i.issued id))
  | invitations (p : ℕ → Invitation → Bool) (f : Invitation → Invitation)
      (hkey : ∀ id row, p id row = true → .key (.invitation id) ∈ K)
      (hf : ∀ id i, d.invitations.get? id = some i → p id i = true → (f i).identity = i.identity) :
      Move K d { d with invitations := d.invitations.updateWhere p f }
  | deleteInvitation (id : ℕ) (hkey : .key (.invitation id) ∈ K) :
      Move K d (d.deleteInvitation id)
  | addRole (id : ℕ) (r : Role) (hserial : .serial id ∈ K) (hsuper : .key (.role superRole) ∈ K)
      (hfresh : d.roles.get? id = none) (hsystem : r.systemKey = none) : Move K d (d.addRole id r)
  | role (id : ℕ) (r : Role) (f : Role → Role) (hkey : .key (.role id) ∈ K)
      (hsuper : .key (.role superRole) ∈ K) (hrow : d.roles.get? id = some r)
      (hsystem : r.systemKey = none) (hf : ∀ x, (f x).systemKey = x.systemKey) :
      Move K d (d.modifyRole id f)
  | deleteRole (id : ℕ) (r : Role) (hkey : .key (.role id) ∈ K)
      (hsuper : .key (.role superRole) ∈ K) (hrow : d.roles.get? id = some r)
      (hsystem : r.systemKey = none)
      (hunused : ∀ i u, d.users.get? i = some u → id ∉ u.roles) : Move K d (d.deleteRole id)

/-- Any number of writes. -/
abbrev Moves (K : Set (Resource Key)) : Db → Db → Prop := Relation.ReflTransGen (Move K)

section Born

variable {d : Db} {id : ℕ} {x : (Name × Email × List ℕ) ⊕ (ℕ × Email × Email)} {e : Event}

theorem Db.born_record : (d.record e).Born id x ↔ d.Born id x ∨ e.identity? = some (id, x) := by
  show (∃ e' ∈ d.journal ++ [e], e'.identity? = some (id, x)) ↔ _
  simp only [List.mem_append, List.mem_singleton, or_and_right, exists_or, exists_eq_left]
  rfl

theorem Db.born_record_of_none (h : e.identity? = none) :
    (d.record e).Born id x ↔ d.Born id x := by
  rw [Db.born_record, h]
  simp

end Born

section Valid

variable {K : Set (Resource Key)} {d d' : Db} {n : ℕ}

/-- A row that was updated was there. -/
theorem updateWhere_eq_some {ρ : Type} {t : Table ρ} {p : ℕ → ρ → Bool} {f : ρ → ρ} {id : ℕ}
    {x : ρ} (h : (t.updateWhere p f).get? id = some x) :
    ∃ y, t.get? id = some y ∧ (x = y ∧ p id y = false ∨ x = f y ∧ p id y = true) := by
  rw [Table.get?_updateWhere] at h
  obtain ⟨y, hy, hx⟩ := Option.map_eq_some_iff.mp h
  refine ⟨y, hy, ?_⟩
  cases hp : p id y with
  | true => rw [hp] at hx; exact Or.inr ⟨hx.symm, rfl⟩
  | false => rw [hp] at hx; exact Or.inl ⟨hx.symm, rfl⟩

/-- A row that was not deleted was there. -/
theorem deleteWhere_eq_some {ρ : Type} {t : Table ρ} {p : ℕ → ρ → Bool} {id : ℕ} {x : ρ}
    (h : (t.deleteWhere p).get? id = some x) : t.get? id = some x ∧ p id x = false := by
  rw [Table.get?_deleteWhere] at h
  obtain ⟨hx, hp⟩ := Option.filter_eq_some_iff.mp h
  exact ⟨hx, by simpa using hp⟩

theorem modify_eq_some {ρ : Type} {t : Table ρ} {f : ρ → ρ} {id i : ℕ} {x : ρ}
    (h : (t.modify id f).get? i = some x) :
    ∃ y, t.get? i = some y ∧ (x = y ∨ i = id ∧ x = f y) := by
  obtain ⟨y, hy, hx⟩ := updateWhere_eq_some h
  exact ⟨y, hy, hx.imp And.left fun h => ⟨of_decide_eq_true h.2, h.1⟩⟩

theorem insert_eq_some {ρ : Type} {t : Table ρ} {r : ρ} {id i : ℕ} {x : ρ}
    (h : (t.insert id r).get? i = some x) : t.get? i = some x ∨ i = id ∧ x = r := by
  by_cases hi : i = id
  · subst hi
    rw [Table.get?_insert_self] at h
    exact Or.inr ⟨rfl, (Option.some.inj h).symm⟩
  · rw [Table.get?_insert_of_ne t hi] at h
    exact Or.inl h

/-- A valid store stays valid where rows of the other tables come and go. -/
theorem Db.Valid.mono {d d' : Db} (h : d.Valid n)
    (husers : ∀ i x, d'.users.get? i = some x → (∃ y, d.users.get? i = some y) ∨ i < n)
    (hsessions : ∀ i x, d'.sessions.get? i = some x → (∃ y, d.sessions.get? i = some y) ∨ i < n)
    (hchanges : ∀ i x, d'.emailChanges.get? i = some x →
      (∃ y, d.emailChanges.get? i = some y ∧ x.identity = y.identity) ∨ d'.Born i x.identity)
    (hinvitations : ∀ i x, d'.invitations.get? i = some x →
      (∃ y, d.invitations.get? i = some y ∧ x.identity = y.identity) ∨ d'.Born i x.identity)
    (hroles : ∀ i x, d'.roles.get? i = some x → (∃ y, d.roles.get? i = some y ∧
      x.systemKey = y.systemKey) ∨ i < n ∧ x.systemKey = none)
    (houtbox : ∀ i x, d'.outbox.get? i = some x → (∃ y, d.outbox.get? i = some y) ∨ i < n)
    (hborn : ∀ i x, d.Born i x → d'.Born i x)
    (hborn' : ∀ i x, d'.Born i x → d.Born i x ∨ i < n ∧ ∀ y, d'.Born i y → y = x)
    (hsuper : ∃ r, d'.roles.get? superRole = some r ∧ r.systemKey = some "super_admin")
    (hheld : ∀ i u, d'.users.get? i = some u → ∀ j ∈ u.roles, ∃ r, d'.roles.get? j = some r) :
    d'.Valid n := by
  have hnumber : ∀ i x, d'.Born i x → i < n := fun i x hb =>
    (hborn' i x hb).elim (h.born i x) And.left
  refine ⟨fun i x hx => ?_, fun i x hx => ?_, fun i x hx => ?_, fun i x hx => ?_,
    fun i x hx => ?_, fun i x hx => ?_, hnumber, fun i x y hx hy => ?_, fun i x hx => ?_,
    fun i x hx => ?_, hsuper, fun i x hx hkey => ?_, hheld⟩
  · exact (husers i x hx).elim (fun ⟨y, hy⟩ => h.users i y hy) id
  · exact (hsessions i x hx).elim (fun ⟨y, hy⟩ => h.sessions i y hy) id
  · exact (hchanges i x hx).elim (fun ⟨y, hy, _⟩ => h.emailChanges i y hy) (hnumber i _)
  · exact (hinvitations i x hx).elim (fun ⟨y, hy, _⟩ => h.invitations i y hy) (hnumber i _)
  · exact (hroles i x hx).elim (fun ⟨y, hy, _⟩ => h.roles i y hy) And.left
  · exact (houtbox i x hx).elim (fun ⟨y, hy⟩ => h.outbox i y hy) id
  · rcases hborn' i x hx with hx' | ⟨-, hall⟩
    · rcases hborn' i y hy with hy' | ⟨-, hall⟩
      · exact h.once i x y hx' hy'
      · exact hall x hx
    · exact (hall y hy).symm
  · rcases hinvitations i x hx with ⟨y, hy, hsame⟩ | hb
    · exact hsame ▸ hborn i _ (h.invitation i y hy)
    · exact hb
  · rcases hchanges i x hx with ⟨y, hy, hsame⟩ | hb
    · exact hsame ▸ hborn i _ (h.request i y hy)
    · exact hb
  · rcases hroles i x hx with ⟨y, hy, hsame⟩ | ⟨-, hnone⟩
    · exact h.system i y hy (hsame ▸ hkey)
    · rw [hnone] at hkey
      cases hkey

/-! ## What one move does to each table -/

namespace Move

theorem clock_le (h : Move K d d') : d.clock ≤ d'.clock := by
  cases h with
  | clock t h => exact h
  | _ => exact le_rfl

theorem journal (h : Move K d d') : d.journal <+: d'.journal := by
  cases h with
  | record e h => exact List.prefix_append _ _
  | issueCode => exact List.prefix_append _ _
  | reissueCode => exact List.prefix_append _ _
  | invite => exact List.prefix_append _ _
  | _ => exact List.prefix_rfl

/-- An account stays as it is, but under its lock. -/
theorem user (h : Move K d d') {id : ℕ} {u : User} (hu : d.users.get? id = some u) :
    d'.users.get? id = some u ∨ .key (.user id) ∈ K := by
  cases h with
  | users p f hkey hf =>
      cases hp : p id u with
      | true => exact Or.inr (hkey id u hp)
      | false =>
          left
          show (d.users.updateWhere p f).get? id = _
          rw [Table.get?_updateWhere, hu, Option.map_some, hp]
          rfl
  | standing i f hkey =>
      by_cases hi : id = i
      · exact Or.inr (hi ▸ hkey)
      · exact Or.inl ((Table.get?_modify_of_ne _ hi _).trans hu)
  | address i email hkey =>
      by_cases hi : id = i
      · exact Or.inr (hi ▸ hkey)
      · exact Or.inl ((Table.get?_modify_of_ne _ hi _).trans hu)
  | addUser i u' hserial _ hfresh =>
      refine Or.inl ((Table.get?_insert_of_ne _ ?_ _).trans hu)
      rintro rfl
      rw [hfresh] at hu
      cases hu
  | deleteUser i hkey =>
      by_cases hi : id = i
      · exact Or.inr (hi ▸ hkey)
      · left
        show (d.users.deleteWhere _).get? id = _
        rw [Table.get?_deleteWhere, hu, Option.filter_some, decide_eq_false hi]
        rfl
  | _ => exact Or.inl hu

/-- An account that is there was there, unless it is new; its address was its own, unless it has
been taken under the lock of the address. -/
theorem account (h : Move K d d') {id : ℕ} {u : User} (hu : d'.users.get? id = some u) :
    (∃ u₀, d.users.get? id = some u₀ ∧
      (u.email = u₀.email ∨ .key (.address u.email.canonical) ∈ K)) ∨
      .serial id ∈ K ∧ d.users.get? id = none ∧ .key (.address u.email.canonical) ∈ K := by
  cases h with
  | users p f hkey hf =>
      obtain ⟨u₀, hu₀, ⟨rfl, -⟩ | ⟨rfl, -⟩⟩ := updateWhere_eq_some hu
      · exact Or.inl ⟨u, hu₀, Or.inl rfl⟩
      · exact Or.inl ⟨u₀, hu₀, Or.inl (hf u₀).1⟩
  | standing i f hkey hsuper hf =>
      obtain ⟨u₀, hu₀, rfl | ⟨-, rfl⟩⟩ := modify_eq_some hu
      · exact Or.inl ⟨u, hu₀, Or.inl rfl⟩
      · exact Or.inl ⟨u₀, hu₀, Or.inl (hf u₀)⟩
  | address i email hkey haddress =>
      obtain ⟨u₀, hu₀, rfl | ⟨-, rfl⟩⟩ := modify_eq_some hu
      · exact Or.inl ⟨u, hu₀, Or.inl rfl⟩
      · exact Or.inl ⟨u₀, hu₀, Or.inr haddress⟩
  | addUser i u' hserial haddress hfresh =>
      rcases insert_eq_some hu with hu | ⟨rfl, rfl⟩
      · exact Or.inl ⟨u, hu, Or.inl rfl⟩
      · exact Or.inr ⟨hserial, hfresh, haddress⟩
  | deleteUser i => exact Or.inl ⟨u, (deleteWhere_eq_some hu).1, Or.inl rfl⟩
  | _ => exact Or.inl ⟨u, hu, Or.inl rfl⟩

/-- Nobody's roles and standing move, but under the lock of the system role. -/
theorem unmoved (h : Move K d d') {id : ℕ} {u : User} (hu : d.users.get? id = some u) :
    (∃ u', d'.users.get? id = some u' ∧ u'.roles = u.roles ∧ u'.disabledAt = u.disabledAt) ∨
      .key (.role superRole) ∈ K := by
  cases h with
  | users p f hkey hf =>
      left
      refine ⟨if p id u then f u else u, ?_, ?_⟩
      · show (d.users.updateWhere p f).get? id = _
        rw [Table.get?_updateWhere, hu]
        rfl
      · cases p id u with
        | true => exact ⟨(hf u).2.2, (hf u).2.1⟩
        | false => exact ⟨rfl, rfl⟩
  | standing i f hkey hsuper => exact Or.inr hsuper
  | address i email hkey =>
      left
      refine ⟨if id = i then u.setEmail email else u, ?_, ?_⟩
      · show (d.users.modify i _).get? id = _
        rw [Table.get?_modify, hu]
        split <;> rfl
      · split <;> exact ⟨rfl, rfl⟩
  | addUser i u' hserial _ hfresh =>
      refine Or.inl ⟨u, (Table.get?_insert_of_ne _ ?_ _).trans hu, rfl, rfl⟩
      rintro rfl
      rw [hfresh] at hu
      cases hu
  | deleteUser i hkey hsuper => exact Or.inr hsuper
  | _ => exact Or.inl ⟨u, hu, rfl, rfl⟩

/-- Nobody gets a role, but under its lock or that of the system role. -/
theorem holder (h : Move K d d') {id i : ℕ} {u' : User} (hu' : d'.users.get? i = some u')
    (hid : id ∈ u'.roles) :
    (∃ u, d.users.get? i = some u ∧ id ∈ u.roles) ∨ .key (.role superRole) ∈ K ∨
      .key (.role id) ∈ K := by
  cases h with
  | users p f hkey hf =>
      obtain ⟨u, hu, ⟨rfl, -⟩ | ⟨rfl, -⟩⟩ := updateWhere_eq_some hu'
      · exact Or.inl ⟨u', hu, hid⟩
      · exact Or.inl ⟨u, hu, (hf u).2.2 ▸ hid⟩
  | standing j f hkey hsuper => exact Or.inr (Or.inl hsuper)
  | address j email =>
      obtain ⟨u, hu, rfl | ⟨-, rfl⟩⟩ := modify_eq_some hu'
      · exact Or.inl ⟨u', hu, hid⟩
      · exact Or.inl ⟨u, hu, hid⟩
  | addUser j x hserial haddress hfresh hroles =>
      rcases insert_eq_some hu' with hu | ⟨rfl, rfl⟩
      · exact Or.inl ⟨u', hu, hid⟩
      · exact Or.inr (Or.inr (hroles id hid).1)
  | deleteUser j => exact Or.inl ⟨u', (deleteWhere_eq_some hu').1, hid⟩
  | _ => exact Or.inl ⟨u', hu', hid⟩

/-- The roles of every account stay there. -/
theorem held (h : Move K d d')
    (hd : ∀ i u, d.users.get? i = some u → ∀ j ∈ u.roles, ∃ r, d.roles.get? j = some r) {i : ℕ}
    {u : User} (hu : d'.users.get? i = some u) {j : ℕ} (hj : j ∈ u.roles) :
    ∃ r, d'.roles.get? j = some r := by
  cases h with
  | users p f hkey hf =>
      obtain ⟨u₀, hu₀, ⟨rfl, -⟩ | ⟨rfl, -⟩⟩ := updateWhere_eq_some hu
      · exact hd i u hu₀ j hj
      · exact hd i u₀ hu₀ j ((hf u₀).2.2 ▸ hj)
  -- new roles of an account are locked when they are given
  | standing k f hkey hsuper hf hversion hroles =>
      obtain ⟨u₀, hu₀, rfl | ⟨rfl, rfl⟩⟩ := modify_eq_some hu
      · exact hd i u hu₀ j hj
      · exact (hroles u₀ hu₀ j hj).elim (hd i u₀ hu₀ j) id
  | address k email =>
      obtain ⟨u₀, hu₀, rfl | ⟨-, rfl⟩⟩ := modify_eq_some hu
      · exact hd i u hu₀ j hj
      · exact hd i u₀ hu₀ j hj
  -- so are those of a new account
  | addUser k x hserial haddress hfresh hroles =>
      rcases insert_eq_some hu with hu | ⟨rfl, rfl⟩
      · exact hd i u hu j hj
      · exact (hroles j hj).2
  | deleteUser k => exact hd i u (deleteWhere_eq_some hu).1 j hj
  | addRole k x =>
      by_cases hk : j = k
      · subst hk
        exact ⟨x, Table.get?_insert_self _ _ _⟩
      · obtain ⟨r, hr⟩ := hd i u hu j hj
        exact ⟨r, (Table.get?_insert_of_ne _ hk _).trans hr⟩
  | role k r₀ f =>
      obtain ⟨r, hr⟩ := hd i u hu j hj
      refine ⟨if j = k then f r else r, ?_⟩
      show (d.roles.modify k f).get? j = _
      rw [Table.get?_modify, hr]
      split <;> rfl
  -- a role that goes is held by nobody
  | deleteRole k r₀ hkey hsuper hrow hsystem hunused =>
      obtain ⟨r, hr⟩ := hd i u hu j hj
      refine ⟨r, ?_⟩
      have hk : j ≠ k := by
        rintro rfl
        exact hunused i u hu hj
      show (d.roles.deleteWhere _).get? j = _
      rw [Table.get?_deleteWhere, hr, Option.filter_some, decide_eq_false hk]
      rfl
  | _ => exact hd i u hu j hj

theorem session (h : Move K d d') {id : ℕ} {x : Session} (hx : d.sessions.get? id = some x) :
    d'.sessions.get? id = some x ∨ .key (.session id) ∈ K := by
  cases h with
  | addSession i y hserial hfresh =>
      refine Or.inl ((Table.get?_insert_of_ne _ ?_ _).trans hx)
      rintro rfl
      rw [hfresh] at hx
      cases hx
  | modifySessions ids f hkey =>
      by_cases hi : id ∈ ids
      · exact Or.inr (hkey id hi)
      · left
        show (d.sessions.updateWhere _ f).get? id = _
        rw [Table.get?_updateWhere, hx]
        simp [hi]
  | deleteSessions ids hkey =>
      by_cases hi : id ∈ ids
      · exact Or.inr (hkey id hi)
      · left
        show (d.sessions.deleteWhere _).get? id = _
        rw [Table.get?_deleteWhere, hx]
        simp [hi]
  | _ => exact Or.inl hx

/-- A session that is there was there, unless it is new. -/
theorem session_was (h : Move K d d') {id : ℕ} {x : Session}
    (hx : d'.sessions.get? id = some x) :
    (∃ x₀, d.sessions.get? id = some x₀) ∨ .serial id ∈ K := by
  cases h with
  | addSession i y hserial hfresh =>
      rcases insert_eq_some hx with hx | ⟨rfl, rfl⟩
      · exact Or.inl ⟨x, hx⟩
      · exact Or.inr hserial
  | modifySessions ids f =>
      obtain ⟨x₀, hx₀, -⟩ := updateWhere_eq_some hx
      exact Or.inl ⟨x₀, hx₀⟩
  | deleteSessions ids => exact Or.inl ⟨x, (deleteWhere_eq_some hx).1⟩
  | _ => exact Or.inl ⟨x, hx⟩

/-- What the journal says of the code of a user changes only under the lock of the user. -/
theorem codeOfUser (h : Move K d d') (userId : ℕ) :
    lastWord (Event.codeOfUser userId) d'.journal = lastWord (Event.codeOfUser userId) d.journal ∨
      .key (.user userId) ∈ K := by
  -- an event about another user
  have hsilent : ∀ (e : Event) (id : ℕ), .key (.user id) ∈ K →
      (id ≠ userId → e.codeOfUser userId = none) →
      lastWord (Event.codeOfUser userId) (d.journal ++ [e]) =
        lastWord (Event.codeOfUser userId) d.journal ∨ .key (.user userId) ∈ K := by
    intro e id hkey he
    by_cases hid : id = userId
    · exact Or.inr (hid ▸ hkey)
    · exact Or.inl (lastWord_concat_of_none (he hid))
  cases h with
  | record e h huser =>
      by_cases he : e.codeOfUser userId = none
      · exact Or.inl (lastWord_concat_of_none he)
      · exact Or.inr (huser userId he)
  | issueCode i r now hserial huser => exact hsilent _ r.userId huser fun hid => if_neg hid
  | reissueCode i r r' now hkey huser hrow hsame =>
      refine hsilent _ r.userId huser fun hid => if_neg ?_
      injection hsame with hsame
      injection hsame with hsame _
      rw [hsame]
      exact hid
  | invite => exact Or.inl (lastWord_concat_of_none rfl)
  | _ => exact Or.inl rfl

theorem reset (h : Move K d d') (id : ℕ) :
    d'.resets.get? id = d.resets.get? id ∨ .key (.reset id) ∈ K := by
  cases h with
  | putReset i r hkey =>
      by_cases hi : id = i
      · exact Or.inr (hi ▸ hkey)
      · exact Or.inl (Table.get?_insert_of_ne _ hi _)
  | deleteResets ids hkey =>
      by_cases hi : id ∈ ids
      · exact Or.inr (hkey id hi)
      · left
        show (d.resets.deleteWhere _).get? id = _
        rw [Table.get?_deleteWhere]
        cases d.resets.get? id with
        | none => rfl
        | some r => simp [hi]
  | _ => exact Or.inl rfl

theorem request (h : Move K d d') {id : ℕ} {r : EmailChangeRequest}
    (hr : d.emailChanges.get? id = some r) :
    d'.emailChanges.get? id = some r ∨ .key (.emailChange id) ∈ K := by
  cases h with
  | issueCode i r' now hserial huser hfresh =>
      refine Or.inl ((Table.get?_insert_of_ne _ ?_ _).trans hr)
      rintro rfl
      rw [hfresh] at hr
      cases hr
  | reissueCode i r₀ r' now hkey =>
      by_cases hi : id = i
      · exact Or.inr (hi ▸ hkey)
      · exact Or.inl ((Table.get?_modify_of_ne _ hi _).trans hr)
  | failCode i hkey =>
      by_cases hi : id = i
      · exact Or.inr (hi ▸ hkey)
      · exact Or.inl ((Table.get?_modify_of_ne _ hi _).trans hr)
  | deleteCodes ids hkey =>
      by_cases hi : id ∈ ids
      · exact Or.inr (hkey id hi)
      · left
        show (d.emailChanges.deleteWhere _).get? id = _
        rw [Table.get?_deleteWhere, hr]
        simp [hi]
  | _ => exact Or.inl hr

/-- A request that is there was there, for the same change, unless it is new. -/
theorem requested (h : Move K d d') {id : ℕ} {r : EmailChangeRequest}
    (hr : d'.emailChanges.get? id = some r) :
    (∃ r₀, d.emailChanges.get? id = some r₀ ∧ r.identity = r₀.identity) ∨
      .serial id ∈ K ∧ d.emailChanges.get? id = none ∧ d'.Born id r.identity ∧
        .key (.user r.userId) ∈ K := by
  cases h with
  | issueCode i r' now hserial huser hfresh =>
      rcases insert_eq_some hr with hr | ⟨rfl, rfl⟩
      · exact Or.inl ⟨r, hr, rfl⟩
      · exact Or.inr ⟨hserial, hfresh, Db.born_record.mpr (Or.inr rfl), huser⟩
  | reissueCode i r₀ r' now hkey huser hrow hsame =>
      obtain ⟨r₁, hr₁, rfl | ⟨rfl, rfl⟩⟩ := modify_eq_some hr
      · exact Or.inl ⟨r, hr₁, rfl⟩
      · exact Or.inl ⟨r₀, hrow, hsame⟩
  | failCode i hkey =>
      obtain ⟨r₁, hr₁, rfl | ⟨-, rfl⟩⟩ := modify_eq_some hr
      · exact Or.inl ⟨r, hr₁, rfl⟩
      · exact Or.inl ⟨r₁, hr₁, rfl⟩
  | deleteCodes ids => exact Or.inl ⟨r, (deleteWhere_eq_some hr).1, rfl⟩
  | _ => exact Or.inl ⟨r, hr, rfl⟩

theorem invitation (h : Move K d d') {id : ℕ} {i : Invitation}
    (hi : d.invitations.get? id = some i) :
    d'.invitations.get? id = some i ∨ .key (.invitation id) ∈ K := by
  cases h with
  | invite j x hserial haddress hfresh =>
      refine Or.inl ((Table.get?_insert_of_ne _ ?_ _).trans hi)
      rintro rfl
      rw [hfresh] at hi
      cases hi
  | invitations p f hkey =>
      cases hp : p id i with
      | true => exact Or.inr (hkey id i hp)
      | false =>
          left
          show (d.invitations.updateWhere p f).get? id = _
          rw [Table.get?_updateWhere, hi, Option.map_some, hp]
          rfl
  | deleteInvitation j hkey =>
      by_cases hj : id = j
      · exact Or.inr (hj ▸ hkey)
      · left
        show (d.invitations.deleteWhere _).get? id = _
        rw [Table.get?_deleteWhere, hi, Option.filter_some, decide_eq_false hj]
        rfl
  | _ => exact Or.inl hi

/-- An invitation that is there was there, to the same account, unless it is new. -/
theorem invited (h : Move K d d') {id : ℕ} {i : Invitation}
    (hi : d'.invitations.get? id = some i) :
    (∃ i₀, d.invitations.get? id = some i₀ ∧ i.identity = i₀.identity) ∨
      .serial id ∈ K ∧ d.invitations.get? id = none ∧ d'.Born id i.identity ∧
        .key (.address i.email.canonical) ∈ K := by
  cases h with
  | invite j x hserial haddress hfresh =>
      rcases insert_eq_some hi with hi | ⟨rfl, rfl⟩
      · exact Or.inl ⟨i, hi, rfl⟩
      · exact Or.inr ⟨hserial, hfresh, Db.born_record.mpr (Or.inr rfl), haddress⟩
  | invitations p f hkey hf =>
      obtain ⟨i₀, hi₀, ⟨rfl, -⟩ | ⟨rfl, hp⟩⟩ := updateWhere_eq_some hi
      · exact Or.inl ⟨i, hi₀, rfl⟩
      · exact Or.inl ⟨i₀, hi₀, hf id i₀ hi₀ hp⟩
  | deleteInvitation j => exact Or.inl ⟨i, (deleteWhere_eq_some hi).1, rfl⟩
  | _ => exact Or.inl ⟨i, hi, rfl⟩

theorem role_stays (h : Move K d d') {id : ℕ} {r : Role} (hr : d.roles.get? id = some r) :
    d'.roles.get? id = some r ∨ .key (.role id) ∈ K ∧ r.systemKey = none := by
  cases h with
  | addRole i x hserial hsuper hfresh =>
      refine Or.inl ((Table.get?_insert_of_ne _ ?_ _).trans hr)
      rintro rfl
      rw [hfresh] at hr
      cases hr
  | role i r₀ f hkey hsuper hrow hsystem =>
      by_cases hi : id = i
      · subst hi
        cases hrow.symm.trans hr
        exact Or.inr ⟨hkey, hsystem⟩
      · exact Or.inl ((Table.get?_modify_of_ne _ hi _).trans hr)
  | deleteRole i r₀ hkey hsuper hrow hsystem =>
      by_cases hi : id = i
      · subst hi
        cases hrow.symm.trans hr
        exact Or.inr ⟨hkey, hsystem⟩
      · left
        show (d.roles.deleteWhere _).get? id = _
        rw [Table.get?_deleteWhere, hr, Option.filter_some, decide_eq_false hi]
        rfl
  | _ => exact Or.inl hr

theorem roles (h : Move K d d') : d'.roles = d.roles ∨ .key (.role superRole) ∈ K := by
  cases h with
  | addRole i x hserial hsuper => exact Or.inr hsuper
  | role i r f hkey hsuper => exact Or.inr hsuper
  | deleteRole i r hkey hsuper => exact Or.inr hsuper
  | _ => exact Or.inl rfl

theorem role_was (h : Move K d d') {id : ℕ} {r : Role} (hr : d'.roles.get? id = some r) :
    (∃ r₀, d.roles.get? id = some r₀ ∧ r.systemKey = r₀.systemKey) ∨
      .serial id ∈ K ∧ d.roles.get? id = none ∧ r.systemKey = none := by
  cases h with
  | addRole i x hserial hsuper hfresh hsystem =>
      rcases insert_eq_some hr with hr | ⟨rfl, rfl⟩
      · exact Or.inl ⟨r, hr, rfl⟩
      · exact Or.inr ⟨hserial, hfresh, hsystem⟩
  | role i r₀ f hkey hsuper hrow hsystem hf =>
      obtain ⟨r₁, hr₁, rfl | ⟨-, rfl⟩⟩ := modify_eq_some hr
      · exact Or.inl ⟨r, hr₁, rfl⟩
      · exact Or.inl ⟨r₁, hr₁, hf r₁⟩
  | deleteRole i => exact Or.inl ⟨r, (deleteWhere_eq_some hr).1, rfl⟩
  | _ => exact Or.inl ⟨r, hr, rfl⟩

theorem task (h : Move K d d') {id : ℕ} {t : MailTask} (ht : d'.outbox.get? id = some t) :
    (∃ t₀, d.outbox.get? id = some t₀) ∨ .serial id ∈ K := by
  cases h with
  | mail i x hserial =>
      rcases insert_eq_some ht with ht | ⟨rfl, rfl⟩
      · exact Or.inl ⟨t, ht⟩
      · exact Or.inr hserial
  | supersede p now code =>
      obtain ⟨t₀, ht₀, -⟩ := updateWhere_eq_some ht
      exact Or.inl ⟨t₀, ht₀⟩
  | _ => exact Or.inl ⟨t, ht⟩

theorem born (h : Move K d d') {id : ℕ} {x : (Name × Email × List ℕ) ⊕ (ℕ × Email × Email)}
    (hx : d.Born id x) : d'.Born id x := by
  obtain ⟨e, he, hid⟩ := hx
  exact ⟨e, h.journal.subset he, hid⟩

/-- What was created was created before, unless its number is new. -/
theorem was_born (h : Move K d d')
    (hd : ∀ i r, d.emailChanges.get? i = some r → d.Born i r.identity) {id : ℕ}
    {x : (Name × Email × List ℕ) ⊕ (ℕ × Email × Email)} (hx : d'.Born id x) :
    d.Born id x ∨ .serial id ∈ K ∧ ∀ y, ¬ d.Born id y ∧ (d'.Born id y → y = x) := by
  cases h with
  | record e he => exact Or.inl ((Db.born_record_of_none he).mp hx)
  | issueCode i r now hserial huser hfresh hunborn =>
      rcases Db.born_record.mp hx with hx | hx
      · exact Or.inl hx
      · cases hx
        refine Or.inr ⟨hserial, fun y => ⟨hunborn y, fun hy => ?_⟩⟩
        rcases Db.born_record.mp hy with hy | hy
        · exact absurd hy (hunborn y)
        · cases hy
          rfl
  | reissueCode i r r' now hkey huser hrow hsame =>
      rcases Db.born_record.mp hx with hx | hx
      · exact Or.inl hx
      · cases hx
        have hborn := hd _ r hrow
        rw [← hsame] at hborn
        exact Or.inl hborn
  | invite i x hserial haddress hfresh hunborn =>
      rcases Db.born_record.mp hx with hx | hx
      · exact Or.inl hx
      · cases hx
        refine Or.inr ⟨hserial, fun y => ⟨hunborn y, fun hy => ?_⟩⟩
        rcases Db.born_record.mp hy with hy | hy
        · exact absurd hy (hunborn y)
        · cases hy
          rfl
  | _ => exact Or.inl hx

/-- **A write keeps what is valid**, where its own numbers are drawn. -/
theorem valid (h : Move K d d') (hK : ∀ m, Resource.serial m ∈ K → m < n) (hd : d.Valid n) :
    d'.Valid n := by
  refine hd.mono (fun i x hx => ?_) (fun i x hx => ?_) (fun i x hx => ?_) (fun i x hx => ?_)
    (fun i x hx => ?_) (fun i x hx => ?_) (fun i x hx => h.born hx) (fun i x hx => ?_) ?_
    fun i u hu j hj => h.held hd.held hu hj
  · exact (h.account hx).imp (fun ⟨u₀, hu₀, _⟩ => ⟨u₀, hu₀⟩) fun hnew => hK i hnew.1
  · exact (h.session_was hx).imp_right (hK i)
  · exact (h.requested hx).imp_right fun hnew => hnew.2.2.1
  · exact (h.invited hx).imp_right fun hnew => hnew.2.2.1
  · exact (h.role_was hx).imp_right fun hnew => ⟨hK i hnew.1, hnew.2.2⟩
  · exact (h.task hx).imp_right (hK i)
  · exact (h.was_born hd.request hx).imp_right fun hnew => ⟨hK i hnew.1, fun y => (hnew.2 y).2⟩
  · obtain ⟨r, hr, hkey⟩ := hd.super
    rcases h.role_stays hr with hr' | ⟨-, hnone⟩
    · exact ⟨r, hr', hkey⟩
    · rw [hnone] at hkey
      cases hkey

end Move

end Valid

end BindPlane.Auth
