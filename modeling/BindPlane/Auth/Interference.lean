import BindPlane.Auth.Moves

/-!
# What the others leave alone

While a transaction holds its locks `K`, the others write under locks of their own (`Others`).  So
its rows stay as it has read them, an address that was free stays free, and behind the lock of the
system role nobody's roles and standing move.

**Three protocols.**  The transactions of the service exclude each other in three ways: by the lock
of a row, for what concerns that row; by the lock of the system role, for what somebody may do; by
the advisory lock of an address, for who has it.  The moves of the others are classified by these
locks, and each kind of fact has its lemma.
-/

namespace BindPlane.Auth

open ReadCommitted
open Mail (Bytes MailTask)

/-- **The writes of the others**, none of them under a lock of `K`. -/
abbrev Others (K : Set (Resource Key)) : Db → Db → Prop :=
  Relation.ReflTransGen fun d d' => ∃ K', Disjoint K K' ∧ Move K' d d'

namespace Others

variable {K : Set (Resource Key)} {d d' : Db}

theorem of_moves {K' : Set (Resource Key)} (hK : Disjoint K K') (h : Moves K' d d') :
    Others K d d' :=
  Relation.ReflTransGen.mono (fun _ _ hmove => ⟨K', hK, hmove⟩) _ _ h

/-- What no move of the others breaks. -/
theorem keeps {P : Db → Prop} (h : Others K d d')
    (hmove : ∀ {K' d d'}, Disjoint K K' → Move K' d d' → P d → P d') (hd : P d) : P d' := by
  induction h with
  | refl => exact hd
  | tail _ hstep ih =>
      obtain ⟨K', hK, hstep⟩ := hstep
      exact hmove hK hstep ih

/-- Read backwards. -/
theorem kept {P : Db → Prop} (h : Others K d d')
    (hmove : ∀ {K' d d'}, Disjoint K K' → Move K' d d' → P d' → P d) (hd : P d') : P d := by
  induction h with
  | refl => exact hd
  | tail _ hstep ih =>
      obtain ⟨K', hK, hstep⟩ := hstep
      exact ih (hmove hK hstep hd)

theorem clock_le (h : Others K d d') : d.clock ≤ d'.clock :=
  h.keeps (P := fun x => d.clock ≤ x.clock) (fun _ hm hle => hle.trans hm.clock_le) le_rfl

theorem journal (h : Others K d d') : d.journal <+: d'.journal :=
  h.keeps (P := fun x => d.journal <+: x.journal) (fun _ hm hle => hle.trans hm.journal)
    List.prefix_rfl

theorem born (h : Others K d d') {id : ℕ} {x : (Name × Email × List ℕ) ⊕ (ℕ × Email × Email)}
    (hx : d.Born id x) : d'.Born id x :=
  h.keeps (P := fun y => y.Born id x) (fun _ hm hy => hm.born hy) hx

/-! ## Rows -/

theorem user (h : Others K d d') {id : ℕ} (hkey : .key (.user id) ∈ K) {u : User}
    (hu : d.users.get? id = some u) : d'.users.get? id = some u :=
  h.keeps (P := fun x => x.users.get? id = some u)
    (fun hK hm hx => (hm.user hx).resolve_right fun hk => Set.disjoint_left.mp hK hkey hk) hu

theorem reset (h : Others K d d') {id : ℕ} (hkey : .key (.reset id) ∈ K) :
    d'.resets.get? id = d.resets.get? id :=
  h.keeps (P := fun x => x.resets.get? id = d.resets.get? id)
    (fun hK hm hx => ((hm.reset id).resolve_right fun hk =>
      Set.disjoint_left.mp hK hkey hk).trans hx) rfl

theorem session (h : Others K d d') {id : ℕ} (hkey : .key (.session id) ∈ K) {x : Session}
    (hx : d.sessions.get? id = some x) : d'.sessions.get? id = some x :=
  h.keeps (P := fun y => y.sessions.get? id = some x)
    (fun hK hm hy => (hm.session hy).resolve_right fun hk => Set.disjoint_left.mp hK hkey hk) hx

theorem request (h : Others K d d') {id : ℕ} (hkey : .key (.emailChange id) ∈ K)
    {r : EmailChangeRequest} (hr : d.emailChanges.get? id = some r) :
    d'.emailChanges.get? id = some r :=
  h.keeps (P := fun x => x.emailChanges.get? id = some r)
    (fun hK hm hx => (hm.request hx).resolve_right fun hk => Set.disjoint_left.mp hK hkey hk) hr

theorem invitation (h : Others K d d') {id : ℕ} (hkey : .key (.invitation id) ∈ K)
    {i : Invitation} (hi : d.invitations.get? id = some i) :
    d'.invitations.get? id = some i :=
  h.keeps (P := fun x => x.invitations.get? id = some i)
    (fun hK hm hx => (hm.invitation hx).resolve_right fun hk =>
      Set.disjoint_left.mp hK hkey hk) hi

/-! ## Addresses -/

/-- Whoever has an address had it before, while its lock is held. -/
theorem occupant (h : Others K d d') {canonical : String}
    (haddress : .key (.address canonical) ∈ K) {id : ℕ}
    (hin : ∃ u, d'.users.get? id = some u ∧ u.email.canonical = canonical) :
    ∃ u, d.users.get? id = some u ∧ u.email.canonical = canonical := by
  refine h.kept (P := fun x => ∃ u, x.users.get? id = some u ∧ u.email.canonical = canonical)
    (fun {K' d₁ d₂} hK hm hx => ?_) hin
  obtain ⟨u, hu, rfl⟩ := hx
  have hfree := Set.disjoint_left.mp hK haddress
  rcases hm.account hu with ⟨u₀, hu₀, hsame⟩ | hnew
  · exact ⟨u₀, hu₀, by rw [hsame.resolve_right hfree]⟩
  · exact absurd hnew.2.2 hfree

/-- Whoever is invited under an address was invited before, while its lock is held. -/
theorem invitee (h : Others K d d') {canonical : String}
    (haddress : .key (.address canonical) ∈ K) {id : ℕ}
    (hin : ∃ i, d'.invitations.get? id = some i ∧ i.email.canonical = canonical) :
    ∃ i, d.invitations.get? id = some i ∧ i.email.canonical = canonical := by
  refine h.kept
    (P := fun x => ∃ i, x.invitations.get? id = some i ∧ i.email.canonical = canonical)
    (fun {K' d₁ d₂} hK hm hx => ?_) hin
  obtain ⟨i, hi, rfl⟩ := hx
  rcases hm.invited hi with ⟨i₀, hi₀, hsame⟩ | hnew
  · refine ⟨i₀, hi₀, ?_⟩
    injection hsame with hsame
    injection hsame with _ hsame
    injection hsame with hsame _
    rw [hsame]
  · exact absurd hnew.2.2.2 (Set.disjoint_left.mp hK haddress)

/-- A request of a user was there before, while the row of the user is locked. -/
theorem requested (h : Others K d d') {userId : ℕ} (hkey : .key (.user userId) ∈ K) {id : ℕ}
    (hin : ∃ r, d'.emailChanges.get? id = some r ∧ r.userId = userId) :
    ∃ r, d.emailChanges.get? id = some r ∧ r.userId = userId := by
  refine h.kept (P := fun x => ∃ r, x.emailChanges.get? id = some r ∧ r.userId = userId)
    (fun {K' d₁ d₂} hK hm hx => ?_) hin
  obtain ⟨r, hr, rfl⟩ := hx
  rcases hm.requested hr with ⟨r₀, hr₀, hsame⟩ | hnew
  · refine ⟨r₀, hr₀, ?_⟩
    injection hsame with hsame
    injection hsame with hsame _
    exact hsame.symm
  · exact absurd hnew.2.2.2 (Set.disjoint_left.mp hK hkey)

/-- What the journal says of the code of a user, while the row of the user is locked. -/
theorem codeOfUser (h : Others K d d') {userId : ℕ} (hkey : .key (.user userId) ∈ K) :
    lastWord (Event.codeOfUser userId) d'.journal =
      lastWord (Event.codeOfUser userId) d.journal :=
  h.keeps (P := fun x => lastWord (Event.codeOfUser userId) x.journal =
    lastWord (Event.codeOfUser userId) d.journal)
    (fun hK hm hx => ((hm.codeOfUser userId).resolve_right fun hk =>
      Set.disjoint_left.mp hK hkey hk).trans hx) rfl

/-! ## Roles -/

/-- No role moves while the system role is locked. -/
theorem roles (h : Others K d d') (hsuper : .key (.role superRole) ∈ K) : d'.roles = d.roles :=
  h.keeps (P := fun x => x.roles = d.roles)
    (fun hK hm hx => (hm.roles.resolve_right fun hk =>
      Set.disjoint_left.mp hK hsuper hk).trans hx) rfl

/-- A role that is locked stays there. -/
theorem role (h : Others K d d') {id : ℕ} (hkey : .key (.role id) ∈ K) {r : Role}
    (hr : d.roles.get? id = some r) : d'.roles.get? id = some r :=
  h.keeps (P := fun x => x.roles.get? id = some r)
    (fun hK hm hx => (hm.role_stays hx).resolve_right fun hk =>
      Set.disjoint_left.mp hK hkey hk.1) hr

/-- Nobody gets a role while it and the system role are locked. -/
theorem holder (h : Others K d d') (hsuper : .key (.role superRole) ∈ K) {id : ℕ}
    (hkey : .key (.role id) ∈ K) {i : ℕ}
    (hin : ∃ u, d'.users.get? i = some u ∧ id ∈ u.roles) :
    ∃ u, d.users.get? i = some u ∧ id ∈ u.roles := by
  refine h.kept (P := fun x => ∃ u, x.users.get? i = some u ∧ id ∈ u.roles)
    (fun {K' d₁ d₂} hK hm hx => ?_) hin
  obtain ⟨u, hu, hid⟩ := hx
  rcases hm.holder hu hid with hwas | hk | hk
  · exact hwas
  · exact absurd hk (Set.disjoint_left.mp hK hsuper)
  · exact absurd hk (Set.disjoint_left.mp hK hkey)

/-- Nor do anybody's roles and standing. -/
theorem standing (h : Others K d d') (hsuper : .key (.role superRole) ∈ K) {id : ℕ} {u : User}
    (hu : d.users.get? id = some u) :
    ∃ u', d'.users.get? id = some u' ∧ u'.roles = u.roles ∧ u'.disabledAt = u.disabledAt := by
  refine h.keeps (P := fun x => ∃ u', x.users.get? id = some u' ∧ u'.roles = u.roles ∧
    u'.disabledAt = u.disabledAt) (fun {K' d₁ d₂} hK hm hx => ?_) ⟨u, hu, rfl, rfl⟩
  obtain ⟨u', hu', hroles, hdisabled⟩ := hx
  obtain ⟨u'', hu'', hroles', hdisabled'⟩ :=
    (hm.unmoved hu').resolve_right fun hk => Set.disjoint_left.mp hK hsuper hk
  exact ⟨u'', hu'', hroles'.trans hroles, hdisabled'.trans hdisabled⟩

/-! ## Numbers -/

theorem no_user (h : Others K d d') {id : ℕ} (hserial : .serial id ∈ K)
    (hnone : d.users.get? id = none) : d'.users.get? id = none := by
  refine h.keeps (P := fun x => x.users.get? id = none) (fun {K' d₁ d₂} hK hm hx => ?_) hnone
  rw [Option.eq_none_iff_forall_ne_some]
  intro u hu
  rcases hm.account hu with ⟨u₀, hu₀, -⟩ | hnew
  · rw [hx] at hu₀
    cases hu₀
  · exact Set.disjoint_left.mp hK hserial hnew.1

theorem no_task (h : Others K d d') {id : ℕ} (hserial : .serial id ∈ K)
    (hnone : d.outbox.get? id = none) : d'.outbox.get? id = none := by
  refine h.keeps (P := fun x => x.outbox.get? id = none) (fun {K' d₁ d₂} hK hm hx => ?_) hnone
  rw [Option.eq_none_iff_forall_ne_some]
  intro t ht
  rcases hm.task ht with ⟨t₀, ht₀⟩ | hk
  · rw [hx] at ht₀
    cases ht₀
  · exact Set.disjoint_left.mp hK hserial hk

/-- What is not there and has never been.

A number that is drawn is fresh, and stays so until the transaction that has drawn it writes its
row.  That it has never been is a matter of the identities which the journal keeps. -/
structure Fresh (d : Db) (id : ℕ) : Prop where
  session : d.sessions.get? id = none
  emailChange : d.emailChanges.get? id = none
  invitation : d.invitations.get? id = none
  role : d.roles.get? id = none
  unborn : ∀ x, ¬ d.Born id x
  requests : ∀ i r, d.emailChanges.get? i = some r → d.Born i r.identity

theorem fresh (h : Others K d d') {id : ℕ} (hserial : .serial id ∈ K) (hd : Fresh d id) :
    Fresh d' id := by
  refine h.keeps (P := fun x => Fresh x id) (fun {K' d₁ d₂} hK hm hx => ?_) hd
  have hfree := Set.disjoint_left.mp hK hserial
  refine ⟨?_, ?_, ?_, ?_, fun y hy => ?_, fun i r hr => ?_⟩
  · rw [Option.eq_none_iff_forall_ne_some]
    intro y hy
    rcases hm.session_was hy with ⟨y₀, hy₀⟩ | hnew
    · rw [hx.session] at hy₀
      cases hy₀
    · exact hfree hnew
  · rw [Option.eq_none_iff_forall_ne_some]
    intro r hr
    rcases hm.requested hr with ⟨r₀, hr₀, -⟩ | hnew
    · rw [hx.emailChange] at hr₀
      cases hr₀
    · exact hfree hnew.1
  · rw [Option.eq_none_iff_forall_ne_some]
    intro i hi
    rcases hm.invited hi with ⟨i₀, hi₀, -⟩ | hnew
    · rw [hx.invitation] at hi₀
      cases hi₀
    · exact hfree hnew.1
  · rw [Option.eq_none_iff_forall_ne_some]
    intro r hr
    rcases hm.role_was hr with ⟨r₀, hr₀, -⟩ | hnew
    · rw [hx.role] at hr₀
      cases hr₀
    · exact hfree hnew.1
  · rcases hm.was_born hx.requests hy with hy | hnew
    · exact hx.unborn y hy
    · exact hfree hnew.1
  · rcases hm.requested hr with ⟨r₀, hr₀, hsame⟩ | hnew
    · rw [hsame]
      exact hm.born (hx.requests i r₀ hr₀)
    · exact hnew.2.2.1

end Others

/-- A number that has not been drawn. -/
theorem Db.Valid.fresh {d : Db} {n : ℕ} (h : d.Valid n) : Others.Fresh d n := by
  have hnone : ∀ {ρ : Type} (t : Table ρ), (∀ id r, t.get? id = some r → id < n) →
      t.get? n = none := by
    intro ρ t ht
    rw [Option.eq_none_iff_forall_ne_some]
    exact fun r hr => absurd (ht n r hr) (lt_irrefl n)
  exact ⟨hnone _ h.sessions, hnone _ h.emailChanges, hnone _ h.invitations, hnone _ h.roles,
    fun x hx => absurd (h.born n x hx) (lt_irrefl n), h.request⟩

/-- Any number of writes keep what is valid. -/
theorem Moves.valid {K : Set (Resource Key)} {d d' : Db} {n : ℕ} (h : Moves K d d')
    (hK : ∀ m, Resource.serial m ∈ K → m < n) (hd : d.Valid n) : d'.Valid n := by
  induction h with
  | refl => exact hd
  | tail _ hmove ih => exact hmove.valid hK ih

end BindPlane.Auth
