import BindPlane.Auth.Counting

/-!
# Accepted invitations

Whoever accepts an invitation finds it by its selector, before it has any lock, and reads no more
than its digest and its expiry behind the locks.  So a link that is presented while it is replaced
may be found by the old selector; what counts is the digest, and that is the one of the last mail
(`invitation_authorised`).  An invitation ends once, and every link is good for one account
(`accepted_le`).
-/

namespace BindPlane.Auth

open ReadCommitted
open Mail (Bytes)

variable {box : Sealer} {now : Instant} {K : Set (Resource Key)} {d d' : Db} {op : Op} {r : Reply}
  {s : Accounts}

/-- **An invitation that is accepted**: what it finds in `d` and leaves in `d'`. -/
structure AcceptedBy (d d' : Db) (now : Instant) (selector digest : Bytes) (hash locale : String)
    (id userId : ℕ) (i : Invitation) : Prop where
  row : d.invitations.get? id = some i
  /-- The digest is that of the last mail, and the invitation has not ended since. -/
  issued : ∃ earlier between e, d.journal = earlier ++ e :: between ∧
    e.invitationOf id = some (some ⟨i.selector, digest, i.expiresAt⟩) ∧
      (∀ e ∈ between, e.invitationOf id = none) ∧ now < i.expiresAt
  /-- It is for whom it was created for, and with these roles. -/
  created : ∃ selector digest expiresAt,
    .invited id i.name i.email i.roles selector digest expiresAt ∈ d.journal
  roles : i.roles ≠ [] ∧ ∀ j ∈ i.roles, ∃ role, d.roles.get? j = some role
  fresh : d.users.get? userId = none
  account : d'.users = d.users.insert userId
    ⟨i.name, i.email, hash, 1, none, some (localeOr locale), i.roles⟩
  gone : d'.invitations.get? id = none
  said : d'.journal = d.journal ++ [.accepted id userId selector digest]

/-- An invitation that is in the journal with the identity of a row was created with it. -/
theorem Db.Born.invited {id : ℕ} {i : Invitation} (h : d.Born id i.identity) :
    ∃ selector digest expiresAt,
      .invited id i.name i.email i.roles selector digest expiresAt ∈ d.journal := by
  obtain ⟨e, he, hidentity⟩ := h
  cases e with
  | invited _ _ _ _ selector digest expiresAt =>
      cases hidentity
      exact ⟨selector, digest, expiresAt, he⟩
  | codeIssued => cases hidentity
  | _ => cases hidentity

theorem Effect.acceptedBy {selector digest : Bytes} {hash locale : String} {n : ℕ}
    (h : Effect box now K d (.completeInvitation selector digest hash locale) d' r)
    (hv : d.Valid n) (hd : d.Recorded) :
    ∃ id userId i, AcceptedBy d d' now selector digest hash locale id userId i := by
  cases h with
  | read _ _ hop => cases hop
  | accepted _ _ _ _ id i t t₁ userId hkey hrow hdigest ht hexpiry hroles hlocked haddress hnone
      hserial hfresh =>
      refine ⟨id, userId, i, hrow, ?_, (hv.invitation id i hrow).invited,
        ⟨hroles, fun j hj => (hlocked j hj).2⟩, hfresh, rfl, ?_, rfl⟩
      · obtain ⟨earlier, e, between, hjournal, he, hsilent⟩ :=
          lastWord_eq_some.mp (hd.invitation id i hrow)
        refine ⟨earlier, between, e, hjournal, ?_, hsilent, ht.1.trans_lt hexpiry⟩
        rw [he, ← hdigest]
        rfl
      · show (d.invitations.deleteWhere _).get? id = none
        rw [Table.get?_deleteWhere, hrow, Option.filter_some]
        simp

/-- Nothing is said of an invitation that has ended. -/
theorem invitationOf_final {id : ℕ} {before : List Event} {e : Event}
    (he : Event.Allowed before e) (hended : lastWord (Event.invitationOf id) before = some none) :
    e.invitationOf id = none := by
  cases e with
  | invited i =>
      refine if_neg ?_
      rintro rfl
      rw [show lastWord (Event.invitationOf i) before = none from he] at hended
      cases hended
  | reinvited i =>
      refine if_neg ?_
      rintro rfl
      obtain ⟨x, hx⟩ := he
      rw [hx] at hended
      cases hended
  | revoked i =>
      refine if_neg ?_
      rintro rfl
      obtain ⟨x, hx⟩ := he
      rw [hx] at hended
      cases hended
  | accepted i =>
      refine if_neg ?_
      rintro rfl
      obtain ⟨x, hx, -⟩ := he
      rw [hx] at hended
      cases hended
  | _ => rfl

/-- **An accepted invitation is authorised**: it presents the digest of the last mail, not yet
expired when it began, of an invitation that has not ended; the account is the one it was created
for, and nothing is ever said of the invitation again.

`AcceptedBy` has what the mail promised: the name, the address and the roles of the invitation, a
digest that is the one of the last mail, and an instant before its expiry.  The journal behind the
commit is split off as `later`, and nothing in it is about this invitation: it is not sent again,
not revoked and not accepted a second time. -/
theorem Accounts.Reachable.invitation_authorised (h : Accounts.Reachable box s) {t : ℕ}
    {selector digest : Bytes} {hash locale : String}
    (ht : s.txns t = .committed (.completeInvitation selector digest hash locale) now r) :
    ∃ s₁ s₂ id userId i later,
      s.CommitOf box t (.completeInvitation selector digest hash locale) now r s₁ s₂ ∧
        AcceptedBy s₁.db s₂.db now selector digest hash locale id userId i ∧
          s.db.journal = s₂.db.journal ++ later ∧ ∀ e ∈ later, e.invitationOf id = none := by
  obtain ⟨s₁, s₂, hcommit, heffect⟩ := h.commit ht
  obtain ⟨id, userId, i, hby⟩ :=
    heffect.acceptedBy hcommit.reachable.valid hcommit.reachable.recorded
  have hreach₂ : Accounts.Reachable box s₂ := hcommit.reachable.steps (.single ⟨_, hcommit.step⟩)
  obtain ⟨later, hlater⟩ := hreach₂.journal_prefix hcommit.after
  refine ⟨s₁, s₂, id, userId, i, later, hcommit, hby, hlater.symm, ?_⟩
  have hlawful := h.recorded.lawful
  rw [← hlater, hby.said, List.append_assoc] at hlawful
  exact hlawful.silent (fun _ _ => invitationOf_final) (if_pos rfl)

namespace Demo

/-- An invitation that is sent twice and accepted. -/
def hiring : List Op :=
  [.createInvitation [0] 3 clerk clerkEmail "en" [1] [1] [2] 1000,
    .resendInvitation [3] 3 4 "en" [4] [5] 1000, .elapse 10,
    .completeInvitation [4] [5] "hash" "en"]

theorem hiring_accepted : outcome (after hiring) 3 =
    some (.completeInvitation [4] [5] "hash" "en", 10, .done) := by
  decide +kernel

end Demo

/-- The invitation of the run above. -/
theorem hiring_authorised : ∃ s₁ s₂ id userId i later,
    (Demo.after Demo.hiring).CommitOf Demo.sealer 3
      (.completeInvitation [4] [5] "hash" "en") 10 .done s₁ s₂ ∧
      AcceptedBy s₁.db s₂.db 10 [4] [5] "hash" "en" id userId i ∧
        (Demo.after Demo.hiring).db.journal = s₂.db.journal ++ later ∧
          ∀ e ∈ later, e.invitationOf id = none :=
  (Demo.after_reachable Demo.hiring).invitation_authorised
    (Demo.outcome_committed Demo.hiring_accepted)

/-! ## Counting -/

/-- A mail goes out with a digest. -/
def Event.issuesInvitation (digest : Bytes) : Event → Bool
  | .invited _ _ _ _ _ digest' _ | .reinvited _ _ digest' _ => digest' = digest
  | _ => false

/-- An invitation is accepted with it. -/
def Event.acceptsWith (digest : Bytes) : Event → Bool
  | .accepted _ _ _ digest' => digest' = digest
  | _ => false

/-- An issue is a mail, and that of one invitation. -/
theorem Event.invitationOf_issued {e : Event} {id : ℕ} {i : Issue}
    (h : e.invitationOf id = some (some i)) :
    e.issuesInvitation i.verifierDigest = true ∧ ∀ j, e.invitationOf j ≠ none → j = id := by
  cases e with
  | invited id' =>
      obtain ⟨rfl, hi⟩ := Option.ite_none_right_eq_some.mp h
      cases hi
      refine ⟨decide_eq_true rfl, fun j hj => ?_⟩
      by_contra hne
      exact hj (if_neg fun h => hne h.symm)
  | reinvited id' =>
      obtain ⟨rfl, hi⟩ := Option.ite_none_right_eq_some.mp h
      cases hi
      refine ⟨decide_eq_true rfl, fun j hj => ?_⟩
      by_contra hne
      exact hj (if_neg fun h => hne h.symm)
  | revoked => cases (Option.ite_none_right_eq_some.mp h).2
  | accepted => cases (Option.ite_none_right_eq_some.mp h).2
  | _ => cases h

theorem acceptsWith_le {journal : List Event} (h : Lawful Event.Allowed journal) (digest : Bytes) :
    journal.countP (Event.acceptsWith digest) ≤ journal.countP (Event.issuesInvitation digest) := by
  refine h.uses_le (w := fun id e => (e.invitationOf id).map (Option.map Issue.verifierDigest))
    (a := digest) (fun before e he huses => ?_) (fun e id hword => ?_) fun e i j hi hj => ?_
  · cases e with
    | accepted id _ _ digest' =>
        obtain rfl := of_decide_eq_true huses
        obtain ⟨i, hword, rfl⟩ := he
        refine ⟨id, ?_, ?_⟩
        · rw [lastWord_map, hword]
          rfl
        · show ((if id = id then some none else none).map _ : Option (Option _)) = _
          rw [if_pos rfl]
          rfl
    | _ => cases huses
  · obtain ⟨word, hissue, hsame⟩ := Option.map_eq_some_iff.mp hword
    obtain ⟨i, rfl, rfl⟩ := Option.map_eq_some_iff.mp hsame
    exact (Event.invitationOf_issued hissue).1
  · obtain ⟨word, hi, hsame⟩ := Option.map_eq_some_iff.mp hi
    obtain ⟨issue, rfl, -⟩ := Option.map_eq_some_iff.mp hsame
    obtain ⟨word', hj, -⟩ := Option.map_eq_some_iff.mp hj
    exact ((Event.invitationOf_issued hi).2 j (by rw [hj]; exact nofun)).symm

/-- **Every link is good for one account**: as many invitations have been accepted with a digest at
most as mails have gone out with it.

As with the resets this is a count over the journal.  An acceptance with a digest needs an issue of
the digest that was not followed by another acceptance of the same invitation, and an issue is the
commit of a creation or of a resend.  Secrets are drawn at random in the code, so that in practice
the bound is one; here two mails with the same digest are allowed for. -/
theorem Accounts.Reachable.accepted_le (h : Accounts.Reachable box s) {digest : Bytes}
    {ts : List ℕ} (hts : ts.Nodup)
    (haccepted : ∀ t ∈ ts, ∃ selector hash locale now r,
      s.txns t = .committed (.completeInvitation selector digest hash locale) now r) :
    ∃ rs : List ℕ, rs.Nodup ∧ ts.length ≤ rs.length ∧
      ∀ t ∈ rs, (∃ nonce actorId name email locale roleIds selector ttl now r, s.txns t =
        .committed (.createInvitation nonce actorId name email locale roleIds selector digest ttl)
          now r) ∨
        ∃ nonce actorId id locale selector ttl now r, s.txns t =
          .committed (.resendInvitation nonce actorId id locale selector digest ttl) now r := by
  obtain ⟨x, hrun⟩ := id h
  -- each of the commits has recorded an acceptance of its own
  have hle := Accounts.Reachable.committed_le (p := Event.acceptsWith digest)
    (c := fun op _ _ => ∃ selector hash locale,
      op = .completeInvitation selector digest hash locale)
    ⟨x, .refl⟩ hrun (fun hc hop => ?_) hts (fun t _ => (Sys.init_idle _ _ t).committed)
    fun t ht => ?_
  · obtain ⟨rs, hrs, hmails, hall⟩ :=
      Accounts.Reachable.exists_committed (p := Event.issuesInvitation digest) ⟨x, .refl⟩ hrun
    refine ⟨rs, hrs, ?_, fun t ht => ?_⟩
    · -- the journal has no more acceptances than issues, and begins without any
      have haccepts := acceptsWith_le h.recorded.lawful digest
      have hfirst : (Accounts.initial x).db.journal.countP (Event.issuesInvitation digest) = 0 :=
        rfl
      omega
    · -- an issue was recorded by a creation or by a resend
      obtain ⟨-, op, now, r, ht, e, htells, he⟩ := hall t ht
      cases e with
      | invited =>
          cases op with
          | createInvitation nonce actorId name email locale roleIds selector digest' ttl =>
              simp only [Op.tells, Event.issuesInvitation, Bool.and_eq_true, decide_eq_true_eq]
                at htells he
              obtain ⟨-, rfl⟩ := htells
              subst he
              exact Or.inl ⟨nonce, actorId, name, email, locale, roleIds, selector, ttl, now, r, ht⟩
          | _ => cases htells
      | reinvited =>
          cases op with
          | resendInvitation nonce actorId id locale selector digest' ttl =>
              simp only [Op.tells, Event.issuesInvitation, Bool.and_eq_true, decide_eq_true_eq]
                at htells he
              obtain ⟨-, rfl⟩ := htells
              subst he
              exact Or.inr ⟨nonce, actorId, id, locale, selector, ttl, now, r, ht⟩
          | _ => cases htells
      | _ => cases he
  · obtain ⟨selector, hash, locale, rfl⟩ := hop
    cases hc with
    | read _ _ hop => cases hop
    | accepted => exact ⟨_, rfl, by simp [Event.acceptsWith]⟩
  · obtain ⟨selector, hash, locale, now, r, ht⟩ := haccepted t ht
    exact ⟨_, now, r, ht, selector, hash, locale, rfl⟩

/-- The link of the run above, and the mails with it. -/
theorem hiring_le : ∃ rs : List ℕ, rs.Nodup ∧ [3].length ≤ rs.length ∧
    ∀ t ∈ rs, (∃ nonce actorId name email locale roleIds selector ttl now r,
      (Demo.after Demo.hiring).txns t =
        .committed (.createInvitation nonce actorId name email locale roleIds selector [5] ttl)
          now r) ∨
      ∃ nonce actorId id locale selector ttl now r, (Demo.after Demo.hiring).txns t =
        .committed (.resendInvitation nonce actorId id locale selector [5] ttl) now r := by
  refine (Demo.after_reachable Demo.hiring).accepted_le (List.nodup_singleton 3) fun t ht => ?_
  obtain rfl := List.mem_singleton.mp ht
  exact ⟨[4], "hash", "en", 10, .done, Demo.outcome_committed Demo.hiring_accepted⟩

end BindPlane.Auth
