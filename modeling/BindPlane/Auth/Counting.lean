import BindPlane.Auth.KeptService

/-!
# Who has said it

Every event of the journal is of one commit, and it says what its operation was given (`Op.tells`).
So the operations that have committed can be counted in the journal: no more of a kind than there
are events of the kind (`committed_le`), and for every event of a kind one that has said it
(`exists_committed`).

Transactions are identified by their numbers, and two transactions that were given the same
arguments are two.  So what is counted is what was done, and not what it was done with.
-/

namespace BindPlane.Auth

open ReadCommitted

variable {box : Sealer} {now : Instant} {K : Set (Resource Key)} {d d' : Db} {op : Op} {r : Reply}
  {s s' : Accounts}

/-- What a commit of an operation may say.

What an event says of a use is what the request has passed: the events that are counted can be told
from the operation alone, without the state it finds. -/
def Op.tells : Op → Event → Bool
  | .requestPasswordReset _ _ selector digest _ _, .resetIssued _ selector' digest' _ =>
      selector' = selector && digest' = digest
  | .completePasswordReset _ selector digest hash _ _, .passwordReset _ selector' digest' hash' =>
      selector' = selector && digest' = digest && hash' = hash
  | .changePassword _ userId _ _ _ _, .passwordChanged id => id = userId
  | .requestEmailChange _ userId email selector digest _ _,
      .codeIssued _ id _ email' selector' digest' _ _ =>
      id = userId && email' = email && selector' = selector && digest' = digest
  | .resendEmailChange _ userId selector digest _ _, .codeIssued _ id _ _ selector' digest' _ _ =>
      id = userId && selector' = selector && digest' = digest
  | .completeEmailChange _ userId requestId _ _ _, .wrongCode i id =>
      i = requestId && id = userId
  | .completeEmailChange _ userId requestId digest _ _, .emailChanged i id digest' =>
      i = requestId && id = userId && digest' = digest
  | .mutateUserLifecycle _ userId _ action, .deactivated id => id = userId && action = .deactivate
  | .mutateUserLifecycle _ userId _ action, .reactivated id => id = userId && action = .reactivate
  | .mutateUserLifecycle _ userId _ action, .deleted id => id = userId && action = .delete
  | .createInvitation _ _ name email _ roleIds selector digest _,
      .invited _ name' email' roles selector' digest' _ =>
      name' = name && email' = email && roles = roleIds && selector' = selector && digest' = digest
  | .resendInvitation _ _ id _ selector digest _, .reinvited i selector' digest' _ =>
      i = id && selector' = selector && digest' = digest
  | .revokeInvitation _ id, .revoked i => i = id
  | .completeInvitation selector digest _ _, .accepted _ _ selector' digest' =>
      selector' = selector && digest' = digest
  | _, _ => false

/-- **A commit says one thing at most**, and nothing but what its operation may say. -/
theorem Effect.tells (h : Effect box now K d op d' r) :
    d'.journal = d.journal ∨ ∃ e, d'.journal = d.journal ++ [e] ∧ op.tells e = true := by
  cases h with
  | resetIssued => exact Or.inr ⟨_, rfl, by simp [Op.tells]⟩
  | passwordReset => exact Or.inr ⟨_, rfl, by simp [Op.tells]⟩
  | passwordChanged => exact Or.inr ⟨_, rfl, by simp [Op.tells]⟩
  | codeIssued => exact Or.inr ⟨_, rfl, by simp [Op.tells, EmailChangeRequest.issued, newRequest]⟩
  | codeReissued =>
      rename_i hr _ _ _
      refine Or.inr ⟨_, rfl, ?_⟩
      simp [Op.tells, EmailChangeRequest.issued, EmailChangeRequest.reissue, hr.user]
  | wrongCode => exact Or.inr ⟨_, rfl, by simp [Op.tells]⟩
  | lastWrongCode => exact Or.inr ⟨_, rfl, by simp [Op.tells]⟩
  | emailChanged => exact Or.inr ⟨_, rfl, by simp [Op.tells]⟩
  | deactivated => exact Or.inr ⟨_, rfl, by simp [Op.tells]⟩
  | reactivated => exact Or.inr ⟨_, rfl, by simp [Op.tells]⟩
  | deleted => exact Or.inr ⟨_, rfl, by simp [Op.tells]⟩
  | invited => exact Or.inr ⟨_, rfl, by simp [Op.tells, Invitation.issued, newInvitation]⟩
  | reinvited => exact Or.inr ⟨_, rfl, by simp [Op.tells]⟩
  | revoked => exact Or.inr ⟨_, rfl, by simp [Op.tells]⟩
  | accepted => exact Or.inr ⟨_, rfl, by simp [Op.tells]⟩
  | _ => exact Or.inl rfl

/-- What has been said stays said. -/
theorem Effect.journal_prefix (h : Effect box now K d op d' r) : d.journal <+: d'.journal :=
  (Others.of_moves (Set.empty_disjoint _) h.moves).journal

/-- The journal of a run only grows. -/
theorem Accounts.Reachable.journal_prefix (h : Accounts.Reachable box s)
    (hs : Sys.Steps (body box) s s') : s.db.journal <+: s'.db.journal :=
  h.sound.steps_rel body_kept (P := fun d d' => d.journal <+: d'.journal) (fun _ => List.prefix_rfl)
    (fun h h' => h.trans h') (fun hc => Effect.journal_prefix hc) hs

/-- **No more operations of a kind have committed than there are events of the kind.**

Each commit of the kind appends an event of the kind, and no commit removes one.  The transactions
are different ones, so their events stand at different places of the journal. -/
theorem Accounts.Reachable.committed_le {p : Event → Bool} {c : Op → Instant → Reply → Prop}
    (h : Accounts.Reachable box s) (hs : Sys.Steps (body box) s s')
    (hc : ∀ {op now K d d' r}, Effect box now K d op d' r → c op now r →
      ∃ e, d'.journal = d.journal ++ [e] ∧ p e = true) {ts : List ℕ} (hts : ts.Nodup)
    (hbefore : ∀ t ∈ ts, ∀ op now r, s.txns t ≠ .committed op now r)
    (hafter : ∀ t ∈ ts, ∃ op now r, s'.txns t = .committed op now r ∧ c op now r) :
    ts.length + s.db.journal.countP p ≤ s'.db.journal.countP p := by
  refine Sound.length_le (m := fun d => d.journal.countP p) body_kept (fun hcommit => ?_)
    (fun hcommit hkind => ?_) h.sound hs hts hbefore hafter
  · exact (Effect.journal_prefix hcommit).sublist.countP_le
  · obtain ⟨e, he, hp⟩ := hc hcommit hkind
    rw [he, List.countP_append, List.countP_singleton, if_pos hp]
    exact Nat.lt_succ_self _

/-- **For every event of a kind an operation has committed that has said it.** -/
theorem Accounts.Reachable.exists_committed {p : Event → Bool} (h : Accounts.Reachable box s)
    (hs : Sys.Steps (body box) s s') :
    ∃ ts : List ℕ, ts.Nodup ∧ s'.db.journal.countP p ≤ s.db.journal.countP p + ts.length ∧
      ∀ t ∈ ts, (∀ op now r, s.txns t ≠ .committed op now r) ∧ ∃ op now r,
        s'.txns t = .committed op now r ∧ ∃ e, op.tells e = true ∧ p e = true := by
  have htells : ∀ {op now K d d' r}, Effect box now K d op d' r →
      d'.journal.countP p ≤ d.journal.countP p ∨ d'.journal.countP p = d.journal.countP p + 1 ∧
        ∃ e, op.tells e = true ∧ p e = true := by
    intro op now K d d' r hc
    rcases hc.tells with hsame | ⟨e, hsame, he⟩
    · exact Or.inl (hsame ▸ le_rfl)
    · rw [hsame, List.countP_append, List.countP_singleton]
      by_cases hp : p e = true
      · exact Or.inr ⟨by rw [if_pos hp], e, he, hp⟩
      · exact Or.inl (by rw [if_neg hp, Nat.add_zero])
  obtain ⟨ts, hts, hall, hle⟩ := h.sound.exists_committed (m := fun d : Db => d.journal.countP p)
    (c := fun op _ _ => ∃ e, op.tells e = true ∧ p e = true) body_kept
    (fun hc => (htells hc).elim (fun hle => hle.trans (Nat.le_succ _)) fun h => h.1.le)
    (fun hc hnone => (htells hc).resolve_right fun h => hnone h.2) hs
  exact ⟨ts, hts, hle, hall⟩

end BindPlane.Auth
