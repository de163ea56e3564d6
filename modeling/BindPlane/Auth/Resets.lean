import BindPlane.Auth.Counting

/-!
# Password resets

A reset is looked for before it is locked, its account before it is read, and whoever replaces it
meanwhile deletes its row or overwrites it.  What stands in the end is what the user expects of the
link in a mail: it is good for one password (`resets_le`), as long as it is the last one that was
asked for and nothing else has changed the account since (`reset_authorised`).

**Two moments.**  A call presents its link at one moment and commits at another one, and between the
two the user may have asked for the next link.  Which of them counts is not a matter of taste: the
locks decide, and the theorems speak of the moment of the commit.
-/

namespace BindPlane.Auth

open ReadCommitted
open Mail (Bytes MailKind)

variable {box : Sealer} {now : Instant} {K : Set (Resource Key)} {d d' : Db} {op : Op} {r : Reply}
  {s : Accounts}

/-- **A reset that is completed**: what it finds in `d` and leaves in `d'`. -/
structure ResetBy (d d' : Db) (now : Instant) (selector digest : Bytes) (hash : String)
    (userId : ℕ) (user : User) : Prop where
  account : d.users.get? userId = some user
  enabled : user.enabled = true
  /-- It was asked for, and neither replaced, used nor taken away since. -/
  issued : ∃ earlier between expiresAt,
    d.journal = earlier ++ .resetIssued userId selector digest expiresAt :: between ∧
      (∀ e ∈ between, e.resetOf userId = none) ∧ now < expiresAt
  password : d'.users = d.users.modify userId (User.setPassword hash)
  used : d'.resets.get? userId = none
  said : d'.journal = d.journal ++ [.passwordReset userId selector digest hash]
  /-- One mail is queued, a notice for the user. -/
  notice : ∃ id task, d.outbox.get? id = none ∧ d'.outbox.get? id = some task ∧
    task.kind = .passwordChanged ∧ task.userId = some userId ∧
      ∀ j, j ≠ id → d.outbox.get? j = none → d'.outbox.get? j = none

/-- Only an issue says that a reset has been issued. -/
theorem Event.resetOf_issued {e : Event} {userId : ℕ} {i : Issue}
    (h : e.resetOf userId = some (some i)) :
    e = .resetIssued userId i.selector i.verifierDigest i.expiresAt := by
  cases e with
  | resetIssued id selector digest expiresAt =>
      obtain ⟨rfl, hi⟩ := Option.ite_none_right_eq_some.mp h
      cases hi
      rfl
  | passwordReset => cases (Option.ite_none_right_eq_some.mp h).2
  | passwordChanged => cases (Option.ite_none_right_eq_some.mp h).2
  | emailChanged => cases (Option.ite_none_right_eq_some.mp h).2
  | deactivated => cases (Option.ite_none_right_eq_some.mp h).2
  | deleted => cases (Option.ite_none_right_eq_some.mp h).2
  | _ => cases h

theorem Effect.resetBy {nonce selector digest : Bytes} {hash locale : String} {ttl : ℕ}
    (h : Effect box now K d (.completePasswordReset nonce selector digest hash locale ttl) d' r)
    (hd : d.Recorded) : ∃ userId user, ResetBy d d' now selector digest hash userId user := by
  cases h with
  | read _ _ hop => cases hop
  | passwordReset _ _ _ _ _ _ userId user row t t₁ t₂ id task huser hkey hrow hselector hdigest ht
      hexpiry hmail =>
      refine ⟨userId, user, huser.row, huser.enabled, ?_, rfl, ?_, rfl, id, task, hmail.fresh, ?_, ?_,
        ?_, fun j hj hnone => ?_⟩
      · obtain ⟨earlier, e, between, hjournal, he, hsilent⟩ :=
          lastWord_eq_some.mp (hd.reset userId row hrow)
        rw [Event.resetOf_issued he] at hjournal
        refine ⟨earlier, between, row.expiresAt, ?_, hsilent, ht.1.trans_lt hexpiry⟩
        rw [hjournal, ← hselector, ← hdigest]
        rfl
      · show (d.resets.deleteWhere _).get? userId = none
        rw [Table.get?_deleteWhere]
        cases d.resets.get? userId with
        | none => rfl
        | some x => simp [Option.filter_some]
      · exact Table.get?_insert_self _ _ _
      · obtain ⟨systemName, ciphertext, queuedAt, -, -, rfl⟩ := hmail.row
        rfl
      · obtain ⟨systemName, ciphertext, queuedAt, -, -, rfl⟩ := hmail.row
        rfl
      · refine (Table.get?_insert_of_ne _ hj _).trans ?_
        show (d.outbox.updateWhere _ _).get? j = none
        rw [Table.get?_updateWhere, hnone]
        rfl

/-- **A completed reset is authorised**: it presents what was last issued for the account, not yet
expired when it began, and the account is as it was in between; it sets the password it was given,
takes the authority away and queues one notice.

The link is found before anything is locked, and may have been replaced or used by the time the
locks are held.  `ResetBy` speaks of the state at the commit: there what was presented is still the
last pair that was issued for the account, unexpired and not taken away.  The same commit deletes
the row, sets the password together with a new version, and queues one notice. -/
theorem Accounts.Reachable.reset_authorised (h : Accounts.Reachable box s) {t : ℕ}
    {nonce selector digest : Bytes} {hash locale : String} {ttl : ℕ}
    (ht : s.txns t =
      .committed (.completePasswordReset nonce selector digest hash locale ttl) now r) :
    ∃ s₁ s₂ userId user,
      s.CommitOf box t (.completePasswordReset nonce selector digest hash locale ttl) now r s₁ s₂ ∧
        ResetBy s₁.db s₂.db now selector digest hash userId user := by
  obtain ⟨s₁, s₂, hcommit, heffect⟩ := h.commit ht
  obtain ⟨userId, user, hreset⟩ := heffect.resetBy hcommit.reachable.recorded
  exact ⟨s₁, s₂, userId, user, hcommit, hreset⟩

namespace Demo

/-- A reset that is asked for and completed. -/
def recovery : List Op :=
  [.requestPasswordReset [0] "admin@test.invalid" [1] [2] 1000 "en", .elapse 10,
    .completePasswordReset [3] [1] [2] "second" "en" 100]

theorem recovery_completed : outcome (after recovery) 2 =
    some (.completePasswordReset [3] [1] [2] "second" "en" 100, 10, .changedAt 10) := by
  decide +kernel

end Demo

/-- The reset of the run above. -/
theorem recovery_authorised : ∃ s₁ s₂ userId user,
    (Demo.after Demo.recovery).CommitOf Demo.sealer 2
      (.completePasswordReset [3] [1] [2] "second" "en" 100) 10 (.changedAt 10) s₁ s₂ ∧
        ResetBy s₁.db s₂.db 10 [1] [2] "second" userId user :=
  (Demo.after_reachable Demo.recovery).reset_authorised
    (Demo.outcome_committed Demo.recovery_completed)

/-- A reset is asked for with a selector and a digest. -/
def Event.issuesReset (selector digest : Bytes) : Event → Bool
  | .resetIssued _ selector' digest' _ => selector' = selector && digest' = digest
  | _ => false

/-- A reset is completed with them. -/
def Event.usesReset (selector digest : Bytes) : Event → Bool
  | .passwordReset _ selector' digest' _ => selector' = selector && digest' = digest
  | _ => false

/-- A lawful journal has no more completions than requests. -/
theorem usesReset_le {journal : List Event} (h : Lawful Event.Allowed journal)
    (selector digest : Bytes) :
    journal.countP (Event.usesReset selector digest) ≤
      journal.countP (Event.issuesReset selector digest) := by
  refine h.uses_le (w := fun userId e => (e.resetOf userId).map (Option.map fun i : Issue =>
    (i.selector, i.verifierDigest))) (a := (selector, digest)) (fun before e he huses => ?_)
    (fun e userId hword => ?_) fun e i j hi hj => ?_
  · cases e with
    | passwordReset userId =>
        simp only [Event.usesReset, Bool.and_eq_true, decide_eq_true_eq] at huses
        obtain ⟨rfl, rfl⟩ := huses
        obtain ⟨expiresAt, hissued⟩ := he
        refine ⟨userId, ?_, ?_⟩
        · rw [lastWord_map, hissued]
          rfl
        · show ((if userId = userId then some none else none).map _ : Option (Option _)) = _
          rw [if_pos rfl]
          rfl
    | _ => cases huses
  · obtain ⟨word, hword, hsame⟩ := Option.map_eq_some_iff.mp hword
    obtain ⟨i, rfl, hi⟩ := Option.map_eq_some_iff.mp hsame
    rw [Event.resetOf_issued hword]
    obtain ⟨rfl, rfl⟩ := Prod.mk.inj hi
    simp [Event.issuesReset]
  · obtain ⟨word, hi, hsame⟩ := Option.map_eq_some_iff.mp hi
    obtain ⟨issue, rfl, -⟩ := Option.map_eq_some_iff.mp hsame
    obtain ⟨word', hj, hsame'⟩ := Option.map_eq_some_iff.mp hj
    obtain ⟨issue', rfl, -⟩ := Option.map_eq_some_iff.mp hsame'
    have he := (Event.resetOf_issued hi).symm.trans (Event.resetOf_issued hj)
    injection he

/-- **Every link is good for one password**: as many resets have completed with a selector and a
digest at most as requests that were given them.

The count is over the journal and not over the rows, which are deleted.  An account has one reset at
a time, so that between two uses of the same pair stands an issue of it; and each issue is the
commit of a request that was given the pair.  `ts` and `rs` are transactions, so the theorem bounds
what any number of concurrent calls can make of one link. -/
theorem Accounts.Reachable.resets_le (h : Accounts.Reachable box s) {selector digest : Bytes}
    {ts : List ℕ} (hts : ts.Nodup)
    (hcompleted : ∀ t ∈ ts, ∃ nonce hash locale ttl now r, s.txns t =
      .committed (.completePasswordReset nonce selector digest hash locale ttl) now r) :
    ∃ rs : List ℕ, rs.Nodup ∧ ts.length ≤ rs.length ∧
      ∀ t ∈ rs, ∃ nonce canonical ttl locale now r, s.txns t =
        .committed (.requestPasswordReset nonce canonical selector digest ttl locale) now r := by
  obtain ⟨x, hrun⟩ := id h
  have hle := Accounts.Reachable.committed_le (p := Event.usesReset selector digest)
    (c := fun op _ _ => ∃ nonce hash locale ttl,
      op = .completePasswordReset nonce selector digest hash locale ttl) ⟨x, .refl⟩ hrun
    (fun hc hop => ?_) hts (fun t _ => (Sys.init_idle _ _ t).committed) fun t ht => ?_
  · obtain ⟨rs, hrs, hrequests, hall⟩ :=
      Accounts.Reachable.exists_committed (p := Event.issuesReset selector digest) ⟨x, .refl⟩ hrun
    refine ⟨rs, hrs, ?_, fun t ht => ?_⟩
    · have huses := usesReset_le h.recorded.lawful selector digest
      have hfirst : (Accounts.initial x).db.journal.countP (Event.issuesReset selector digest) = 0 :=
        rfl
      omega
    · obtain ⟨-, op, now, r, ht, e, htells, he⟩ := hall t ht
      cases e with
      | resetIssued =>
          cases op with
          | requestPasswordReset nonce canonical selector' digest' ttl locale =>
              simp only [Op.tells, Event.issuesReset, Bool.and_eq_true, decide_eq_true_eq]
                at htells he
              obtain ⟨rfl, rfl⟩ := htells
              obtain ⟨rfl, rfl⟩ := he
              exact ⟨nonce, canonical, ttl, locale, now, r, ht⟩
          | _ => cases htells
      | _ => cases he
  · obtain ⟨nonce, hash, locale, ttl, rfl⟩ := hop
    cases hc with
    | read _ _ hop => cases hop
    | passwordReset => exact ⟨_, rfl, by simp [Event.usesReset]⟩
  · obtain ⟨nonce, hash, locale, ttl, now, r, ht⟩ := hcompleted t ht
    exact ⟨_, now, r, ht, nonce, hash, locale, ttl, rfl⟩

/-- The one of the run above is that of one request. -/
theorem recovery_le : ∃ rs : List ℕ, rs.Nodup ∧ [2].length ≤ rs.length ∧
    ∀ t ∈ rs, ∃ nonce canonical ttl locale now r, (Demo.after Demo.recovery).txns t =
      .committed (.requestPasswordReset nonce canonical [1] [2] ttl locale) now r := by
  refine (Demo.after_reachable Demo.recovery).resets_le (List.nodup_singleton 2) fun t ht => ?_
  obtain rfl := List.mem_singleton.mp ht
  exact ⟨[3], "second", "en", 100, 10, .changedAt 10,
    Demo.outcome_committed Demo.recovery_completed⟩

end BindPlane.Auth
