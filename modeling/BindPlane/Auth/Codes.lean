import BindPlane.Auth.Counting
import BindPlane.Auth.Versions

/-!
# The codes of a change of address

A code is short enough to be guessed, so that what protects an account is how often it can be:

* `guesses_le`: no more than five wrong codes are counted behind one code, whoever presents them and
  however many do so at once;
* `codes_spaced`: the next code is not issued before a minute has passed, or the last one has
  expired, unless it has been used;
* `change_authorised`: a change that is made presents the code that was issued last for it.

**Why counting.**  A bound on guesses cannot be read off the row, in which a new code sets the count
back.  So what is bounded is the number of wrong codes between two states of a run, by the number of
codes that were issued between them.
-/

namespace BindPlane.Auth

open ReadCommitted
open Mail (Bytes MailTask)

variable {box : Sealer} {now : Instant} {K : Set (Resource Key)} {d d' : Db} {op : Op} {r : Reply}
  {s s' : Accounts} {userId id : ℕ} {x : EmailChangeRequest}

/-- A wrong code is counted. -/
def Op.guesses (userId : ℕ) : Op → Reply → Prop
  | .completeEmailChange _ id _ _ _ _, .code answer =>
      id = userId ∧ (answer = .wrong ∨ answer = .exceeded)
  | _, _ => False

/-- A code is issued. -/
def Op.issuesCode (userId : ℕ) : Op → Prop
  | .requestEmailChange _ id _ _ _ _ _ | .resendEmailChange _ id _ _ _ _ => id = userId
  | _ => False

/-- A change is made. -/
def Op.changesAddress (userId : ℕ) : Op → Reply → Prop
  | .completeEmailChange _ id _ _ _ _, .code (.changed _) => id = userId
  | _, _ => False

/-! ## Wrong codes -/

/-- A counted code is in the journal. -/
theorem Effect.guessed (h : Effect box now K d op d' r) (hop : op.guesses userId r) :
    ∃ e, d'.journal = d.journal ++ [e] ∧ e.wrongFor userId = true := by
  cases h with
  | wrongCode =>
      obtain ⟨rfl, -⟩ := hop
      exact ⟨_, rfl, decide_eq_true rfl⟩
  | lastWrongCode =>
      obtain ⟨rfl, -⟩ := hop
      exact ⟨_, rfl, decide_eq_true rfl⟩
  | emailChanged =>
      obtain ⟨-, hanswer | hanswer⟩ := hop
      · cases hanswer
      · cases hanswer
  | read op r hop' =>
      cases op with
      | completeEmailChange => cases hop'
      | _ => exact hop.elim
  | _ => exact hop.elim

/-- **Five guesses a code**: between any two states as many wrong codes have been counted at most as
five for every code issued in between, and five more.

What is counted are commits that answered with a wrong code, between two states of a run.  The count
of a request is in its row and is written under the lock of the row, so that concurrent guesses see
each other; a new code sets it back to zero.  Hence the bound: five for the code that was valid at
the first state, and five for each that was issued since. -/
theorem Accounts.Reachable.guesses_le (h : Accounts.Reachable box s)
    (hs : Sys.Steps (body box) s s') {ts : List ℕ} (hts : ts.Nodup)
    (hguesses : ∀ t ∈ ts, (∀ op now r, s.txns t ≠ .committed op now r) ∧
      ∃ op now r, s'.txns t = .committed op now r ∧ op.guesses userId r) :
    ∃ rs : List ℕ, rs.Nodup ∧ ts.length ≤ emailChangeAttempts * (rs.length + 1) ∧
      ∀ t ∈ rs, (∀ op now r, s.txns t ≠ .committed op now r) ∧
        ∃ op now r, s'.txns t = .committed op now r ∧ op.issuesCode userId := by
  obtain ⟨rs, hrs, hissued, hall⟩ :=
    h.exists_committed (p := Event.issuesCode userId) hs
  refine ⟨rs, hrs, ?_, fun t ht => ?_⟩
  · have hguessed := h.committed_le hs (fun hc hop => Effect.guessed hc hop) hts
      (fun t ht => (hguesses t ht).1) fun t ht => (hguesses t ht).2
    obtain ⟨during, hduring⟩ := h.journal_prefix hs
    have hlawful := (h.steps hs).recorded.lawful
    rw [← hduring] at hlawful
    rw [← hduring, List.countP_append] at hguessed hissued
    have hbound : ∀ before e, Event.Allowed before e → e.wrongFor userId = true →
        tallySince (Event.issuesCode userId) (Event.wrongFor userId) before <
          emailChangeAttempts := by
      intro before e he hwrong
      cases e with
      | wrongCode id i =>
          obtain rfl : i = userId := of_decide_eq_true hwrong
          exact he.choose_spec.2.2
      | _ => cases hwrong
    have hcount := hlawful.count_le hbound
    refine (Nat.le_of_add_le_add_right (hguessed.trans_eq (Nat.add_comm _ _))).trans
      (hcount.trans (Nat.mul_le_mul_left _ ?_))
    omega
  · obtain ⟨hnew, op, now, r, ht, e, htells, he⟩ := hall t ht
    refine ⟨hnew, op, now, r, ht, ?_⟩
    cases e with
    | codeIssued id i =>
        obtain rfl : i = userId := of_decide_eq_true he
        cases op with
        | requestEmailChange =>
            simp only [Op.tells, Bool.and_eq_true, decide_eq_true_eq] at htells
            exact htells.1.1.1.symm
        | resendEmailChange =>
            simp only [Op.tells, Bool.and_eq_true, decide_eq_true_eq] at htells
            exact htells.1.1.symm
        | _ => cases htells
    | _ => cases he

namespace Demo

/-- Another address is asked for. -/
def asking : List Op := [.requestEmailChange [0] 3 clerkEmail [1] [2] 0 "en"]

/-- A wrong code, and another code a minute later. -/
def guessing : List Op :=
  [.completeEmailChange [0] 3 4 [9] "en" 0, .elapse 60000000,
    .resendEmailChange [0] 3 [3] [4] 0 "en"]

theorem guessing_wrong : outcome (acts (after asking) 1 guessing) 1 =
    some (.completeEmailChange [0] 3 4 [9] "en" 0, 0, .code .wrong) := by decide +kernel

theorem guessing_le : ∃ rs : List ℕ, rs.Nodup ∧ [1].length ≤ emailChangeAttempts * (rs.length + 1) ∧
    ∀ t ∈ rs, (∀ op now r, (after asking).txns t ≠ .committed op now r) ∧
      ∃ op now r, (acts (after asking) 1 guessing).txns t = .committed op now r ∧
        op.issuesCode 3 := by
  refine (after_reachable asking).guesses_le (acts_steps _ _ guessing) (List.nodup_singleton 1)
    fun t ht => ?_
  obtain rfl := List.mem_singleton.mp ht
  exact ⟨outcome_none (by decide +kernel), _, _, _, outcome_committed guessing_wrong, rfl,
    Or.inl rfl⟩

end Demo

/-! ## The time between two codes -/

/-- **A code that is issued**, at `t`.

The moment is that at which the clock was read, behind the lock of the account and of the request
before.  It is what the journal keeps, since the row is deleted with the change. -/
structure IssuedBy (d d' : Db) (userId id : ℕ) (x : EmailChangeRequest) (t : Instant) : Prop where
  account : ∃ u, d.users.get? userId = some u ∧ d'.users.get? userId = some u
  user : x.userId = userId
  said : d'.journal = d.journal ++ [x.issued id t]
  resend : x.resendAfter = t + resendInterval
  expires : t ≤ x.expiresAt
  due : d.CodeDue userId t

theorem Effect.issuedBy (h : Effect box now K d op d' (.request id x)) (hd : d.Recorded)
    (hop : op.issuesCode userId) : ∃ t, IssuedBy d d' userId id x t := by
  have hd' := (h.recorded hd).lawful
  -- what the event says was allowed
  have hdue : ∀ t, d'.journal = d.journal ++ [x.issued id t] → x.userId = userId →
      d.CodeDue userId t := by
    intro t hsaid huser
    rw [hsaid] at hd'
    have hallowed := hd'.last.2.2
    rw [huser] at hallowed
    exact fun issuedAt expiresAt hissued => hallowed issuedAt expiresAt hissued
  cases h with
  | codeIssued =>
      rename_i user previous t _ _ _ _ huser _ _ _ _ _ _ _ _ _
      cases (show _ = userId from hop)
      exact ⟨t, ⟨user, huser.row, huser.row⟩, rfl, rfl, rfl, Nat.le_add_right _ _, hdue t rfl rfl⟩
  | codeReissued _ _ _ _ _ _ user _ row t _ _ _ _ huser hr =>
      cases (show _ = userId from hop)
      exact ⟨t, ⟨user, huser.row, huser.row⟩, hr.user, rfl, rfl, Nat.le_add_right _ _,
        hdue t rfl hr.user⟩
  | read op r hop' =>
      cases op with
      | _ => cases hop'

/-- The last code of a user, if it has not been used, is no older than `limit` allows. -/
def Db.CodeBehind (d : Db) (userId : ℕ) (limit : Instant) : Prop :=
  d.users.get? userId = none ∨ ∃ issuedAt expiresAt,
    lastWord (Event.codeOfUser userId) d.journal = some (some (issuedAt, expiresAt)) ∧
      limit ≤ min (issuedAt + resendInterval) expiresAt

/-- The word of a code. -/
theorem IssuedBy.lastWord {id : ℕ} {x : EmailChangeRequest} {t : Instant}
    (h : IssuedBy d d' userId id x t) :
    lastWord (Event.codeOfUser userId) d'.journal = some (some (t, x.expiresAt)) := by
  rw [h.said]
  exact lastWord_concat_of_some (if_pos h.user)

/-- A commit that does not use the code of a user leaves it behind `limit`. -/
theorem Effect.codeBehind {limit : Instant} (h : Effect box now K d op d' r) (hd : d.Recorded)
    (hserial : .serial userId ∉ K) (hop : ¬op.changesAddress userId r)
    (hbehind : d.CodeBehind userId limit) : d'.CodeBehind userId limit := by
  rcases hbehind with hnone | ⟨issuedAt, expiresAt, hword, hlimit⟩
  · exact Or.inl (h.no_user hserial hnone)
  -- most commits say nothing about a code of the user
  have hsame : lastWord (Event.codeOfUser userId) d'.journal =
      lastWord (Event.codeOfUser userId) d.journal → d'.CodeBehind userId limit := fun hsame =>
    Or.inr ⟨issuedAt, expiresAt, hsame.trans hword, hlimit⟩
  have hother : ∀ e : Event, e.codeOfUser userId = none → d'.journal = d.journal ++ [e] →
      d'.CodeBehind userId limit := fun e he hsaid =>
    hsame (by rw [hsaid, lastWord_concat_of_none he])
  -- a new code is issued when it is due, and so behind the limit as well
  have hissued : ∀ id x, r = .request id x → op.issuesCode userId → d'.CodeBehind userId limit := by
    rintro id x rfl hissues
    obtain ⟨t, hby⟩ := h.issuedBy hd hissues
    refine Or.inr ⟨t, x.expiresAt, hby.lastWord, le_min ?_ ?_⟩
    · exact hlimit.trans ((hby.due _ _ hword).trans (Nat.le_add_right _ _))
    · exact hlimit.trans ((hby.due _ _ hword).trans hby.expires)
  cases h with
  | codeIssued _ id =>
      by_cases hid : id = userId
      · exact hissued _ _ rfl hid
      · exact hother (.codeIssued ..) (if_neg hid) rfl
  | codeReissued _ id _ _ _ _ _ _ row _ _ _ _ _ _ hr =>
      by_cases hid : id = userId
      · exact hissued _ _ rfl hid
      · exact hother (.codeIssued ..) (if_neg fun hu => hid (hr.user.symm.trans hu)) rfl
  | emailChanged _ id => exact hother (.emailChanged ..) (if_neg hop) rfl
  | deleted _ id =>
      by_cases hid : id = userId
      · subst hid
        refine Or.inl ?_
        show (d.users.deleteWhere _).get? id = none
        rw [Table.get?_deleteWhere]
        cases d.users.get? id with
        | none => rfl
        | some u => simp [Option.filter_some]
      · exact hother (.deleted id) (if_neg hid) rfl
  | resetIssued => exact hother (.resetIssued ..) rfl rfl
  | passwordReset => exact hother (.passwordReset ..) rfl rfl
  | passwordChanged => exact hother (.passwordChanged _) rfl rfl
  | wrongCode => exact hother (.wrongCode ..) rfl rfl
  | lastWrongCode => exact hother (.wrongCode ..) rfl rfl
  | deactivated => exact hother (.deactivated _) rfl rfl
  | reactivated => exact hother (.reactivated _) rfl rfl
  | invited => exact hother (.invited ..) rfl rfl
  | reinvited => exact hother (.reinvited ..) rfl rfl
  | revoked => exact hother (.revoked _) rfl rfl
  | accepted => exact hother (.accepted ..) rfl rfl
  | _ => exact hsame rfl

/-- A code behind another one of its user. -/
theorem IssuedBy.spaced {s₁ s₂ s₃ s₄ : Accounts} {id' : ℕ} {x' : EmailChangeRequest} {t t' : Instant}
    (h₁ : Accounts.Reachable box s₁) (hstep : ∃ a, s₁.step (body box) a = some s₂)
    (hfirst : IssuedBy s₁.db s₂.db userId id x t) (hs : Sys.Steps (body box) s₂ s₃)
    (hsecond : IssuedBy s₃.db s₄.db userId id' x' t')
    (hnone : ∀ t op now r, s₃.txns t = .committed op now r →
      s₂.txns t = .committed op now r ∨ ¬op.changesAddress userId r) :
    min x.resendAfter x.expiresAt + resendInterval ≤ x'.resendAfter := by
  have h₂ : Accounts.Reachable box s₂ := h₁.steps (.single hstep)
  obtain ⟨u, hu, -⟩ := hfirst.account
  have hretired : s₂.Retired userId := Sys.steps_retired (.single hstep) (h₁.retired hu)
  have hbehind : s₃.db.CodeBehind userId (min x.resendAfter x.expiresAt) := by
    refine h₂.sound.steps_keep_where body_kept
      (P := fun d => d.CodeBehind userId (min x.resendAfter x.expiresAt)) (N := {userId})
      (c := fun op _ r => ¬op.changesAddress userId r) (fun hinv hserial hop hc hd => ?_) hs
      (fun i hi => Set.mem_singleton_iff.mp hi ▸ hretired) hnone ?_
    · exact Effect.codeBehind hc hinv.2 (hserial userId (Set.mem_singleton _)) hop hd
    · exact Or.inr ⟨t, x.expiresAt, hfirst.lastWord, by rw [hfirst.resend]⟩
  rw [hsecond.resend]
  refine Nat.add_le_add_right ?_ _
  rcases hbehind with hgone | ⟨issuedAt, expiresAt, hword, hlimit⟩
  · obtain ⟨v, hv, -⟩ := hsecond.account
    rw [hgone] at hv
    cases hv
  · exact hlimit.trans (hsecond.due _ _ hword)

/-- **Two codes of one user** are a minute apart, or the lifetime of the earlier one if that is
shorter, as long as none of them is used in between: whichever of two transactions was the first,
and however they were interleaved.

An account that has just changed its address may ask for the next code at once, and so the run
between the two states must contain no completed change.  Apart from that a code is followed by the
next one only when its `resendAfter` has passed, or when it has expired and the sweep, or the next
request, removes it.  Which of the two codes is the first is not known beforehand. -/
theorem Accounts.Reachable.codes_spaced (h : Accounts.Reachable box s)
    (hs : Sys.Steps (body box) s s') {t₁ t₂ : ℕ} (hne : t₁ ≠ t₂) {op₁ op₂ : Op}
    {now₁ now₂ : Instant} {id₁ id₂ : ℕ} {x₁ x₂ : EmailChangeRequest}
    (h₁ : s'.txns t₁ = .committed op₁ now₁ (.request id₁ x₁))
    (h₂ : s'.txns t₂ = .committed op₂ now₂ (.request id₂ x₂))
    (hop₁ : op₁.issuesCode userId) (hop₂ : op₂.issuesCode userId)
    (hnew₁ : ∀ op now r, s.txns t₁ ≠ .committed op now r)
    (hnew₂ : ∀ op now r, s.txns t₂ ≠ .committed op now r)
    (hnone : ∀ t op now r, s'.txns t = .committed op now r →
      s.txns t = .committed op now r ∨ ¬op.changesAddress userId r) :
    min x₁.resendAfter x₁.expiresAt + resendInterval ≤ x₂.resendAfter ∨
      min x₂.resendAfter x₂.expiresAt + resendInterval ≤ x₁.resendAfter := by
  -- what is used between two moments of the run
  have hbetween : ∀ {a b : Accounts}, Sys.Steps (body box) s a → Sys.Steps (body box) b s' →
      Accounts.Reachable box b → ∀ t op now r, b.txns t = .committed op now r →
      a.txns t = .committed op now r ∨ ¬op.changesAddress userId r := by
    intro a b ha hb hreach t op now r ht
    refine (hnone t op now r (hreach.sound.committed_stays body_kept hb ht)).imp_left fun hold => ?_
    exact h.sound.committed_stays body_kept ha hold
  rcases h.sound.committed body_kept hs h₁ with hold | ⟨a, a', hfirst⟩
  · exact absurd hold (hnew₁ _ _ _)
  have ha : Accounts.Reachable box a := h.steps hfirst.before
  have hrun : Sys.Steps (body box) s a' := hfirst.before.tail ⟨_, hfirst.step⟩
  obtain ⟨i₁, hissued₁⟩ := Effect.issuedBy hfirst.commits ha.recorded hop₁
  rcases (h.steps hrun).sound.committed body_kept hfirst.after h₂ with hold | ⟨b, b', hsecond⟩
  · -- the other one had committed before
    right
    have hold' : a.txns t₂ = .committed op₂ now₂ (.request id₂ x₂) := by
      rw [← (Sys.step_others ha.sound.undrawn hfirst.step (Ne.symm hne)).1]
      exact hold
    rcases h.sound.committed body_kept hfirst.before hold' with hold'' | ⟨b, b', hsecond⟩
    · exact absurd hold'' (hnew₂ _ _ _)
    · have hb : Accounts.Reachable box b := h.steps hsecond.before
      obtain ⟨i₂, hissued₂⟩ := Effect.issuedBy hsecond.commits hb.recorded hop₂
      refine hissued₂.spaced hb ⟨_, hsecond.step⟩ hsecond.after hissued₁ (hbetween ?_ ?_ ha)
      · exact hsecond.before.tail ⟨_, hsecond.step⟩
      · exact .head ⟨_, hfirst.step⟩ hfirst.after
  · left
    have hb : Accounts.Reachable box b := (h.steps hrun).steps hsecond.before
    obtain ⟨i₂, hissued₂⟩ := Effect.issuedBy hsecond.commits hb.recorded hop₂
    refine hissued₁.spaced ha ⟨_, hfirst.step⟩ hsecond.before hissued₂ (hbetween hrun ?_ hb)
    exact .head ⟨_, hsecond.step⟩ hsecond.after

/-- A change that is made is in the journal. -/
theorem Effect.changed (h : Effect box now K d op d' r) (hop : op.changesAddress userId r) :
    ∃ e, d'.journal = d.journal ++ [e] ∧ (e.codeOfUser userId = some none : Bool) = true := by
  cases h with
  | emailChanged =>
      obtain rfl : _ = userId := hop
      exact ⟨_, rfl, decide_eq_true (if_pos rfl)⟩
  | wrongCode => exact hop.elim
  | lastWrongCode => exact hop.elim
  | read op r hop' =>
      cases op with
      | completeEmailChange => cases hop'
      | _ => exact hop.elim
  | _ => exact hop.elim

namespace Demo

/-- The two codes of the run above. -/
theorem guessing_spaced :
    min (60000000 : ℕ) 600000000 + resendInterval ≤ 120000000 ∨
      min (120000000 : ℕ) 660000000 + resendInterval ≤ 60000000 := by
  -- the two codes, of which neither was there before, and no change
  obtain ⟨hfirst, hsecond, hnew, hnew', hnone⟩ :
      outcome (acts (after []) 0 (asking ++ guessing)) 0 = some
        (.requestEmailChange [0] 3 clerkEmail [1] [2] 0 "en", 0, .request 4
          ⟨3, setup.email, clerkEmail, [1], [2], 600000000, 60000000, 5, 1, 0⟩) ∧
      outcome (acts (after []) 0 (asking ++ guessing)) 3 = some
        (.resendEmailChange [0] 3 [3] [4] 0 "en", 60000000, .request 4
          ⟨3, setup.email, clerkEmail, [3], [4], 660000000, 120000000, 5, 2, 0⟩) ∧
      outcome (after []) 0 = none ∧ outcome (after []) 3 = none ∧
      (acts (after []) 0 (asking ++ guessing)).db.journal.countP
        (fun e => decide (e.codeOfUser 3 = some none)) = 0 := by decide +kernel
  refine (after_reachable []).codes_spaced (acts_steps _ _ (asking ++ guessing))
    (by decide) (outcome_committed hfirst) (outcome_committed hsecond)
    (show Op.issuesCode 3 _ from rfl) rfl (outcome_none hnew) (outcome_none hnew')
    fun t op now r ht => ?_
  -- a change that had been made would be in the journal
  refine Or.inr fun hop => ?_
  have hle := (after_reachable []).committed_le (acts_steps _ _ (asking ++ guessing))
    (fun hc hop => Effect.changed hc hop) (List.nodup_singleton t) (fun _ _ _ _ _ => nofun)
    fun t' ht' => ⟨op, now, r, List.mem_singleton.mp ht' ▸ ht, hop⟩
  rw [hnone, List.length_singleton] at hle
  omega

end Demo

/-! ## A change that is made -/

/-- **A change of address that is made**: what it finds in `d` and leaves in `d'`. -/
structure ChangedBy (box : Sealer) (d d' : Db) (now : Instant) (nonce : Bytes)
    (userId requestId : ℕ) (digest : Bytes) (locale : String) (ttl : ℕ) (user : User)
    (oldEmail newEmail : Email) : Prop where
  account : d.users.get? userId = some user
  enabled : user.enabled = true
  unchanged : user.email.display = oldEmail.display
  /-- It is the code that was issued last for the change, which has not been made since. -/
  issued : ∃ earlier between selector issuedAt expiresAt, d.journal = earlier ++
    .codeIssued requestId userId oldEmail newEmail selector digest issuedAt expiresAt :: between ∧
      (∀ e ∈ between, e.codeOf requestId = none) ∧ now < expiresAt
  /-- It has not been guessed at too often. -/
  attempts : Event.wrongCodes userId d.journal < emailChangeAttempts
  vacant : d.Vacant newEmail.canonical userId
  address : d'.users = d.users.modify userId (User.setEmail newEmail)
  used : d'.emailChanges.get? requestId = none
  reset : d'.resets.get? userId = none
  said : d'.journal = d.journal ++ [.emailChanged requestId userId digest]
  /-- The notice goes to the address that the account had. -/
  notice : ∃ id task changedAt, d'.outbox.get? id = some task ∧ Mailed box Set.univ d nonce
    (.ofUser userId) (noticeMaterial .emailChanged user.name.value oldEmail.display
      (localeOr locale) changedAt (changedAt + noticeTTL ttl)) id task

/-- Only an issue says what the code of a change is. -/
theorem Event.codeOf_issued {e : Event} {requestId : ℕ} {c : (ℕ × Email × Email) × Issue}
    (h : e.codeOf requestId = some (some c)) :
    ∃ issuedAt, e = .codeIssued requestId c.1.1 c.1.2.1 c.1.2.2 c.2.selector c.2.verifierDigest
      issuedAt c.2.expiresAt := by
  cases e with
  | codeIssued i userId oldEmail newEmail selector digest issuedAt expiresAt =>
      obtain ⟨rfl, hc⟩ := Option.ite_none_right_eq_some.mp h
      cases hc
      exact ⟨issuedAt, rfl⟩
  | emailChanged => cases (Option.ite_none_right_eq_some.mp h).2
  | _ => cases h

theorem Effect.changedBy {nonce digest : Bytes} {requestId ttl : ℕ} {locale : String} {t : Instant}
    (h : Effect box now K d (.completeEmailChange nonce userId requestId digest locale ttl) d'
      (.code (.changed t))) (hd : d.Recorded) :
    ∃ user oldEmail newEmail, ChangedBy box d d' now nonce userId requestId digest locale ttl user
      oldEmail newEmail := by
  cases h with
  | read _ _ hop => cases hop
  | emailChanged _ _ _ _ _ _ user row t₁ t₂ _ id task huser hr hdigest hold hkey haddress hvacant
      hmail =>
      have hrequest := hd.request _ _ hr.row
      obtain ⟨before, hbefore, hexpiry⟩ := hr.unexpired
      refine ⟨user, row.oldEmail, row.newEmail, huser.row, huser.enabled, hold, ?_, ?_, hvacant, rfl,
        ?_, ?_, rfl, id, task, t, Table.get?_insert_self _ _ _,
        ⟨Set.mem_univ _, hmail.fresh, hmail.row⟩⟩
      · obtain ⟨earlier, e, between, hjournal, he, hsilent⟩ := lastWord_eq_some.mp hrequest.code
        obtain ⟨issuedAt, rfl⟩ := Event.codeOf_issued he
        refine ⟨earlier, between, row.selector, issuedAt, row.expiresAt, ?_, hsilent,
          hbefore.1.trans_lt hexpiry⟩
        rw [hjournal, ← hdigest, ← hr.user]
        rfl
      · have hattempts := hrequest.attempts
        rw [hr.user] at hattempts
        have hpos := hr.attempts
        omega
      · show (d.emailChanges.deleteWhere _).get? requestId = none
        rw [Table.get?_deleteWhere, hr.row, Option.filter_some]
        simp
      · show (d.resets.deleteWhere _).get? userId = none
        rw [Table.get?_deleteWhere]
        cases d.resets.get? userId with
        | none => rfl
        | some x => simp [Option.filter_some]

/-- Nothing is said of a change that has been made. -/
theorem codeOf_final {requestId : ℕ} {before : List Event} {e : Event}
    (he : Event.Allowed before e) (hended : lastWord (Event.codeOf requestId) before = some none) :
    e.codeOf requestId = none := by
  cases e with
  | codeIssued i =>
      refine if_neg ?_
      rintro rfl
      exact he.1 hended
  | emailChanged i =>
      refine if_neg ?_
      rintro rfl
      obtain ⟨c, hc, -⟩ := he
      rw [hc] at hended
      cases hended
  | _ => rfl

/-- **A change of address is authorised**: it presents the code that was issued last for it, not yet
expired when it began and guessed at less than five times, of an account whose address is still the
one the change was asked for under; the old address is told, and the change is never made again, nor
is another code issued for it.

A change of address asks for more than a code: the account must be enabled and still have the
address from which the change was asked for, nobody else may have taken the new one, and the code
must be the last one, unexpired and with guesses left.  `ChangedBy` collects this and the effect, in
which the old address is told.  Behind the commit the journal says nothing more of the request. -/
theorem Accounts.Reachable.change_authorised (h : Accounts.Reachable box s) {t : ℕ}
    {nonce digest : Bytes} {requestId ttl : ℕ} {locale : String} {changedAt : Instant}
    (ht : s.txns t = .committed (.completeEmailChange nonce userId requestId digest locale ttl) now
      (.code (.changed changedAt))) :
    ∃ s₁ s₂ user oldEmail newEmail later,
      s.CommitOf box t (.completeEmailChange nonce userId requestId digest locale ttl) now
        (.code (.changed changedAt)) s₁ s₂ ∧
      ChangedBy box s₁.db s₂.db now nonce userId requestId digest locale ttl user oldEmail
        newEmail ∧
      s.db.journal = s₂.db.journal ++ later ∧ ∀ e ∈ later, e.codeOf requestId = none := by
  obtain ⟨s₁, s₂, hcommit, heffect⟩ := h.commit ht
  obtain ⟨user, oldEmail, newEmail, hby⟩ := heffect.changedBy hcommit.reachable.recorded
  have hreach₂ : Accounts.Reachable box s₂ := hcommit.reachable.steps (.single ⟨_, hcommit.step⟩)
  obtain ⟨later, hlater⟩ := hreach₂.journal_prefix hcommit.after
  refine ⟨s₁, s₂, user, oldEmail, newEmail, later, hcommit, hby, hlater.symm, ?_⟩
  have hlawful := h.recorded.lawful
  rw [← hlater, hby.said, List.append_assoc] at hlawful
  exact hlawful.silent (fun _ _ => codeOf_final) (if_pos rfl)

namespace Demo

/-- The code is presented. -/
def answering : List Op := asking ++ guessing ++ [.completeEmailChange [0] 3 4 [4] "en" 0]

theorem answering_authorised : ∃ s₁ s₂ user oldEmail newEmail later,
    (after answering).CommitOf sealer 4 (.completeEmailChange [0] 3 4 [4] "en" 0) 60000000
      (.code (.changed 60000000)) s₁ s₂ ∧
    ChangedBy sealer s₁.db s₂.db 60000000 [0] 3 4 [4] "en" 0 user oldEmail newEmail ∧
    (after answering).db.journal = s₂.db.journal ++ later ∧
      ∀ e ∈ later, e.codeOf 4 = none :=
  (after_reachable answering).change_authorised (outcome_committed (by decide +kernel))

end Demo

end BindPlane.Auth
