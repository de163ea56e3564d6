import BindPlane.Mail.Kept

/-!
# The history of the outbox

**States.**  Every attempt that is recorded was claimed, and the numbers of a round have no hole
(`History`).

**Steps.**  What a step may do to a task, from any reachable state (`Effect`): a claim takes a free
row and leaves the record of its round complete; an acknowledgement whose lease was lost does
nothing; and a task that has ended moves by `RetryMailTask` alone, to a new round.

**From rows to a history.**  The numbers of a row are counters that only the claims move, so that a
recorded attempt with a number has predecessors that were claimed.  That they were recorded as well
is what a claim sees to: it writes down what is missing of the round before it adds to it.
-/

namespace BindPlane.Mail

open ReadCommitted

/-- **The history is one of claims**, without holes. -/
structure Outbox.History (s : Outbox) : Prop where
  claimed : ∀ x ∈ s.db.attempts, ∃ t token duration job,
    s.txns t = .committed (.claimMail token duration) () (.job (some job)) ∧ job.key = x.key
  whole : ∀ id round n, s.db.Recorded ⟨id, round, n⟩ →
    ∀ i, 1 ≤ i → i ≤ n → s.db.Recorded ⟨id, round, i⟩

/-- **What a step of a transaction may do.** -/
structure Outbox.Effect (s s' : Outbox) (t : ℕ) : Prop where
  /-- A claim takes a row without a lease, and the attempts before it are those on record. -/
  claim : ∀ token duration job,
    s'.txns t = .committed (.claimMail token duration) () (.job (some job)) → s'.txns t ≠ s.txns t →
      ∃ row, s.db.tasks.get? job.id = some row ∧ row.open? = true ∧
        row.unleased s.db.clock = true ∧ job.round = row.roundNumber ∧
        ∀ n, s'.db.Recorded ⟨job.id, job.round, n⟩ ↔ 1 ≤ n ∧ n < job.roundAttempts
  /-- An acknowledgement without the lease leaves everything as it is. -/
  stale : ∀ op a, (s.txns t).op? = some op → op.ack = some a →
    (∀ row, s.db.tasks.get? a.id = some row → row.leaseToken ≠ some a.leaseToken) → s'.db = s.db
  /-- A task that has ended stays so, but for a new round. -/
  ended : ∀ id row, s.db.tasks.get? id = some row → row.open? = false →
    s'.db.tasks.get? id = some row ∨
      s'.txns t = .committed (.retryMailTask id) () .done ∧ row.sentAt = none ∧
        ∃ row', s'.db.tasks.get? id = some row' ∧ row'.roundNumber = row.roundNumber + 1 ∧
          row'.roundAttemptCount = 0

/-! ## One commit -/

variable {op : Op} {u : Unit} {K : Set (Resource Key)} {d d' : Db} {r : Reply} {n : ℕ}

/-- A claim completes the record of its round. -/
theorem Commit.claim {token : String} {duration : ℕ} {job : MailJob}
    (h : Commit (.claimMail token duration) u K d d' (.job (some job))) (hv : d.Valid n) :
    ∃ row, d.tasks.get? job.id = some row ∧ row.open? = true ∧ row.unleased d.clock = true ∧
      job.round = row.roundNumber ∧
      ∀ i, d'.Recorded ⟨job.id, job.round, i⟩ ↔ 1 ≤ i ∧ i < job.roundAttempts := by
  cases h with
  | claimed token duration id t a as leaseEnd hkey ht hopen hunleased hclosed hall =>
      refine ⟨t, ht, hopen, hunleased, rfl, fun i => ?_⟩
      show (d.addAttempts as).Recorded ⟨id, t.roundNumber, i⟩ ↔
        1 ≤ i ∧ i < t.roundAttemptCount + 1
      rw [Nat.lt_succ_iff]
      refine ⟨fun hr => ?_, fun ⟨hi, hle⟩ => hall i hi hle⟩
      rcases Db.recorded_addAttempts.mp hr with hr | ⟨x, hx, hkey⟩
      · exact (hv.recorded_round ht).1 hr
      · obtain ⟨j, hj, hle, hxkey⟩ := hclosed x hx
        rw [hxkey, AttemptKey.mk.injEq] at hkey
        rw [hkey.2.2]
        exact ⟨hj, hle⟩

/-- An acknowledgement without the lease leaves everything as it is. -/
theorem Commit.stale (h : Commit op u K d d' r) {a : Ack} (hack : op.ack = some a)
    (hlost : ∀ row, d.tasks.get? a.id = some row → row.leaseToken ≠ some a.leaseToken) :
    d' = d := by
  cases h with
  | lost => rfl
  | acknowledged op b hb t x now hkey ht hheld hx =>
      cases hb.symm.trans hack
      obtain ⟨htoken, -⟩ := Bool.and_eq_true_iff.mp hheld
      exact absurd (of_decide_eq_true htoken) (hlost t ht)
  | _ => cases hack

/-- A task that has ended stays so, but for a new round. -/
theorem Commit.ended (h : Commit op u K d d' r) (hv : d.Valid n) {id : ℕ} {row : MailTask}
    (hrow : d.tasks.get? id = some row) (hended : row.open? = false) :
    d'.tasks.get? id = some row ∨ op = .retryMailTask id ∧ r = .done ∧ row.sentAt = none ∧
      ∃ now, d'.tasks.get? id = some (row.nextRound now) := by
  have hreply : ∀ i, op = .retryMailTask i → r = .done := by
    rintro i rfl
    cases h with
    | lost op a hack => cases hack
    | acknowledged op a hack => cases hack
    | retried => rfl
  cases h.task id with
  | same h' => exact Or.inl (h'.trans hrow)
  | enqueued input now hserial h => rw [hrow] at h; cases h
  | moved t t' hkey h hopen =>
      cases hrow.symm.trans h
      rw [hended] at hopen
      cases hopen
  | retried t now hop hkey h hdone h' =>
      cases hrow.symm.trans h
      refine Or.inr ⟨hop, hreply id hop, ?_, now, h'⟩
      by_contra hsent
      obtain ⟨hcanceled, hdead⟩ := hv.single id row hrow (Option.isSome_iff_ne_none.mpr hsent)
      rw [hcanceled, hdead] at hdone
      rcases hdone with hdone | hdone <;> cases hdone

/-! ## Runs -/

section Runs

variable {s s' : Outbox}

theorem Db.empty_valid : Db.empty.Valid 0 where
  claimed _ h := by
    obtain ⟨a, ha, -⟩ := h
    cases ha
  prior _ h := by
    obtain ⟨job, hjob, -⟩ := h
    cases hjob
  counted _ _ h := by cases h
  rounds _ h := by
    obtain ⟨job, hjob, -⟩ := h
    cases hjob
  leased _ _ h := by cases h
  single _ _ h := by cases h
  numbered _ _ h := by cases h

theorem Outbox.Reachable.sound (h : Outbox.Reachable s) : Sound contract s :=
  Sound.steps body_kept (Sound.init Db.empty_valid) h

/-- Every job that was handed out is the answer of a claim. -/
theorem Outbox.Reachable.handed (h : Outbox.Reachable s) : ∀ job ∈ s.db.handed,
    ∃ t token duration, s.txns t = .committed (.claimMail token duration) () (.job (some job)) := by
  induction h with
  | refl => exact fun _ hjob => absurd hjob List.not_mem_nil
  | @tail s₁ s₂ hrun hstep ih =>
      obtain ⟨a, ha⟩ := hstep
      have hsound : Sound contract s₁ := Outbox.Reachable.sound hrun
      intro job hjob
      cases hsound.outcome ha with
      | quiet hdb hcommitted =>
          rw [hdb] at hjob
          obtain ⟨t, token, duration, ht⟩ := ih job hjob
          exact ⟨t, token, duration, (hcommitted ..).mpr ht⟩
      | commit op now r w hrun hcommit hcommitted =>
          have hold : job ∈ s₁.db.handed → ∃ t token duration, s₂.txns t =
              .committed (.claimMail token duration) () (.job (some job)) := by
            intro hmem
            obtain ⟨t, token, duration, ht⟩ := ih job hmem
            exact ⟨t, token, duration, (hcommitted ..).mpr (Or.inl ht)⟩
          rcases Commit.handed hcommit with hsame | ⟨token, duration, job', rfl, rfl, hmore⟩
          · exact hold (hsame ▸ hjob)
          · rw [hmore, List.mem_append, List.mem_singleton] at hjob
            rcases hjob with hjob | rfl
            · exact hold hjob
            · exact ⟨a.txn, token, duration, (hcommitted ..).mpr (Or.inr ⟨rfl, rfl, rfl, rfl⟩)⟩

theorem Outbox.Reachable.history (h : Outbox.Reachable s) : s.History where
  claimed x hx := by
    obtain ⟨job, hjob, hkey⟩ := h.sound.inv.claimed x.key ⟨x, hx, rfl⟩
    obtain ⟨t, token, duration, ht⟩ := h.handed job hjob
    exact ⟨t, token, duration, job, ht, hkey⟩
  whole id round n hn i hi hle := by
    rcases hle.lt_or_eq with hlt | rfl
    · exact h.sound.inv.prior _ (h.sound.inv.claimed _ hn) i hi hlt
    · exact hn

theorem Outbox.Reachable.effect (h : Outbox.Reachable s) {a : Action ℕ Op Unit}
    (ha : s.step body a = some s') : s.Effect s' a.txn := by
  have hv : s.db.Valid s.seq := h.sound.inv
  cases h.sound.outcome ha with
  | quiet hdb hcommitted =>
      refine ⟨fun token duration job ht hne => ?_, fun _ _ _ _ _ => hdb, fun id row hrow _ => ?_⟩
      · exact absurd (ht.trans ((hcommitted ..).mp ht).symm) hne
      · rw [hdb]
        exact Or.inl hrow
  | commit op now r w hrun hcommit hcommitted =>
      refine ⟨fun token duration job ht hne => ?_, fun op' a' hop hack hlost => ?_,
        fun id row hrow hended => ?_⟩
      · rcases (hcommitted ..).mp ht with hold | ⟨-, rfl, -, rfl⟩
        · exact absurd (ht.trans hold.symm) hne
        · exact Commit.claim hcommit hv
      · rw [hrun] at hop
        cases hop
        exact Commit.stale hcommit hack hlost
      · rcases Commit.ended hcommit hv hrow hended with hsame | ⟨rfl, rfl, hsent, now', h'⟩
        · exact Or.inl hsame
        · refine Or.inr ⟨(hcommitted ..).mpr (Or.inr ⟨rfl, rfl, rfl, rfl⟩), hsent, _, h', rfl, rfl⟩

/-- **The outbox.**  In every state that any interleaving of its operations can reach, with any
of them failing anywhere, the history is one of claims, and every next step is sound.

`History` is what can be said of a state: the attempts that are recorded, those that have been
claimed and not recorded, and the numbers of both.  Much of what an outbox promises is about a
change, though: that a claim takes a task that nobody holds, that an acknowledgement behind a lost
lease does nothing, that a task which has ended begins a new round only by hand.  `Effect` says this
of the next step, from any reachable state and whoever takes it. -/
theorem Outbox.Reachable.outbox (h : Outbox.Reachable s) :
    s.History ∧ ∀ a s', s.step body a = some s' → s.Effect s' a.txn :=
  ⟨h.history, fun _ _ ha => h.effect ha⟩

end Runs

namespace Demo

/-- A message to an administrator, with its material. -/
def input : MailTaskInput where
  kind := .testEmail
  userId := none
  invitationId := none
  resetSelector := none
  recipientEmail := some "admin@test.invalid"
  recipientName := some "Admin"
  emailChangeRequestId := none
  emailChangeSelector := none
  locale := "en-US"
  systemName := "Bind Plane"
  materialCiphertext := some [0]
  createdAt := 0
  expiresAt := 86400

/-- The first job of the message. -/
def lateJob : MailJob := (input.row 0).job 0 Db.empty.authority "first"

/-- One operation, by a transaction of its own. -/
def act (s : Outbox) (t : ℕ) (op : Op) : Outbox := Sys.perform body 20 t op () s

theorem act_reachable {s : Outbox} (h : s.Reachable) (t : ℕ) (op : Op) : (act s t op).Reachable :=
  h.trans (Sys.perform_steps body 20 t op () s)

/-- A dispatcher claims the message and stops, and another claims it when the lease is over. -/
def reclaimed : Outbox :=
  act (act (act (act (Sys.init Db.empty 0) 0 (.enqueueMailTask input)) 1 (.claimMail "first" 30))
    2 (.elapse 60)) 3 (.claimMail "second" 30)

/-- And then the result of the first one comes in. -/
def recovered : Outbox := act reclaimed 4 (.recordMailAttempt lateJob .sent "")

theorem recovered_reachable : recovered.Reachable :=
  act_reachable (act_reachable (act_reachable (act_reachable (act_reachable .refl ..) ..) ..) ..) ..

/-- The second claim closes the first attempt, and the late result replaces what it wrote. -/
theorem recovered_outbox :
    reclaimed.db.attempts = [⟨⟨0, 1, 1⟩, .failed, some "dependency", 60⟩] ∧
      recovered.db.attempts = [⟨⟨0, 1, 1⟩, .sent, none, 60⟩] ∧
      recovered.History ∧
        ∀ a s', recovered.step body a = some s' → recovered.Effect s' a.txn :=
  ⟨by decide +kernel, by decide +kernel, recovered_reachable.outbox.1,
    recovered_reachable.outbox.2⟩

end Demo

end BindPlane.Mail
