import BindPlane.Mail.Outbox

/-!
# What a commit of the outbox may do

`Commit` is the contract: for each operation, how its commit moves the store and what it holds
while it does.  `Db.Valid` is what every commit keeps (`Commit.valid`):

* every recorded attempt was handed out;
* of every attempt that was handed out, the earlier ones of its round are recorded;
* the attempts that were handed out of the present round are those that the row counts.

So the record of a round is always that of its first attempts, without the last one at most.
-/

namespace BindPlane.Mail

open ReadCommitted

/-! ## The history -/

namespace Db

variable (d : Db)

/-- There is an attempt under a key. -/
def Recorded (k : AttemptKey) : Prop := ∃ a ∈ d.attempts, a.key = k

/-- An attempt was handed out. -/
def Handed (k : AttemptKey) : Prop := ∃ job ∈ d.handed, job.key = k

/-- Some attempts are added, where there are none. -/
def addAttempts (as : List Attempt) : Db := as.foldl addAttempt d

variable {d} {k : AttemptKey}

theorem recorded_iff : d.recorded k = true ↔ d.Recorded k := by
  unfold recorded Recorded
  rw [List.any_eq_true]
  simp

theorem Recorded.append {a : Attempt} :
    { d with attempts := d.attempts ++ [a] }.Recorded k ↔ d.Recorded k ∨ k = a.key := by
  unfold Recorded
  simp only [List.mem_append, List.mem_singleton, or_and_right, exists_or, exists_eq_left]
  rw [eq_comm (a := a.key)]

theorem recorded_addAttempt {a : Attempt} :
    (d.addAttempt a).Recorded k ↔ d.Recorded k ∨ k = a.key := by
  unfold addAttempt
  split
  · next h =>
      refine ⟨Or.inl, ?_⟩
      rintro (h' | rfl)
      · exact h'
      · exact recorded_iff.mp h
  · exact Recorded.append

theorem recorded_upsertAttempt {a : Attempt} :
    (d.upsertAttempt a).Recorded k ↔ d.Recorded k ∨ k = a.key := by
  unfold upsertAttempt
  split
  · next h =>
      have hkey : ∀ b : Attempt, (if b.key = a.key then a else b).key = b.key := by
        intro b
        split
        · next hb => exact hb.symm
        · rfl
      have hsame : Recorded { d with
          attempts := d.attempts.map fun b => if b.key = a.key then a else b } k ↔
          d.Recorded k := by
        unfold Recorded
        simp only [List.mem_map, exists_exists_and_eq_and, hkey]
      rw [hsame]
      refine ⟨Or.inl, ?_⟩
      rintro (h' | rfl)
      · exact h'
      · exact recorded_iff.mp h
  · exact Recorded.append

@[simp] theorem addAttempt_tasks (a : Attempt) : (d.addAttempt a).tasks = d.tasks := by
  unfold addAttempt
  split <;> rfl

@[simp] theorem addAttempt_handed (a : Attempt) : (d.addAttempt a).handed = d.handed := by
  unfold addAttempt
  split <;> rfl

@[simp] theorem addAttempt_clock (a : Attempt) : (d.addAttempt a).clock = d.clock := by
  unfold addAttempt
  split <;> rfl

@[simp] theorem addAttempt_authority (a : Attempt) :
    (d.addAttempt a).authority = d.authority := by
  unfold addAttempt
  split <;> rfl

@[simp] theorem upsertAttempt_tasks (a : Attempt) : (d.upsertAttempt a).tasks = d.tasks := by
  unfold upsertAttempt
  split <;> rfl

@[simp] theorem upsertAttempt_handed (a : Attempt) : (d.upsertAttempt a).handed = d.handed := by
  unfold upsertAttempt
  split <;> rfl

@[simp] theorem upsertAttempt_clock (a : Attempt) : (d.upsertAttempt a).clock = d.clock := by
  unfold upsertAttempt
  split <;> rfl

theorem recorded_addAttempts {as : List Attempt} :
    (d.addAttempts as).Recorded k ↔ d.Recorded k ∨ ∃ a ∈ as, k = a.key := by
  induction as generalizing d with
  | nil => simp [addAttempts]
  | cons a as ih =>
      show ((d.addAttempt a).addAttempts as).Recorded k ↔ _
      rw [ih, recorded_addAttempt, List.exists_mem_cons_iff, or_assoc]

@[simp] theorem addAttempts_tasks (as : List Attempt) : (d.addAttempts as).tasks = d.tasks := by
  induction as generalizing d with
  | nil => rfl
  | cons a as ih => exact (ih (d := d.addAttempt a)).trans (addAttempt_tasks a)

@[simp] theorem addAttempts_handed (as : List Attempt) :
    (d.addAttempts as).handed = d.handed := by
  induction as generalizing d with
  | nil => rfl
  | cons a as ih => exact (ih (d := d.addAttempt a)).trans (addAttempt_handed a)

@[simp] theorem addAttempts_authority (as : List Attempt) :
    (d.addAttempts as).authority = d.authority := by
  induction as generalizing d with
  | nil => rfl
  | cons a as ih => exact (ih (d := d.addAttempt a)).trans (addAttempt_authority a)

@[simp] theorem addAttempts_clock (as : List Attempt) : (d.addAttempts as).clock = d.clock := by
  induction as generalizing d with
  | nil => rfl
  | cons a as ih => exact (ih (d := d.addAttempt a)).trans (addAttempt_clock a)

end Db

/-! ## The invariant -/

/-- A task that was sent is neither canceled nor dead. -/
def MailTask.Single (t : MailTask) : Prop :=
  t.sentAt.isSome = true → t.canceledAt = none ∧ t.deadAt = none

theorem MailTask.open_iff {t : MailTask} :
    t.open? = true ↔ t.sentAt = none ∧ t.canceledAt = none ∧ t.deadAt = none := by
  unfold open?
  simp [and_assoc]

/-- **What every commit keeps.**

`handed` is the key to it.  The history alone does not say which attempts there were, since a
dispatcher may die before it records one; what was handed out does, and of that the row keeps the
number.  So the three accounts agree up to the last attempt, of which one cannot know yet. -/
structure Db.Valid (d : Db) (n : ℕ) : Prop where
  claimed : ∀ k, d.Recorded k → d.Handed k
  prior : ∀ k, d.Handed k → ∀ i, 1 ≤ i → i < k.attemptNumber →
    d.Recorded ⟨k.taskId, k.roundNumber, i⟩
  counted : ∀ id t, d.tasks.get? id = some t → ∀ i,
    d.Handed ⟨id, t.roundNumber, i⟩ ↔ 1 ≤ i ∧ i ≤ t.roundAttemptCount
  rounds : ∀ k, d.Handed k → ∃ t, d.tasks.get? k.taskId = some t ∧ k.roundNumber ≤ t.roundNumber
  leased : ∀ id t, d.tasks.get? id = some t → t.leaseToken.isSome = true →
    0 < t.roundAttemptCount
  single : ∀ id t, d.tasks.get? id = some t → t.Single
  numbered : ∀ id t, d.tasks.get? id = some t → id < n

/-- The record of the present round is that of its first attempts. -/
theorem Db.Valid.recorded_round {d : Db} {n : ℕ} (h : d.Valid n) {id : ℕ} {t : MailTask}
    (ht : d.tasks.get? id = some t) {i : ℕ} :
    (d.Recorded ⟨id, t.roundNumber, i⟩ → 1 ≤ i ∧ i ≤ t.roundAttemptCount) ∧
      (1 ≤ i → i < t.roundAttemptCount → d.Recorded ⟨id, t.roundNumber, i⟩) := by
  refine ⟨fun hr => (h.counted id t ht i).mp (h.claimed _ hr), fun hi hlt => ?_⟩
  have hlast : d.Handed ⟨id, t.roundNumber, t.roundAttemptCount⟩ :=
    (h.counted id t ht _).mpr ⟨by omega, le_rfl⟩
  exact h.prior _ hlast i hi hlt

/-- A row keeps its counters. -/
structure MailTask.Kept (t t' : MailTask) : Prop where
  round : t'.roundNumber = t.roundNumber
  count : t'.roundAttemptCount = t.roundAttemptCount
  lease : t'.leaseToken.isSome = true → t.leaseToken.isSome = true
  single : t.Single → t'.Single

theorem MailTask.Kept.refl (t : MailTask) : t.Kept t := ⟨rfl, rfl, id, id⟩

/-- A commit that keeps the counters and hands nothing out. -/
structure Db.Kept (d d' : Db) : Prop where
  handed : d'.handed = d.handed
  recorded : ∀ k, d.Recorded k → d'.Recorded k
  record : ∀ k, d'.Recorded k → d.Recorded k ∨ d.Handed k
  tasks : ∀ id, Option.Rel MailTask.Kept (d.tasks.get? id) (d'.tasks.get? id)

theorem Db.Kept.handed_iff {d d' : Db} (h : d.Kept d') {k : AttemptKey} :
    d'.Handed k ↔ d.Handed k := by
  unfold Db.Handed
  rw [h.handed]

theorem Db.Kept.task {d d' : Db} (h : d.Kept d') {id : ℕ} {t' : MailTask}
    (ht : d'.tasks.get? id = some t') : ∃ t, d.tasks.get? id = some t ∧ t.Kept t' := by
  have hrel := h.tasks id
  rw [ht] at hrel
  cases hrel' : d.tasks.get? id with
  | none => rw [hrel'] at hrel; cases hrel
  | some t =>
      rw [hrel'] at hrel
      cases hrel with
      | some hkept => exact ⟨t, rfl, hkept⟩

theorem Db.Kept.valid {d d' : Db} {n : ℕ} (h : d.Kept d') (hv : d.Valid n) : d'.Valid n where
  claimed k hk := by
    rw [h.handed_iff]
    rcases h.record k hk with hk | hk
    · exact hv.claimed k hk
    · exact hk
  prior k hk i hi hlt := h.recorded _ (hv.prior k (h.handed_iff.mp hk) i hi hlt)
  counted id t' ht' i := by
    obtain ⟨t, ht, hkept⟩ := h.task ht'
    rw [h.handed_iff, hkept.round, hkept.count]
    exact hv.counted id t ht i
  rounds k hk := by
    obtain ⟨t, ht, hle⟩ := hv.rounds k (h.handed_iff.mp hk)
    have hrel := h.tasks k.taskId
    rw [ht] at hrel
    cases hget : d'.tasks.get? k.taskId with
    | none => rw [hget] at hrel; cases hrel
    | some t' =>
        rw [hget] at hrel
        cases hrel with
        | some hkept => exact ⟨t', rfl, hkept.round ▸ hle⟩
  leased id t' ht' hlease := by
    obtain ⟨t, ht, hkept⟩ := h.task ht'
    rw [hkept.count]
    exact hv.leased id t ht (hkept.lease hlease)
  single id t' ht' := by
    obtain ⟨t, ht, hkept⟩ := h.task ht'
    exact hkept.single (hv.single id t ht)
  numbered id t' ht' := by
    obtain ⟨t, ht, hkept⟩ := h.task ht'
    exact hv.numbered id t ht

/-! ## The contract -/

/-- What an acknowledgement is told. -/
structure Ack where
  id : ℕ
  leaseToken : String
  set : Instant → MailTask → MailTask
  outcome : Outcome
  errorCode : String

/-- The acknowledgements. -/
def Op.ack : Op → Option Ack
  | .markMailSent id token => some ⟨id, token, MailTask.markSent, .sent, ""⟩
  | .retryMail id token delay code => some ⟨id, token, MailTask.retry delay code, .failed, code⟩
  | .deadLetterMail id token code => some ⟨id, token, MailTask.deadLetter code, .failed, code⟩
  | .discardMail id token code =>
      some ⟨id, token, fun now => MailTask.cancel now code, .failed, code⟩
  | _ => none

/-- An acknowledgement keeps the counters of an open row. -/
theorem Op.ack_kept {op : Op} {a : Ack} (h : op.ack = some a) {t : MailTask} (ht : t.open? = true)
    (now : Instant) : t.Kept (a.set now t) := by
  obtain ⟨hsent, hcanceled, hdead⟩ := MailTask.open_iff.mp ht
  cases op with
  | markMailSent id token =>
      cases h
      exact ⟨rfl, rfl, nofun, fun _ _ => ⟨hcanceled, hdead⟩⟩
  | retryMail id token delay code =>
      cases h
      exact ⟨rfl, rfl, nofun, fun hs => hs⟩
  | deadLetterMail id token code =>
      cases h
      refine ⟨rfl, rfl, nofun, fun _ hs => ?_⟩
      have hs : t.sentAt.isSome = true := hs
      rw [hsent] at hs
      cases hs
  | discardMail id token code =>
      cases h
      refine ⟨rfl, rfl, nofun, fun _ hs => ?_⟩
      have hs : t.sentAt.isSome = true := hs
      rw [hsent] at hs
      cases hs
  | _ => cases h

/-- **What a commit does.**

The contract of the outbox.  A claim changes one row, and adds what is missing in the history of its
round; the acknowledgements and the record change one row each, or none; a sweep may change any
number of them. -/
inductive Commit : Op → Unit → Set (Resource Key) → Db → Db → Reply → Prop
  | elapsed {K : Set (Resource Key)} {d : Db} (time : ℕ) :
      Commit (.elapse time) () K d { d with clock := d.clock + time } .done
  | changed {K : Set (Resource Key)} {d : Db} (a : Authority) :
      Commit (.changeAuthority a) () K d { d with authority := a } .done
  | enqueued {K : Set (Resource Key)} {d : Db} (input : MailTaskInput) (id : ℕ) (now : Instant)
      (hserial : .serial id ∈ K) (hfresh : d.tasks.get? id = none) :
      Commit (.enqueueMailTask input) () K d
        { d with tasks := d.tasks.insert id (input.row now) } .done
  | idle {K : Set (Resource Key)} {d : Db} (token : String) (duration : ℕ) :
      Commit (.claimMail token duration) () K d d (.job none)
  | claimed {K : Set (Resource Key)} {d : Db} (token : String) (duration id : ℕ) (t : MailTask)
      (a : Authority) (as : List Attempt) (leaseEnd : Instant) (hkey : .key (.task id) ∈ K)
      (ht : d.tasks.get? id = some t) (hopen : t.open? = true)
      (hunleased : t.unleased d.clock = true)
      (hclosed : ∀ x ∈ as, ∃ i, 1 ≤ i ∧ i ≤ t.roundAttemptCount ∧ x.key = ⟨id, t.roundNumber, i⟩)
      (hall : ∀ i, 1 ≤ i → i ≤ t.roundAttemptCount →
        (d.addAttempts as).Recorded ⟨id, t.roundNumber, i⟩) :
      Commit (.claimMail token duration) () K d
        (((d.addAttempts as).modifyTask id (MailTask.claimed token leaseEnd)).hand
          (t.job id a token)) (.job (some (t.job id a token)))
  | lost {K : Set (Resource Key)} {d : Db} (op : Op) (a : Ack) (hack : op.ack = some a) :
      Commit op () K d d (.held false)
  | acknowledged {K : Set (Resource Key)} {d : Db} (op : Op) (a : Ack) (hack : op.ack = some a)
      (t : MailTask) (x : Attempt) (now : Instant) (hkey : .key (.task a.id) ∈ K)
      (ht : d.tasks.get? a.id = some t) (hheld : t.heldBy a.leaseToken = true)
      (hx : x.key = ⟨a.id, t.roundNumber, t.roundAttemptCount⟩) :
      Commit op () K d ((d.modifyTask a.id (a.set now)).upsertAttempt x) (.held true)
  | recorded {K : Set (Resource Key)} {d : Db} (job : MailJob) (outcome : Outcome) (code : String)
      (x : Attempt) (hjob : job ∈ d.handed) (hx : x.key = job.key) :
      Commit (.recordMailAttempt job outcome code) () K d (d.upsertAttempt x) .done
  | swept {K : Set (Resource Key)} {d : Db} (as : List Attempt) (expired superseded : List ℕ)
      (now now' : Instant) (a : Authority → Authority)
      (has : ∀ x ∈ as, d.Handed x.key)
      (hids : ∀ id ∈ expired ++ superseded, .key (.task id) ∈ K ∧
        ∃ t, d.tasks.get? id = some t ∧ t.open? = true) :
      Commit .sweepMail () K d
        { ((d.addAttempts as).cancelTasks expired now "expired").cancelTasks superseded now'
          "superseded" with authority := a d.authority } .done
  | retried {K : Set (Resource Key)} {d : Db} (id : ℕ) (t : MailTask) (now : Instant)
      (hkey : .key (.task id) ∈ K) (ht : d.tasks.get? id = some t)
      (hended : t.canceledAt.isSome = true ∨ t.deadAt.isSome = true) :
      Commit (.retryMailTask id) () K d (d.modifyTask id (MailTask.nextRound now)) .done

/-! ## What stays -/

variable {op : Op} {u : Unit} {K : Set (Resource Key)} {d d' : Db} {r : Reply}

theorem get?_cancelTasks {ids : List ℕ} {now : Instant} {code : String} {id : ℕ} :
    (d.cancelTasks ids now code).tasks.get? id =
      (d.tasks.get? id).map fun t => if ids.contains id then t.cancel now code else t :=
  Table.get?_updateWhere ..

/-- **What a commit does to a row.**

The claims, the acknowledgements and the sweep move an open task, each under the lock of its row;
only a retry by an administrator touches a task that has ended. -/
inductive TaskStep (op : Op) (K : Set (Resource Key)) (d d' : Db) (id : ℕ) : Prop
  | same (h : d'.tasks.get? id = d.tasks.get? id)
  | enqueued (input : MailTaskInput) (now : Instant) (hserial : .serial id ∈ K)
      (h : d.tasks.get? id = none) (h' : d'.tasks.get? id = some (input.row now))
  | moved (t t' : MailTask) (hkey : .key (.task id) ∈ K) (h : d.tasks.get? id = some t)
      (hopen : t.open? = true) (h' : d'.tasks.get? id = some t')
      (hheld : ∀ a, op.ack = some a → a.id = id ∧ t.leaseToken = some a.leaseToken)
  | retried (t : MailTask) (now : Instant) (hop : op = .retryMailTask id)
      (hkey : .key (.task id) ∈ K) (h : d.tasks.get? id = some t)
      (hended : t.canceledAt.isSome = true ∨ t.deadAt.isSome = true)
      (h' : d'.tasks.get? id = some (t.nextRound now))

theorem Commit.task (h : Commit op u K d d' r) (id : ℕ) : TaskStep op K d d' id := by
  cases h with
  | enqueued input i now hserial hfresh =>
      by_cases hid : id = i
      · subst hid
        exact .enqueued input now hserial hfresh (Table.get?_insert_self ..)
      · exact .same (Table.get?_insert_of_ne _ hid _)
  -- a claim touches the task that it hands out; its attempts are in another table
  | claimed token duration i t a as leaseEnd hkey ht hopen =>
      have hget : ∀ j, (((d.addAttempts as).modifyTask i (MailTask.claimed token leaseEnd)).hand
          (t.job i a token)).tasks.get? j =
          if j = i then (d.tasks.get? j).map (MailTask.claimed token leaseEnd)
            else d.tasks.get? j := by
        intro j
        show ((d.addAttempts as).tasks.modify i _).get? j = _
        rw [Table.get?_modify, Db.addAttempts_tasks]
      by_cases hid : id = i
      · subst hid
        refine .moved t (t.claimed token leaseEnd) hkey ht hopen ?_ nofun
        rw [hget, if_pos rfl, ht]
        rfl
      · exact .same (by rw [hget, if_neg hid])
  -- an acknowledgement touches the task whose lease it shows
  | acknowledged op a hack t x now hkey ht hheld =>
      have hget : ∀ j, ((d.modifyTask a.id (a.set now)).upsertAttempt x).tasks.get? j =
          if j = a.id then (d.tasks.get? j).map (a.set now) else d.tasks.get? j := by
        intro j
        rw [Db.upsertAttempt_tasks]
        exact Table.get?_modify ..
      obtain ⟨htoken, hopen⟩ := Bool.and_eq_true_iff.mp hheld
      by_cases hid : id = a.id
      · subst hid
        refine .moved t (a.set now t) hkey ht hopen ?_ fun b hb => ?_
        · rw [hget, if_pos rfl, ht]
          rfl
        · cases hack.symm.trans hb
          exact ⟨rfl, of_decide_eq_true htoken⟩
      · exact .same (by rw [hget, if_neg hid])
  | recorded job outcome code x => exact .same (by rw [Db.upsertAttempt_tasks])
  -- the sweep touches the tasks that it found open
  | swept as expired superseded now now' a has hids =>
      have hget : ((((d.addAttempts as).cancelTasks expired now "expired").cancelTasks superseded
          now' "superseded").tasks.get? id) = (d.tasks.get? id).map fun t =>
            let t' := if expired.contains id then t.cancel now "expired" else t
            if superseded.contains id then t'.cancel now' "superseded" else t' := by
        rw [get?_cancelTasks, get?_cancelTasks, Db.addAttempts_tasks, Option.map_map]
        rfl
      by_cases hid : id ∈ expired ++ superseded
      · obtain ⟨hkey, t, ht, hopen⟩ := hids id hid
        rw [ht] at hget
        exact .moved t _ hkey ht hopen hget nofun
      · refine .same (hget.trans ?_)
        rw [List.mem_append, not_or] at hid
        rw [List.contains_eq_mem, List.contains_eq_mem, decide_eq_false hid.1,
          decide_eq_false hid.2]
        exact Option.map_id' ..
  | retried i t now hkey ht hended =>
      by_cases hid : id = i
      · subst hid
        refine .retried t now rfl hkey ht hended ?_
        exact (Table.get?_modify_self ..).trans (by rw [ht]; rfl)
      · exact .same (Table.get?_modify_of_ne _ hid _)
  | _ => exact .same rfl

theorem Commit.clock (h : Commit op u K d d' r) : d.clock ≤ d'.clock := by
  cases h with
  | elapsed time => exact Nat.le_add_right _ _
  | _ => simp [Db.hand, Db.modifyTask, Db.cancelTasks]

/-- What was recorded stays, and what is new was handed out before. -/
theorem Commit.record (h : Commit op u K d d' r) (hv : ∃ n, d.Valid n) :
    (∀ k, d.Recorded k → d'.Recorded k) ∧ ∀ k, d'.Recorded k → d.Recorded k ∨ d.Handed k := by
  obtain ⟨n, hv⟩ := hv
  cases h with
  | claimed token duration id t a as leaseEnd hkey ht hopen hunleased hclosed hall =>
      have hsame : ∀ k, (((d.addAttempts as).modifyTask id
          (MailTask.claimed token leaseEnd)).hand (t.job id a token)).Recorded k ↔
            d.Recorded k ∨ ∃ x ∈ as, k = x.key := fun k => Db.recorded_addAttempts
      refine ⟨fun k hk => (hsame k).mpr (Or.inl hk), fun k hk => ?_⟩
      refine ((hsame k).mp hk).imp_right ?_
      rintro ⟨x, hx, rfl⟩
      obtain ⟨i, hi, hle, hkey⟩ := hclosed x hx
      rw [hkey]
      exact (hv.counted id t ht i).mpr ⟨hi, hle⟩
  | acknowledged op a hack t x now hkey ht hheld hx =>
      refine ⟨fun k hk => Db.recorded_upsertAttempt.mpr (Or.inl hk), fun k hk => ?_⟩
      refine (Db.recorded_upsertAttempt.mp hk).imp_right ?_
      rintro rfl
      obtain ⟨htoken, -⟩ := Bool.and_eq_true_iff.mp hheld
      have hleased := hv.leased a.id t ht (by rw [of_decide_eq_true htoken]; rfl)
      rw [hx]
      exact (hv.counted a.id t ht _).mpr ⟨hleased, le_rfl⟩
  | recorded job outcome code x hjob hx =>
      refine ⟨fun k hk => Db.recorded_upsertAttempt.mpr (Or.inl hk), fun k hk => ?_⟩
      refine (Db.recorded_upsertAttempt.mp hk).imp_right ?_
      rintro rfl
      exact ⟨job, hjob, hx.symm⟩
  | swept as expired superseded now now' a has hids =>
      refine ⟨fun k hk => Db.recorded_addAttempts.mpr (Or.inl hk), fun k hk => ?_⟩
      refine (Db.recorded_addAttempts.mp hk).imp_right ?_
      rintro ⟨x, hx, rfl⟩
      exact has x hx
  | _ => exact ⟨fun _ hk => hk, fun _ hk => Or.inl hk⟩

/-- What was handed out stays so, and a claim hands out its job. -/
theorem Commit.handed (h : Commit op u K d d' r) :
    d'.handed = d.handed ∨ ∃ token duration job, op = .claimMail token duration ∧
      r = .job (some job) ∧ d'.handed = d.handed ++ [job] := by
  cases h with
  | claimed token duration id t a as leaseEnd =>
      refine Or.inr ⟨token, duration, t.job id a token, rfl, rfl, ?_⟩
      show (d.addAttempts as).handed ++ _ = _
      rw [Db.addAttempts_handed]
  | acknowledged op a hack t x => exact Or.inl (Db.upsertAttempt_handed x)
  | recorded job outcome code x => exact Or.inl (Db.upsertAttempt_handed x)
  | swept as => exact Or.inl (Db.addAttempts_handed as)
  | _ => exact Or.inl rfl

theorem Commit.handed_mono (h : Commit op u K d d' r) {job : MailJob} (hj : job ∈ d.handed) :
    job ∈ d'.handed := by
  rcases h.handed with hsame | ⟨_, _, _, -, -, hmore⟩
  · rw [hsame]
    exact hj
  · rw [hmore]
    exact List.mem_append_left _ hj

/-! ## The invariant is kept -/

/-- A claim counts the attempt that it hands out. -/
theorem Db.Valid.claimed_valid {n : ℕ} (hv : d.Valid n) {id : ℕ} {t : MailTask} {a : Authority}
    {as : List Attempt} {token : String} {leaseEnd : Instant} (ht : d.tasks.get? id = some t)
    (hclosed : ∀ x ∈ as, ∃ i, 1 ≤ i ∧ i ≤ t.roundAttemptCount ∧ x.key = ⟨id, t.roundNumber, i⟩)
    (hall : ∀ i, 1 ≤ i → i ≤ t.roundAttemptCount →
      (d.addAttempts as).Recorded ⟨id, t.roundNumber, i⟩) :
    Db.Valid (((d.addAttempts as).modifyTask id (MailTask.claimed token leaseEnd)).hand
      (t.job id a token)) n := by
  generalize hd' : ((d.addAttempts as).modifyTask id (MailTask.claimed token leaseEnd)).hand
    (t.job id a token) = d'
  have hrecorded : ∀ k, d'.Recorded k ↔ (d.addAttempts as).Recorded k := by
    intro k
    rw [← hd']
    rfl
  have hhanded : ∀ k, d'.Handed k ↔
      d.Handed k ∨ k = ⟨id, t.roundNumber, t.roundAttemptCount + 1⟩ := by
    intro k
    have hlist : d'.handed = d.handed ++ [t.job id a token] := by
      rw [← hd']
      show (d.addAttempts as).handed ++ _ = _
      rw [Db.addAttempts_handed]
    unfold Db.Handed
    rw [hlist]
    simp only [List.mem_append, List.mem_singleton, or_and_right, exists_or, exists_eq_left]
    exact or_congr_right ⟨fun h => h.symm, fun h => h.symm⟩
  have hget : ∀ j, d'.tasks.get? j =
      if j = id then (d.tasks.get? j).map (MailTask.claimed token leaseEnd)
        else d.tasks.get? j := by
    intro j
    rw [← hd']
    show ((d.addAttempts as).tasks.modify id _).get? j = _
    rw [Table.get?_modify, Db.addAttempts_tasks]
  have hself : d'.tasks.get? id = some (t.claimed token leaseEnd) := by
    rw [hget, if_pos rfl, ht]
    rfl
  constructor
  · intro k hk
    rw [hhanded]
    rcases Db.recorded_addAttempts.mp ((hrecorded k).mp hk) with hk | ⟨x, hx, rfl⟩
    · exact Or.inl (hv.claimed k hk)
    · obtain ⟨i, hi, hle, hkey⟩ := hclosed x hx
      rw [hkey]
      exact Or.inl ((hv.counted id t ht i).mpr ⟨hi, hle⟩)
  · intro k hk i hi hlt
    rw [hrecorded]
    rcases (hhanded k).mp hk with hk | rfl
    · exact Db.recorded_addAttempts.mpr (Or.inl (hv.prior k hk i hi hlt))
    · exact hall i hi (Nat.le_of_lt_succ hlt)
  · intro j t' ht' i
    rw [hhanded]
    by_cases hj : j = id
    · subst hj
      cases hself.symm.trans ht'
      show _ ∨ (⟨j, t.roundNumber, i⟩ : AttemptKey) = _ ↔ 1 ≤ i ∧ i ≤ t.roundAttemptCount + 1
      have hcount := hv.counted j t ht i
      rw [show (t.claimed token leaseEnd).roundNumber = t.roundNumber from rfl, hcount,
        AttemptKey.mk.injEq]
      omega
    · rw [hget, if_neg hj] at ht'
      rw [AttemptKey.mk.injEq, hv.counted j t' ht' i]
      simp [hj]
  · intro k hk
    rcases (hhanded k).mp hk with hk | rfl
    · obtain ⟨t', ht', hle⟩ := hv.rounds k hk
      by_cases hj : k.taskId = id
      · rw [hj] at ht' ⊢
        cases ht.symm.trans ht'
        exact ⟨_, hself, hle⟩
      · exact ⟨t', by rw [hget, if_neg hj, ht'], hle⟩
    · exact ⟨_, hself, le_rfl⟩
  · intro j t' ht' hlease
    by_cases hj : j = id
    · subst hj
      cases hself.symm.trans ht'
      exact Nat.succ_pos _
    · rw [hget, if_neg hj] at ht'
      exact hv.leased j t' ht' hlease
  · intro j t' ht'
    by_cases hj : j = id
    · subst hj
      cases hself.symm.trans ht'
      exact hv.single j t ht
    · rw [hget, if_neg hj] at ht'
      exact hv.single j t' ht'
  · intro j t' ht'
    by_cases hj : j = id
    · subst hj
      exact hv.numbered j t ht
    · rw [hget, if_neg hj] at ht'
      exact hv.numbered j t' ht'

/-- A new row has nothing handed out. -/
theorem Db.Valid.enqueued_valid {n : ℕ} (hv : d.Valid n) {id : ℕ} {input : MailTaskInput}
    {now : Instant} (hfresh : d.tasks.get? id = none) (hid : id < n) :
    Db.Valid { d with tasks := d.tasks.insert id (input.row now) } n := by
  have hnone : ∀ k : AttemptKey, k.taskId = id → ¬ d.Handed k := by
    rintro k rfl hk
    obtain ⟨t, ht, -⟩ := hv.rounds k hk
    rw [hfresh] at ht
    cases ht
  have hget : ∀ j t, (d.tasks.insert id (input.row now)).get? j = some t →
      (j = id ∧ t = input.row now) ∨ d.tasks.get? j = some t := by
    intro j t ht
    rw [Table.get?_insert] at ht
    split at ht
    · next hj =>
        cases ht
        exact Or.inl ⟨hj, rfl⟩
    · exact Or.inr ht
  refine ⟨hv.claimed, hv.prior, fun j t ht i => ?_, fun k hk => ?_, fun j t ht hlease => ?_,
    fun j t ht => ?_, fun j t ht => ?_⟩
  · rcases hget j t ht with ⟨rfl, rfl⟩ | ht
    · refine iff_of_false (hnone _ rfl) ?_
      show ¬ (1 ≤ i ∧ i ≤ 0)
      omega
    · exact hv.counted j t ht i
  · obtain ⟨t, ht, hle⟩ := hv.rounds k hk
    refine ⟨t, ?_, hle⟩
    have hne : k.taskId ≠ id := fun heq => hnone k heq hk
    exact (Table.get?_insert_of_ne _ hne _).trans ht
  · rcases hget j t ht with ⟨rfl, rfl⟩ | ht
    · cases hlease
    · exact hv.leased j t ht hlease
  · rcases hget j t ht with ⟨rfl, rfl⟩ | ht
    · exact nofun
    · exact hv.single j t ht
  · rcases hget j t ht with ⟨rfl, rfl⟩ | ht
    · exact hid
    · exact hv.numbered j t ht

/-- A new round begins with nothing handed out. -/
theorem Db.Valid.retried_valid {n : ℕ} (hv : d.Valid n) {id : ℕ} {t : MailTask} {now : Instant}
    (ht : d.tasks.get? id = some t) :
    Db.Valid (d.modifyTask id (MailTask.nextRound now)) n := by
  have hself : (d.modifyTask id (MailTask.nextRound now)).tasks.get? id =
      some (t.nextRound now) := (Table.get?_modify_self ..).trans (by rw [ht]; rfl)
  have hother : ∀ j, j ≠ id → (d.modifyTask id (MailTask.nextRound now)).tasks.get? j =
      d.tasks.get? j := fun j hj => Table.get?_modify_of_ne _ hj _
  refine ⟨hv.claimed, hv.prior, fun j t' ht' i => ?_, fun k hk => ?_, fun j t' ht' hlease => ?_,
    fun j t' ht' => ?_, fun j t' ht' => ?_⟩
  all_goals try by_cases hj : j = id
  · subst hj
    cases hself.symm.trans ht'
    refine iff_of_false (fun hk => ?_) ?_
    · obtain ⟨t', ht', hle⟩ := hv.rounds _ hk
      cases ht.symm.trans ht'
      have hlate : t.roundNumber + 1 ≤ t.roundNumber := hle
      omega
    · show ¬ (1 ≤ i ∧ i ≤ 0)
      omega
  · rw [hother j hj] at ht'
    exact hv.counted j t' ht' i
  · obtain ⟨t', ht', hle⟩ := hv.rounds k hk
    by_cases hj : k.taskId = id
    · rw [hj] at ht' ⊢
      cases ht.symm.trans ht'
      exact ⟨_, hself, Nat.le_succ_of_le hle⟩
    · exact ⟨t', (hother _ hj).trans ht', hle⟩
  · subst hj
    cases hself.symm.trans ht'
    cases hlease
  · rw [hother j hj] at ht'
    exact hv.leased j t' ht' hlease
  · subst hj
    cases hself.symm.trans ht'
    exact fun _ => ⟨rfl, rfl⟩
  · rw [hother j hj] at ht'
    exact hv.single j t' ht'
  · subst hj
    exact hv.numbered j t ht
  · rw [hother j hj] at ht'
    exact hv.numbered j t' ht'

theorem MailTask.cancel_kept {t : MailTask} (ht : t.sentAt = none) (now : Instant) (code : String) :
    t.Kept (t.cancel now code) := by
  refine ⟨rfl, rfl, nofun, fun _ hs => ?_⟩
  have hs : t.sentAt.isSome = true := hs
  rw [ht] at hs
  cases hs

theorem MailTask.Kept.trans {t t' t'' : MailTask} (h : t.Kept t') (h' : t'.Kept t'') : t.Kept t'' :=
  ⟨h'.round.trans h.round, h'.count.trans h.count, h.lease ∘ h'.lease, h'.single ∘ h.single⟩

/-- An operation that hands nothing out and leaves the counters alone. -/
def Op.plain : Op → Bool
  | .enqueueMailTask _ | .claimMail _ _ | .retryMailTask _ => false
  | _ => true

theorem Op.plain_of_ack {op : Op} {a : Ack} (h : op.ack = some a) : op.plain = true := by
  unfold Op.ack at h
  split at h <;> first | rfl | cases h

/-- The other commits keep the counters. -/
theorem Commit.kept (h : Commit op u K d d' r) (hv : ∃ n, d.Valid n) (hop : op.plain = true) :
    d.Kept d' := by
  have hrecord := h.record hv
  have hsame : d'.tasks = d.tasks → ∀ id,
      Option.Rel MailTask.Kept (d.tasks.get? id) (d'.tasks.get? id) := by
    intro heq id
    rw [heq]
    cases d.tasks.get? id with
    | none => exact .none
    | some t => exact .some (.refl t)
  -- a plain operation hands nothing out
  have hhanded : d'.handed = d.handed := by
    rcases h.handed with hsame | ⟨token, duration, job, rfl, rfl, -⟩
    · exact hsame
    · cases hop
  refine ⟨hhanded, hrecord.1, hrecord.2, ?_⟩
  cases h with
  | elapsed time => exact hsame rfl
  | changed a => exact hsame rfl
  | enqueued input => cases hop
  | idle token duration => exact hsame rfl
  | claimed token duration => cases hop
  | lost op a hack => exact hsame rfl
  | acknowledged op a hack t x now hkey ht hheld hx =>
      obtain ⟨-, hopen⟩ := Bool.and_eq_true_iff.mp hheld
      intro id
      rw [Db.upsertAttempt_tasks]
      show Option.Rel _ _ ((d.tasks.modify a.id _).get? id)
      rw [Table.get?_modify]
      split
      · next hid =>
          subst hid
          rw [ht]
          exact .some (Op.ack_kept hack hopen now)
      · cases d.tasks.get? id with
        | none => exact .none
        | some t => exact .some (.refl t)
  | recorded job outcome code x hjob hx => exact hsame (Db.upsertAttempt_tasks x)
  -- a task may be cancelled twice, as expired and as superseded
  | swept as expired superseded now now' a has hids =>
      intro id
      show Option.Rel _ _ ((((d.addAttempts as).cancelTasks expired now "expired").cancelTasks
        superseded now' "superseded").tasks.get? id)
      rw [get?_cancelTasks, get?_cancelTasks, Db.addAttempts_tasks]
      by_cases hid : id ∈ expired ++ superseded
      · obtain ⟨-, t, ht, hopen⟩ := hids id hid
        rw [ht]
        refine .some ?_
        have hsent := (MailTask.open_iff.mp hopen).1
        split
        · split
          · exact (MailTask.cancel_kept hsent now "expired").trans
              (MailTask.cancel_kept (t := t.cancel now "expired") hsent now' "superseded")
          · exact MailTask.cancel_kept hsent now "expired"
        · split
          · exact MailTask.cancel_kept hsent now' "superseded"
          · exact .refl t
      · rw [List.mem_append, not_or] at hid
        rw [List.contains_eq_mem, List.contains_eq_mem, decide_eq_false hid.1,
          decide_eq_false hid.2]
        cases d.tasks.get? id with
        | none => exact .none
        | some t => exact .some (.refl t)
  | retried id => cases hop

/-- **Every commit keeps the invariant.**

Only a claim hands out an attempt, and it records before what the round is lacking.  The record of a
result is of an attempt that was handed out, so that it fills a gap at most. -/
theorem Commit.valid (h : Commit op u K d d' r) {n : ℕ} (hv : d.Valid n)
    (hserial : ∀ i, .serial i ∈ K → i < n) : d'.Valid n := by
  cases h with
  | enqueued input id now hid hfresh => exact hv.enqueued_valid hfresh (hserial id hid)
  | claimed token duration id t a as leaseEnd hkey ht hopen hunleased hclosed hall =>
      exact hv.claimed_valid ht hclosed hall
  | retried id t now hkey ht => exact hv.retried_valid ht
  | elapsed time => exact (Commit.kept (.elapsed (K := K) time) ⟨n, hv⟩ rfl).valid hv
  | changed a => exact (Commit.kept (.changed (K := K) a) ⟨n, hv⟩ rfl).valid hv
  | idle => exact hv
  | lost => exact hv
  | acknowledged op a hack t x now hkey ht hheld hx =>
      exact (Commit.kept (.acknowledged op a hack t x now hkey ht hheld hx) ⟨n, hv⟩
        (Op.plain_of_ack hack)).valid hv
  | recorded job outcome code x hjob hx =>
      exact (Commit.kept (.recorded (K := K) job outcome code x hjob hx) ⟨n, hv⟩ rfl).valid hv
  | swept as expired superseded now now' a has hids =>
      exact (Commit.kept (.swept as expired superseded now now' a has hids) ⟨n, hv⟩ rfl).valid hv

def contract : Contract Db Key Op Unit Reply where
  inv := Db.Valid
  inv_mono hv hle := { hv with numbered := fun id t ht => (hv.numbered id t ht).trans_le hle }
  commits := Commit

end BindPlane.Mail
