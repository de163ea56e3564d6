import BindPlane.Coroutine.Shared
import BindPlane.Mail.Data

/-!
# One delivery of the mail dispatcher

What `ProcessOnce` does with a job between its claim and its release
(`internal/auth/application/mail_dispatcher.go`), as a program that calls the store, the mailer and
the clock.

**Contexts.**  A call that runs under a context of its own is given the deadline of that context.
The context of an acknowledgement is cut off from every other (`acknowledgementContext`): it ends at
its deadline and not before.

**Messages.**  What a message says is of no account here, so that `compose` is a call, with any
outcome.

**The journal.**  Everything that is asked about a delivery is about its calls and their times: how
often it was acknowledged, when the mailer answered, and what is left of the context then.  So the
program is verified against a guard on journals, like the executors of the worker.
-/

namespace BindPlane.Dispatch

open Coroutine Mail

/-- A `time.Duration` in nanoseconds. -/
def second : ℤ := 1000000000

/-- An error, as far as `errors.Is` and `errors.As` tell it from others. -/
inductive Failure
  | invalidPasswordResetToken
  | invitationInvalid
  | invalidEmailChange
  | mailNotConfigured
  /-- A `MailDeliveryError`. -/
  | delivery (code : String) (temporary : Bool)
  | other
  deriving DecidableEq, Repr

/-- What the store is told about a delivery. -/
inductive Ack
  | markMailSent
  | retryMail (delay : ℤ) (code : String)
  | deadLetterMail (code : String)
  | discardMail (code : String)
  deriving DecidableEq, Repr

/-- A call.  Where it carries a deadline, it is that of its context. -/
inductive Request
  | now
  | compose
  | resolveMailer (deadline : ℤ)
  | send (deadline : ℤ)
  | acknowledge (ack : Ack) (deadline : ℤ)
  | recordMailAttempt (key : AttemptKey) (outcome : Outcome) (errorCode : String) (deadline : ℤ)
  | currentMailRetryCount (deadline : ℤ)
  /-- Eight random bytes, as a number. -/
  | random
  deriving DecidableEq, Repr

/-- What a call returns if it does not fail. -/
@[reducible] def Reply : Request → Type
  | .now => ℤ
  | .compose => Unit
  | .resolveMailer _ => Unit
  | .send _ => Unit
  | .acknowledge .. => Bool
  | .recordMailAttempt .. => Unit
  | .currentMailRetryCount _ => ℤ
  | .random => ℕ

/-- The fields of the dispatcher that do not change, and which of its parts are there. -/
structure MailDispatcher where
  /-- The outbox, the random source, and a mailer or a provider of one. -/
  wired : Bool
  lease : ℤ
  retryInitial : ℤ
  retryMax : ℤ
  maxAttempts : ℤ
  requireMaterial : Bool
  retryPolicy : Bool
  /-- The outbox is a `MailAttemptRecorder`. -/
  records : Bool

abbrev Act (α : Type) := Prog Reply Failure α

def mailTaskMinRetryCount : ℤ := 0
def mailTaskMaxRetryCount : ℤ := 100

/-- The codes that are kept as they are. -/
def deliveryCodes : List String :=
  ["temporary", "permanent", "expired", "superseded", "invalid_reset", "invalid_invitation",
    "invalid_email_change", "dependency"]

namespace MailDispatcher

variable (d : MailDispatcher) (job : MailJob)

/-- The lease, or half a minute. -/
def bound : ℤ := if d.lease ≤ 0 then 30 * second else d.lease

/-- Call, and return what the call fails with. -/
def call (q : Request) : Act (Reply q) := Prog.perform q

/-- Call, and look at what the call fails with. -/
def attempt (q : Request) : Act (Except Failure (Reply q)) := Prog.attempt q

def now : Act ℤ := call .now

/-- The deadline of `deliveryContext`, but for that of its parent. -/
def deliveryContext : Act ℤ := do return (← now) + d.bound

def acknowledgementContext : Act ℤ := do return (← now) + d.bound

def recordMailAttempt (outcome : Outcome) (errorCode : String) (deadline : ℤ) : Act Unit :=
  if d.records = false ∨ job.round = 0 ∨ job.roundAttempts = 0 then pure ()
  else do
    let _ ← attempt (.recordMailAttempt job.key outcome errorCode deadline)
    return ()

/-- Acknowledge, and record the attempt where the store has not taken the acknowledgement. -/
def settle (ack : Ack) (outcome : Outcome) (errorCode : String) (deadline : ℤ) : Act Unit := do
  let taken ← call (.acknowledge ack deadline)
  if taken then return ()
  else d.recordMailAttempt job outcome errorCode deadline

/-! ## Retries -/

/-- The loop of `retryDelay`: `n` more doublings at most. -/
def doubled : ℕ → ℤ → ℤ
  | 0, delay => delay
  | n + 1, delay =>
      if delay < d.retryMax then
        if d.retryMax / 2 < delay then d.retryMax else doubled n (delay * 2)
      else delay

/-- The delay before the jitter. -/
def backoff (attempts : ℤ) : ℤ :=
  let attempts := if attempts < 1 then 1 else attempts
  let delay := d.doubled (attempts - 1).toNat d.retryInitial
  if 0 < d.retryMax ∧ d.retryMax < delay then d.retryMax else delay

/-- The delay, unless the random source fails. -/
def retryDelay (attempts : ℤ) : Act (Except Failure ℤ) :=
  if d.retryInitial ≤ 0 then pure (.ok 0)
  else if d.backoff attempts ≤ 1 then pure (.ok (d.backoff attempts))
  else do
    match ← attempt .random with
    | .ok raw => return .ok ((raw : ℤ) % d.backoff attempts)
    | .error failure => return .error failure

/-- The delay that is asked for, given what `retryDelay` has come to. -/
def usedDelay (delay : Except Failure ℤ) : ℤ :=
  let delay := match delay with
    | .ok delay => delay
    | .error _ => d.retryInitial
  let delay :=
    if delay ≤ 0 then if d.retryInitial ≤ 0 then second else d.retryInitial else delay
  if 0 < d.retryMax ∧ d.retryMax < delay then d.retryMax else delay

/-- The number of attempts that the policy allows, if it can be read. -/
def allowedAttempts (deadline : ℤ) : Act (Option ℤ) :=
  if d.retryPolicy = false then pure (some d.maxAttempts)
  else do
    match ← attempt (.currentMailRetryCount deadline) with
    | .error _ => return none
    | .ok retries =>
        let retries := if retries < mailTaskMinRetryCount then mailTaskMinRetryCount else retries
        let retries := if mailTaskMaxRetryCount < retries then mailTaskMaxRetryCount else retries
        return some (retries + 1)

/-- Whether the message depends on a credential of its own that is past its end. -/
def credentialExpired : Act Bool :=
  if job.encryptedMaterial = [] ∧ d.requireMaterial = false ∧
      (job.kind = .passwordReset ∨ job.kind = .userInvitation ∨ job.kind = .emailChangeCode) then
    do return decide (job.expiresAt ≤ (← now))
  else pure false

/-- The number of the attempt in its round. -/
def roundAttempts (job : MailJob) : ℕ :=
  if job.roundAttempts = 0 then job.attempts else job.roundAttempts

/-- Whether a temporary failure is to be tried again. -/
def retryable (failure : Failure) (maxAttempts : ℤ) : Act Bool :=
  let maxAttempts := if maxAttempts < 1 then 1 else maxAttempts
  match failure with
  | .delivery _ true =>
      if (roundAttempts job : ℤ) < maxAttempts then
        if job.encryptedMaterial ≠ [] then pure true
        else do return decide ((← now) < job.expiresAt)
      else pure false
  | _ => pure false

/-- The code of a dead letter. -/
def deadCode : Failure → String
  | .delivery code _ => if code ∈ deliveryCodes then code else "permanent"
  | _ => "permanent"

def retryCode : Failure → String
  | .delivery "dependency" _ => "dependency"
  | _ => "temporary"

def handleDeliveryFailure (failure : Failure) (deadline : ℤ) : Act Unit := do
  if ← d.credentialExpired job then
    d.settle job (.discardMail "expired") .failed "expired" deadline
  else
    match ← d.allowedAttempts deadline with
    | none => d.settle job (.deadLetterMail "dependency") .failed "dependency" deadline
    | some maxAttempts =>
        if ← retryable job failure maxAttempts then
          let delay ← d.retryDelay (roundAttempts job)
          d.settle job (.retryMail (d.usedDelay delay) (retryCode failure)) .failed
            (retryCode failure) deadline
        else
          d.settle job (.deadLetterMail (deadCode failure)) .failed (deadCode failure) deadline

/-! ## The delivery -/

/-- Whether a message without material of its own is past its end. -/
def expired : Act Bool :=
  if job.encryptedMaterial = [] ∧ d.requireMaterial = false then
    do return decide (job.expiresAt ≤ (← now))
  else pure false

/-- What `ProcessOnce` does with a job under the context of its delivery.

Every path ends in one acknowledgement.  Its deadline is drawn behind the last step of the delivery,
so that a delivery that has used up its own context can still be recorded. -/
def deliver : Act Unit := do
  if ← d.expired job then
    let deadline ← d.acknowledgementContext
    d.settle job (.discardMail "expired") .failed "expired" deadline
  else
    match ← attempt .compose with
    | .error failure =>
        let deadline ← d.acknowledgementContext
        match failure with
        | .invalidPasswordResetToken =>
            d.settle job (.discardMail "invalid_reset") .failed "invalid_reset" deadline
        | .invitationInvalid =>
            d.settle job (.discardMail "invalid_invitation") .failed "invalid_invitation" deadline
        | .invalidEmailChange =>
            d.settle job (.discardMail "invalid_email_change") .failed "invalid_email_change"
              deadline
        | _ => d.handleDeliveryFailure job (.delivery "dependency" true) deadline
    | .ok _ =>
        let context ← d.deliveryContext
        match ← attempt (.resolveMailer context) with
        | .error failure =>
            let deadline ← d.acknowledgementContext
            d.handleDeliveryFailure job
              (if failure = .mailNotConfigured then .delivery "permanent" false
                else .delivery "dependency" true) deadline
        | .ok _ =>
            let result ← attempt (.send context)
            let deadline ← d.acknowledgementContext
            match result with
            | .ok _ => d.settle job .markMailSent .sent "" deadline
            | .error failure => d.handleDeliveryFailure job failure deadline

end MailDispatcher

/-! ## One acknowledgement -/

abbrev Journal := List (Coroutine.Event Reply Failure)

def isAck : Coroutine.Event Reply Failure → Bool
  | .called (.acknowledge ..) => true
  | _ => false

/-- How many acknowledgements have been started. -/
def acks (h : Journal) : ℕ := h.countP isAck

def isResult : Coroutine.Event Reply Failure → Bool
  | .returned (.send _) _ => true
  | _ => false

/-- The mailer has returned. -/
def mailed (h : Journal) : Bool := h.any isResult

/-- What the clock says right behind the result of the mailer. -/
def clockedResult : Journal → Option ℤ
  | .returned .now (.ok t) :: .called .now :: .returned (.send _) _ :: _ => some t
  | _ => none

/-- When the result of the mailer was there. -/
def resultTime : Journal → Option ℤ
  | [] => none
  | e :: h => (resultTime h).or (clockedResult (e :: h))

/-- The clock has not failed. -/
def Clocked (h : Journal) : Prop := ∀ failure, .returned .now (.error failure) ∉ h

/-- Nothing has been sent or acknowledged. -/
def Unsent (h : Journal) : Prop := acks h = 0 ∧ mailed h = false

/-- Nothing has been acknowledged, and behind a result of the mailer, the context of the
acknowledgement is as old as the result. -/
def Due (d : MailDispatcher) (deadline : ℤ) (h : Journal) : Prop :=
  acks h = 0 ∧ (mailed h = true → resultTime h = some (deadline - d.bound))

/-- What a delivery keeps to. -/
def Guard (d : MailDispatcher) (h : Journal) : Request → Prop
  | .send _ => Unsent h
  | .acknowledge _ deadline => Due d deadline h
  | _ => True

/-- A delivery ends with one acknowledgement. -/
def Settled (h : Journal) (_ : Except Failure Unit) : Prop := Clocked h → acks h = 1

/-- A call that is neither of the mailer nor an acknowledgement. -/
def Request.plain : Request → Bool
  | .send _ | .acknowledge .. => false
  | _ => true

/-- Such calls leave it alone. -/
def Steady (P : Journal → Prop) : Prop :=
  ∀ q, q.plain = true → ∀ r h, P h → P (.returned q r :: .called q :: h)

/-- A part of a delivery under which `P` lasts. -/
def Quiet {α : Type} (d : MailDispatcher) (P : Journal → Prop) (p : Act α) : Prop :=
  ∀ h, P h → p.Safe (Guard d) (fun h r => match r with
    | .ok _ => P h
    | .error _ => ¬ Clocked h) h

section Acknowledgement

variable {α β : Type} {d : MailDispatcher} {job : MailJob} {h : Journal} {q : Request}
  {P : Journal → Prop} {deadline : ℤ}

theorem acks_returned (hq : isAck (.called q) = false) (r : Except Failure (Reply q)) :
    acks (.returned q r :: .called q :: h) = acks h := by
  unfold acks
  rw [List.countP_cons_of_neg (by simp [isAck]), List.countP_cons_of_neg (by simp [hq])]

theorem acks_acknowledge (ack : Ack) (deadline : ℤ)
    (r : Except Failure (Reply (.acknowledge ack deadline))) :
    acks (.returned (.acknowledge ack deadline) r :: .called (.acknowledge ack deadline) :: h) =
      acks h + 1 := by
  unfold acks
  rw [List.countP_cons_of_neg (by simp [isAck]), List.countP_cons_of_pos rfl]

theorem plain_called (hq : q.plain = true) : isAck (.called q) = false := by
  cases q with
  | send | acknowledge => cases hq
  | now | compose | resolveMailer | recordMailAttempt | currentMailRetryCount | random => rfl

theorem plain_returned (hq : q.plain = true) (r : Except Failure (Reply q)) :
    isResult (.returned q r) = false := by
  cases q with
  | send | acknowledge => cases hq
  | now | compose | resolveMailer | recordMailAttempt | currentMailRetryCount | random => rfl

theorem guard_of (hq : q.plain = true) : Guard d h q := by
  cases q with
  | send | acknowledge => cases hq
  | now | compose | resolveMailer | recordMailAttempt | currentMailRetryCount | random => trivial

theorem mailed_returned {r : Except Failure (Reply q)} (hr : isResult (.returned q r) = false) :
    mailed (.returned q r :: .called q :: h) = mailed h := by
  unfold mailed
  rw [List.any_cons, List.any_cons, hr, show isResult (.called q) = false from rfl]
  rfl

theorem resultTime_cons {e : Coroutine.Event Reply Failure} {t : ℤ} (ht : resultTime h = some t) :
    resultTime (e :: h) = some t := by
  show (resultTime h).or _ = _
  rw [ht]
  rfl

theorem resultTime_of_unsent : ∀ {h : Journal}, mailed h = false → resultTime h = none
  | [], _ => rfl
  | e :: h, hmailed => by
      have hrest : mailed h = false := by
        unfold mailed at hmailed ⊢
        rw [List.any_cons, Bool.or_eq_false_iff] at hmailed
        exact hmailed.2
      show (resultTime h).or _ = none
      rw [resultTime_of_unsent hrest]
      show clockedResult (e :: h) = none
      unfold clockedResult
      split
      next hshape =>
        cases hshape
        cases hmailed
      next => rfl

theorem steady_unsent : Steady Unsent := by
  rintro q hq r h ⟨hacks, hmailed⟩
  refine ⟨?_, ?_⟩
  · rwa [acks_returned (plain_called hq)]
  · rwa [mailed_returned (plain_returned hq r)]

theorem steady_due : Steady (Due d deadline) := by
  rintro q hq r h ⟨hacks, htime⟩
  refine ⟨?_, ?_⟩
  · rwa [acks_returned (plain_called hq)]
  · rw [mailed_returned (plain_returned hq r)]
    exact fun hmailed => resultTime_cons (resultTime_cons (htime hmailed))

theorem Quiet.pure (a : α) : Quiet d P (.pure a) := fun _ hh => hh

theorem Quiet.bind {p : Act α} {g : α → Act β} (hp : Quiet d P p) (hg : ∀ a, Quiet d P (g a)) :
    Quiet d P (p.bind g) := by
  intro h hh
  refine Prog.Safe.bind ((hp h hh).mono fun h' r hr => ?_)
  cases r with
  | ok a => exact hg a h' hr
  | error failure => exact hr

theorem not_clocked (failure : Failure) : ¬ Clocked (.returned .now (.error failure) :: h) :=
  fun hclocked => hclocked failure List.mem_cons_self

theorem quiet_now (hP : Steady P) : Quiet d P MailDispatcher.now := by
  intro h hh
  refine ⟨trivial, fun r => ?_⟩
  cases r with
  | ok t => exact hP .now rfl (.ok t) h hh
  | error failure => exact not_clocked failure

theorem quiet_attempt (hP : Steady P) (hq : q.plain = true) :
    Quiet d P (MailDispatcher.attempt q) :=
  fun h hh => ⟨guard_of hq, fun r => hP q hq r h hh⟩

/-- Behind a quiet part, a delivery is where it was. -/
theorem Quiet.then {p : Act α} {g : α → Act Unit} (hp : Quiet d P p)
    (hg : ∀ a h, P h → (g a).Safe (Guard d) Settled h) (hh : P h) :
    (p.bind g).Safe (Guard d) Settled h := by
  refine Prog.Safe.bind ((hp h hh).mono fun h' r hr => ?_)
  cases r with
  | ok a => exact hg a h' hr
  | error failure => exact fun hclocked => absurd hclocked hr

theorem settle_safe (ack : Ack) (outcome : Outcome) (errorCode : String)
    (hh : Due d deadline h) :
    (d.settle job ack outcome errorCode deadline).Safe (Guard d) Settled h := by
  refine ⟨hh, fun r => ?_⟩
  have hacks := acks_acknowledge (h := h) ack deadline r
  rw [hh.1] at hacks
  cases r with
  | error failure => exact fun _ => hacks
  | ok taken =>
      cases taken with
      | true => exact fun _ => hacks
      | false =>
          show (d.recordMailAttempt job outcome errorCode deadline).Safe (Guard d) Settled _
          unfold MailDispatcher.recordMailAttempt
          split
          · exact fun _ => hacks
          · refine ⟨trivial, fun r _ => ?_⟩
            rwa [acks_returned rfl]

theorem quiet_credentialExpired (hP : Steady P) : Quiet d P (d.credentialExpired job) := by
  unfold MailDispatcher.credentialExpired
  split
  · exact (quiet_now hP).bind fun _ => .pure _
  · exact .pure _

theorem quiet_expired (hP : Steady P) : Quiet d P (d.expired job) := by
  unfold MailDispatcher.expired
  split
  · exact (quiet_now hP).bind fun _ => .pure _
  · exact .pure _

theorem quiet_allowedAttempts (hP : Steady P) : Quiet d P (d.allowedAttempts deadline) := by
  unfold MailDispatcher.allowedAttempts
  split
  · exact .pure _
  · refine (quiet_attempt hP rfl).bind fun r => ?_
    cases r with
    | ok retries => exact .pure _
    | error failure => exact .pure _

theorem quiet_retryable (hP : Steady P) (failure : Failure) (maxAttempts : ℤ) :
    Quiet d P (MailDispatcher.retryable job failure maxAttempts) := by
  unfold MailDispatcher.retryable
  dsimp only
  generalize (if maxAttempts < 1 then 1 else maxAttempts) = limit
  split
  · split
    · split
      · exact .pure _
      · exact (quiet_now hP).bind fun _ => .pure _
    · exact .pure _
  · exact .pure _

theorem quiet_retryDelay (hP : Steady P) (attempts : ℤ) : Quiet d P (d.retryDelay attempts) := by
  unfold MailDispatcher.retryDelay
  split
  · exact .pure _
  · split
    · exact .pure _
    · refine (quiet_attempt hP rfl).bind fun r => ?_
      cases r with
      | ok raw => exact .pure _
      | error failure => exact .pure _

theorem handleDeliveryFailure_safe (failure : Failure) (hh : Due d deadline h) :
    (d.handleDeliveryFailure job failure deadline).Safe (Guard d) Settled h := by
  refine (quiet_credentialExpired steady_due).then (fun expired h hh => ?_) hh
  split
  · exact settle_safe _ _ _ hh
  · refine (quiet_allowedAttempts steady_due).then (fun allowed h hh => ?_) hh
    cases allowed with
    | none => exact settle_safe _ _ _ hh
    | some maxAttempts =>
        refine (quiet_retryable steady_due failure maxAttempts).then (fun again h hh => ?_) hh
        split
        · exact (quiet_retryDelay steady_due _).then (fun delay h hh => settle_safe _ _ _ hh) hh
        · exact settle_safe _ _ _ hh

/-- The context of an acknowledgement that tells of no result of the mailer. -/
theorem context_then {g : ℤ → Act Unit} (hh : Unsent h)
    (hg : ∀ deadline h, Due d deadline h → (g deadline).Safe (Guard d) Settled h) :
    (d.acknowledgementContext.bind g).Safe (Guard d) Settled h := by
  refine ⟨trivial, fun r => ?_⟩
  cases r with
  | ok t =>
      obtain ⟨hacks, hmailed⟩ := steady_unsent .now rfl (.ok t) h hh
      exact hg _ _ ⟨hacks, fun htrue => absurd (htrue.symm.trans hmailed) Bool.true_eq_false.mp⟩
  | error failure => exact fun hclocked => absurd hclocked (not_clocked failure)

/-- The context is made right behind the result, at what is its time. -/
theorem send_then {g : Except Failure Unit → ℤ → Act Unit} (context : ℤ) (hh : Unsent h)
    (hg : ∀ result deadline h, Due d deadline h → (g result deadline).Safe (Guard d) Settled h) :
    ((MailDispatcher.attempt (.send context)).bind fun result =>
      d.acknowledgementContext.bind (g result)).Safe (Guard d) Settled h := by
  refine ⟨hh, fun result => ⟨trivial, fun r => ?_⟩⟩
  cases r with
  | ok t =>
      refine hg _ _ _ ⟨?_, fun _ => ?_⟩
      · rw [acks_returned rfl]
        exact (acks_returned rfl result).trans hh.1
      · have hnone := resultTime_of_unsent hh.2
        show ((((resultTime h).or none).or none).or none).or (some t) = _
        rw [hnone]
        exact congrArg some (Int.add_sub_cancel t d.bound).symm
  | error failure => exact fun hclocked => absurd hclocked (not_clocked failure)

/-- **One acknowledgement**, whatever the calls come to, behind the result of the mailer and in a
context of that time.

A delivery may fail in the composition of its message, in the lookup of the mailer, in the mailer
and in the lookup of the retry policy, and each failure has its acknowledgement.  As long as the
clock can be read none of them leaves the task without one. -/
theorem deliver_safe (d : MailDispatcher) (job : MailJob) :
    (d.deliver job).Safe (Guard d) Settled [] := by
  refine (quiet_expired steady_unsent).then (fun expired h hh => ?_) ⟨rfl, rfl⟩
  split
  · exact context_then hh fun deadline h hh => settle_safe _ _ _ hh
  · refine (quiet_attempt steady_unsent rfl).then (fun composed h hh => ?_) hh
    cases composed with
    | error failure =>
        refine context_then hh fun deadline h hh => ?_
        cases failure with
        | invalidPasswordResetToken | invitationInvalid | invalidEmailChange =>
            exact settle_safe _ _ _ hh
        | mailNotConfigured | delivery | other => exact handleDeliveryFailure_safe _ hh
    | ok message =>
        refine ((quiet_now steady_unsent).bind fun _ => .pure _).then (fun context h hh => ?_) hh
        refine (quiet_attempt steady_unsent rfl).then (fun resolved h hh => ?_) hh
        cases resolved with
        | error failure =>
            exact context_then hh fun deadline h hh => handleDeliveryFailure_safe _ hh
        | ok mailer =>
            refine send_then context hh fun result deadline h hh => ?_
            cases result with
            | ok sent => exact settle_safe _ _ _ hh
            | error failure => exact handleDeliveryFailure_safe _ hh

end Acknowledgement

end BindPlane.Dispatch
