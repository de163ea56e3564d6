import BindPlane.Legacy.Application

/-!
# The discipline of a process

What the programs do, said of their journals alone and for every answer they may get.  `Guard` is
the condition under which a process makes a call:

* a job is claimed by the first call, if at all;
* a job is written as running, or its command sent, where it was claimed and its status has not
  been assigned since;
* the last commit ends an execution that has taken its job, and nothing follows it.
-/

namespace BindPlane.Legacy

open Coroutine

/-! ## Journals -/

namespace Journal

/-- The last commit has been called for. -/
def Over (h : Journal) : Prop := ∃ message, .called (Call.finish message) ∈ h

/-- The status has been assigned. -/
def Settled (h : Journal) : Prop := ∃ a, .called (Call.settle a) ∈ h

/-- A job was taken for execution: it was claimed, or it is of the wrong kind. -/
def Taken (h : Journal) : Prop :=
  ∃ kind jobId job, .returned (Call.claimJob kind jobId) (.ok (job, true)) ∈ h

/-- A job was claimed. -/
def Claimed (h : Journal) (jobId : ℕ) : Prop :=
  ∃ kind job, .returned (Call.claimJob kind jobId) (.ok (job, true)) ∈ h ∧ job.kind = kind

/-- **When a process makes a call.**

A process cannot see the row while it works, only what it has been told.  The guard says what it may
do on that ground, for each of its calls. -/
def Guard (h : Journal) (q : Call) : Prop :=
  ¬ Over h ∧
    match q with
    | .claimJob _ _ => h = []
    | .updateJobPhase _ | .commitJobCheckpoint | .release =>
        (∃ jobId, Claimed h jobId) ∧ ¬ Settled h
    | .finish _ => Taken h
    | _ => True

/-- A job is being executed. -/
structure Working (h : Journal) : Prop where
  claimed : ∃ jobId, Claimed h jobId
  unsettled : ¬ Settled h
  going : ¬ Over h

/-- A job was taken, and the execution goes on. -/
structure Held (h : Journal) : Prop where
  taken : Taken h
  going : ¬ Over h

variable {h : Journal} {q : Call} {r : Except Exc q.Result} {jobId : ℕ}

theorem Claimed.taken (hc : Claimed h jobId) : Taken h := by
  obtain ⟨kind, job, hmem, -⟩ := hc
  exact ⟨kind, jobId, job, hmem⟩

theorem Working.held (hw : Working h) : Held h := by
  obtain ⟨jobId, hc⟩ := hw.claimed
  exact ⟨hc.taken, hw.going⟩

theorem called_cons {q' : Call} (hm : .called q' ∈ (.returned q r :: .called q :: h : Journal)) :
    q' = q ∨ .called q' ∈ h := by
  rcases List.mem_cons.mp hm with hm | hm
  · cases hm
  · rcases List.mem_cons.mp hm with hm | hm
    · exact Or.inl (Event.called.inj hm)
    · exact Or.inr hm

/-- What has returned is the last call, or has returned before. -/
theorem returned_cons {q' : Call} {r' : Except Exc q'.Result}
    (hm : .returned q' r' ∈ (.returned q r :: .called q :: h : Journal)) :
    (⟨q', r'⟩ : (q : Call) × Except Exc q.Result) = ⟨q, r⟩ ∨ .returned q' r' ∈ h := by
  rcases List.mem_cons.mp hm with hm | hm
  · cases hm
    exact Or.inl rfl
  · rcases List.mem_cons.mp hm with hm | hm
    · cases hm
    · exact Or.inr hm

theorem Over.cons (ho : Over h) : Over (.returned q r :: .called q :: h : Journal) :=
  ho.imp fun _ hm => List.mem_cons_of_mem _ (List.mem_cons_of_mem _ hm)

theorem Settled.cons (hs : Settled h) : Settled (.returned q r :: .called q :: h : Journal) :=
  hs.imp fun _ hm => List.mem_cons_of_mem _ (List.mem_cons_of_mem _ hm)

theorem Claimed.cons (hc : Claimed h jobId) :
    Claimed (.returned q r :: .called q :: h : Journal) jobId := by
  obtain ⟨kind, job, hmem, hkind⟩ := hc
  exact ⟨kind, job, List.mem_cons_of_mem _ (List.mem_cons_of_mem _ hmem), hkind⟩

theorem Taken.cons (ht : Taken h) : Taken (.returned q r :: .called q :: h : Journal) := by
  obtain ⟨kind, jobId, job, hmem⟩ := ht
  exact ⟨kind, jobId, job, List.mem_cons_of_mem _ (List.mem_cons_of_mem _ hmem)⟩

theorem not_over_cons (hgo : ¬ Over h) (hq : ∀ message, q ≠ .finish message) :
    ¬ Over (.returned q r :: .called q :: h : Journal) := by
  rintro ⟨message, hm⟩
  rcases called_cons hm with heq | hm
  · exact hq message heq.symm
  · exact hgo ⟨message, hm⟩

theorem not_settled_cons (hno : ¬ Settled h) (hq : ∀ a, q ≠ .settle a) :
    ¬ Settled (.returned q r :: .called q :: h : Journal) := by
  rintro ⟨a, hm⟩
  rcases called_cons hm with heq | hm
  · exact hq a heq.symm
  · exact hno ⟨a, hm⟩

/-- A call that leaves a job at work: it neither claims, nor settles, nor ends. -/
def steady : Call → Bool
  | .claimJob _ _ | .settle _ | .finish _ => false
  | _ => true

theorem Working.guard (hw : Working h) (hq : steady q = true) : Guard h q := by
  refine ⟨hw.going, ?_⟩
  cases q with
  | claimJob kind jobId => cases hq
  | finish message => cases hq
  | updateJobPhase phase => exact ⟨hw.claimed, hw.unsettled⟩
  | commitJobCheckpoint => exact ⟨hw.claimed, hw.unsettled⟩
  | release => exact ⟨hw.claimed, hw.unsettled⟩
  | _ => trivial

theorem Working.cons (hw : Working h) (hq : steady q = true) :
    Working (.returned q r :: .called q :: h : Journal) where
  claimed := hw.claimed.imp fun _ hc => hc.cons
  unsettled := not_settled_cons hw.unsettled (by rintro a rfl; cases hq)
  going := not_over_cons hw.going (by rintro message rfl; cases hq)

theorem Held.cons (hh : Held h) (hq : ∀ message, q ≠ .finish message) :
    Held (.returned q r :: .called q :: h : Journal) :=
  ⟨hh.taken.cons, not_over_cons hh.going hq⟩

end Journal

open Journal

/-! ## Rules -/

section Rules

variable {α β : Type} {h : Journal}

/-- A part of an execution behind which the job is still at work, unless it raises. -/
def Works (p : Exec α) (h : Journal) : Prop :=
  p.Safe Guard (fun h r => match r with
    | .ok _ => Working h
    | .error _ => Held h) h

/-- A part of an execution behind which the execution goes on. -/
def Holds (p : Exec α) (h : Journal) : Prop := p.Safe Guard (fun h _ => Held h) h

theorem Works.holds {p : Exec α} (hp : Works p h) : Holds p h := by
  refine Prog.Safe.mono (fun h r hr => ?_) hp
  cases r with
  | ok a => exact Working.held hr
  | error e => exact hr

theorem Works.bind {p : Exec α} {g : α → Exec β} (hp : Works p h)
    (hg : ∀ a h', Working h' → Works (g a) h') : Works (p.bind g) h := by
  refine Prog.Safe.bind (Prog.Safe.mono (fun h r hr => ?_) hp)
  cases r with
  | ok a => exact hg a h hr
  | error e => exact hr

/-- Behind a part at work comes one that may settle the job. -/
theorem Works.bind_holds {p : Exec α} {g : α → Exec β} (hp : Works p h)
    (hg : ∀ a h', Working h' → Holds (g a) h') : Holds (p.bind g) h := by
  refine Prog.Safe.bind (Prog.Safe.mono (fun h r hr => ?_) hp)
  cases r with
  | ok a => exact hg a h hr
  | error e => exact hr

theorem Holds.bind {p : Exec α} {g : α → Exec β} (hp : Holds p h)
    (hg : ∀ a h', Held h' → Holds (g a) h') : Holds (p.bind g) h := by
  refine Prog.Safe.bind (Prog.Safe.mono (fun h r hr => ?_) hp)
  cases r with
  | ok a => exact hg a h hr
  | error e => exact hr

theorem Holds.tryCatch {p : Exec α} {f : Exc → Exec α} (hp : Holds p h)
    (hf : ∀ e h', Held h' → Holds (f e) h') : Holds (Prog.tryCatch p f) h := by
  refine Prog.Safe.tryCatch (Prog.Safe.mono (fun h r hr => ?_) hp)
  cases r with
  | ok a => exact hr
  | error e => exact hf e h hr

theorem Journal.Working.perform {q : Call} (hw : Working h) (hq : steady q = true) :
    Works (Prog.perform q) h := by
  refine ⟨hw.guard hq, fun r => ?_⟩
  cases r with
  | ok a => exact hw.cons hq
  | error e => exact (hw.cons hq).held

theorem Journal.Held.perform {q : Call} (hh : Held h) (hq : Guard h q)
    (hfinish : ∀ message, q ≠ .finish message) : Holds (Prog.perform q) h := by
  refine ⟨hq, fun r => ?_⟩
  cases r with
  | ok a => exact hh.cons hfinish
  | error e => exact hh.cons hfinish

theorem Journal.Working.ofExcept (hw : Working h) (o : Except Exc α) : Works (Prog.ofExcept o) h := by
  cases o with
  | ok a => exact hw
  | error e => exact hw.held

theorem Journal.Held.settle (hh : Held h) (a : Settlement) : Holds (Legacy.settle a) h :=
  hh.perform ⟨hh.going, trivial⟩ nofun

theorem Journal.Held.assign (hh : Held h) (a : Assignment) : Holds (Legacy.assign a) h :=
  hh.perform ⟨hh.going, trivial⟩ nofun

end Rules

/-! ## Executions -/

section Executions

variable {P : Platform} {h : Journal} {job : ReleaseJob}

/-- Up to the first state, of a job whose kind has still to be compared. -/
theorem queryBefore_works {kind : ReleaseJobKind} {wrongKind : String} (hh : Held h)
    (hw : job.kind = kind → Working h) : Works (queryBefore P job kind wrongKind) h := by
  unfold queryBefore
  simp only [Prog.bind_eq]
  refine Prog.Safe.ofExcept_bind (fun _ _ => ?_) (fun _ _ => hh)
  split
  · exact hh
  · next hkind =>
      have hw := hw (not_ne_iff.mp hkind)
      refine (hw.perform rfl).bind fun _ h₁ hw₁ => (hw₁.perform rfl).bind fun _ h₂ hw₂ => ?_
      refine (hw₂.perform rfl).bind fun _ h₃ hw₃ => (hw₃.perform rfl).bind fun _ h₄ hw₄ => ?_
      refine (hw₄.perform rfl).bind fun _ h₅ hw₅ => (hw₅.ofExcept _).bind fun _ h₆ hw₆ => ?_
      refine (hw₆.perform rfl).bind fun _ h₇ hw₇ => (hw₇.perform rfl).bind fun _ h₈ hw₈ => ?_
      exact hw₈

theorem preReleaseQuery_holds (hh : Held h) (hw : job.kind = .preReleaseQuery → Working h) :
    Holds (preReleaseQuery P job) h := by
  unfold preReleaseQuery
  simp only [Prog.bind_eq]
  refine (queryBefore_works hh hw).bind_holds fun before h₁ hw₁ => ?_
  refine (hw₁.perform rfl).bind_holds fun latest h₂ hw₂ => ?_
  split
  · exact hw₂.held.settle _
  · split <;> exact hw₂.held.settle _

theorem releaseAndClassify_holds (hw : Working h) : Holds (releaseAndClassify P job) h := by
  unfold releaseAndClassify
  simp only [Prog.bind_eq]
  refine (hw.perform rfl).bind_holds fun _ h₁ hw₁ => (hw₁.perform rfl).bind_holds fun _ h₂ hw₂ => ?_
  refine (hw₂.perform rfl).bind_holds fun _ h₃ hw₃ => (hw₃.perform rfl).bind_holds fun _ h₄ hw₄ => ?_
  refine (hw₄.perform rfl).bind_holds fun _ h₅ hw₅ => (hw₅.perform rfl).bind_holds fun _ h₆ hw₆ => ?_
  refine (hw₆.perform rfl).bind_holds fun _ h₇ hw₇ => (hw₇.ofExcept _).bind_holds fun _ h₈ hw₈ => ?_
  refine (hw₈.perform rfl).bind_holds fun _ h₉ hw₉ => (hw₉.perform rfl).bind_holds fun _ h₀ hw₀ => ?_
  refine (hw₀.perform rfl).bind_holds fun _ h₁ hw₁ => (hw₁.ofExcept _).bind_holds fun _ h₂ hw₂ => ?_
  exact hw₂.held.settle _

theorem releaseJob_holds (hh : Held h) (hw : job.kind = .release → Working h) :
    Holds (releaseJob P job) h := by
  unfold releaseJob
  simp only [Prog.bind_eq]
  refine (queryBefore_works hh hw).bind_holds fun before h₁ hw₁ => ?_
  refine (hw₁.perform rfl).bind_holds fun latest h₂ hw₂ => ?_
  split
  · exact hw₂.held.settle _
  · split
    · exact hw₂.held.settle _
    · exact releaseAndClassify_holds hw₂

theorem capturePartialReleaseOutput_holds (hh : Held h) (exc : Exc) :
    Holds (capturePartialReleaseOutput exc) h := by
  unfold capturePartialReleaseOutput
  split
  · exact hh
  · exact hh.assign _

theorem preReleaseQueryFailed_holds (hh : Held h) (exc : Exc) :
    Holds (preReleaseQueryFailed exc) h := by
  unfold preReleaseQueryFailed
  split <;> exact hh.settle _

theorem releaseJobFailed_holds (hh : Held h) (exc : Exc) : Holds (releaseJobFailed exc) h := by
  unfold releaseJobFailed
  split
  · exact (capturePartialReleaseOutput_holds hh exc).bind fun _ _ hh' => hh'.settle _
  · exact hh.settle _
  · exact (capturePartialReleaseOutput_holds hh exc).bind fun _ _ hh' => hh'.settle _
  · exact hh.settle _

theorem closeSwitchSessionSafely_holds (hh : Held h) : Holds closeSwitchSessionSafely h := by
  refine (hh.perform (q := .close) ⟨hh.going, trivial⟩ nofun).tryCatch fun exc h' hh' => ?_
  split
  · exact hh'
  · exact hh'.assign _

/-- The close of the session, with a timeout in it. -/
theorem close_holds (hh : Held h) (fallback : String) :
    Holds (Prog.tryCatch closeSwitchSessionSafely fun exc =>
      if exc.cls = .jobTimeout then markJobTimeout exc fallback else Prog.raise exc) h := by
  refine (closeSwitchSessionSafely_holds hh).tryCatch fun exc h' hh' => ?_
  split
  · exact hh'.settle _
  · exact hh'

theorem finish_safe (hh : Held h) (message : ReleaseJob → Option String) :
    (Prog.perform (Call.finish message) : Exec Unit).Safe Guard (fun _ _ => True) h := by
  refine ⟨⟨hh.going, hh.taken⟩, fun r => ?_⟩
  cases r <;> trivial

theorem finishPreReleaseQuery_safe (hh : Held h) :
    finishPreReleaseQuery.Safe Guard (fun _ _ => True) h := by
  unfold finishPreReleaseQuery
  simp only [Prog.bind_eq]
  refine Prog.Safe.bind (Prog.Safe.mono (fun h' r hh' => ?_) (close_holds hh _))
  cases r with
  | ok a => exact finish_safe hh' _
  | error e => trivial

theorem finishReleaseJob_safe (hh : Held h) :
    finishReleaseJob.Safe Guard (fun _ _ => True) h := by
  unfold finishReleaseJob
  simp only [Prog.bind_eq]
  refine Prog.Safe.bind (Prog.Safe.mono (fun h' r hh' => ?_) (close_holds hh _))
  cases r with
  | error e => trivial
  | ok a =>
      refine Prog.Safe.bind (Prog.Safe.mono (fun h'' r hh'' => ?_) (hh'.assign _))
      cases r with
      | ok a => exact finish_safe hh'' _
      | error e => trivial

/-- An execution: the claim, the body with its handlers, and the end. -/
theorem execution_safe {kind : ReleaseJobKind} {jobId : ℕ} {run : ReleaseJob → Exec Unit}
    {failed : Exc → Exec Unit} {ending : Exec Unit}
    (hrun : ∀ job h, Held h → (job.kind = kind → Working h) → Holds (run job) h)
    (hfailed : ∀ e h, Held h → Holds (failed e) h)
    (hending : ∀ h, Held h → ending.Safe Guard (fun _ _ => True) h) :
    (do
      let claim ← Prog.perform (Call.claimJob kind jobId)
      if claim.2 then Prog.andFinally (Prog.tryCatch (run claim.1) failed) ending
      pure Answer.executed : Exec Answer).Safe Guard (fun _ _ => True) [] := by
  have hgo : ∀ r, ¬ Over [.returned (Call.claimJob kind jobId) r, .called (.claimJob kind jobId)] :=
    fun r => not_over_cons (fun ⟨_, hm⟩ => List.not_mem_nil hm) nofun
  refine Prog.Safe.perform_bind ⟨fun ⟨_, hm⟩ => List.not_mem_nil hm, rfl⟩ ?_ fun _ => trivial
  rintro ⟨job, taken⟩
  cases taken with
  | false => trivial
  | true =>
      have hh : Held [.returned (Call.claimJob kind jobId) (.ok (job, true)),
          .called (.claimJob kind jobId)] :=
        ⟨⟨kind, jobId, job, List.mem_cons_self⟩, hgo _⟩
      have hw : job.kind = kind → Working [.returned (Call.claimJob kind jobId) (.ok (job, true)),
          .called (.claimJob kind jobId)] := by
        intro hkind
        refine ⟨⟨jobId, kind, job, List.mem_cons_self, hkind⟩, ?_, hgo _⟩
        exact not_settled_cons (fun ⟨_, hm⟩ => List.not_mem_nil hm) nofun
      have hbody := (hrun job _ hh hw).tryCatch hfailed
      refine Prog.Safe.bind (Prog.Safe.mono (H := fun _ _ => True) (fun _ r _ => ?_)
        (Prog.Safe.andFinally (Prog.Safe.mono (fun h' r hh' => ?_) hbody)))
      · cases r <;> trivial
      · exact Prog.Safe.mono (fun _ r' _ => by cases r' <;> trivial) (hending h' hh')

theorem deliveredProgram_safe (kind : ReleaseJobKind) (jobId : ℕ) :
    (deliveredProgram P kind jobId).Safe Guard (fun _ _ => True) [] := by
  cases kind with
  | preReleaseQuery =>
      exact execution_safe (fun _ _ hh hw => preReleaseQuery_holds hh hw)
        (fun e _ hh => preReleaseQueryFailed_holds hh e) fun _ hh => finishPreReleaseQuery_safe hh
  | release =>
      exact execution_safe (fun _ _ hh hw => releaseJob_holds hh hw)
        (fun e _ hh => releaseJobFailed_holds hh e) fun _ hh => finishReleaseJob_safe hh

end Executions

/-! ## Requests -/

section Requests

variable {h : Journal}

theorem enqueueOrMarkFailed_safe (hgo : ¬ Over h) (jobId : ℕ) (job : ReleaseJob)
    (queued : job.status = .queued) :
    (enqueueOrMarkFailed jobId job queued).Safe Guard (fun _ _ => True) h := by
  have hconfirm : ∀ h', ¬ Over h' → (Prog.perform (Call.confirmEnqueue jobId job) : Exec Unit).Safe
      Guard (fun _ _ => True) h' := fun h' hgo' => ⟨⟨hgo', trivial⟩, fun r => by cases r <;> trivial⟩
  refine ⟨⟨hgo, trivial⟩, fun r => ?_⟩
  have hgo' : ¬ Over (.returned (Call.enqueue job.kind jobId) r :: .called _ :: h : Journal) :=
    not_over_cons hgo nofun
  cases r with
  | ok a => exact hconfirm _ hgo'
  | error e => exact ⟨⟨hgo', trivial⟩, fun r => by cases r <;> trivial⟩

theorem goOn_safe (hgo : ¬ Over h) (handled : Handled) (answer : ℕ → ReleaseJob → Answer) :
    (goOn handled answer).Safe Guard (fun _ _ => True) h := by
  cases handled with
  | answered a => trivial
  | failed e => trivial
  | queued jobId job queued =>
      refine Prog.Safe.bind (Prog.Safe.mono (fun h' r _ => ?_)
        (enqueueOrMarkFailed_safe hgo jobId job queued))
      cases r <;> trivial

theorem Request.program_safe (r : Request) : r.program.Safe Guard (fun _ _ => True) [] := by
  have hgo : ¬ Over [] := fun ⟨_, hm⟩ => List.not_mem_nil hm
  cases r with
  | prepare user plan =>
      cases plan with
      | none => trivial
      | some plan =>
          exact Prog.Safe.perform_bind ⟨hgo, trivial⟩
            (fun a => goOn_safe (not_over_cons (q := .prepare user plan) hgo nofun) a _)
            fun _ => trivial
  | createReleaseJob user payload =>
      exact Prog.Safe.perform_bind ⟨hgo, trivial⟩
        (fun a => goOn_safe (not_over_cons (q := .createReleaseJob user payload) hgo nofun) a _)
        fun _ => trivial
  | retryReleaseJob user jobId =>
      exact Prog.Safe.perform_bind ⟨hgo, trivial⟩
        (fun a => goOn_safe (not_over_cons (q := .retryReleaseJob user jobId) hgo nofun) a _)
        fun _ => trivial

end Requests

end BindPlane.Legacy
