import BindPlane.Legacy.Kept

/-!
# Retries and releases of the legacy application

**Releases.**  A preparation has at most one release, in every run: the index sees to it.

**Retries.**  `_get_active_retry` sees the retries that the user may see, and a user who is not an
administrator sees his own.  `Undercover` is the commit that goes wrong: of a retry by such a user,
while somebody else's retry of the job is active.  In a run without one a job has at most one active
retry (`CalmSteps.single`); with one it has two (`retriedTwice_jobs`).
-/

namespace BindPlane.Legacy

open ReadCommitted Coroutine Journal

variable {P : Platform} {s s' : Application}

/-- **At most one**: active retry of a job, and release of a preparation.

The schema says this of the releases only.  Of the retries it is a matter of the lock that
`retry_release_job` holds on the original. -/
structure Db.Single (d : Db) : Prop where
  retry : ∀ original i j row row', d.jobs.get? i = some row → d.jobs.get? j = some row' →
    row.retryOfId = some original → row'.retryOfId = some original →
    row.status.active = true → row'.status.active = true → i = j
  release : ∀ preparationId i j row row', d.jobs.get? i = some row → d.jobs.get? j = some row' →
    row.kind = .release → row'.kind = .release → row.preparationJobId = some preparationId →
    row'.preparationJobId = some preparationId → i = j

/-- A transaction is about to commit a request for a retry, of a user who is not an administrator,
while a retry of the job by somebody else is active.

The query that looks for an active retry is filtered by the user who asks, so that somebody else's
retry is not found; and no index keeps a second one out. -/
def Application.Undercover (s : Application) (t : ℕ) : Prop :=
  ∃ p answer raises w r proc user original k i row,
    s.txns t = .active (.move p answer raises) () w (.pure r) ∧
    s.db.processes.get? p = some proc ∧
    proc.rest = .call (.retryReleaseJob user original) k ∧ user.isAdmin = false ∧
    s.db.jobs.get? i = some row ∧ row.retries original = true ∧ row.operatorId ≠ user.id

/-- Any number of steps, none of them an undercover commit. -/
def CalmSteps (P : Platform) : Application → Application → Prop :=
  Relation.ReflTransGen fun s s' => ∃ a, s.step (body P) a = some s' ∧
    ∀ t, a = .advance t → ¬ s.Undercover t

theorem CalmSteps.steps (h : CalmSteps P s s') : Sys.Steps (body P) s s' :=
  Relation.ReflTransGen.mono (fun _ _ ⟨a, ha, _⟩ => ⟨a, ha⟩) _ _ h

/-- The commit of a retry is that of its request. -/
theorem Commit.retried {op : Op} {u : Unit} {K : Set (Resource Key)} {d d' : Db} {user : User}
    {original : ℕ} (h : Commit op u K d d' (.retried user original)) :
    ∃ p answer raises proc k, op = .move p answer raises ∧ d.processes.get? p = some proc ∧
      proc.rest = .call (.retryReleaseJob user original) k := by
  obtain ⟨p, answer, raises, proc, q, k, d₁, hop, hproc, hrest, heffect, -⟩ :=
    h.effect nofun nofun
  generalize proc.memory = m at heffect
  cases heffect with
  | retried => exact ⟨p, answer, raises, proc, k, hop, hproc, hrest⟩
  | flushed m hreply => cases q <;> cases hreply

/-- One commit that is not undercover. -/
theorem Commit.lone_retry {op : Op} {u : Unit} {K : Set (Resource Key)} {d d' : Db} {r : Reply}
    {n : ℕ} (h : Commit op u K d d' r) (hv : d.Valid n)
    (hseen : ∀ user original, r = .retried user original → user.isAdmin = false →
      ∀ i row, d.jobs.get? i = some row → row.retries original = true → row.operatorId = user.id)
    (hd : ∀ original i j row row', d.jobs.get? i = some row → d.jobs.get? j = some row' →
      row.retries original = true → row'.retries original = true → i = j) :
    ∀ original i j row row', d'.jobs.get? i = some row → d'.jobs.get? j = some row' →
      row.retries original = true → row'.retries original = true → i = j := by
  have hcases : ∀ original i row', d'.jobs.get? i = some row' → row'.retries original = true →
      (∃ row, d.jobs.get? i = some row ∧ row.retries original = true) ∨
        d.jobs.get? i = none ∧ ∀ j row, d.jobs.get? j = some row → row.retries original = false := by
    intro original i row' hrow' hretries
    cases hrow : d.jobs.get? i with
    | some row =>
        obtain ⟨row'', hrow'', hf, -⟩ := h.follows hv hrow
        cases hrow'.symm.trans hrow''
        exact Or.inl ⟨row, rfl, hf.retries hretries⟩
    | none =>
        have hof := hretries
        unfold ReleaseJob.retries at hof
        simp only [Bool.and_eq_true, decide_eq_true_eq] at hof
        obtain ⟨-, -, user, rfl, -, hunseen⟩ := (h.arrives hrow hrow').retry original hof.1.2
        refine Or.inr ⟨rfl, fun j row hother => Bool.eq_false_iff.mpr fun hactive => ?_⟩
        have hhidden := hunseen j row hother hactive
        rw [ReleaseJob.visible, Bool.or_eq_false_iff, decide_eq_false_iff_not] at hhidden
        exact hhidden.2 (hseen user original rfl hhidden.1 j row hother hactive)
  intro original i j row row' hrow hrow' hr hr'
  rcases hcases original i row hrow hr with ⟨a, ha, hra⟩ | ⟨hi, hnone⟩
  · rcases hcases original j row' hrow' hr' with ⟨b, hb, hrb⟩ | ⟨hj, hnone⟩
    · exact hd original i j a b ha hb hra hrb
    · rw [hnone i a ha] at hra
      cases hra
  · rcases hcases original j row' hrow' hr' with ⟨b, hb, hrb⟩ | ⟨hj, -⟩
    · rw [hnone j b hb] at hrb
      cases hrb
    · have hnew := h.arrives hj hrow'
      exact hnew.only i hi (Option.isSome_of_eq_some hrow)

/-- **One retry, and one release.**  In every state that a run without undercover commits reaches,
a job has at most one active retry; and a preparation has at most one release.

`Undercover` is a condition on a commit and the state before it, in terms of the rows that are
there: the retry of a user who is not an administrator commits while somebody else's retry of the
job is active.  Behind every other commit a job has at most one active retry (`Commit.lone_retry`),
because the query for an active retry has seen the one that there is.  The releases need no
condition, since an index speaks of them. -/
theorem CalmSteps.single (h : CalmSteps P (Sys.init Db.empty 0) s) : s.db.Single := by
  have hsound : Sound contract s := Application.Reachable.sound h.steps
  have hretries : ∀ original i j row row', s.db.jobs.get? i = some row →
      s.db.jobs.get? j = some row' → row.retries original = true → row'.retries original = true →
      i = j := by
    clear hsound
    induction h with
    | refl => exact fun _ _ _ _ _ hrow => by cases hrow
    | @tail s₁ s₂ hrun hstep ih =>
        obtain ⟨a, ha, hcalm⟩ := hstep
        have hrun : CalmSteps P (Sys.init Db.empty 0) s₁ := hrun
        have hsound : Sound contract s₁ := Application.Reachable.sound hrun.steps
        cases hsound.outcome ha with
        | quiet hdb hcommitted =>
            rw [hdb]
            exact ih
        | commit op now r w hactive hcommit hcommitted =>
            have hadvance : a = .advance a.txn :=
              Sys.step_commits ha ((hcommitted ..).mpr (Or.inr ⟨rfl, rfl, rfl, rfl⟩))
                (by rw [hactive]; nofun)
            refine Commit.lone_retry hcommit hsound.inv ?_ ih
            rintro user original rfl hadmin i row hrow hretries
            obtain ⟨p, answer, raises, proc, k, rfl, hproc, hrest⟩ := Commit.retried hcommit
            by_contra hne
            exact hcalm a.txn hadvance ⟨p, answer, raises, w, _, proc, user, original, k, i, row,
              hactive, hproc, hrest, hadmin, hrow, hretries, hne⟩
  have hactive : ∀ {original i row}, s.db.jobs.get? i = some row →
      row.retryOfId = some original → row.status.active = true → row.retries original = true := by
    intro original i row hrow hof hactive
    unfold ReleaseJob.retries
    rw [Bool.and_eq_true, Bool.and_eq_true, decide_eq_true_eq, decide_eq_true_eq]
    exact ⟨⟨hsound.inv.retries i row original hrow hof, hof⟩, hactive⟩
  refine ⟨fun original i j row row' hrow hrow' hof hof' ha ha' => ?_,
    fun preparationId i j row row' hrow hrow' _ _ hp hp' => ?_⟩
  · exact hretries original i j row row' hrow hrow' (hactive hrow hof ha) (hactive hrow' hof' ha')
  · exact hsound.inv.preparations i j row row' preparationId hrow hrow' hp hp'

/-- A process is about to ask for a retry of a job of which somebody else's retry is active. -/
def Db.covert (d : Db) : Bool :=
  d.processes.any fun _ proc => match proc.rest with
    | .call (.retryReleaseJob user original) _ =>
        !user.isAdmin && d.jobs.any fun _ row => row.retries original && row.operatorId ≠ user.id
    | _ => false

theorem Application.not_undercover (h : s.db.covert = false) (t : ℕ) : ¬ s.Undercover t := by
  rintro ⟨p, _, _, _, _, proc, user, original, k, i, row, -, hproc, hrest, hadmin, hrow, hretries,
    hne⟩
  have hno := Table.any_eq_false.mp h p proc hproc
  rw [hrest] at hno
  have hjobs : (s.db.jobs.any fun _ row => row.retries original && row.operatorId ≠ user.id) =
      true := Table.any_eq_true.mpr ⟨i, row, hrow, by simp [hretries, hne]⟩
  simp only [hadmin, hjobs, Bool.not_false, Bool.and_self, Bool.true_eq_false] at hno

/-- Where no process is, there is no such commit. -/
theorem CalmSteps.of_within (h₀ : s.db.covert = false)
    (h : Sys.StepsWithin (body P) (fun d => (!d.covert) = true) s s') : CalmSteps P s s' := by
  have hrun : CalmSteps P s s' ∧ s'.db.covert = false := by
    induction h with
    | refl => exact ⟨.refl, h₀⟩
    | tail _ hstep ih =>
        obtain ⟨⟨a, ha⟩, hW⟩ := hstep
        refine ⟨.tail ih.1 ⟨a, ha, fun t _ => Application.not_undercover ih.2 t⟩, ?_⟩
        exact Bool.not_eq_true' _ ▸ hW
  exact hrun.1

namespace Demo

/-- A platform with one switch, whose outputs are the types of the entries. -/
def platform : Platform where
  target _ := .ok ()
  observe _ output := .ok (if output = "static" then .static else .missing)
  classify _ _ after :=
    .ok (if after = .missing then ⟨.succeeded, "released", rfl⟩ else ⟨.failed, "kept", rfl⟩)

def alice : User := ⟨1, [.operator]⟩

def bob : User := ⟨2, [.admin]⟩

/-- The queue cannot be reached. -/
def lost : Exc := { cls := .other, name := "ConnectionError" }

/-- Alice prepares a release and confirms it, which cannot be enqueued; Bob has it retried.  With
each operation the number of its statements. -/
def confirmed : List (Op × ℕ) :=
  [(.request 0 (.prepare alice (some ⟨"10.0.0.1", "moved", false, 1, 1⟩)), 4),
    (.move 0 "" none, 8), (.move 0 "" none, 4), (.move 0 "" none, 5),
    (.deliver 1 0, 5), (.move 1 "static" none, 11), (.move 1 "static" none, 4),
    (.move 1 "static" none, 4), (.move 1 "static" none, 8), (.move 1 "static" none, 4),
    (.move 1 "static" none, 5), (.move 1 "static" none, 5), (.move 1 "static" none, 8),
    (.move 1 "static" none, 4), (.move 1 "static" none, 5), (.move 1 "static" none, 4),
    (.move 1 "static" none, 8),
    (.request 2 (.createReleaseJob alice ⟨0, "10.0.0.1", "moved", none, false, true⟩), 4),
    (.move 2 "" none, 16), (.raise 2 lost, 4), (.move 2 "" none, 9),
    (.request 3 (.retryReleaseJob bob 1), 4), (.move 3 "" none, 12)]

def actions (ops : List (Op × ℕ)) : List (Action ℕ Op Unit) :=
  ops.zipIdx.flatMap fun x =>
    .request x.2 x.1.1 :: .begin x.2 () :: List.replicate x.1.2 (.advance x.2)

def retriedOnce : Application :=
  (Sys.runWithin (body platform) (fun d => !d.covert) (Sys.init Db.empty 0)
    (actions confirmed)).getD (Sys.init Db.empty 0)

theorem retriedOnce_calm : CalmSteps platform (Sys.init Db.empty 0) retriedOnce := by
  have hsome : (Sys.runWithin (body platform) (fun d => !d.covert) (Sys.init Db.empty 0)
      (actions confirmed)).isSome = true := by decide +kernel
  obtain ⟨s, hs⟩ := Option.isSome_iff_exists.mp hsome
  rw [retriedOnce, hs, Option.getD_some]
  exact CalmSteps.of_within rfl (Sys.runWithin_steps hs)

/-- Bob's retry is the only one. -/
theorem retriedOnce_single :
    (retriedOnce.db.jobs.get? 2).map (fun row => (row.status, row.retryOfId)) =
      some (.queued, some 1) ∧ retriedOnce.db.Single :=
  ⟨by decide +kernel, retriedOnce_calm.single⟩

/-- And then Alice asks for one, too. -/
def retriedTwice : Application :=
  Sys.perform (body platform) 20 101 (.move 4 "" none) ()
    (Sys.perform (body platform) 20 100 (.request 4 (.retryReleaseJob alice 1)) () retriedOnce)

/-- She does not see Bob's, and gets a second one. -/
theorem retriedTwice_jobs :
    Application.Reachable platform retriedTwice ∧ ¬ retriedTwice.db.Single := by
  refine ⟨(retriedOnce_calm.steps.trans (Sys.perform_steps ..)).trans (Sys.perform_steps ..), ?_⟩
  have hjob : ∀ i, i = 2 ∨ i = 3 → ∃ row, retriedTwice.db.jobs.get? i = some row ∧
      row.retryOfId = some 1 ∧ row.status.active = true := by
    have hall : ∀ i ∈ [2, 3], (retriedTwice.db.jobs.get? i).any
        (fun row => row.retryOfId = some 1 && row.status.active) = true := by decide +kernel
    intro i hi
    obtain ⟨row, hrow, h⟩ := (Option.any_eq_true _ _).mp (hall i (by simpa using hi))
    rw [Bool.and_eq_true, decide_eq_true_eq] at h
    exact ⟨row, hrow, h⟩
  obtain ⟨row, hrow, hof, hactive⟩ := hjob 2 (Or.inl rfl)
  obtain ⟨row', hrow', hof', hactive'⟩ := hjob 3 (Or.inr rfl)
  intro hsingle
  cases hsingle.retry 1 2 3 row row' hrow hrow' hof hof' hactive hactive'

end Demo

end BindPlane.Legacy
