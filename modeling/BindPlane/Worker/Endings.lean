import BindPlane.Worker.Commands

/-!
# How an undisturbed execution ends

An execution none of whose checkpoints was refused or lost ends its job with a status of its
own, and a lease that expires under it is no such execution: the sweep takes its lease away
and its next checkpoint is refused.  Without a release command that status is definite, with
one exception that the source makes on purpose: an answer of the fresh query that cannot be
read leaves the job uncertain.

**What disturbs an execution.**  A checkpoint may be refused, because the lease has expired and the
row was swept; its answer may be lost, so that the executor does not know whether it was saved; and
the process may end.  All other faults, of the switch, of the profile, of the decryption, are
handled, and end the job with a status that says what is known.
-/

namespace BindPlane

open ReadCommitted Coroutine Journal

variable {py : Python}

namespace World

variable {P : Platform} {w : World py}

/-- The execution of job `id` has come to its end, and every checkpoint of it was saved. -/
def Undisturbed (w : World py) (id : Id) : Prop :=
  .called Call.stopHeartbeat ∈ w.journal id ∧ ¬Lost (w.journal id)

/-- The status an undisturbed execution leaves. -/
theorem Reachable.undisturbed_end (h : w.Reachable P) {id : Id} (hu : w.Undisturbed id) :
    ∃ job j, w.queue.db.job? id = some j ∧ job.Describes j ∧ j.status ≠ .running ∧
      MayEnd job (w.journal id) j.status := by
  obtain ⟨hstop, hheard⟩ := hu
  obtain ⟨t, job, j, -, rfl, hallowed, hj, -, hdesc⟩ := h.owner (List.ne_nil_of_mem hstop)
  obtain ⟨c, r, hc, hm, hend⟩ := (stopped_concluded hallowed hstop).resolve_right hheard
  obtain ⟨t', now, ht⟩ := h.heard hm
  obtain ⟨j', hj', hstatus⟩ := h.queue.saved_final ht hc
  rw [show job.ref.id = job.id from rfl, hj] at hj'
  cases hj'
  rw [← hstatus] at hc hend
  exact ⟨job, j, hj, hdesc, hc, hend⟩

/-- **A release without a release command ends definite**, unless its fresh query could not be
read: an undisturbed execution that has not entered the command leaves its release failed,
timed out or cancelled, or uncertain behind an answer that could not be read; so a release it
leaves uncertain has sent its command or could not read that answer.

The sweep is what makes a job uncertain, and it comes to jobs whose executor has gone.  So the
statement is about executions that are undisturbed: none of their checkpoints was refused or lost.
Such an execution has written the status itself, and its journal says which: the handlers of
`execute` turn every exception into a definite status as long as the journal has no entry into the
command. -/
theorem Reachable.ends_definite (h : w.Reachable P) {id : Id} {j : Job}
    (hj : w.queue.db.job? id = some j) (hkind : j.kind = .release) (hu : w.Undisturbed id) :
    (¬Entered (w.journal id) → j.status = .failed ∨ j.status = .timeout ∨
      j.status = .cancelled ∨
      (j.status = .needsManualConfirmation ∧ Unread (w.journal id))) ∧
    (j.status = .needsManualConfirmation → Entered (w.journal id) ∨ Unread (w.journal id)) ∧
    (∀ w', Steps P w w' → w'.queue.db.job? id = some j) := by
  obtain ⟨job, j', hj', hdesc, hrunning, hend⟩ := h.undisturbed_end hu
  rw [hj] at hj'
  cases hj'
  have hcases : Entered (w.journal id) ∨ j.status = .failed ∨ j.status = .timeout ∨
      j.status = .cancelled ∨
      (j.status = .needsManualConfirmation ∧ Unread (w.journal id)) := by
    rcases hend with hf | ⟨-, he | ht | hc | hm | ⟨-, hquery⟩⟩
    · exact .inr (.inl hf)
    · exact .inl he
    · exact .inr (.inr (.inl ht))
    · exact .inr (.inr (.inr (.inl hc)))
    · exact .inr (.inr (.inr (.inr hm)))
    · rw [hdesc.kind, hkind] at hquery
      cases hquery
  refine ⟨hcases.resolve_left, fun hm => ?_, fun w' hs => ?_⟩
  · rcases hcases with he | hf | ht | hc | ⟨-, hunread⟩
    · exact .inl he
    · rw [hm] at hf
      cases hf
    · rw [hm] at ht
      cases ht
    · rw [hm] at hc
      cases hc
    · exact .inr hunread
  · obtain ⟨t, job', j₁, -, -, -, hj₁, hqueued, -⟩ := h.owner (List.ne_nil_of_mem hu.1)
    rw [hj] at hj₁
    cases hj₁
    exact h.queue.settled (Steps.queue hs) hj hqueued hrunning

end World

/-! ## The exception -/

namespace Demo

/-- The release `10` of the concrete run, against a switch whose answer to the fresh query is
neither an entry nor the text for a missing one. -/
def unread : World python :=
  let w := claims 9 8 (asks 8 (.confirm admin ⟨.canonical 4, false⟩) 7 queried)
  let w := hears "" (saves 11 9 w)
  let w := hears "busy" (saves 12 10 w)
  let w := saves 14 12 (saves 13 11 w)
  does (.call 0 0) (hears "" w)

theorem unread_reachable : unread.Reachable platform :=
  inserting_reachable.trans ((does_steps _ _).trans (queried_steps.trans
    ((asks_steps _ _ _ _).trans ((claims_steps _ _ _).trans ((saves_steps _ _ _).trans
      ((hears_steps _ _).trans ((saves_steps _ _ _).trans ((hears_steps _ _).trans
        ((saves_steps _ _ _).trans ((saves_steps _ _ _).trans ((hears_steps _ _).trans
          (does_steps _ _))))))))))))

/-- Whether an entry stops the heartbeat. -/
def stops : Event (@Call.Result python) Exc → Bool
  | .called .stopHeartbeat => true
  | _ => false

/-- Whether an entry is a checkpoint that failed. -/
def unsaved : Event (@Call.Result python) Exc → Bool
  | .returned (.db (.checkpoint ..)) (.error _) => true
  | _ => false

/-- The entries that say the execution was disturbed, or has not ended. -/
theorem unread_undisturbed : unread.Undisturbed 10 := by
  have hstop : (unread.journal 10).any stops := by decide +kernel
  have hsaved : (unread.journal 10).any unsaved = false := by decide +kernel
  refine ⟨?_, ?_⟩
  · obtain ⟨e, hm, he⟩ := List.any_eq_true.mp hstop
    cases e with
    | returned q r => cases he
    | called q =>
        cases q with
        | stopHeartbeat => exact hm
        | _ => cases he
  · rintro ⟨ref, c, e, hm⟩
    exact List.any_eq_false.mp hsaved _ hm rfl

/-- The row it leaves, and that no command was sent. -/
theorem unread_row : ∃ j, unread.queue.db.job? 10 = some j ∧ j.kind = .release ∧
    j.status = .needsManualConfirmation ∧ ¬Entered (unread.journal 10) := by
  have hrow : (unread.queue.db.job? 10).any
      fun j => j.kind = .release && j.status = .needsManualConfirmation := by decide +kernel
  have hnone : releases (unread.journal 10) = 0 := by decide +kernel
  obtain ⟨j, hj, hstatus⟩ := (Option.any_eq_true _ _).mp hrow
  obtain ⟨hkind, hmanual⟩ : j.kind = .release ∧ j.status = .needsManualConfirmation := by
    simpa using hstatus
  refine ⟨j, hj, hkind, hmanual, fun he => ?_⟩
  have hpos := releases_pos.mpr he
  omega

end Demo

/-- A release can end uncertain without a release command, with nothing disturbed. -/
theorem Demo.unread_uncertain : ¬∀ (w : World Demo.python) (id : Id) (j : Job),
    w.Reachable Demo.platform → w.queue.db.job? id = some j → j.kind = .release →
      w.Undisturbed id → j.status = .needsManualConfirmation → Entered (w.journal id) := by
  intro hclaim
  obtain ⟨j, hj, hkind, hmanual, hno⟩ := Demo.unread_row
  exact hno (hclaim Demo.unread 10 j Demo.unread_reachable hj hkind Demo.unread_undisturbed
    hmanual)

/-- In the same run the answer could not be read. -/
theorem Demo.unread_definite : Unread (Demo.unread.journal 10) := by
  obtain ⟨j, hj, hkind, hmanual, hno⟩ := Demo.unread_row
  exact ((Demo.unread_reachable.ends_definite hj hkind Demo.unread_undisturbed).2.1
    hmanual).resolve_left hno

end BindPlane
