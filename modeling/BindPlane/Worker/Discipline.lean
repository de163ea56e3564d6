import BindPlane.Worker.Execute

/-!
# The discipline of an executor

What `execute` may do, said of its journal alone and for every answer the store and the
switch may give.  `Guard job` is the condition under which it makes a call:

* a session is opened on a dependency row that passed `dependencyProblem`, before
  anything but progress was saved;
* the release command is entered for a release job, on a fresh answer that allows it,
  and again before anything but progress was saved;
* once it has been entered, a checkpoint says progress, uncertainty, or what
  `classify_release_result` made of the outputs of this run;
* the heartbeat is stopped when the end of the job was saved, or a checkpoint failed, and
  without a release command that end is a definite one, unless the fresh query could not be
  read.

`execute_safe` is the proof that it keeps to it; the rest reads off what a journal kept to
the guard looks like.
-/

namespace BindPlane

open Coroutine

variable {py : Python}

namespace Journal

/-- The release command has been entered. -/
def Entered (h : Journal py) : Prop := ∃ session, .called (Call.release session) ∈ h

/-- A session has been opened. -/
def Opened (h : Journal py) : Prop := ∃ session, .called (Call.connect session) ∈ h

/-- The release command has not been entered and only progress has been saved. -/
def Quiet (h : Journal py) : Prop :=
  ¬Entered h ∧ ∀ ref c, .called (Call.db (.checkpoint ref c)) ∈ h → c.status = .running

/-- The outputs of the run in the journal classify as `c`. -/
def Classifies (h : Journal py) (c : ClassifiedReleaseResult) : Prop :=
  ∃ session rawRelease rawAfter after,
    .returned (Call.release session) (.ok rawRelease) ∈ h ∧
    .returned (Call.queryAfter session) (.ok rawAfter) ∈ h ∧
    parseArpObservation py session.ip rawAfter session.profile.parserRules = .ok after ∧
    classifyReleaseResult py rawRelease after session.profile.errorPatterns
      session.profile.successPatterns = .ok c

/-- The fresh query of the run allows the release. -/
def Authorised (job : ClaimedJob) (h : Journal py) (session : Session py) : Prop :=
  ∃ rawBefore before, .returned (Call.queryBefore session) (.ok rawBefore) ∈ h ∧
    parseArpObservation py session.ip rawBefore session.profile.parserRules = .ok before ∧
    (before.entryType = .static ∨ (before.entryType = .missing ∧ job.force = true))

/-- The dependency row was loaded and passed the check. -/
def Loaded (job : ClaimedJob) (h : Journal py) (dep : Dependencies) : Prop :=
  .returned (Call.db (.loadDependencies job.switchId job.commandProfileId))
      (.ok (Reply.dependencies (some dep))) ∈ h ∧
    dependencyProblem job (some dep) = .ok dep

/-- A checkpoint failed, or its outcome is unknown. -/
def Lost (h : Journal py) : Prop :=
  ∃ ref c e, .returned (Call.db (.checkpoint ref c)) (.error e) ∈ h

/-- The answer of the fresh query could not be read. -/
def Unread (h : Journal py) : Prop :=
  ∃ session rawBefore before, .returned (Call.queryBefore session) (.ok rawBefore) ∈ h ∧
    parseArpObservation py session.ip rawBefore session.profile.parserRules = .ok before ∧
    before.entryType = .unknown

/-- A status an execution may end its job with. -/
def MayEnd (job : ClaimedJob) (h : Journal py) (status : Status) : Prop :=
  status = .failed ∨ (Opened h ∧ (Entered h ∨ status = .timeout ∨ status = .cancelled ∨
    (status = .needsManualConfirmation ∧ Unread h) ∨
    (status = .waitingConfirmation ∧ job.kind = .preReleaseQuery)))

/-- The end of the job was saved. -/
def Closed (job : ClaimedJob) (h : Journal py) : Prop :=
  ∃ c r, c.status ≠ .running ∧ .returned (Call.db (.checkpoint job.ref c)) (.ok r) ∈ h ∧
    MayEnd job h c.status

/-- How an execution that stops its heartbeat has gone. -/
def Concluded (job : ClaimedJob) (h : Journal py) : Prop := Closed job h ∨ Lost h

/-- A checkpoint that may follow the release command. -/
def Follows (h : Journal py) (status : Status) : Prop :=
  status = .running ∨ status = .needsManualConfirmation ∨ ∃ c, Classifies h c ∧ c.status = status

/-- **When an executor makes a call.** -/
def Guard (job : ClaimedJob) (h : Journal py) : Call py → Prop
  | .db op => op = .loadDependencies job.switchId job.commandProfileId ∨
      ∃ c, op = .checkpoint job.ref c ∧ (Entered h → Follows h c.status)
  | .connect session => Quiet h ∧ Loaded job h session.dep ∧ session.ip = job.targetIp
  | .release session => Quiet h ∧ job.kind = .release ∧ Authorised job h session ∧
      .called (Call.connect session) ∈ h
  | .stopHeartbeat => Concluded job h
  | _ => True

section Monotone

variable {h h' : Journal py} (hsub : h ⊆ h')
include hsub

theorem Opened.mono (hh : Opened h) : Opened h' := hh.imp fun _ hm => hsub hm

theorem Classifies.mono {c : ClassifiedReleaseResult} (hh : Classifies h c) :
    Classifies h' c := by
  obtain ⟨session, rawRelease, rawAfter, after, h₁, h₂, h₃⟩ := hh
  exact ⟨session, rawRelease, rawAfter, after, hsub h₁, hsub h₂, h₃⟩

theorem Follows.mono {status : Status} (hh : Follows h status) : Follows h' status :=
  hh.imp id (Or.imp id fun ⟨c, hc, hs⟩ => ⟨c, hc.mono hsub, hs⟩)

theorem Lost.mono (hh : Lost h) : Lost h' := by
  obtain ⟨ref, c, e, hm⟩ := hh
  exact ⟨ref, c, e, hsub hm⟩

theorem Entered.mono (hh : Entered h) : Entered h' := hh.imp fun _ hm => hsub hm

theorem Unread.mono (hh : Unread h) : Unread h' := by
  obtain ⟨session, rawBefore, before, hm, hparse⟩ := hh
  exact ⟨session, rawBefore, before, hsub hm, hparse⟩

theorem MayEnd.mono {job : ClaimedJob} {status : Status} (hh : MayEnd job h status) :
    MayEnd job h' status := by
  refine hh.imp_right fun ⟨hopen, hrest⟩ => ⟨hopen.mono hsub, ?_⟩
  exact hrest.imp (·.mono hsub) (.imp_right (.imp_right (.imp_left (.imp_right (·.mono hsub)))))

theorem Concluded.mono {job : ClaimedJob} (hh : Concluded job h) : Concluded job h' := by
  refine hh.imp (fun hclosed => ?_) (·.mono hsub)
  obtain ⟨c, r, hc, hm, hend⟩ := hclosed
  exact ⟨c, r, hc, hsub hm, hend.mono hsub⟩

end Monotone

section Entries

variable {h : Journal py}

theorem entered_returned {q : Call py} {r : Except Exc q.Result} :
    Entered (.returned q r :: h) ↔ Entered h := by simp [Entered]

theorem entered_called {q : Call py} :
    Entered (.called q :: h) ↔ (∃ session, q = .release session) ∨ Entered h := by
  simp only [Entered, List.mem_cons, Event.called.injEq, exists_or]
  exact or_congr_left (exists_congr fun _ => eq_comm)

/-- The journal behind an answered call other than the release. -/
structure Extends (h h' : Journal py) : Prop where
  subset : h ⊆ h'
  entered : Entered h' → Entered h

theorem extends_answered {q : Call py} {r : Except Exc q.Result}
    (hq : ∀ session, q ≠ .release session) :
    Extends h (.returned q r :: .called q :: h) where
  subset _ hm := .tail _ (.tail _ hm)
  entered he := by
    rw [entered_returned, entered_called] at he
    exact he.resolve_left fun ⟨session, hs⟩ => hq session hs

/-- An answered call that saves nothing but progress. -/
theorem quiet_answered {q : Call py} {r : Except Exc q.Result}
    (hq : ∀ session, q ≠ .release session)
    (hsave : ∀ ref c, q = .db (.checkpoint ref c) → c.status = .running) (hh : Quiet h) :
    Quiet (.returned q r :: .called q :: h) := by
  refine ⟨fun he => hh.1 ((extends_answered hq).entered he), fun ref c hm => ?_⟩
  simp only [List.mem_cons, reduceCtorEq, Event.called.injEq, false_or] at hm
  rcases hm with hm | hm
  · exact hsave ref c hm.symm
  · exact hh.2 ref c hm

end Entries

end Journal

open Journal

/-! ## Execute keeps to the guard -/

section Safe

variable {job : ClaimedJob} {h : Journal py} {session : Session py} {α : Type}
  {H : Journal py → Except Exc α → Prop}

/-- A call other than a checkpoint and the release, and what follows it. -/
theorem query_bind {q : Call py} {g : q.Result → Exec py α} (hguard : Guard job h q)
    (hq : ∀ session, q ≠ .release session) (hsave : ∀ ref c, q ≠ .db (.checkpoint ref c))
    (hok : ∀ a h', Extends h h' → (Quiet h → Quiet h') → .returned q (.ok a) ∈ h' →
      .called q ∈ h' → (g a).Safe (Guard job) H h')
    (herror : ∀ e h', Extends h h' → .called q ∈ h' → H h' (.error e)) :
    ((Prog.perform q).bind g).Safe (Guard job) H h := by
  refine ⟨hguard, fun r => ?_⟩
  have hquiet : Quiet h → Quiet (.returned q r :: .called q :: h) :=
    quiet_answered hq fun ref c hc => absurd hc (hsave ref c)
  cases r with
  | ok a => exact hok a _ (extends_answered hq) hquiet (by simp) (by simp)
  | error e => exact herror e _ (extends_answered hq) (by simp)

/-- A checkpoint. -/
theorem saveCheckpoint_safe {c : Checkpoint} {H : Journal py → Except Exc Unit → Prop}
    (hguard : Entered h → Follows h c.status)
    (hok : ∀ r h', Extends h h' → (c.status = .running → Quiet h → Quiet h') →
      .returned (Call.db (.checkpoint job.ref c)) (.ok r) ∈ h' → H h' (.ok ()))
    (herror : ∀ e h', Extends h h' → Lost h' → H h' (.error e)) :
    (saveCheckpoint job c).Safe (Guard job) H h := by
  refine ⟨.inr ⟨c, rfl, hguard⟩, fun r => ?_⟩
  have hquiet : c.status = .running → Quiet h →
      Quiet (.returned (Call.db (.checkpoint job.ref c)) r ::
        .called (Call.db (.checkpoint job.ref c)) :: h) := by
    refine fun hc => quiet_answered (by simp) fun ref c' heq => ?_
    cases heq
    exact hc
  cases r with
  | ok r => exact hok r _ (extends_answered (by simp)) hquiet (by simp)
  | error e => exact herror e _ (extends_answered (by simp)) ⟨job.ref, c, e, by simp⟩

/-- A checkpoint, and what follows it. -/
theorem saveCheckpoint_bind {c : Checkpoint} {g : Unit → Exec py α}
    (hguard : Entered h → Follows h c.status)
    (hok : ∀ r h', Extends h h' → (c.status = .running → Quiet h → Quiet h') →
      .returned (Call.db (.checkpoint job.ref c)) (.ok r) ∈ h' → (g ()).Safe (Guard job) H h')
    (herror : ∀ e h', Extends h h' → Lost h' → H h' (.error e)) :
    ((saveCheckpoint job c).bind g).Safe (Guard job) H h :=
  Prog.Safe.bind (saveCheckpoint_safe hguard hok herror)

/-- A checkpoint that ends the job concludes the execution, and so does its loss. -/
theorem end_safe {c : Checkpoint} {H : Journal py → Except Exc Unit → Prop}
    (hguard : Entered h → Follows h c.status) (hc : c.status ≠ .running)
    (hend : MayEnd job h c.status)
    (hH : ∀ h' r, Extends h h' → Concluded job h' → H h' r) :
    (saveCheckpoint job c).Safe (Guard job) H h := by
  refine saveCheckpoint_safe hguard (fun r h' hx _ hm => ?_) (fun e h' hx hlost => ?_)
  · exact hH h' _ hx (.inl ⟨c, r, hc, hm, hend.mono hx.subset⟩)
  · exact hH h' _ hx (.inr hlost)

/-- What `queryFirst` leaves behind. -/
def Queried (job : ClaimedJob) (session : Session py) (h : Journal py) :
    Except Exc Bool → Prop
  | .ok true => Quiet h ∧ job.kind = .release ∧ Authorised job h session ∧
      .called (Call.connect session) ∈ h
  | .ok false => Concluded job h
  | .error _ => ¬Entered h ∧ .called (Call.connect session) ∈ h

/-- A checkpoint that ends `queryFirst`. -/
theorem stop_safe {c : Checkpoint} (hh : ¬Entered h)
    (hopen : .called (Call.connect session) ∈ h) (hc : c.status ≠ .running)
    (hend : MayEnd job h c.status) :
    ((saveCheckpoint job c).bind fun _ => (Prog.pure false : Exec py Bool)).Safe (Guard job)
      (Queried job session) h := by
  refine saveCheckpoint_bind (fun he => absurd he hh) (fun r h' hx _ hm => ?_)
    (fun e h' hx _ => ?_)
  · exact .inl ⟨c, r, hc, hm, hend.mono hx.subset⟩
  · exact ⟨fun he => hh (hx.entered he), hx.subset hopen⟩

/-- A job whose session is open may be cancelled. -/
theorem mayEnd_cancelled (hopen : .called (Call.connect session) ∈ h) :
    MayEnd job h .cancelled := .inr ⟨⟨session, hopen⟩, .inr (.inr (.inl rfl))⟩

theorem queryFirst_safe (hh : Quiet h) (hloaded : Loaded job h session.dep)
    (hip : session.ip = job.targetIp) :
    (queryFirst job session).Safe (Guard job) (Queried job session) h := by
  simp only [queryFirst, Prog.bind_eq, Prog.pure_eq]
  -- connect, and the checkpoint behind it
  refine query_bind ⟨hh, hloaded, hip⟩ (by simp) (by simp) (fun _ h₁ hx₁ hq₁ _ hopen₁ => ?_)
    (fun e h₁ hx₁ hopen₁ => ⟨fun he => hh.1 (hx₁.entered he), hopen₁⟩)
  have hquiet₁ := hq₁ hh
  refine saveCheckpoint_bind (fun he => absurd he hquiet₁.1) (fun _ h₂ hx₂ hq₂ _ => ?_)
    (fun e h₂ hx₂ _ => ⟨fun he => hquiet₁.1 (hx₂.entered he), hx₂.subset hopen₁⟩)
  have hquiet₂ := hq₂ rfl hquiet₁
  have hopen₂ := hx₂.subset hopen₁
  -- the query, what is read out of it, and the checkpoint behind that
  refine query_bind trivial (by simp) (by simp) (fun rawBefore h₃ hx₃ hq₃ hraw₃ _ => ?_)
    (fun e h₃ hx₃ _ => ⟨fun he => hquiet₂.1 (hx₃.entered he), hx₃.subset hopen₂⟩)
  have hquiet₃ := hq₃ hquiet₂
  have hopen₃ := hx₃.subset hopen₂
  refine Prog.Safe.ofExcept_bind (fun before hbefore => ?_) (fun e _ => ⟨hquiet₃.1, hopen₃⟩)
  refine saveCheckpoint_bind (fun he => absurd he hquiet₃.1) (fun _ h₄ hx₄ hq₄ _ => ?_)
    (fun e h₄ hx₄ _ => ⟨fun he => hquiet₃.1 (hx₄.entered he), hx₄.subset hopen₃⟩)
  have hquiet₄ := hq₄ rfl hquiet₃
  have hopen₄ := hx₄.subset hopen₃
  -- from here on every end is one that the guard allows
  have hcancelled : MayEnd job h₄ .cancelled := mayEnd_cancelled hopen₄
  split
  · next hunknown =>
    have hunread : Unread h₄ := ⟨session, rawBefore, before, hx₄.subset hraw₃, hip ▸ hbefore,
      hunknown⟩
    exact stop_safe hquiet₄.1 hopen₄ (by simp)
      (.inr ⟨⟨session, hopen₄⟩, .inr (.inr (.inr (.inl ⟨rfl, hunread⟩)))⟩)
  next hunknown =>
  split
  · next hkind =>
    split
    · exact stop_safe hquiet₄.1 hopen₄ (by simp) hcancelled
    · split
      · exact stop_safe hquiet₄.1 hopen₄ (by simp) hcancelled
      · exact stop_safe hquiet₄.1 hopen₄ (by simp)
          (.inr ⟨⟨session, hopen₄⟩, .inr (.inr (.inr (.inr ⟨rfl, hkind⟩)))⟩)
  next hkind =>
  split
  · exact stop_safe hquiet₄.1 hopen₄ (by simp) hcancelled
  next hdynamic =>
  split
  · exact stop_safe hquiet₄.1 hopen₄ (by simp) hcancelled
  next hmissing =>
  refine saveCheckpoint_bind (fun he => absurd he hquiet₄.1) (fun _ h₅ hx₅ hq₅ _ => ?_)
    (fun e h₅ hx₅ _ => ⟨fun he => hquiet₄.1 (hx₅.entered he), hx₅.subset hopen₄⟩)
  -- what is left is a release whose entry may be released
  have hrelease : job.kind = .release := by
    cases hk : job.kind with
    | preReleaseQuery => exact absurd hk hkind
    | release => rfl
  have hallowed : before.entryType = .static ∨
      (before.entryType = .missing ∧ job.force = true) := by
    cases he : before.entryType with
    | static => exact .inl rfl
    | dynamic => exact absurd he hdynamic
    | missing => exact .inr ⟨rfl, by simpa [he] using hmissing⟩
    | unknown => exact absurd he hunknown
  exact ⟨hq₅ rfl hquiet₄, hrelease, ⟨rawBefore, before,
    hx₅.subset (hx₄.subset hraw₃), hip ▸ hbefore, hallowed⟩, hx₅.subset hopen₄⟩

/-- What `releaseAndClassify` leaves behind. -/
def Released (job : ClaimedJob) (session : Session py) (h : Journal py) :
    Except Exc Unit → Prop
  | .ok _ => Concluded job h
  | .error _ => .called (Call.release session) ∈ h ∧ .called (Call.connect session) ∈ h

/-- The release command and what follows it: only progress and the classification of its
own outputs are saved. -/
theorem releaseAndClassify_safe (hh : Quiet h) (hkind : job.kind = .release)
    (hauth : Authorised job h session) (hopen : .called (Call.connect session) ∈ h)
    (hip : session.ip = job.targetIp) :
    (releaseAndClassify job session).Safe (Guard job) (Released job session) h := by
  simp only [releaseAndClassify, Prog.bind_eq]
  refine ⟨⟨hh, hkind, hauth, hopen⟩, fun r => ?_⟩
  cases r with
  | error e => exact ⟨.tail _ (.head _), .tail _ (.tail _ hopen)⟩
  | ok rawRelease =>
  have hcalled₁ : .called (Call.release session) ∈
      (.returned (Call.release session) (.ok rawRelease) :: .called (Call.release session) :: h :
        Journal py) := .tail _ (.head _)
  have hopen₁ : .called (Call.connect session) ∈
      (.returned (Call.release session) (.ok rawRelease) :: .called (Call.release session) :: h :
        Journal py) := .tail _ (.tail _ hopen)
  have hraw₁ : .returned (Call.release session) (.ok rawRelease) ∈
      (.returned (Call.release session) (.ok rawRelease) :: .called (Call.release session) :: h :
        Journal py) := .head _
  revert hcalled₁ hopen₁ hraw₁
  generalize (.returned (Call.release session) (.ok rawRelease) ::
    .called (Call.release session) :: h : Journal py) = h₁
  intro hcalled₁ hopen₁ hraw₁
  have hkept : ∀ {h' : Journal py}, h₁ ⊆ h' →
      .called (Call.release session) ∈ h' ∧ .called (Call.connect session) ∈ h' :=
    fun hsub => ⟨hsub hcalled₁, hsub hopen₁⟩
  show Prog.Safe _ _ ((saveCheckpoint job _).bind _) h₁
  refine saveCheckpoint_bind (fun _ => .inl rfl) (fun _ h₂ hx₂ _ _ => ?_)
    (fun e h₂ hx₂ _ => hkept hx₂.subset)
  refine query_bind trivial (by simp) (by simp) (fun rawAfter h₃ hx₃ _ hafter₃ _ => ?_)
    (fun e h₃ hx₃ _ => hkept fun _ hm => hx₃.subset (hx₂.subset hm))
  refine saveCheckpoint_bind (fun _ => .inl rfl) (fun _ h₄ hx₄ _ _ => ?_)
    (fun e h₄ hx₄ _ => hkept fun _ hm => hx₄.subset (hx₃.subset (hx₂.subset hm)))
  have hsub₄ : h₁ ⊆ h₄ := fun _ hm => hx₄.subset (hx₃.subset (hx₂.subset hm))
  refine Prog.Safe.ofExcept_bind (fun after hparse => ?_) (fun e _ => hkept hsub₄)
  refine Prog.Safe.ofExcept_bind (fun c hclassify => ?_) (fun e _ => hkept hsub₄)
  have hclass : Classifies h₄ c := ⟨session, rawRelease, rawAfter, after, hsub₄ hraw₁,
    hx₄.subset hafter₃, hip ▸ hparse, hclassify⟩
  have hend : MayEnd job h₄ c.status :=
    .inr ⟨⟨session, hsub₄ hopen₁⟩, .inl ⟨session, hsub₄ hcalled₁⟩⟩
  refine saveCheckpoint_safe (fun _ => .inr (.inr ⟨c, hclass, rfl⟩))
    (fun r h₅ hx₅ _ hm => ?_) (fun e h₅ hx₅ _ => hkept fun _ hm => hx₅.subset (hsub₄ hm))
  exact .inl ⟨_, r, c.status_ne_running, hm, hend.mono hx₅.subset⟩

theorem useSession_safe (hh : Quiet h) (hloaded : Loaded job h session.dep)
    (hip : session.ip = job.targetIp) :
    (useSession job session).Safe (Guard job) (fun h' _ => Concluded job h') h := by
  simp only [useSession, Prog.bind_eq, Prog.pure_eq]
  refine Prog.Safe.bind (Prog.Safe.tryCatch
    (Prog.Safe.mono ?_ (queryFirst_safe hh hloaded hip)))
  rintro h₁ (exc | releasing) hq
  · -- the handler in front of the release saves a timeout or a definite failure
    obtain ⟨hno, hopen⟩ := hq
    have hend : MayEnd job h₁ (failureStatus false exc) := by
      unfold failureStatus
      simp only [Bool.false_eq_true, if_false]
      split
      · exact .inr ⟨⟨session, hopen⟩, .inr (.inl rfl)⟩
      · exact .inl rfl
    have hc : failureStatus false exc ≠ .running := by
      unfold failureStatus
      simp only [Bool.false_eq_true, if_false]
      split <;> decide
    refine saveCheckpoint_bind (fun he => absurd he hno) (fun r h₂ hx₂ _ hm => ?_)
      (fun e h₂ hx₂ hlost => .inr hlost)
    exact .inl ⟨_, r, hc, hm, hend.mono hx₂.subset⟩
  · cases releasing with
    | false => exact hq
    | true =>
      obtain ⟨hquiet, hkind, hauth, hopen⟩ := hq
      refine Prog.Safe.tryCatch
        (Prog.Safe.mono ?_ (releaseAndClassify_safe hquiet hkind hauth hopen hip))
      rintro h₂ (exc | _) hreleased
      · obtain ⟨hcalled, hopen₂⟩ := hreleased
        exact end_safe (fun _ => .inr (.inl rfl)) (by simp [failureStatus])
          (.inr ⟨⟨session, hopen₂⟩, .inl ⟨session, hcalled⟩⟩) fun _ _ _ hc => hc
      · exact hreleased

/-- A definite failure saved in front of the release concludes the execution, and so does
its loss. -/
theorem fail_safe {c : Checkpoint} {o : Exec py α} (hh : ¬Entered h) (hc : c.status = .failed)
    (ho : ∀ h', ¬Entered h' → Concluded job h' → o.Safe (Guard job) H h')
    (herror : ∀ e h', ¬Entered h' → Concluded job h' → H h' (.error e)) :
    ((saveCheckpoint job c).bind fun _ => o).Safe (Guard job) H h := by
  refine saveCheckpoint_bind (fun he => absurd he hh) (fun r h' hx _ hm => ?_)
    (fun e h' hx hlost => ?_)
  · exact ho h' (fun he => hh (hx.entered he)) (.inl ⟨c, r, by simp [hc], hm, .inl hc⟩)
  · exact herror e h' (fun he => hh (hx.entered he)) (.inr hlost)

theorem closeSession_safe {H : Journal py → Except Exc Unit → Prop}
    (hH : ∀ h', Extends h h' → H h' (.ok ())) :
    (closeSession session : Exec py Unit).Safe (Guard job) H h := by
  refine Prog.Safe.tryCatch (query_bind trivial (by simp) (by simp) ?_ ?_)
  · exact fun _ h' hx _ _ _ => hH h' hx
  · exact fun e h' hx _ => hH h' hx

/-- `device_task` on a row that has passed the check ends concluded, however it ends. -/
theorem deviceTask_safe {dep : Dependencies} (hh : Quiet h) (hloaded : Loaded job h dep) :
    (deviceTask job (some dep)).Safe (Guard job) (fun h' _ => Concluded job h') h := by
  rw [deviceTask, hloaded.2]
  simp only
  split
  · exact end_safe (fun he => absurd he hh.1) (by simp) (.inl rfl) fun _ _ _ hc => hc
  · next session hsession =>
      obtain ⟨rfl, hip⟩ := openSession_ok hsession
      refine Prog.Safe.andFinally (Prog.Safe.mono ?_ (useSession_safe hh hloaded hip))
      intro h₁ r hc
      exact closeSession_safe fun h₂ hx₂ => hc.mono hx₂.subset

/-- What `loadJob` leaves behind. -/
def LoadedJob (job : ClaimedJob) (h : Journal py) : Except Exc (Option Dependencies) → Prop
  | .ok (some dep) => Quiet h ∧ Loaded job h dep
  | .ok none => Concluded job h
  | .error _ => ¬Entered h

theorem loadJob_safe (hh : Quiet h) :
    (loadJob job : Exec py (Option Dependencies)).Safe (Guard job) (LoadedJob job) h := by
  simp only [loadJob, Prog.bind_eq, Prog.pure_eq]
  refine query_bind (.inl rfl) (by simp) (by simp) (fun reply h₁ hx₁ hq₁ hm₁ _ => ?_)
    (fun e h₁ hx₁ _ he => hh.1 (hx₁.entered he))
  have hquiet₁ := hq₁ hh
  split
  · exact fail_safe hquiet₁.1 rfl (fun h' _ hc => hc) (fun e h' he _ => he)
  · next dep hdep =>
      refine ⟨hquiet₁, ?_⟩
      cases reply with
      | dependencies dep' =>
          cases dep' with
          | none => cases hdep
          | some row =>
              obtain ⟨rfl, -⟩ := dependencyProblem_ok hdep
              exact ⟨hm₁, hdep⟩
      | _ => cases hdep

/-- `executeJob` swallows every exception, and ends concluded. -/
theorem executeJob_safe (hh : Quiet h) :
    (executeJob job : Exec py Unit).Safe (Guard job)
      (fun h' r => Concluded job h' ∧ r = .ok ()) h := by
  simp only [executeJob, Prog.bind_eq, Prog.pure_eq]
  refine Prog.Safe.bind (Prog.Safe.tryCatch (Prog.Safe.mono ?_ (loadJob_safe hh)))
  rintro h₁ (exc | dep) hl
  · refine Prog.Safe.bind (Prog.Safe.tryCatch ?_)
    refine saveCheckpoint_safe (fun he => absurd he hl) (fun r h₂ _ _ hm => ?_)
      (fun e h₂ _ hlost => ?_)
    · exact ⟨.inl ⟨_, r, by simp, hm, .inl rfl⟩, rfl⟩
    · exact ⟨.inr hlost, rfl⟩
  · cases dep with
    | none => exact ⟨hl, rfl⟩
    | some dep =>
      refine Prog.Safe.tryCatch (Prog.Safe.mono ?_ (deviceTask_safe hl.1 hl.2))
      rintro h₂ (exc | _) hc
      · refine Prog.Safe.tryCatch (saveCheckpoint_safe (fun _ => .inr (.inl rfl))
          (fun r h₃ hx₃ _ _ => ?_) (fun e h₃ hx₃ _ => ?_))
        · exact ⟨hc.mono hx₃.subset, rfl⟩
        · exact ⟨hc.mono hx₃.subset, rfl⟩
      · exact ⟨hc, rfl⟩

/-- How an execution ends: it returns, unless the heartbeat it stopped had an exception. -/
def Ended (h : Journal py) : Except Exc Unit → Prop
  | .ok _ => True
  | .error e => .returned Call.stopHeartbeat (.error e) ∈ h

/-- **Execute keeps to the guard**, and raises only what its heartbeat raised.

The program is walked through with its handlers, for every answer of the switch, of the store and of
the profile.  The guard is checked at each call, and the condition `Ended` at each end. -/
theorem execute_safe (job : ClaimedJob) :
    (execute job : Exec py Unit).Safe (Guard job) Ended [] := by
  refine Prog.Safe.andFinally (Prog.Safe.mono ?_ (executeJob_safe ⟨?_, ?_⟩))
  · rintro h r ⟨hc, rfl⟩
    refine ⟨hc, fun r' => ?_⟩
    cases r' with
    | ok a => trivial
    | error e => exact .head _
  · rintro ⟨session, hm⟩
    cases hm
  · intro ref c hm
    cases hm

end Safe

/-! ## What a disciplined journal looks like -/

section Disciplined

variable {job : ClaimedJob} {h : Journal py} (hh : Allowed (Guard job) h)
include hh

/-- Once the release command has been entered, every checkpoint says progress,
uncertainty, or what the outputs of the run classify as. -/
theorem entered_saved (he : Entered h) {ref : JobRef} {c : Checkpoint}
    (hm : .called (Call.db (.checkpoint ref c)) ∈ h) : Follows h c.status := by
  obtain ⟨session, hs⟩ := he
  obtain ⟨h₀, h₀', -, hsub', hG, hG', horder⟩ := hh.guard_guard hs hm (by simp)
  rcases horder with hbefore | hafter
  · rcases hG' with hload | ⟨c', hc', hfollows⟩
    · cases hload
    · cases hc'
      exact (hfollows ⟨session, hbefore⟩).mono hsub'
  · exact .inl (hG.1.2 ref c hafter)

/-- The release command is entered for releases only. -/
theorem entered_kind (he : Entered h) : job.kind = .release := by
  obtain ⟨session, hs⟩ := he
  obtain ⟨h₀, -, hG⟩ := hh.guard hs
  exact hG.2.1

/-- The release command is entered behind a fresh query that allows it, on a session to the
target. -/
theorem entered_authorised {session : Session py} (hs : .called (Call.release session) ∈ h) :
    ∃ h₀, .called (Call.release session) :: h₀ <:+ h ∧ Authorised job h₀ session ∧
      session.ip = job.targetIp := by
  obtain ⟨h₀, hsuf, hG⟩ := hh.guard hs
  obtain ⟨-, -, hauth, hopen⟩ := hG
  obtain ⟨h₁, -, hG₁⟩ := hh.guard (hsuf.subset (.tail _ hopen))
  exact ⟨h₀, hsuf, hauth, hG₁.2.2⟩

/-- A session is opened on a row that was loaded and passed the check. -/
theorem opened_loaded {session : Session py} (hs : .called (Call.connect session) ∈ h) :
    Loaded job h session.dep := by
  obtain ⟨h₀, hsuf, hG⟩ := hh.guard hs
  exact ⟨hsuf.subset (.tail _ hG.2.1.1), hG.2.1.2⟩

/-- A session is one to the target. -/
theorem opened_target {session : Session py} (hs : .called (Call.connect session) ∈ h) :
    session.ip = job.targetIp := by
  obtain ⟨h₀, -, hG⟩ := hh.guard hs
  exact hG.2.2

/-- The heartbeat is stopped by an execution that has concluded. -/
theorem stopped_concluded (hs : .called Call.stopHeartbeat ∈ h) : Concluded job h := by
  obtain ⟨h₀, hsuf, hG⟩ := hh.guard hs
  have hsub : h₀ ⊆ h := fun _ hm => hsuf.subset (.tail _ hm)
  exact hG.mono hsub

end Disciplined

/-- An entry into the release command. -/
def isRelease : Event (@Call.Result py) Exc → Bool
  | .called (.release _) => true
  | _ => false

/-- How often the release command has been entered. -/
def Journal.releases (h : Journal py) : ℕ := h.countP isRelease

theorem releases_pos {h : Journal py} : 0 < releases h ↔ Entered h := by
  rw [releases, List.countP_pos_iff]
  constructor
  · rintro ⟨e, hm, he⟩
    cases e with
    | called q =>
        cases q with
        | release session => exact ⟨session, hm⟩
        | _ => cases he
    | returned q r => cases he
  · rintro ⟨session, hm⟩
    exact ⟨_, hm, rfl⟩

/-- **The release command is entered at most once.** -/
theorem releases_le_one {job : ClaimedJob} {h : Journal py} (hh : Allowed (Guard job) h) :
    releases h ≤ 1 := by
  induction h with
  | nil => exact Nat.zero_le _
  | cons e h ih =>
      cases e with
      | returned q r => exact ih hh
      | called q =>
          rw [releases, List.countP_cons]
          cases q with
          | release session =>
              have hzero : ¬0 < releases h := fun hp => hh.1.1.1 (releases_pos.mp hp)
              rw [releases] at hzero
              simp only [isRelease, if_true]
              omega
          | _ => exact ih hh.2

end BindPlane
