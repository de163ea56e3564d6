import BindPlane.Release.Fencing

/-!
# Confirmation

A release row exists only because its preparation was confirmed, and only once.

* `Db.Confirmed` is the invariant: every release stands on a preparation with the same
  owner, address, reason and pins, whose recorded observation allows its force flag, and
  no two releases stand on the same one.  The preparation has settled, so what was true
  of it at the confirmation is true of it for good.
* `Queue.Reachable.confirmed_by` adds who confirmed it: a committed call whose principal
  owned the preparation, an administrator if the release is forced.
* A repeated call meets the same preparation and the same release, and so the same
  answer: `Queue.Reachable.confirm_repeats`.
-/

namespace BindPlane

open ReadCommitted Contract

/-- The release `j` may stand on the preparation `prep`.

All of this is about columns that no later operation changes, once the preparation has settled.  So
it is checked once, at the confirmation, and may be relied upon for good. -/
structure Job.Authorizes (prep j : Job) : Prop where
  preparation : prep.kind = .preReleaseQuery
  release : j.kind = .release
  actor : j.actorId = prep.actorId
  targetIp : j.targetIp = prep.targetIp
  reason : j.reason = prep.reason
  pins : j.pins = prep.pins
  settled : prep.status = .waitingConfirmation ∨
    (prep.status = .cancelled ∧ prep.entryType = some .missing)
  forced : j.force = true → prep.entryType = some .missing
  unforced : j.force = false → prep.entryType = some .static

/-- What `canConfirmRelease` lets through. -/
theorem canConfirmRelease_iff {before : Option EntryType} {force admin : Bool} :
    canConfirmRelease before force admin = true ↔
      (before = some .static ∧ force = false) ∨
        (before = some .missing ∧ force = true ∧ admin = true) := by
  unfold canConfirmRelease
  split
  · next h => simp [h]
  · next h => simp [h, and_assoc]

theorem Job.confirmable_iff {prep : Job} {force admin : Bool} :
    prep.confirmable force admin = true ↔ prep.kind = .preReleaseQuery ∧
      (prep.status = .waitingConfirmation ∨
        prep.status = .cancelled ∧ prep.entryType = some .missing) ∧
      canConfirmRelease prep.entryType force admin := by
  simp [confirmable, and_assoc]

/-- What Confirm inserts stands on what it has locked. -/
theorem Job.authorizes_release {prep : Job} {force admin : Bool}
    (h : prep.confirmable force admin) (now : Instant) (p : Id) :
    prep.Authorizes (prep.release now force p) := by
  obtain ⟨hkind, hstatus, hentry⟩ := confirmable_iff.mp h
  rw [canConfirmRelease_iff] at hentry
  refine ⟨hkind, rfl, rfl, rfl, rfl, rfl, hstatus, fun hf => ?_, fun hf => ?_⟩
  · have hf : force = true := hf
    rcases hentry with ⟨-, hforce⟩ | ⟨hmissing, -⟩
    · rw [hf] at hforce
      cases hforce
    · exact hmissing
  · have hf : force = false := hf
    rcases hentry with ⟨hstatic, -⟩ | ⟨-, hforce, -⟩
    · exact hstatic
    · rw [hf] at hforce
      cases hforce

/-- A preparation a release stands on may be confirmed again with the same force. -/
theorem Job.Authorizes.confirmable {prep j : Job} (h : prep.Authorizes j) {admin : Bool}
    (hadmin : j.force → admin) : prep.confirmable j.force admin := by
  refine confirmable_iff.mpr ⟨h.preparation, h.settled, canConfirmRelease_iff.mpr ?_⟩
  cases hf : j.force with
  | false => exact .inl ⟨h.unforced hf, rfl⟩
  | true => exact .inr ⟨h.forced hf, rfl, hadmin hf⟩

/-- Only the origin of the release matters. -/
theorem Job.Authorizes.of_origin {prep j j' : Job} (h : prep.Authorizes j)
    (ho : j'.origin = j.origin) : prep.Authorizes j' where
  preparation := h.preparation
  release := (Job.kind_of_origin ho).trans h.release
  actor := (Job.actorId_of_origin ho).trans h.actor
  targetIp := (Job.targetIp_of_origin ho).trans h.targetIp
  reason := (Job.reason_of_origin ho).trans h.reason
  pins := (Job.pins_of_origin ho).trans h.pins
  settled := h.settled
  forced hf := h.forced ((Job.force_of_origin ho).symm.trans hf)
  unforced hf := h.unforced ((Job.force_of_origin ho).symm.trans hf)

/-- Job `id` is a release of the preparation `p`. -/
def Db.IsRelease (d : Db) (p id : Id) : Prop :=
  ∃ j, d.job? id = some j ∧ j.preparationJobId = some p

/-! ## Where a row comes from -/

/-- **Where a row of the new store comes from**: an old row, a pre-query, or the
confirmation of a preparation without a release.

The first case has the origin only: status and results of an old row may change, but not what it was
made from. -/
inductive Commit.Row (op : Op) (now : Instant) (d d' : Db) (r : Reply) (id : Id) (j : Job) :
    Prop
  | kept (j₀ : Job) (hj₀ : d.job? id = some j₀) (horigin : j.origin = j₀.origin)
  | prepared (hnone : d.job? id = none) (hkind : j.kind = .preReleaseQuery)
      (hprep : j.preparationJobId = none) (hpins : ∃ r : Joined, j.pins = r.pins ∧ d.SeenJoined r)
  | confirmed (princ : Principal) (input : ConfirmInput) (p : Id) (prep : Job)
      (hop : op = .confirm princ input) (hinput : input.preparationJobId = .canonical p)
      (hprep : d.job? p = some prep) (howner : prep.actorId = princ.userId)
      (hok : prep.confirmable input.force princ.admin) (hfirst : ∀ id, ¬d.IsRelease p id)
      (hnone : d.job? id = none) (hj : j = prep.release now input.force p)
      (hreply : r = .job (confirmReply prep id .queued .queued input.force))
      (honly : ∀ id', id' ≠ id → d'.job? id' = d.job? id')

section Rows

variable {P : Platform} {op : Op} {now : Instant} {K : Set (Resource Key)} {d d' : Db}
  {r : Reply}

/-- A row that was not there comes from one of the three inserts. -/
theorem Commit.inserted (h : Commit P op now K d d' r) {id : Id} {j : Job}
    (hj : d'.job? id = some j) (hnone : d.job? id = none) : Commit.Row op now d d' r id j := by
  have hid : ∀ {i : Id} {j₀ : Job} {e : JobEvent}, Enqueues K d d' i j₀ e →
      id = i ∧ j = j₀ := by
    intro i j₀ e hd
    rw [hd.job?] at hj
    split at hj
    · next h => exact ⟨h, (Option.some.inj hj).symm⟩
    · rw [hnone] at hj
      cases hj
  have hsame : d'.job? id = d.job? id → Commit.Row op now d d' r id j := by
    intro heq
    rw [heq, hnone] at hj
    cases hj
  cases h with
  | idle | missed | loaded | stopped | confirmedAgain | unedited => exact hsame rfl
  | started | saved | beat => exact hsame (by simp [Db.job?_modifyJob, hnone])
  | swept ids es hids => exact hsame (by simp [Db.job?_modifyJobs d hids, hnone])
  | edited => exact hsame (by simp)
  | created actor made =>
      refine hsame ?_
      rw [Db.job?, (d.addAssets_jobs actor made).1, Db.job?]
  | prepared p input ip selected r i e prep hadmin hip hr hd =>
      obtain ⟨rfl, rfl⟩ := hid hd
      exact .prepared hnone rfl rfl ⟨r, rfl, hr⟩
  | retried p original originalId job resolved r i e reply horiginal hjob hadmin hr hd =>
      obtain ⟨rfl, rfl⟩ := hid hd
      exact .prepared hnone rfl rfl ⟨r, rfl, hr⟩
  | confirmed p input prepId prep i e hinput hprep hrow howner hok hfirst hd =>
      obtain ⟨rfl, rfl⟩ := hid hd
      refine .confirmed p input prepId prep rfl hinput hprep howner hok ?_ hnone rfl rfl ?_
      · rintro i ⟨j, hj, hp⟩
        exact hfirst i j hj hp
      · intro id' hid'
        rw [hd.job?, if_neg hid']

theorem Commit.row (h : Commit P op now K d d' r) {id : Id} {j : Job}
    (hj : d'.job? id = some j) : Commit.Row op now d d' r id j := by
  cases hj₀ : d.job? id with
  | none => exact h.inserted hj hj₀
  | some j₀ =>
      obtain ⟨j₁, hj₁, horigin⟩ := (h.jobStep id).kept hj₀
      rw [hj] at hj₁
      cases hj₁
      exact .kept j₀ hj₀ horigin

/-- A release stays the release of its preparation. -/
theorem Commit.isRelease (h : Commit P op now K d d' r) {p id : Id} (hd : d.IsRelease p id) :
    d'.IsRelease p id := by
  obtain ⟨j, hj, hp⟩ := hd
  obtain ⟨j', hj', ho⟩ := (h.jobStep id).kept hj
  exact ⟨j', hj', (Job.preparationJobId_of_origin ho).trans hp⟩

end Rows

/-! ## The invariant -/

/-- Every release stands on a preparation of its own.

The invariant says nothing of callers: the store does not know them.  It is kept by every commit
because a release is inserted by a confirmation only, which holds the row of the preparation and its
entry of the unique index.  A retry begins with a preparation of its own. -/
structure Db.Confirmed (d : Db) : Prop where
  prepared : ∀ id j, d.job? id = some j → j.kind = .release → ∃ p, j.preparationJobId = some p
  authorized : ∀ id j p, d.job? id = some j → j.preparationJobId = some p →
    ∃ prep, d.job? p = some prep ∧ prep.Authorizes j
  unique : ∀ p id id', d.IsRelease p id → d.IsRelease p id' → id = id'

theorem Db.Confirmed.empty : Db.empty.Confirmed where
  prepared id j hj := by simp [Db.empty, Db.job?] at hj
  authorized id j p hj := by simp [Db.empty, Db.job?] at hj
  unique p id id' := by
    rintro ⟨j, hj, -⟩
    simp [Db.empty, Db.job?] at hj

section Invariant

variable {P : Platform} {op : Op} {now : Instant} {K : Set (Resource Key)} {d d' : Db}
  {r : Reply}

/-- The preparation of a release has settled: no commit changes it. -/
theorem Commit.preparation (h : Commit P op now K d d' r) {p : Id} {prep j : Job}
    (hprep : d.job? p = some prep) (ha : prep.Authorizes j) : d'.job? p = some prep := by
  refine (h.jobStep p).settled hprep ?_ ?_ <;>
    rcases ha.settled with hs | ⟨hs, -⟩ <;> simp [hs]

theorem Commit.confirmed_of_old (h : Commit P op now K d d' r) (hd : d.Confirmed) {p id : Id}
    {j j₀ : Job} (hj₀ : d.job? id = some j₀) (horigin : j.origin = j₀.origin)
    (hp : j.preparationJobId = some p) : ∃ prep, d'.job? p = some prep ∧ prep.Authorizes j := by
  obtain ⟨prep, hprep, ha⟩ := hd.authorized id j₀ p hj₀
    ((Job.preparationJobId_of_origin horigin).symm.trans hp)
  exact ⟨prep, h.preparation hprep ha, ha.of_origin horigin⟩

/-- Two releases of one preparation after a commit are two before it, unless the commit
inserted one, and then there was none. -/
theorem Commit.isRelease_back (h : Commit P op now K d d' r) {p id : Id}
    (hid : d'.IsRelease p id) :
    d.IsRelease p id ∨ ((∀ i, ¬d.IsRelease p i) ∧ ∀ i, i ≠ id → d'.job? i = d.job? i) := by
  obtain ⟨j, hj, hp⟩ := hid
  cases h.row hj with
  | kept j₀ hj₀ horigin =>
      exact .inl ⟨j₀, hj₀, (Job.preparationJobId_of_origin horigin).symm.trans hp⟩
  | prepared _ _ hnone => rw [hnone] at hp; cases hp
  | confirmed princ input p' prep _ _ _ _ _ hfirst _ hj' _ honly =>
      subst hj'
      cases hp
      exact .inr ⟨hfirst, honly⟩

/-- **A commit keeps the invariant.** -/
theorem Commit.confirmed_kept (h : Commit P op now K d d' r) (hd : d.Confirmed) :
    d'.Confirmed where
  prepared id j hj hkind := by
    cases h.row hj with
    | kept j₀ hj₀ horigin =>
        obtain ⟨p, hp⟩ := hd.prepared id j₀ hj₀ ((Job.kind_of_origin horigin).symm.trans hkind)
        exact ⟨p, (Job.preparationJobId_of_origin horigin).trans hp⟩
    | prepared _ hk => rw [hk] at hkind; cases hkind
    | confirmed princ input p prep _ _ _ _ _ _ _ hj' => exact ⟨p, hj' ▸ rfl⟩
  authorized id j p hj hp := by
    cases h.row hj with
    | kept j₀ hj₀ horigin => exact h.confirmed_of_old hd hj₀ horigin hp
    | prepared _ _ hnone => rw [hnone] at hp; cases hp
    | confirmed princ input p' prep _ _ hprep _ hok _ _ hj' =>
        subst hj'
        cases hp
        have ha := Job.authorizes_release hok now p
        exact ⟨prep, h.preparation hprep ha, ha⟩
  unique p id id' hid hid' := by
    by_contra hne
    rcases h.isRelease_back hid with h₁ | ⟨hfirst, honly⟩
    · rcases h.isRelease_back hid' with h₂ | ⟨hfirst, -⟩
      · exact hne (hd.unique p id id' h₁ h₂)
      · exact hfirst id h₁
    · obtain ⟨j', hj', hp'⟩ := hid'
      rw [honly id' (Ne.symm hne)] at hj'
      exact hfirst id' ⟨j', hj', hp'⟩

end Invariant

theorem Queue.Reachable.confirmed {P : Platform} {s : Queue} (h : s.Reachable P) :
    s.db.Confirmed :=
  h.induct .empty fun hc hd => hc.confirmed_kept hd

/-- Along a run a release stays the release of its preparation. -/
theorem Queue.Reachable.isRelease {P : Platform} {s s' : Queue} (h : s.Reachable P)
    (hs : Queue.Steps P s s') {p id : Id} (hid : s.db.IsRelease p id) : s'.db.IsRelease p id :=
  Sound.steps_db (service_kept P) (P := fun d => d.IsRelease p id)
    (fun {_ _ _ _ _ _} (hc : Commit P _ _ _ _ _ _) hd => hc.isRelease hd) h.sound hs hid

/-! ## Who confirmed it -/

/-- The reply `r` to a Confirm call names a release of the preparation it was made for,
with the caller's force, and the caller owns it. -/
def Db.Answers (d : Db) (princ : Principal) (input : ConfirmInput) (r : Reply) : Prop :=
  ∃ p reply row, input.preparationJobId = .canonical p ∧ r = .job reply ∧
    d.job? reply.id = some row ∧ row.preparationJobId = some p ∧ row.force = input.force ∧
    row.actorId = princ.userId

/-- A committed call of Confirm, on the preparation `p`, that queued the release `id`. -/
def Queue.ConfirmedBy (s : Queue) (p id : Id) (j : Job) : Prop :=
  ∃ t princ input now reply, s.txns t = .committed (.confirm princ input) now (.job reply) ∧
    input.preparationJobId = .canonical p ∧ reply.id = id ∧ princ.userId = j.actorId ∧
    input.force = j.force ∧ (j.force → princ.admin)

section Calls

variable {P : Platform} {op : Op} {now : Instant} {K : Set (Resource Key)} {d d' : Db}
  {r : Reply}

theorem Db.Answers.kept {princ : Principal} {input : ConfirmInput} {r₀ : Reply}
    (hd : d.Answers princ input r₀) (h : Commit P op now K d d' r) :
    d'.Answers princ input r₀ := by
  obtain ⟨p, reply, row, hinput, hreply, hrow, hp, hforce, hactor⟩ := hd
  obtain ⟨row', hrow', ho⟩ := (h.jobStep reply.id).kept hrow
  exact ⟨p, reply, row', hinput, hreply, hrow', (Job.preparationJobId_of_origin ho).trans hp,
    (Job.force_of_origin ho).trans hforce, (Job.actorId_of_origin ho).trans hactor⟩

/-- What Confirm commits to answers the call. -/
theorem Commit.answers {princ : Principal} {input : ConfirmInput} (hd : d.Confirmed)
    (h : Commit P (.confirm princ input) now K d d' r) : d'.Answers princ input r := by
  cases h with
  | confirmed p input prepId prep i e hinput hprep hrow howner hok hfirst hd =>
      refine ⟨prepId, _, prep.release now input.force prepId, hinput, rfl, ?_, rfl, rfl, howner⟩
      rw [hd.job?]
      exact if_pos rfl
  | confirmedAgain p input prepId prep i row status phase hinput hprep howner hrow hof hforce =>
      refine ⟨prepId, _, row, hinput, rfl, hrow, hof, hforce, ?_⟩
      obtain ⟨prep', hprep', ha⟩ := hd.authorized i row prepId hrow hof
      rw [hprep] at hprep'
      cases hprep'
      exact ha.actor.trans howner

end Calls

/-- **Every successful call returns the release.** -/
theorem Queue.Reachable.answers {P : Platform} {s : Queue} (h : s.Reachable P) {t : ℕ}
    {princ : Principal} {input : ConfirmInput} {now : Instant} {r : Reply}
    (ht : s.txns t = .committed (.confirm princ input) now r) :
    s.db.Answers princ input r := by
  induction h with
  | refl => cases ht
  | tail hrun hstep ih =>
      obtain ⟨a, ha⟩ := hstep
      cases Sound.outcome (Queue.Reachable.sound hrun) ha with
      | quiet hdb hcommitted =>
          rw [hdb]
          exact ih ((hcommitted _ _ _ _).mp ht)
      | commit op now' r' w _ hcommit hcommitted =>
          rcases (hcommitted _ _ _ _).mp ht with ht | ⟨-, rfl, rfl, rfl⟩
          · exact (ih ht).kept hcommit
          · exact hcommit.answers (Queue.Reachable.confirmed hrun)

/-- **Every release was confirmed** by the owner of its preparation, and by an
administrator if it is forced.

The store does not keep the caller, so this is about the record of the transaction that inserted the
row, which is still among the committed ones. -/
theorem Queue.Reachable.confirmed_by {P : Platform} {s : Queue} (h : s.Reachable P) {id : Id}
    {j : Job} (hj : s.db.job? id = some j) (hkind : j.kind = .release) :
    ∃ p, j.preparationJobId = some p ∧ s.ConfirmedBy p id j := by
  induction h generalizing j with
  | refl => simp [start, Sys.init, Db.empty, Db.job?] at hj
  | tail hrun hstep ih =>
      obtain ⟨a, ha⟩ := hstep
      cases Sound.outcome (Queue.Reachable.sound hrun) ha with
      | quiet hdb hcommitted =>
          obtain ⟨p, hp, t, princ, input, now, reply, ht, h'⟩ := ih (hdb ▸ hj) hkind
          exact ⟨p, hp, t, princ, input, now, reply, (hcommitted _ _ _ _).mpr ht, h'⟩
      | commit op now r w _ hcommit hcommitted =>
          cases hcommit.row hj with
          | kept j₀ hj₀ ho =>
              obtain ⟨p, hp, t, princ, input, now', reply, ht, hinput, hid, hactor, hforce,
                hadmin⟩ := ih hj₀ ((Job.kind_of_origin ho).symm.trans hkind)
              rw [← Job.actorId_of_origin ho] at hactor
              rw [← Job.force_of_origin ho] at hforce hadmin
              exact ⟨p, (Job.preparationJobId_of_origin ho).trans hp, t, princ, input, now',
                reply, (hcommitted _ _ _ _).mpr (.inl ht), hinput, hid, hactor, hforce, hadmin⟩
          | prepared _ hk => rw [hk] at hkind; cases hkind
          | confirmed princ input p prep hop hinput _ howner hok _ _ hj' hreply _ =>
              subst hj'
              refine ⟨p, rfl, _, princ, input, now, _, (hcommitted _ _ _ _).mpr
                (.inr ⟨rfl, hop.symm, rfl, hreply.symm⟩), hinput, rfl, howner.symm, rfl,
                fun hf => ?_⟩
              have hf : input.force = true := hf
              have hentry := (Job.confirmable_iff.mp hok).2.2
              rw [canConfirmRelease_iff, hf] at hentry
              exact hentry.elim (fun h => by cases h.2) (fun h => h.2.2)

/-! ## Repeated and refused calls -/

/-- A call that the release of its preparation, or the owner of the preparation, speaks
against. -/
def Db.Refuses (d : Db) (princ : Principal) (input : ConfirmInput) : Prop :=
  ∃ p, input.preparationJobId = .canonical p ∧
    ((∃ id row, d.job? id = some row ∧ row.preparationJobId = some p ∧
        row.force ≠ input.force) ∨
      (∃ prep, d.job? p = some prep ∧ prep.actorId ≠ princ.userId))

theorem Db.Answers.not_refuses {d : Db} {princ : Principal} {input : ConfirmInput} {r : Reply}
    (hd : d.Confirmed) (h : d.Answers princ input r) : ¬d.Refuses princ input := by
  obtain ⟨p, reply, row, hinput, -, hrow, hp, hforce, hactor⟩ := h
  rintro ⟨p', hinput', hrefuse⟩
  rw [hinput] at hinput'
  cases hinput'
  rcases hrefuse with ⟨id, row', hrow', hp', hne⟩ | ⟨prep, hprep, hne⟩
  · have hid := hd.unique p id reply.id ⟨row', hrow', hp'⟩ ⟨row, hrow, hp⟩
    rw [hid, hrow] at hrow'
    cases hrow'
    exact hne hforce
  · obtain ⟨prep', hprep', ha⟩ := hd.authorized reply.id row p hrow hp
    rw [hprep] at hprep'
    cases hprep'
    exact hne (ha.actor.symm.trans hactor)

/-- A committed transaction stays committed. -/
theorem Queue.Reachable.committed {P : Platform} {s s' : Queue} (h : s.Reachable P)
    (hs : Queue.Steps P s s') {t : ℕ} {op : Op} {now : Instant} {r : Reply}
    (ht : s.txns t = .committed op now r) : s'.txns t = .committed op now r := by
  induction hs with
  | refl => exact ht
  | tail hrun hstep ih =>
      obtain ⟨a, ha⟩ := hstep
      cases Sound.outcome (Queue.Reachable.sound (h.trans hrun)) ha with
      | quiet _ hcommitted => exact (hcommitted _ _ _ _).mpr ih
      | commit _ _ _ _ _ _ hcommitted => exact (hcommitted _ _ _ _).mpr (.inl ih)

/-- What the store holds for a repeated call. -/
structure Db.Repeats (d : Db) (p id : Id) (prep row : Job) : Prop where
  confirmed : d.Confirmed
  preparation : d.job? p = some prep
  authorizes : prep.Authorizes row
  release : ∃ j, d.job? id = some j ∧ j.origin = row.origin ∧ j.preparationJobId = some p

theorem Db.Repeats.kept {P : Platform} {op : Op} {now : Instant} {K : Set (Resource Key)}
    {d d' : Db} {r : Reply} {p id : Id} {prep row : Job} (h : Commit P op now K d d' r)
    (hd : d.Repeats p id prep row) : d'.Repeats p id prep row where
  confirmed := h.confirmed_kept hd.confirmed
  preparation := h.preparation hd.preparation hd.authorizes
  authorizes := hd.authorizes
  release := by
    obtain ⟨j, hj, ho, hp⟩ := hd.release
    obtain ⟨j', hj', ho'⟩ := (h.jobStep id).kept hj
    exact ⟨j', hj', ho'.trans ho, (Job.preparationJobId_of_origin ho').trans hp⟩

/-- The query for the release finds it. -/
theorem Db.Repeats.releaseOf {d : Db} {p id : Id} {prep row : Job}
    (hd : d.Repeats p id prep row) :
    ∃ j, d.releaseOf p = some (id, j) ∧ j.force = row.force := by
  obtain ⟨j, hj, ho, hp⟩ := hd.release
  cases hfind : d.releaseOf p with
  | none => exact absurd hp (Db.releaseOf_eq_none.mp hfind id j hj)
  | some found =>
      obtain ⟨i, j'⟩ := found
      obtain ⟨hj', hp'⟩ := Db.releaseOf_eq_some hfind
      have hi := hd.confirmed.unique p i id ⟨j', hj', hp'⟩ ⟨j, hj, hp⟩
      subst hi
      rw [hj] at hj'
      cases hj'
      exact ⟨j, rfl, Job.force_of_origin ho⟩

/-- The owner, still authorised, asks again. -/
structure Principal.MayRepeat (princ : Principal) (row : Job) : Prop where
  owner : princ.userId = row.actorId
  operator : princ.operator = true
  admin : row.force → princ.admin

/-- The checks of Confirm before it looks for the release let the repeated call pass. -/
theorem Principal.MayRepeat.checks {princ : Principal} {prep row : Job}
    (hprinc : princ.MayRepeat row) (ha : prep.Authorizes row) :
    (!(row.force && !princ.admin)) = true ∧ decide (prep.actorId = princ.userId) = true ∧
      prep.confirmable row.force princ.admin = true ∧
      (!(!prep.force && row.force && prep.entryType ≠ some .missing)) = true := by
  refine ⟨?_, ?_, ha.confirmable hprinc.admin, ?_⟩
  · cases hf : row.force with
    | false => rfl
    | true => simp [hprinc.admin hf]
  · simp [hprinc.owner, ha.actor]
  · cases hf : row.force with
    | false => simp
    | true => simp [ha.forced hf]

section Repeat

variable {P : Platform} {princ : Principal} {p existing : Id} {prep row : Job} {now : Instant}

/-- **The repeated call never raises**, and its reply names the release. -/
theorem confirm_repeats (hprinc : princ.MayRepeat row) {v : View Db Key}
    (hv : (contract P).Good v) (hpending : v.pending = id)
    (hd : v.db.Repeats p existing prep row) :
    (body P (.confirm princ ⟨.canonical p, row.force⟩) now).Ensures (contract P).interference
      (fun r _ => ∃ reply, r = .ok (.job reply) ∧ reply.id = existing) v := by
  have hstable : ∀ {v v' : View Db Key}, v.db.Repeats p existing prep row →
      (contract P).Later v v' → v'.db.Repeats p existing prep row := fun hd hl =>
    interference_keeps (C := contract P) (P := fun d => d.Repeats p existing prep row) hl.rel
      (fun _ hc hd => Db.Repeats.kept hc hd) hd
  obtain ⟨hforce, howner, hok, hprepared⟩ := hprinc.checks hd.authorizes
  simp only [body, confirm, storeConfirm, Tx.bind_eq, Tx.pure_eq, Tx.bind_assoc, UuidText.id?,
    hprinc.operator, hforce]
  refine selectJobForUpdate_bind hv hpending (fun v' hl _ hnone => ?_)
    fun j v₁ h₁ hv₁ _ hj => ?_
  · rw [(hstable hd hl).preparation] at hnone
    cases hnone
  have hd₁ := hstable hd h₁
  rw [hd₁.preparation] at hj
  cases hj
  simp only [Tx.expect, Tx.pure_bind, howner, hok, hprepared, Tx.require, if_true]
  refine hv₁.snapshot fun v₂ h₂ hv₂ => ?_
  obtain ⟨j, hfind, hj⟩ := (hstable hd₁ h₂).releaseOf
  rw [snapshot_eq (h₂.pending.trans (h₁.pending.trans hpending)), hfind]
  simp only [hj, decide_true, if_true, Tx.pure_bind]
  exact hv₂.pure fun _ _ _ => ⟨_, rfl, rfl⟩

/-- **The repeated call ends** when the preparation's lock can be had. -/
theorem confirm_solo (hprinc : princ.MayRepeat row) {d : Db} (hd : d.Repeats p existing prep row)
    {free : Key → Bool} (hfree : free (.job p) = true) (n : ℕ) :
    ∃ reply d' n', (body P (.confirm princ ⟨.canonical p, row.force⟩) now).solo free d id n =
      some (.ok (.job reply, d', n')) ∧ reply.id = existing := by
  obtain ⟨hforce, howner, hok, hprepared⟩ := hprinc.checks hd.authorizes
  obtain ⟨j, hfind, hj⟩ := hd.releaseOf
  refine ⟨confirmReply prep existing j.status j.phase j.force, d, n, ?_, rfl⟩
  simp only [body, confirm, storeConfirm, selectJobForUpdate, Tx.bind_eq, Tx.pure_eq,
    Tx.bind_assoc, UuidText.id?, hprinc.operator, hforce]
  simp only [Tx.require, Tx.expect, Tx.snapshot, Tx.acquire, Tx.bind, Tx.solo, Tx.pure_bind,
    id_eq, hd.preparation, hfind, hfree, howner, hok, hprepared, hj, if_true, decide_true,
    reduceCtorEq, ne_eq, not_false_eq_true]

end Repeat

/-- Only a commit of Confirm, and only one that answers the call, writes for it. -/
theorem Queue.Reachable.confirm_writes {P : Platform} {s s₁ s₂ : Queue} (h : s.Reachable P)
    {a : QueueAction} (ha : s.step (body P) a = some s₁) {princ : Principal}
    {input : ConfirmInput} (hop : (s₁.txns a.txn).op? = some (.confirm princ input))
    (hs : Queue.Steps P s₁ s₂) :
    s₁.db = s.db ∨ ∃ now r, s₂.txns a.txn = .committed (.confirm princ input) now r := by
  cases Sys.step_moved ha with
  | quiet hdb => exact .inl hdb
  | commit op now r w hrun hdb htxns =>
      have hcommitted : s₁.txns a.txn = .committed op now r := by
        rw [htxns, Function.update_self]
      rw [hcommitted] at hop
      cases hop
      exact .inr ⟨now, r, Queue.Reachable.committed (h.tail ⟨a, ha⟩) hs hcommitted⟩

/-- A repeated call of the owner, requested when the release is there. -/
theorem Queue.Reachable.repeated {P : Platform} {s : Queue} (h : s.Reachable P) {t : ℕ}
    {p existing : Id} {row : Job} {princ : Principal} (hrow : s.db.job? existing = some row)
    (hp : row.preparationJobId = some p) (hprinc : princ.MayRepeat row)
    (ht : s.txns t = .requested (.confirm princ ⟨.canonical p, row.force⟩)) :
    (∀ s', Queue.Steps P s s' → ∀ op now e, s'.txns t ≠ .rolledBack op now e) ∧
      (s.locks (.key (.job p)) = none → ∃ s' op now reply, Queue.Steps P s s' ∧
        s'.txns t = .committed op now (.job reply) ∧ reply.id = existing) := by
  obtain ⟨prep, hprep, hauth⟩ := h.confirmed.authorized existing row p hrow hp
  have hd : s.db.Repeats p existing prep row :=
    ⟨h.confirmed, hprep, hauth, row, hrow, rfl, hp⟩
  constructor
  · have htracked : Tracked (contract P) (body P)
        (fun r => ∃ reply, r = .ok (.job reply) ∧ reply.id = existing) s t := by
      simp only [Tracked, ht]
      intro now v hinv hrel hpending hheld
      have hd' : v.db.Repeats p existing prep row :=
        interference_keeps (C := contract P) (P := fun d => d.Repeats p existing prep row) hrel
          (fun _ hc hd => Db.Repeats.kept hc hd) hd
      exact confirm_repeats hprinc ⟨hinv, by simp [hheld]⟩ hpending hd'
    intro s' hs op now e he
    have hend := Tracked.steps (service_kept P) h.sound htracked hs
    simp only [Tracked, he] at hend
    obtain ⟨reply, hreply, -⟩ := hend
    cases hreply
  · intro hlock
    classical
    -- alone from the begin on: the only lock it waits for is free
    let free : Key → Bool := fun key => ∀ t', s.locks (.key key) = some t' → t' = t
    let op : Op := .confirm princ ⟨.canonical p, row.force⟩
    let s₀ : Queue := s.set t (.active op 0 id (body P op 0))
    have hbegin : Queue.Steps P s s₀ := by
      refine .single ⟨.begin t 0, ?_⟩
      simp only [Sys.step, ht]
      rfl
    have hactive : s₀.txns t = .active op 0 id (body P op 0) := Function.update_self ..
    have hfree : Free s₀ t free := fun key => by simp [free, s₀]
    obtain ⟨reply, d', n', hsolo, hreply⟩ : ∃ reply d' n',
        (body P op 0).solo free s₀.db id s₀.seq = some (.ok (.job reply, d', n')) ∧
          reply.id = existing := confirm_solo hprinc hd (by simp [free, hlock]) s.seq
    obtain ⟨s', hs', htx, -⟩ : ∃ s', Sys.Advances (body P) t s₀ s' ∧
        s'.txns t = .committed op 0 (.job reply) ∧ s'.db = d' ∧ s'.seq = n' :=
      solo_steps _ hactive hfree hsolo
    exact ⟨s', op, 0, reply, hbegin.trans hs'.steps, htx, hreply⟩

/-- **Confirmation is idempotent.**  In every run a preparation has at most one release;
every successful call returns it; a call that does not succeed, or that the release's
force or the owner of the preparation speaks against, leaves the jobs and the events as
they were, and a refused call does not succeed; and a call that repeats the release's
force, by the owner still authorised, never raises and, unless the preparation's row stays
locked, returns the release.

A confirmation that loses a race waits for the winner at the unique index on the preparation, or at
the row of the preparation, and finds the winner's release behind it.  So the answer of a repeated
call does not come from the call: it comes from the one release that the preparation has, which no
later call replaces.  The last part is a statement of progress, and needs the schedule to run the
call on its own once the row is free. -/
theorem Queue.Reachable.confirm_idempotent {P : Platform} {s : Queue} (h : s.Reachable P) :
    (∀ p i i' s', Queue.Steps P s s' → s.db.IsRelease p i → s'.db.IsRelease p i' → i' = i) ∧
    (∀ t princ input now r, s.txns t = .committed (.confirm princ input) now r →
      ∃ p reply, input.preparationJobId = .canonical p ∧ r = .job reply ∧
        s.db.IsRelease p reply.id) ∧
    (∀ a s₁ s₂ princ input, s.step (body P) a = some s₁ →
      (s₁.txns a.txn).op? = some (.confirm princ input) → Queue.Steps P s₁ s₂ →
      (∀ now r, s₂.txns a.txn ≠ .committed (.confirm princ input) now r) ∨
        s₂.db.Refuses princ input →
      s₁.db.jobs = s.db.jobs ∧ s₁.db.events = s.db.events) ∧
    (∀ t princ input now r, s.db.Refuses princ input →
      s.txns t ≠ .committed (.confirm princ input) now r) ∧
    (∀ t p existing row princ, s.db.job? existing = some row →
      row.preparationJobId = some p → princ.MayRepeat row →
      s.txns t = .requested (.confirm princ ⟨.canonical p, row.force⟩) →
      (∀ s', Queue.Steps P s s' → ∀ op now e, s'.txns t ≠ .rolledBack op now e) ∧
        (s.locks (.key (.job p)) = none → ∃ s' op now reply, Queue.Steps P s s' ∧
          s'.txns t = .committed op now (.job reply) ∧ reply.id = existing)) := by
  have hrefused : ∀ {s : Queue}, s.Reachable P → ∀ t princ input now r,
      s.db.Refuses princ input → s.txns t ≠ .committed (.confirm princ input) now r :=
    fun h t princ input now r hrefuse ht =>
      Db.Answers.not_refuses h.confirmed (h.answers ht) hrefuse
  refine ⟨?_, ?_, ?_, hrefused h, ?_⟩
  · intro p i i' s' hs hi hi'
    exact (Queue.Reachable.confirmed (h.trans hs)).unique p i' i hi' (h.isRelease hs hi)
  · intro t princ input now r ht
    obtain ⟨p, reply, row, hinput, hreply, hrow, hp, -⟩ := h.answers ht
    exact ⟨p, reply, hinput, hreply, row, hrow, hp⟩
  · intro a s₁ s₂ princ input ha hop hs hno
    have hdb : s₁.db = s.db := by
      rcases h.confirm_writes ha hop hs with hdb | ⟨now, r, ht⟩
      · exact hdb
      · rcases hno with hno | hno
        · exact absurd ht (hno now r)
        · exact absurd ht (hrefused ((h.tail ⟨a, ha⟩).trans hs) _ princ input now r hno)
    exact ⟨by rw [hdb], by rw [hdb]⟩
  · intro t p existing row princ hrow hp hprinc ht
    exact h.repeated hrow hp hprinc ht

/-- In the concrete run the pre-query has the one release `8`, and asking again returns
it. -/
theorem Demo.confirmed_once :
    Demo.releasing.db.IsRelease 4 8 ∧
      ∀ i s', Queue.Steps Demo.platform Demo.releasing s' → s'.db.IsRelease 4 i → i = 8 := by
  have h8 : Demo.releasing.db.IsRelease 4 8 := by
    have hany : (Demo.releasing.db.job? 8).any (·.preparationJobId = some 4) := by
      decide +kernel
    obtain ⟨j, hj, hp⟩ := (Option.any_eq_true _ _).mp hany
    exact ⟨j, hj, by simpa using hp⟩
  exact ⟨h8, fun i s' hs hi =>
    Demo.releasing_reachable.confirm_idempotent.1 4 8 i s' hs h8 hi⟩

end BindPlane
