import BindPlane.Release.Service

/-!
# What a commit may do

`Commit` is the contract of the service: for every operation, how its commit takes the
store from one state to the next, which locks it holds while it does, and what it
replies.  `JobStep` reads the same off for one job row at a time, and every invariant
of the queue is proved from it: a row is inserted as queued, started, checkpointed,
extended or swept, or it stays, and its event log grows exactly when its phase and
status are written by anything but a claim.

Assets only grow (`Db.Grows`): a row never disappears, its version never falls, and the
same version is the same content.

**Versions of assets.**  A version is given once: the table of an asset may hold a later state of a
row, but with the same version it is the same row.  Results about revisions rest on this alone, and
not on how an edit works.
-/

namespace BindPlane

open ReadCommitted

/-! ## Versions determine contents -/

/-- `b` is a later state of the asset row `a`. -/
def Asset.Precedes (a b : Asset) : Prop :=
  a.version ≤ b.version ∧ (a.version = b.version → a = b)

theorem Asset.Precedes.refl (a : Asset) : a.Precedes a := ⟨le_rfl, fun _ => rfl⟩

theorem Asset.Precedes.trans {a b c : Asset} (h : a.Precedes b) (h' : b.Precedes c) :
    a.Precedes c := by
  refine ⟨h.1.trans h'.1, fun hv => ?_⟩
  have hab : a.version = b.version := le_antisymm h.1 (hv ▸ h'.1)
  exact (h.2 hab).trans (h'.2 (hab ▸ hv))

/-- An edit leads to a later state: the version goes up. -/
theorem Asset.precedes_edited (a : Asset) (set : List (Column × Cell)) :
    a.Precedes (a.edited set) := by
  refine ⟨Nat.le_succ _, fun h => ?_⟩
  simp only [Asset.edited] at h
  omega

namespace Db

/-- The table has held the row `a` under this key. -/
def Seen (d : Db) (t : AssetTable) (id : Id) (a : Asset) : Prop :=
  ∃ b, d.asset? t id = some b ∧ a.Precedes b

/-- Every asset row of `d` is in `d'`, in the same or a later state. -/
def Grows (d d' : Db) : Prop := ∀ t id a, d.asset? t id = some a → d'.Seen t id a

theorem Seen.of_eq {d : Db} {t : AssetTable} {id : Id} {a : Asset}
    (h : d.asset? t id = some a) : d.Seen t id a := ⟨a, h, .refl a⟩

theorem Seen.grows {d d' : Db} {t : AssetTable} {id : Id} {a : Asset} (h : d.Seen t id a)
    (hg : d.Grows d') : d'.Seen t id a := by
  obtain ⟨b, hb, hab⟩ := h
  obtain ⟨c, hc, hbc⟩ := hg t id b hb
  exact ⟨c, hc, hab.trans hbc⟩

theorem Grows.refl (d : Db) : d.Grows d := fun _ _ _ h => .of_eq h

theorem Grows.trans {d d' d'' : Db} (h : d.Grows d') (h' : d'.Grows d'') : d.Grows d'' :=
  fun t id a ha => (h t id a ha).grows h'

/-- Both rows a join selected have been in the tables. -/
def SeenJoined (d : Db) (r : Joined) : Prop :=
  r.switch.ref? .commandProfileId = some r.profileId ∧
    d.Seen .switches r.switchId r.switch ∧ d.Seen .commandProfiles r.profileId r.profile

theorem SeenJoined.grows {d d' : Db} {r : Joined} (h : d.SeenJoined r) (hg : d.Grows d') :
    d'.SeenJoined r := ⟨h.1, h.2.1.grows hg, h.2.2.grows hg⟩

theorem seenJoined_of_usableSwitch {d : Db} {id : Id} {r : Joined}
    (h : d.usableSwitch id = some r) : r.switchId = id ∧ d.SeenJoined r := by
  obtain ⟨hid, hs, hp, ha⟩ := usableSwitch_eq_some h
  exact ⟨hid, hp, .of_eq (hid ▸ hs), .of_eq ha⟩

/-! ## Keys in use -/

/-- Every identifier in the store has been drawn. -/
structure Bounded (d : Db) (n : ℕ) : Prop where
  job : ∀ id j, d.job? id = some j → id < n
  event : ∀ e ∈ d.events, e.id < n ∧ e.jobId < n
  asset : ∀ t id a, d.asset? t id = some a → id < n

theorem Bounded.mono {d : Db} {n m : ℕ} (h : d.Bounded n) (hnm : n ≤ m) : d.Bounded m where
  job id j hj := (h.job id j hj).trans_le hnm
  event e he := ⟨(h.event e he).1.trans_le hnm, (h.event e he).2.trans_le hnm⟩
  asset t id a ha := (h.asset t id a ha).trans_le hnm

theorem Bounded.job_none {d : Db} {n : ℕ} (h : d.Bounded n) : d.job? n = none := by
  cases hj : d.job? n with
  | none => rfl
  | some j => exact absurd (h.job n j hj) (lt_irrefl _)

theorem Bounded.asset_none {d : Db} {n : ℕ} (h : d.Bounded n) (t : AssetTable) :
    d.asset? t n = none := by
  cases ha : d.asset? t n with
  | none => rfl
  | some a => exact absurd (h.asset t n a ha) (lt_irrefl _)

/-- Append a batch of events. -/
def addEvents (d : Db) (es : List JobEvent) : Db := { d with events := es ++ d.events }

@[simp] theorem job?_addEvents (d : Db) (es : List JobEvent) (id : Id) :
    (d.addEvents es).job? id = d.job? id := rfl
@[simp] theorem asset?_addEvents (d : Db) (es : List JobEvent) (t : AssetTable) (id : Id) :
    (d.addEvents es).asset? t id = d.asset? t id := rfl
@[simp] theorem events_addEvents (d : Db) (es : List JobEvent) :
    (d.addEvents es).events = es ++ d.events := rfl

/-- The rows of a batch of created assets. -/
def addAssets (d : Db) (actor : Principal) (made : List (Id × NewAsset)) : Db :=
  made.foldl (fun d m => (d.putAsset m.2.table m.1 ⟨1, m.2.cell⟩).addAssetEvent
    ⟨actor.userId, actor.email, m.2.action, m.1, .text m.2.label, []⟩) d

end Db

/-- The event is newer than every event of its job so far. -/
def JobEvent.Newest (e : JobEvent) (d : Db) : Prop :=
  ∀ e' ∈ d.events, e'.jobId = e.jobId → e'.id < e.id

/-- A job queued under a new key, with the event that says so.

Preparations, releases and retries are all inserted so.  The two keys have been drawn by the
transaction itself, so nobody can have used them, and the event is in the log of its job before
anything else is. -/
structure Enqueues (K : Set (Resource Key)) (d d' : Db) (id : Id) (j : Job) (e : JobEvent) :
    Prop where
  result : d' = (d.putJob id j).addEvent e
  key : .serial id ∈ K
  eventKey : .serial e.id ∈ K
  fresh : d.job? id = none
  noEvent : ∀ e' ∈ d.events, e'.jobId ≠ id
  job : e.jobId = id
  status : j.status = .queued ∧ j.phase = .queued ∧ e.status = .queued ∧ e.phase = .queued
  lease : j.leaseToken = none

/-- **The contract of the service.**

One constructor for each way in which an operation can commit.  An operation that commits without
writing has one as well, because its reply is something that a caller relies on.  The locks stand in
the premises: they are what `Interference` turns into what the others cannot have done meanwhile. -/
inductive Commit (P : Platform) :
    Op → Instant → Set (Resource Key) → Db → Db → Reply → Prop
  /-- `claim` found nothing it may start. -/
  | idle {now K d} : Commit P .claim now K d d (.claimed none)
  /-- `claim` starts a queued job; a release under the lock of its address, with no
  other release of that address running or uncertain. -/
  | started {now K d} (id : Id) (j : Job) (token : Id) (hj : d.job? id = some j)
      (hqueued : j.status = .queued) (hrow : .key (.job id) ∈ K) (htoken : .serial token ∈ K)
      (hbarrier : j.kind = .release →
        .key (.address (P.hashtextextended j.targetIp)) ∈ K ∧
          d.blockedBy j.targetIp (some id) = false) :
      Commit P .claim now K d (d.modifyJob id (Job.started now token))
        (.claimed (some (j.claimed id token)))
  /-- `sweep_expired` gives up on the expired jobs it could lock. -/
  | swept {now K d} (ids : List Id) (es : List JobEvent) (hids : ids.Nodup)
      (hrows : ∀ id ∈ ids, .key (.job id) ∈ K ∧ ∃ j, d.job? id = some j ∧ j.expired now)
      (hjobs : es.map JobEvent.jobId = ids.reverse)
      (hevents : ∀ e ∈ es, e.Newest d ∧ .serial e.id ∈ K ∧ e.phase = .finished ∧
        e.status = .needsManualConfirmation) :
      Commit P .sweepExpired now K d ((d.modifyJobs ids (Job.swept now)).addEvents es)
        (.swept ids)
  /-- A checkpoint of a job whose lease its executor holds. -/
  | saved {now K d} (job : JobRef) (c : Checkpoint) (j : Job) (e : JobEvent)
      (hj : d.job? job.id = some j) (hlease : j.holds job.leaseToken now)
      (hrow : .key (.job job.id) ∈ K) (hkey : .serial e.id ∈ K) (hnewest : e.Newest d)
      (hevent : e.jobId = job.id ∧ e.phase = c.phase ∧ e.status = c.status) :
      Commit P (.checkpoint job c) now K d
        ((d.modifyJob job.id (Job.checkpointed now c)).addEvent e) .saved
  /-- A heartbeat of a job whose lease its executor holds. -/
  | beat {now K d} (job : JobRef) (j : Job) (hj : d.job? job.id = some j)
      (hlease : j.holds job.leaseToken now) (hrow : .key (.job job.id) ∈ K) :
      Commit P (.heartbeat job) now K d (d.modifyJob job.id (Job.extended now)) (.updated 1)
  /-- A heartbeat of a job whose lease is gone. -/
  | missed {now K d} (job : JobRef) : Commit P (.heartbeat job) now K d d (.updated 0)
  /-- `load_dependencies` changes nothing; what it returns was one snapshot. -/
  | loaded {now K d} (switchId profileId : Id) (r : Option Joined)
      (hr : ∀ r' ∈ r, r'.switchId = switchId ∧ r'.profileId = profileId ∧ d.SeenJoined r') :
      Commit P (.loadDependencies switchId profileId) now K d d
        (.dependencies (r.map Joined.dependencies))
  /-- `Prepare` stops before it inserts. -/
  | stopped {now K d} (p : Principal) (input : PrepareInput) (prep : Preparation)
      (hprep : prep.preparationJobId = none) :
      Commit P (.prepare p input) now K d d (.prepared prep)
  /-- `Prepare` queues a pre-query pinned to a revision of a usable switch. -/
  | prepared {now K d d'} (p : Principal) (input : PrepareInput) (ip : IPv4)
      (selected : Selection) (r : Joined) (id : Id) (e : JobEvent) (prep : Preparation)
      (hadmin : input.force → p.admin) (hip : parseAddr input.targetIp = some ip)
      (hr : d.SeenJoined r)
      (hd : Enqueues K d d' id (preparationJob now p input ip selected r) e)
      (hprep : prep.preparationJobId = some id) :
      Commit P (.prepare p input) now K d d' (.prepared prep)
  /-- `Confirm` queues the release of a preparation that has none. -/
  | confirmed {now K d d'} (p : Principal) (input : ConfirmInput) (prepId : Id) (prep : Job)
      (id : Id) (e : JobEvent) (hinput : input.preparationJobId = .canonical prepId)
      (hprep : d.job? prepId = some prep) (hrow : .key (.job prepId) ∈ K)
      (howner : prep.actorId = p.userId) (hok : prep.confirmable input.force p.admin)
      (hnone : ∀ id j, d.job? id = some j → j.preparationJobId ≠ some prepId)
      (hd : Enqueues K d d' id (prep.release now input.force prepId) e) :
      Commit P (.confirm p input) now K d d'
        (.job (confirmReply prep id .queued .queued input.force))
  /-- `Confirm` finds the release it has already queued. -/
  | confirmedAgain {now K d} (p : Principal) (input : ConfirmInput) (prepId : Id)
      (prep : Job) (existing : Id) (row : Job) (status : Status) (phase : Phase)
      (hinput : input.preparationJobId = .canonical prepId)
      (hprep : d.job? prepId = some prep) (howner : prep.actorId = p.userId)
      (hrow : d.job? existing = some row) (hof : row.preparationJobId = some prepId)
      (hforce : row.force = input.force) :
      Commit P (.confirm p input) now K d d
        (.job (confirmReply prep existing status phase input.force))
  /-- `Retry` queues a fresh pre-query. -/
  | retried {now K d d'} (p : Principal) (original : UuidText) (originalId : Id) (job : Job)
      (resolved : Option Id) (r : Joined) (id : Id) (e : JobEvent) (reply : JobReply)
      (horiginal : original = .canonical originalId)
      (hjob : d.job? originalId = some job) (hadmin : job.force → p.admin)
      (hr : d.SeenJoined r)
      (hd : Enqueues K d d' id (job.retry now p originalId resolved r) e)
      (hreply : reply.id = id) :
      Commit P (.retry p original) now K d d' (.job reply)
  /-- An edit writes the columns that differ, under the next version. -/
  | edited {now K d} (actor : Principal) (table : AssetTable) (uid : UuidText) (id : Id)
      (version : ℕ) (next : Column → Option Cell) (row : Asset) (set : List (Column × Cell))
      (e : AssetEvent) (hadmin : actor.admin) (huid : uid = .canonical id)
      (hrow : d.asset? table id = some row) (hkey : .key (.asset table id) ∈ K)
      (hversion : row.version = version) (hset : set ≠ []) :
      Commit P (.updateAudited actor table uid version next) now K d
        ((d.modifyAsset table id (Asset.edited set)).addAssetEvent e)
        (.version (row.version + 1))
  /-- An edit that changes nothing. -/
  | unedited {now K d} (actor : Principal) (table : AssetTable) (uid : UuidText)
      (version : ℕ) (next : Column → Option Cell) :
      Commit P (.updateAudited actor table uid version next) now K d d (.version version)
  /-- Creation and import insert rows under new keys. -/
  | created {now K d} (actor : Principal) (made : List (Id × NewAsset))
      (hkeys : ∀ m ∈ made, .serial m.1 ∈ K ∧ ∀ t, d.asset? t m.1 = none)
      (hnodup : (made.map Prod.fst).Nodup) :
      Commit P (.createAssets actor (made.map Prod.snd)) now K d (d.addAssets actor made)
        (.created (made.map Prod.fst))

/-! ## One job row at a time -/

/-- **What a commit does to the row and the events of job `id`.**

`Commit` has a case for each operation, and most invariants are about one row.  This is the same
information sorted by the row: with it an invariant of the queue has six cases to check, however
many operations there are. -/
inductive JobStep (P : Platform) (op : Op) (now : Instant) (K : Set (Resource Key))
    (d d' : Db) (r : Reply) (id : Id) : Prop
  | same (hjob : d'.job? id = d.job? id) (hevents : d'.eventsOf id = d.eventsOf id)
      (hop : ∀ token c, op ≠ .checkpoint ⟨id, token⟩ c)
  | queued (j : Job) (e : JobEvent) (hd : Enqueues K d d' id j e)
      (hprep : ∀ p, j.preparationJobId = some p → .key (.job p) ∈ K ∧
        ∀ id j, d.job? id = some j → j.preparationJobId ≠ some p)
  | started (j : Job) (token : Id) (hop : op = .claim)
      (hreply : r = .claimed (some (j.claimed id token))) (hj : d.job? id = some j)
      (hqueued : j.status = .queued) (hjob : d'.job? id = some (j.started now token))
      (hevents : d'.eventsOf id = d.eventsOf id) (hrow : .key (.job id) ∈ K)
      (hbarrier : j.kind = .release →
        .key (.address (P.hashtextextended j.targetIp)) ∈ K ∧
          d.blockedBy j.targetIp (some id) = false)
      (honly : ∀ id', id' ≠ id → d'.job? id' = d.job? id')
  | checkpointed (j : Job) (token : Id) (c : Checkpoint) (e : JobEvent)
      (hop : op = .checkpoint ⟨id, token⟩ c) (hj : d.job? id = some j)
      (hlease : j.holds token now) (hjob : d'.job? id = some (j.checkpointed now c))
      (hevents : d'.eventsOf id = e :: d.eventsOf id) (hnewest : e.Newest d)
      (hevent : e.jobId = id ∧ e.phase = c.phase ∧ e.status = c.status)
      (hrow : .key (.job id) ∈ K)
  | extended (j : Job) (token : Id) (hop : op = .heartbeat ⟨id, token⟩)
      (hj : d.job? id = some j) (hlease : j.holds token now)
      (hjob : d'.job? id = some (j.extended now))
      (hevents : d'.eventsOf id = d.eventsOf id) (hrow : .key (.job id) ∈ K)
  | swept (j : Job) (e : JobEvent) (hop : op = .sweepExpired) (hj : d.job? id = some j)
      (hexpired : j.expired now) (hjob : d'.job? id = some (j.swept now))
      (hevents : d'.eventsOf id = e :: d.eventsOf id) (hnewest : e.Newest d)
      (hevent : e.jobId = id ∧ e.phase = .finished ∧ e.status = .needsManualConfirmation)
      (hrow : .key (.job id) ∈ K)

namespace Db

theorem eventsOf_addEvent (d : Db) (e : JobEvent) (id : Id) :
    (d.addEvent e).eventsOf id =
      if e.jobId = id then e :: d.eventsOf id else d.eventsOf id := by
  simp only [eventsOf, events_addEvent, List.filter_cons, decide_eq_true_eq]

theorem eventsOf_congr {d d' : Db} (h : d'.events = d.events) (id : Id) :
    d'.eventsOf id = d.eventsOf id := by rw [eventsOf, h, eventsOf]

theorem eventsOf_addEvents (d : Db) (es : List JobEvent) (id : Id) :
    (d.addEvents es).eventsOf id = es.filter (·.jobId = id) ++ d.eventsOf id := by
  simp only [eventsOf, events_addEvents, List.filter_append]

/-- Of a batch with one event per job, a job sees its own. -/
theorem filter_jobId_eq {es : List JobEvent} {ids : List Id} (hids : ids.Nodup)
    (hes : es.map JobEvent.jobId = ids) (id : Id) :
    if id ∈ ids then ∃ e ∈ es, e.jobId = id ∧ es.filter (·.jobId = id) = [e]
    else es.filter (·.jobId = id) = [] := by
  induction es generalizing ids with
  | nil => subst hes; simp
  | cons e es ih =>
      subst hes
      obtain ⟨he, hids⟩ := List.nodup_cons.mp hids
      have ih := ih hids rfl
      by_cases h : id = e.jobId
      · subst h
        rw [if_neg he] at ih
        simp [ih]
      · simp only [List.map_cons, List.mem_cons, h, false_or]
        rw [List.filter_cons_of_neg (by simpa using Ne.symm h)]
        split
        · next hmem =>
            rw [if_pos hmem] at ih
            obtain ⟨e', he', hid, hf⟩ := ih
            exact ⟨e', .inr he', hid, hf⟩
        · next hmem =>
            rw [if_neg hmem] at ih
            exact ih

theorem addAssets_jobs (d : Db) (actor : Principal) (made : List (Id × NewAsset)) :
    (d.addAssets actor made).jobs = d.jobs ∧ (d.addAssets actor made).events = d.events := by
  unfold addAssets
  induction made generalizing d with
  | nil => exact ⟨rfl, rfl⟩
  | cons m made ih =>
      rw [List.foldl_cons]
      obtain ⟨hj, he⟩ := ih ((d.putAsset m.2.table m.1 ⟨1, m.2.cell⟩).addAssetEvent _)
      exact ⟨hj, he⟩

end Db

theorem Enqueues.job? {K : Set (Resource Key)} {d d' : Db} {id : Id} {j : Job}
    {e : JobEvent} (h : Enqueues K d d' id j e) (id' : Id) :
    d'.job? id' = if id' = id then some j else d.job? id' := by
  rw [h.result, Db.job?_addEvent, Db.job?_putJob]

theorem Enqueues.eventsOf {K : Set (Resource Key)} {d d' : Db} {id : Id} {j : Job}
    {e : JobEvent} (h : Enqueues K d d' id j e) (id' : Id) :
    d'.eventsOf id' = if id' = id then [e] else d.eventsOf id' := by
  rw [h.result, Db.eventsOf_addEvent, Db.eventsOf_congr (Db.events_putJob d id j), h.job]
  by_cases hid : id' = id
  · subst hid
    have hnone : d.eventsOf id' = [] := by
      rw [Db.eventsOf, List.filter_eq_nil_iff]
      intro e' he'
      simpa using h.noEvent e' he'
    simp [hnone]
  · simp [hid, Ne.symm hid]

theorem Enqueues.jobStep {P : Platform} {op : Op} {now : Instant} {K : Set (Resource Key)}
    {d d' : Db} {r : Reply} {id : Id} {j : Job} {e : JobEvent} (h : Enqueues K d d' id j e)
    (hprep : ∀ p, j.preparationJobId = some p → .key (.job p) ∈ K ∧
      ∀ id j, d.job? id = some j → j.preparationJobId ≠ some p)
    (hop : ∀ job c, op ≠ .checkpoint job c) (id' : Id) :
    JobStep P op now K d d' r id' := by
  by_cases hid : id' = id
  · subst hid
    exact .queued j e h hprep
  · refine .same ?_ ?_ fun token c => hop _ c
    · rw [h.job?, if_neg hid]
    · rw [h.eventsOf, if_neg hid]

/-- **The inversion lemma**: every commit takes one of the six steps on every row.

It is proved by one case for each operation.  The admin edits and the loads write no job, the
inserts concern a new one, and the four statements of the workers have a step each. -/
theorem Commit.jobStep {P : Platform} {op : Op} {now : Instant} {K : Set (Resource Key)}
    {d d' : Db} {r : Reply} (h : Commit P op now K d d' r) (id : Id) :
    JobStep P op now K d d' r id := by
  cases h with
  | idle => exact .same rfl rfl (by simp)
  | started i j token hj hqueued hrow htoken hbarrier =>
      have hevents := Db.eventsOf_congr (Db.events_modifyJob d i (Job.started now token)) id
      by_cases hid : id = i
      · subst hid
        refine .started j token rfl rfl hj hqueued ?_ hevents hrow hbarrier fun id' hid' => ?_
        · rw [Db.job?_modifyJob, if_pos rfl, hj]
          rfl
        · rw [Db.job?_modifyJob, if_neg hid']
      · refine .same ?_ hevents (by simp)
        rw [Db.job?_modifyJob, if_neg hid]
  -- each row that is swept has one event, the newest of its own
  | swept ids es hids hrows hjobs hevents =>
      have hjob := Db.job?_modifyJobs d hids id (Job.swept now)
      have hlog := Db.filter_jobId_eq (List.nodup_reverse.mpr hids) hjobs id
      have hof : ((d.modifyJobs ids (Job.swept now)).addEvents es).eventsOf id =
          es.filter (·.jobId = id) ++ d.eventsOf id := by
        rw [Db.eventsOf_addEvents, Db.eventsOf_congr (Db.modifyJobs_events d ids _)]
      by_cases hid : id ∈ ids
      · rw [if_pos (List.mem_reverse.mpr hid)] at hlog
        obtain ⟨e, he, hejob, hfilter⟩ := hlog
        obtain ⟨hrow, j, hj, hexpired⟩ := hrows id hid
        obtain ⟨hnewest, -, hphase, hstatus⟩ := hevents e he
        refine .swept j e rfl hj hexpired ?_ ?_ hnewest ⟨hejob, hphase, hstatus⟩ hrow
        · rw [Db.job?_addEvents, hjob, if_pos hid, hj]
          rfl
        · rw [hof, hfilter]
          rfl
      · rw [if_neg (fun h => hid (List.mem_reverse.mp h))] at hlog
        refine .same ?_ ?_ (by simp)
        · rw [Db.job?_addEvents, hjob, if_neg hid]
        · rw [hof, hlog, List.nil_append]
  -- the rows of other jobs and their events stay as they are
  | saved job c j e hj hlease hrow hkey hnewest hevent =>
      have hof : ((d.modifyJob job.id (Job.checkpointed now c)).addEvent e).eventsOf id =
          if job.id = id then e :: d.eventsOf id else d.eventsOf id := by
        rw [Db.eventsOf_addEvent, Db.eventsOf_congr (Db.events_modifyJob d job.id _),
          hevent.1]
      by_cases hid : id = job.id
      · subst hid
        refine .checkpointed j job.leaseToken c e rfl hj hlease ?_ ?_ hnewest hevent hrow
        · rw [Db.job?_addEvent, Db.job?_modifyJob, if_pos rfl, hj]
          rfl
        · rw [hof, if_pos rfl]
      · refine .same ?_ ?_ fun token c' heq => ?_
        · rw [Db.job?_addEvent, Db.job?_modifyJob, if_neg hid]
        · rw [hof, if_neg (Ne.symm hid)]
        · cases heq
          exact hid rfl
  | beat job j hj hlease hrow =>
      have hevents := Db.eventsOf_congr (Db.events_modifyJob d job.id (Job.extended now)) id
      by_cases hid : id = job.id
      · subst hid
        refine .extended j job.leaseToken rfl hj hlease ?_ hevents hrow
        rw [Db.job?_modifyJob, if_pos rfl, hj]
        rfl
      · refine .same ?_ hevents (by simp)
        rw [Db.job?_modifyJob, if_neg hid]
  | missed job => exact .same rfl rfl (by simp)
  | loaded => exact .same rfl rfl (by simp)
  | stopped => exact .same rfl rfl (by simp)
  | prepared p input ip selected r i e prep hadmin hip hr hd hprep =>
      exact hd.jobStep (fun p hp => by cases hp) (by simp) id
  | confirmed p input prepId prep i e hinput hprep hrow howner hok hnone hd =>
      refine hd.jobStep (fun p hp => ?_) (by simp) id
      cases hp
      exact ⟨hrow, hnone⟩
  | confirmedAgain => exact .same rfl rfl (by simp)
  | retried p original originalId job resolved r i e reply horiginal hjob hadmin hr hd =>
      exact hd.jobStep (fun p hp => by cases hp) (by simp) id
  | edited actor table uid i version next row set e =>
      exact .same (by simp) (Db.eventsOf_congr (by simp) id) (by simp)
  | unedited => exact .same rfl rfl (by simp)
  | created actor made hkeys hnodup =>
      obtain ⟨hjobs, hevents⟩ := d.addAssets_jobs actor made
      exact .same (by rw [Db.job?, hjobs, Db.job?]) (Db.eventsOf_congr hevents id)
        (by simp)

end BindPlane
