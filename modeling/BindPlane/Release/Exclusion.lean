import BindPlane.Release.StoreKept

/-!
# One release per address

In every state of every run at most one release of an address is running or uncertain.
The partial unique index speaks of running releases only; the bound is kept because a
row enters the barrier by a claim alone, and the claim re-checks the barrier under the
lock of the address.  A sweep and a checkpoint move a row inside the barrier or out.

**Why the index is not enough.**  An uncertain release is no longer running, so the index would let
the next one start.  The claim asks for both, and asks behind the lock of the address; a release
that another transaction has just claimed has either committed, and is seen, or holds the lock.
-/

namespace BindPlane

open ReadCommitted

/-- Nothing has happened yet, on a freshly migrated store. -/
def Queue.start : Queue := Sys.init Db.empty 0

/-- A state some run of the service leads to.

The service starts with empty tables, and any sequence of actions of its clients may follow.  Most
results of the release queue are about these states. -/
def Queue.Reachable (P : Platform) (s : Queue) : Prop := Queue.Steps P Queue.start s

theorem bounded_empty : Db.empty.Bounded 0 where
  job id j hj := by simp [Db.empty, Db.job?] at hj
  event e he := by simp [Db.empty] at he
  asset t id a ha := by simp [Db.empty, Db.asset?] at ha

/-- Every reachable state is sound for the contract. -/
theorem Queue.Reachable.sound {P : Platform} {s : Queue} (h : s.Reachable P) :
    Sound (contract P) s :=
  Sound.steps (service_kept P) (.init bounded_empty) h

/-- A property of an empty store that every commit keeps holds in every reachable
state. -/
theorem Queue.Reachable.induct {P : Platform} {s : Queue} (h : s.Reachable P)
    {I : Db → Prop} (h₀ : I Db.empty)
    (hstep : ∀ {op now K d d' r}, Commit P op now K d d' r → I d → I d') : I s.db :=
  Sound.steps_db (service_kept P) (P := I) (fun hc => hstep hc) (.init bounded_empty) h h₀

/-- The releases of an address that are running or uncertain. -/
def Db.blockers (d : Db) (ip : IPv4) : Set Id :=
  {id | ∃ j, d.job? id = some j ∧ j.kind = .release ∧ j.targetIp = ip ∧
    (j.status = .running ∨ j.status = .needsManualConfirmation)}

theorem Db.mem_blockers {d : Db} {ip : IPv4} {id : Id} :
    id ∈ d.blockers ip ↔ ∃ j, d.job? id = some j ∧ j.blocking ∧ j.targetIp = ip := by
  simp only [blockers, Set.mem_ofPred_eq, Job.blocking_iff]
  grind

theorem Db.blockers_empty (ip : IPv4) : (Db.empty.blockers ip).Subsingleton := by
  rintro id ⟨j, hj, -⟩
  simp [Db.empty, Db.job?] at hj

/-- A commit keeps the exclusion of one address. -/
theorem Commit.blockers_subsingleton {P : Platform} {op : Op} {now : Instant}
    {K : Set (Resource Key)} {d d' : Db} {r : Reply} (h : Commit P op now K d d' r) {ip : IPv4}
    (hd : (d.blockers ip).Subsingleton) : (d'.blockers ip).Subsingleton := by
  -- a new blocker keeps every other row, and found no other blocker
  have hnew : ∀ {id id' : Id}, id ≠ id' → id' ∈ d'.blockers ip →
      (d.blockedBy ip (some id) = false ∧ ∀ i, i ≠ id → d'.job? i = d.job? i) → False := by
    rintro id id' hne hid' ⟨hfree, honly⟩
    obtain ⟨j', hj', hblock, hip⟩ := Db.mem_blockers.mp hid'
    rw [honly id' hne.symm] at hj'
    rw [Db.blockedBy_eq_false] at hfree
    have := hfree id' j' hj' hip (by simpa using hne.symm)
    rw [hblock] at this
    cases this
  have hold : ∀ {id : Id}, id ∈ d'.blockers ip → id ∈ d.blockers ip ∨
      (d.blockedBy ip (some id) = false ∧ ∀ i, i ≠ id → d'.job? i = d.job? i) := by
    intro id hid
    obtain ⟨j', hj', hblock, rfl⟩ := Db.mem_blockers.mp hid
    rcases (h.jobStep id).barrier hj' hblock with ⟨j, hj, hb, hip⟩ | ⟨-, hfree, honly⟩
    · exact .inl (Db.mem_blockers.mpr ⟨j, hj, hb, hip⟩)
    · exact .inr ⟨hfree, honly⟩
  intro id hid id' hid'
  by_contra hne
  rcases hold hid with h₁ | h₁
  · rcases hold hid' with h₂ | h₂
    · exact hne (hd h₁ h₂)
    · exact hnew (Ne.symm hne) hid h₂
  · exact hnew hne hid' h₁

/-- **Exclusion.**  In every reachable state at most one release of an address is
running or uncertain.

`blockers` are the releases of the address whose status is running or uncertain.  The set can grow
in one way only, by the claim of a queued release, and a claim commits under the advisory lock of
the address and has looked for blockers behind that lock; whatever else commits, a checkpoint, a
sweep or a settlement, moves a row within the set or out of it.  So the induction is over commits:
what one commit does to the set (`Commit.blockers_subsingleton`) is all there is to show, and the
statements in between do not matter. -/
theorem Queue.Reachable.one_release_per_address {P : Platform} {s : Queue}
    (h : s.Reachable P) (ip : IPv4) : (s.db.blockers ip).Subsingleton :=
  h.induct (I := fun d => (d.blockers ip).Subsingleton)
    (Db.blockers_empty ip) fun hc hd => hc.blockers_subsingleton hd

/-! ## A concrete run

One switch, one network and one operator: a pre-query is prepared, claimed and answered
by a static entry, its release is confirmed, and the release is claimed. -/

namespace Demo

/-- Addresses are hashed to themselves, and texts are compared as they are. -/
def platform : Platform := ⟨fun ip => ip.toNat, fun a b => a = b⟩

def admin : Principal := ⟨100, "admin@test.invalid", true, []⟩

/-- A row with the given columns set. -/
def cells (l : List (Column × Cell)) (c : Column) : Cell :=
  ((l.find? (·.1 = c)).map Prod.snd).getD .null

/-- The credential `0`, the profile `1`, the switch `2` and the network `3`. -/
def assets : List NewAsset :=
  [⟨.credentials, "credential.create", "test", cells [(.isActive, .bool true)]⟩,
    ⟨.commandProfiles, "profile.create", "test", cells [(.isActive, .bool true)]⟩,
    ⟨.switches, "switch.create", "test", cells [(.isEnabled, .bool true),
      (.credentialId, .ref 0), (.commandProfileId, .ref 1)]⟩,
    ⟨.networks, "network.create", "10.2.0.0/16", cells [(.isEnabled, .bool true),
      (.isValidated, .bool true), (.switchId, .ref 2),
      (.cidr, .cidr (.v4 0x0A020000#32 ⟨16, by decide⟩))]⟩]

/-- One transaction from its request to its end. -/
def act (t : ℕ) (op : Op) (now : Instant) (s : Queue) : Queue :=
  s.perform (body platform) 60 t op now

/-- What the pre-query of the run sees. -/
def observed : Observation := ⟨0x0A020107#32, .static, none⟩

/-- Up to the pre-query, the job `4`. -/
def prepared : Queue :=
  act 1 (.prepare admin ⟨"10.2.1.7", "other", false, .empty⟩) 1
    (act 0 (.createAssets admin assets) 0 Queue.start)

/-- Up to the claim of the pre-query, under the token `6`. -/
def querying : Queue := act 2 .claim 2 prepared

theorem waitingConfirmation_ne : Status.waitingConfirmation ≠ .queued := by decide

/-- Up to the answer of the pre-query. -/
def waiting : Queue :=
  act 3 (.checkpoint ⟨4, 6⟩
    { phase := .waitingConfirmation, status := .waitingConfirmation,
      changes := { beforeState := some observed }, status_ne := waitingConfirmation_ne }) 3 querying

/-- Up to the confirmation, which queues the release `8`. -/
def confirmed : Queue := act 4 (.confirm admin ⟨.canonical 4, false⟩) 4 waiting

/-- Up to the claim of the release, under the token `10`. -/
def releasing : Queue := act 5 .claim 5 confirmed

theorem act_reachable {s : Queue} (h : s.Reachable platform) (t : ℕ) (op : Op)
    (now : Instant) : (act t op now s).Reachable platform :=
  h.trans (Sys.perform_steps ..)

theorem prepared_reachable : prepared.Reachable platform :=
  act_reachable (act_reachable .refl ..) ..

theorem waiting_reachable : waiting.Reachable platform :=
  act_reachable (act_reachable prepared_reachable ..) ..

theorem releasing_reachable : releasing.Reachable platform :=
  act_reachable (act_reachable waiting_reachable ..) ..

end Demo

/-- In the concrete run the release holds its address alone. -/
theorem Demo.one_release : (Demo.releasing.db.job? 8).any Job.blocking ∧
    (Demo.releasing.db.blockers 0x0A020107#32).Subsingleton :=
  ⟨by decide +kernel, Demo.releasing_reachable.one_release_per_address _⟩

end BindPlane
