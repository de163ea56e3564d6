import BindPlane.Release.Sweep
import BindPlane.Worker.Books

/-!
# The release command

What stands in the store when a release command is on its way, and what may follow it.

* `Reachable.fenced_commands`: the command of a job is entered at most once, never for a
  pre-query, and not while the command of another job of the address may be on its way or
  has ended uncertain.
* `Reachable.command_outcome`: a job whose command was entered ends as its own outputs
  classify, or uncertain.
-/

namespace BindPlane

open ReadCommitted Coroutine Journal

variable {py : Python}

namespace World

variable {P : Platform} {w w' : World py}

/-- A job with a journal was claimed, and its journal keeps to the guard. -/
theorem Reachable.owner (h : w.Reachable P) {id : Id} (hne : w.journal id ≠ []) :
    ∃ t job j, w.queue.ClaimedBy t job ∧ job.id = id ∧ Allowed (Guard job) (w.journal id) ∧
      w.queue.db.job? id = some j ∧ j.status ≠ .queued ∧ job.Describes j := by
  obtain ⟨t, job, hclaimed, rfl, hallowed, -⟩ := h.kept.owned hne
  obtain ⟨j, hj, hstatus, hdesc⟩ := h.queue.hasStarted hclaimed
  exact ⟨t, job, j, hclaimed, rfl, hallowed, hj, hstatus, hdesc⟩

/-- A status that was saved is in the journal. -/
theorem Reachable.saved_called (h : w.Reachable P) {id : Id} {status : Status}
    (hs : w.queue.Saved id status) : ∃ ref c,
      .called (Call.db (.checkpoint ref c)) ∈ w.journal id ∧ c.status = status := by
  obtain ⟨t, token, c, now, r, ht, hc⟩ := hs
  exact ⟨⟨id, token⟩, c, h.kept.asked (by rw [ht]; rfl), hc⟩

/-- **Once the command has been entered** the row is running, uncertain, or as the outputs
of the run classify. -/
theorem Reachable.entered_status (h : w.Reachable P) {id : Id} (he : Entered (w.journal id)) :
    ∃ j, w.queue.db.job? id = some j ∧ j.kind = .release ∧
      (j.status = .running ∨ j.status = .needsManualConfirmation ∨
        ∃ c, Classifies (w.journal id) c ∧ c.status = j.status) := by
  obtain ⟨session, hs⟩ := he
  obtain ⟨t, job, j, -, -, hallowed, hj, hqueued, hdesc⟩ := h.owner (List.ne_nil_of_mem hs)
  refine ⟨j, hj, hdesc.kind.symm.trans (entered_kind hallowed ⟨session, hs⟩), ?_⟩
  rcases h.queue.row_status hj with hq | hr | hm | hsaved
  · exact absurd hq hqueued
  · exact .inl hr
  · exact .inr (.inl hm)
  · obtain ⟨ref, c, hcalled, hc⟩ := h.saved_called hsaved
    rcases entered_saved hallowed ⟨session, hs⟩ hcalled with hr | hm | ⟨c', hc', heq⟩
    · exact .inl (hc ▸ hr)
    · exact .inr (.inl (hc ▸ hm))
    · exact .inr (.inr ⟨c', hc', heq.trans hc⟩)

/-- **While the command is being entered** its row stands in the barrier.

The executor has no way to check this: between its last checkpoint and the command its lease may
expire.  But then the row is uncertain and not free, and an uncertain release blocks the address as
well. -/
theorem Reachable.entering (h : w.Reachable P) {id : Id} {session : Session py} {t : ℕ}
    {job : ClaimedJob} (hclaimed : w.queue.ClaimedBy t job) (hid : job.id = id)
    (hguard : Guard job (w.journal id) (.release session)) :
    ∃ j, w.queue.db.job? id = some j ∧ j.kind = .release ∧
      (j.status = .running ∨ j.status = .needsManualConfirmation) := by
  subst hid
  obtain ⟨j, hj, hqueued, hdesc⟩ := h.queue.hasStarted hclaimed
  obtain ⟨hquiet, hkind, -⟩ := hguard
  refine ⟨j, hj, hdesc.kind.symm.trans hkind, ?_⟩
  rcases h.queue.row_status hj with hq | hr | hm | hsaved
  · exact absurd hq hqueued
  · exact .inl hr
  · exact .inr hm
  · obtain ⟨ref, c, hcalled, hc⟩ := h.saved_called hsaved
    exact .inl (hc ▸ hquiet.2 ref c hcalled)

/-- The command of job `id` is entered. -/
def Commands (w w' : World py) (id : Id) : Prop :=
  Entered (w'.journal id) ∧ ¬Entered (w.journal id)

/-- **When a command is entered**, no other command of its address may be on its way: one
that was entered before has ended as its own outputs classify, and not uncertain.

Whoever enters a command has a running row, and by exclusion no other row of the address blocks it.
So every command that was entered before belongs to a job that has left the barrier, and it can have
done so only by a checkpoint with a definite status. -/
theorem Reachable.commands_alone (h : w.Reachable P) (hmoved : Moved P w w') {id id' : Id}
    (hc : Commands w w' id) (hne : id' ≠ id) (he : Entered (w.journal id')) :
    ∃ j j', w.queue.db.job? id = some j ∧ w.queue.db.job? id' = some j' ∧
      (j'.targetIp = j.targetIp → j'.status ≠ .needsManualConfirmation ∧
        ∃ c, Classifies (w.journal id') c ∧ c.status = j'.status) := by
  obtain ⟨⟨session, hs⟩, hno⟩ := hc
  rcases hmoved.called h.kept hs with hold | ⟨t, job, hclaimed, hid, hguard⟩
  · exact absurd ⟨session, hold⟩ hno
  obtain ⟨j, hj, hkind, hstatus⟩ := h.entering hclaimed hid hguard
  obtain ⟨j', hj', hkind', hstatus'⟩ := h.entered_status he
  refine ⟨j, j', hj, hj', fun hip => ?_⟩
  have hone : (w.queue.db.blockers j.targetIp).Subsingleton :=
    h.queue.induct (I := fun d => (d.blockers j.targetIp).Subsingleton)
      (Db.blockers_empty _) fun hc hd => hc.blockers_subsingleton hd
  have hclear : ¬(j'.status = .running ∨ j'.status = .needsManualConfirmation) := fun hb =>
    hne (hone ⟨j', hj', hkind', hip, hb⟩ ⟨j, hj, hkind, rfl, hstatus⟩)
  refine ⟨fun hm => hclear (.inr hm), ?_⟩
  rcases hstatus' with hr | hm | hclass
  · exact absurd (.inl hr) hclear
  · exact absurd (.inr hm) hclear
  · exact hclass

/-- An uncertain job stands in the way of every later command of its address. -/
theorem Reachable.uncertain_blocks (h : w.Reachable P) {id' : Id} {j' : Job}
    (hj' : w.queue.db.job? id' = some j') (he : Entered (w.journal id'))
    (hm : j'.status = .needsManualConfirmation) (hs : Steps P w w') {id : Id} {j : Job}
    (hne : id' ≠ id) (hj : w'.queue.db.job? id = some j) (hip : j'.targetIp = j.targetIp)
    (hentered : Entered (w'.journal id)) : Entered (w.journal id) := by
  induction hs generalizing j with
  | refl => exact hentered
  | @tail w₁ w₂ hrun hstep ih =>
      obtain ⟨a, ha⟩ := hstep
      have hreach : w₁.Reachable P := h.trans hrun
      have hmoved := step_moved ha
      by_cases hold : Entered (w₁.journal id)
      · obtain ⟨j₁, hj₁, -⟩ := hreach.entered_status hold
        obtain ⟨j₂, hj₂, ho⟩ := hreach.queue.origin hmoved.queue hj₁
        rw [hj] at hj₂
        cases hj₂
        exact ih hj₁ (hip.trans (Job.targetIp_of_origin ho)) hold
      · have he₁ : Entered (w₁.journal id') := he.imp fun _ hm =>
          (Steps.journal hrun id').subset hm
        obtain ⟨j₁, j₁', hj₁, hj₁', hclass⟩ :=
          hreach.commands_alone hmoved ⟨hentered, hold⟩ hne he₁
        rw [h.queue.settled (Steps.queue hrun) hj' (by simp [hm]) (by simp [hm])] at hj₁'
        cases hj₁'
        obtain ⟨j₂, hj₂, ho⟩ := hreach.queue.origin hmoved.queue hj₁
        rw [hj] at hj₂
        cases hj₂
        exact absurd hm (hclass (hip.trans (Job.targetIp_of_origin ho))).1

/-- **The release command is fenced.**  In every run the command of a job is entered at most
once, and never for a pre-query; when it is entered, every other job of the address whose
command was entered before has ended with a definite classification of its own outputs; and
a job that ended uncertain stands in the way of every later command of its address.

Four facts of different kinds come together here.  That the command is entered at most once is a
fact of one program: its journal keeps to the guard, and the guard lets the command through before
any other entry only.  That no pre-query enters it is the guard on the kind of the job.  The other
two are about two jobs at once, and rest on the queue: whoever enters the command holds the running
row of its job, and exclusion leaves no other row of the address running or uncertain. -/
theorem Reachable.fenced_commands (h : w.Reachable P) :
    (∀ id, releases (w.journal id) ≤ 1) ∧
    (∀ id j, w.queue.db.job? id = some j → j.kind = .preReleaseQuery →
      releases (w.journal id) = 0) ∧
    (∀ a w' id id', w.step P a = some w' → Commands w w' id → id' ≠ id →
      Entered (w.journal id') →
      ∃ j j', w.queue.db.job? id = some j ∧ w.queue.db.job? id' = some j' ∧
        (j'.targetIp = j.targetIp → j'.status ≠ .needsManualConfirmation ∧
          ∃ c, Classifies (w.journal id') c ∧ c.status = j'.status)) ∧
    (∀ id' j', w.queue.db.job? id' = some j' → Entered (w.journal id') →
      j'.status = .needsManualConfirmation → ∀ w' id j, Steps P w w' → id' ≠ id →
        w'.queue.db.job? id = some j → j'.targetIp = j.targetIp → Entered (w'.journal id) →
          Entered (w.journal id)) := by
  refine ⟨fun id => ?_, fun id j hj hkind => ?_, ?_, ?_⟩
  · by_cases hnil : w.journal id = []
    · rw [hnil]
      exact Nat.zero_le 1
    · obtain ⟨t, job, -, -, -, hallowed, -⟩ := h.owner hnil
      exact releases_le_one hallowed
  · by_contra hpos
    have he := releases_pos.mp (Nat.pos_of_ne_zero hpos)
    obtain ⟨j', hj', hkind', -⟩ := h.entered_status he
    rw [hj] at hj'
    cases hj'
    rw [hkind] at hkind'
    cases hkind'
  · exact fun a w' id id' ha hc hne he => h.commands_alone (step_moved ha) hc hne he
  · exact fun id' j' hj' he hm w' id j hs hne hj hip => h.uncertain_blocks hj' he hm hs hne hj hip

/-! ## How it ends -/

/-- What the store does by itself it does in the world. -/
theorem steps_of_advances {t : ℕ} {s' : Queue} (hs : Sys.Advances (body P) t w.queue s') :
    Steps P w { w with queue := s' } := by
  induction hs with
  | refl => exact .refl
  | @tail s₁ s₂ _ hstep ih =>
      refine ih.tail ⟨.store (.advance t), ?_⟩
      simp only [step, hstep]
      rfl

/-- The next sweep, with the workers looking on. -/
theorem next_sweep {t : ℕ} {now : Instant} {id : Id} {j : Job}
    (ht : w.queue.txns t = .requested .sweepExpired) (hj : w.queue.db.job? id = some j)
    (hexpired : j.expired now) (hfree : ∀ i j, w.queue.db.job? i = some j → j.expired now →
      w.queue.locks (.key (.job i)) = none) :
    ∃ w', Steps P w w' ∧ (∃ ids, w'.queue.txns t = .committed .sweepExpired now (.swept ids)) ∧
      w'.queue.db.job? id = some (j.swept now) := by
  obtain ⟨s₀, s', hbegin, hadvances, hids, hswept⟩ :=
    Queue.next_sweep (P := P) ht hj hexpired hfree
  have hfirst : Steps P w { w with queue := s₀ } := by
    refine .single ⟨.store (.begin t now), ?_⟩
    simp only [step, hbegin]
    rfl
  exact ⟨{ w with queue := s' }, hfirst.trans (steps_of_advances hadvances), hids, hswept⟩

/-- **Once the release command has been entered**, the job succeeds or fails only as the
outputs of this run classify; otherwise it is uncertain, or still running under a lease, and
the first sweep behind the end of that lease makes it uncertain.  When it runs no more its
row is final.

The worker may be stopped at any point behind the command: by an error of the switch, by the store,
by the loss of its lease or by the end of the process.  What it can still write then is told by its
journal, in which every checkpoint behind the command is either the classification of the outputs of
this run or says that nobody knows.  And where it writes nothing at all, the row is left running
under a lease, and the sweep finds it there. -/
theorem Reachable.command_outcome (h : w.Reachable P) {id : Id} (he : Entered (w.journal id)) :
    ∃ j, w.queue.db.job? id = some j ∧ j.kind = .release ∧
      (j.status = .running ∨ j.status = .needsManualConfirmation ∨
        ((j.status = .succeeded ∨ j.status = .failed) ∧
          ∃ c, Classifies (w.journal id) c ∧ c.status = j.status)) ∧
      (j.status = .running → ∃ u, j.leaseUntil = some u ∧ ∀ t now, u < now →
        w.queue.txns t = .requested .sweepExpired →
        (∀ i j, w.queue.db.job? i = some j → j.expired now →
          w.queue.locks (.key (.job i)) = none) →
        ∃ w', Steps P w w' ∧
          (∃ ids, w'.queue.txns t = .committed .sweepExpired now (.swept ids)) ∧
          ∃ j', w'.queue.db.job? id = some j' ∧ j'.status = .needsManualConfirmation) ∧
      (j.status ≠ .running → ∀ w', Steps P w w' → w'.queue.db.job? id = some j) := by
  obtain ⟨j, hj, hkind, hstatus⟩ := h.entered_status he
  refine ⟨j, hj, hkind, ?_, fun hrunning => ?_, fun hended w' hs => ?_⟩
  · refine hstatus.imp_right fun hrest => ?_
    rcases hrest with hm | ⟨c, hc, heq⟩
    · exact .inl hm
    · rcases c.status_mem with hs | hs | hs
      · exact .inr ⟨.inl (heq.symm.trans hs), c, hc, heq⟩
      · exact .inr ⟨.inr (heq.symm.trans hs), c, hc, heq⟩
      · exact .inl (heq.symm.trans hs)
  · obtain ⟨u, hu⟩ := h.queue.leased id j hj hrunning
    refine ⟨u, hu, fun t now hnow ht hfree => ?_⟩
    have hexpired : j.expired now := Job.expired_iff.mpr ⟨hrunning, u, hu, hnow⟩
    obtain ⟨w', hs, hids, hswept⟩ := next_sweep ht hj hexpired hfree
    exact ⟨w', hs, hids, j.swept now, hswept, rfl⟩
  · refine h.queue.settled (Steps.queue hs) hj ?_ hended
    rcases hstatus with hr | hm | ⟨c, -, heq⟩
    · exact absurd hr hended
    · simp [hm]
    · exact heq ▸ c.status_ne

end World

/-! ## A concrete run

The switch, the operator and the pre-query of the run of the queue, with a worker that
executes both jobs against a switch that answers. -/

namespace Demo

/-- The command templates of the run. -/
def templatesText : String :=
  "\x7b\"single_arp_query\":\"display arp $ip\",\"arp_release\":\"undo arp $ip\"\x7d"

/-- The parser rules of the run. -/
def rulesText : String :=
  "\x7b\"arp_entry_regex\":\"(?P<ip>[0-9.]+) (?P<type>[a-z]+)\"," ++
    "\"static_type_values\":[\"static\"],\"missing_patterns\":[\"none\"]\x7d"

/-- The library on the texts of this run. -/
def python : Python where
  loads s :=
    if s = "\x7b\x7d" then .ok (.obj [])
    else if s = "[]" then .ok (.arr [])
    else if s = templatesText then
      .ok (.obj [("single_arp_query", .str "display arp $ip"), ("arp_release", .str "undo arp $ip")])
    else if s = rulesText then
      .ok (.obj [("arp_entry_regex", .str "(?P<ip>[0-9.]+) (?P<type>[a-z]+)"),
        ("static_type_values", .arr [.str "static"]), ("missing_patterns", .arr [.str "none"])])
    else .error { name := "JSONDecodeError" }
  search pattern output := some (pattern = output)
  finditer _ output :=
    some (if output = "10.2.1.7 static" then [[("ip", some "10.2.1.7"), ("type", some "static")]]
      else [])
  lower s := s
  strip s := s
  int
    | .int n => .ok n
    | _ => .error { name := "TypeError" }
  float _ := .error { name := "TypeError" }
  str _ := ""
  nonzero _ := true
  decrypt _ := .ok "secret"


/-- The credential `0`, the profile `1`, the switch `2` and the network `3`. -/
def equipment : List NewAsset :=
  [⟨.credentials, "credential.create", "test", cells [(.isActive, .bool true),
      (.username, .text "operator"), (.encryptedPassword, .text "v1:AAAA")]⟩,
    ⟨.commandProfiles, "profile.create", "test", cells [(.isActive, .bool true),
      (.loginPromptPatterns, .json "\x7b\x7d"), (.promptPatterns, .json "\x7b\x7d"),
      (.paginationRules, .json "\x7b\x7d"), (.successPatterns, .json "[]"),
      (.errorPatterns, .json "[]"), (.commandTemplates, .json templatesText),
      (.parserRules, .json rulesText)]⟩,
    ⟨.switches, "switch.create", "test", cells [(.isEnabled, .bool true),
      (.credentialId, .ref 0), (.commandProfileId, .ref 1), (.managementIp, .text "10.2.0.2"),
      (.vendor, .text "h3c"), (.protocol, .text "ssh")]⟩,
    ⟨.networks, "network.create", "10.2.0.0/16", cells [(.isEnabled, .bool true),
      (.isValidated, .bool true), (.switchId, .ref 2),
      (.cidr, .cidr (.v4 0x0A020000#32 16))]⟩]

/-- What can be done is done. -/
def does (a : Act) (w : World python) : World python := (w.step platform a).getD w

/-- Advance `t` until the fuel is spent. -/
def advances (t : ℕ) : ℕ → World python → World python
  | 0, w => w
  | n + 1, w =>
      match w.step platform (.store (.advance t)) with
      | some w' => advances t n w'
      | none => w

/-- A transaction runs from its begin at `now` to its end. -/
def runs (t : ℕ) (now : Instant) (w : World python) : World python :=
  advances t 40 (does (.store (.begin t now)) w)

/-- A request of the API. -/
def asks (t : ℕ) (op : Op) (now : Instant) (w : World python) : World python :=
  runs t now (does (.store (.request t op)) w)

/-- Worker 0 sweeps and claims. -/
def claims (t : ℕ) (now : Instant) (w : World python) : World python :=
  does (.claimed 0) (runs (t + 1) now (does (.claim 0 (t + 1))
    (does (.swept 0) (runs t now (does (.sweep 0 t) w)))))

/-- The executor makes a transaction. -/
def saves (t : ℕ) (now : Instant) (w : World python) : World python :=
  does (.reply 0) (runs t now (does (.call 0 t) w))

/-- The executor makes a call that is answered. -/
def hears (text : String) (w : World python) : World python :=
  does (.answer 0 (.ok text)) (does (.call 0 0) w)

/-- The equipment is there, and the pre-query is about to be inserted. -/
def inserting : World python :=
  advances 1 6 (does (.store (.begin 1 1)) (does (.store (.request 1
    (.prepare admin ⟨"10.2.1.7", "other", false, .empty⟩)))
      (asks 0 (.createAssets admin equipment) 0 (World.start python))))

/-- The pre-query `4` is inserted. -/
def inserted : World python := does (.store (.advance 1)) inserting

/-- Up to the moment at which the pre-query waits for its confirmation. -/
def queried : World python :=
  let w := claims 2 2 (does (.start 0) inserted)
  let w := hears "" (saves 4 3 w)
  let w := hears "10.2.1.7 static" (saves 5 4 w)
  let w := saves 7 6 (saves 6 5 w)
  does (.finish 0) (hears "" (hears "" w))

/-- The release `10`, up to the entry into its command. -/
def commanded : World python :=
  let w := claims 9 8 (asks 8 (.confirm admin ⟨.canonical 4, false⟩) 7 queried)
  let w := hears "" (saves 11 9 w)
  let w := hears "10.2.1.7 static" (saves 12 10 w)
  let w := saves 14 12 (saves 13 11 w)
  does (.call 0 0) w

/-- The release, up to the classification of its outputs. -/
def concluded : World python :=
  let w := saves 15 13 (does (.answer 0 (.ok "ok")) commanded)
  saves 17 15 (saves 16 14 (hears "none" w))

section Steps

variable (w : World python)

theorem does_steps (a : Act) : World.Steps platform w (does a w) := by
  cases hs : w.step platform a with
  | none => rw [does, hs]; exact .refl
  | some w' => rw [does, hs]; exact .single ⟨a, hs⟩

theorem advances_steps (t n : ℕ) : World.Steps platform w (advances t n w) := by
  induction n generalizing w with
  | zero => exact .refl
  | succ n ih =>
      rw [advances]
      split
      · next w' hs => exact .head ⟨_, hs⟩ (ih w')
      · exact .refl

theorem runs_steps (t : ℕ) (now : Instant) : World.Steps platform w (runs t now w) :=
  (does_steps w _).trans (advances_steps _ t 40)

theorem asks_steps (t : ℕ) (op : Op) (now : Instant) :
    World.Steps platform w (asks t op now w) :=
  (does_steps w _).trans (runs_steps _ t now)

theorem claims_steps (t : ℕ) (now : Instant) : World.Steps platform w (claims t now w) :=
  (does_steps w _).trans ((runs_steps _ t now).trans ((does_steps _ _).trans
    ((does_steps _ _).trans ((runs_steps _ (t + 1) now).trans (does_steps _ _)))))

theorem saves_steps (t : ℕ) (now : Instant) : World.Steps platform w (saves t now w) :=
  (does_steps w _).trans ((runs_steps _ t now).trans (does_steps _ _))

theorem hears_steps (text : String) : World.Steps platform w (hears text w) :=
  (does_steps w _).trans (does_steps _ _)

end Steps

theorem inserting_reachable : inserting.Reachable platform :=
  (asks_steps _ 0 _ 0).trans ((does_steps _ _).trans ((does_steps _ _).trans
    (advances_steps _ 1 _)))

theorem queried_steps : World.Steps platform inserted queried :=
  (does_steps _ _).trans ((claims_steps _ _ _).trans ((saves_steps _ _ _).trans
    ((hears_steps _ _).trans ((saves_steps _ _ _).trans ((hears_steps _ _).trans
      ((saves_steps _ _ _).trans ((saves_steps _ _ _).trans ((hears_steps _ _).trans
        ((hears_steps _ _).trans (does_steps _ _))))))))))

theorem commanded_steps : World.Steps platform queried commanded :=
  (asks_steps _ _ _ _).trans ((claims_steps _ _ _).trans ((saves_steps _ _ _).trans
    ((hears_steps _ _).trans ((saves_steps _ _ _).trans ((hears_steps _ _).trans
      ((saves_steps _ _ _).trans ((saves_steps _ _ _).trans (does_steps _ _))))))))

theorem concluded_steps : World.Steps platform commanded concluded :=
  (does_steps _ _).trans ((saves_steps _ _ _).trans ((hears_steps _ _).trans
    ((saves_steps _ _ _).trans (saves_steps _ _ _))))

theorem commanded_reachable : commanded.Reachable platform :=
  inserting_reachable.trans ((does_steps _ _).trans (queried_steps.trans commanded_steps))

theorem concluded_reachable : concluded.Reachable platform :=
  commanded_reachable.trans concluded_steps

end Demo

/-- In the concrete run the command of the release is entered once. -/
theorem Demo.commanded_once : releases (Demo.commanded.journal 10) = 1 ∧
    ∀ id, releases (Demo.commanded.journal id) ≤ 1 :=
  ⟨by decide +kernel, Demo.commanded_reachable.fenced_commands.1⟩

/-- In the concrete run the release succeeds, and so its outputs classify. -/
theorem Demo.concluded_classified : ∃ j, Demo.concluded.queue.db.job? 10 = some j ∧
    j.status = .succeeded ∧ ∃ c, Classifies (Demo.concluded.journal 10) c ∧
      c.status = .succeeded := by
  have hentered : Entered (Demo.concluded.journal 10) := releases_pos.mp (by decide +kernel)
  have hstatus : (Demo.concluded.queue.db.job? 10).any (·.status = .succeeded) := by
    decide +kernel
  obtain ⟨j, hj, -, hend, -⟩ := Demo.concluded_reachable.command_outcome hentered
  have hs : j.status = .succeeded := by simpa [hj] using hstatus
  rw [hs] at hend
  rcases hend with h | h | ⟨-, hc⟩
  · cases h
  · cases h
  · exact ⟨j, hj, hs, hc⟩

end BindPlane
