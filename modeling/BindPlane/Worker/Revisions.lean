import BindPlane.Worker.Commands

/-!
# Which revision of the equipment a session uses

A session is opened on a row of `load_dependencies` whose versions are the pinned ones, and a
version determines the content.  So whatever is edited meanwhile, the sessions of a release
and of its pre-query use the rows of the switch and of the profile as they stood when the
pre-query was inserted.

* `Equipment` is what of a dependency row is not the credential's, and
  `Session.same_of_equipment` says how much of a session it determines.
* `Steps.session_rows` finds the rows: the load came after the insertion, so it saw no
  earlier state of them, and at the pinned versions no later one.
-/

namespace BindPlane

open ReadCommitted Coroutine Journal

variable {py : Python}

/-- The columns of a dependency row that come from the switch and the profile.

The credentials of a switch may be renewed between the preparation and the release, and that is as
it should be: the password is not part of what an operator has confirmed.  Everything else that
determines a session is. -/
structure Equipment where
  managementIp : Cell
  vendor : Cell
  protocol : Cell
  port : Cell
  loginPromptPatterns : Cell
  commandTemplates : Cell
  promptPatterns : Cell
  paginationRules : Cell
  successPatterns : Cell
  errorPatterns : Cell
  parserRules : Cell
  deriving DecidableEq, Repr

/-- What a switch row and a profile row hold. -/
def Equipment.ofRows (switch profile : Asset) : Equipment where
  managementIp := switch.cell .managementIp
  vendor := switch.cell .vendor
  protocol := switch.cell .protocol
  port := switch.cell .port
  loginPromptPatterns := profile.cell .loginPromptPatterns
  commandTemplates := profile.cell .commandTemplates
  promptPatterns := profile.cell .promptPatterns
  paginationRules := profile.cell .paginationRules
  successPatterns := profile.cell .successPatterns
  errorPatterns := profile.cell .errorPatterns
  parserRules := profile.cell .parserRules

/-- What a dependency row holds. -/
def Dependencies.equipment (dep : Dependencies) : Equipment :=
  ⟨dep.managementIp, dep.vendor, dep.protocol, dep.port, dep.loginPromptPatterns,
    dep.commandTemplates, dep.promptPatterns, dep.paginationRules, dep.successPatterns,
    dep.errorPatterns, dep.parserRules⟩

theorem Joined.equipment_dependencies (r : Joined) :
    r.dependencies.equipment = .ofRows r.switch r.profile := rfl

/-! ## What the equipment determines -/

/-- The settings without the credential. -/
def Settings.withoutCredential (s : Settings) : Settings :=
  { s with username := "", password := "", secret := none }

/-- Another credential gives the same settings, but for the credential. -/
theorem buildConnectionSettings_credential {managementIp username : String}
    {password secret : Option String} {profile : Profile} {s : Settings}
    (h : buildConnectionSettings py managementIp username password secret profile = .ok s) :
    buildConnectionSettings py managementIp "" (some "") none profile =
      .ok s.withoutCredential := by
  simp only [buildConnectionSettings, bind_eq_ok] at h ⊢
  obtain ⟨login, h₁, _, h₂, prompts, h₃, _, h₄, o, h₅, options, h₆, before, h₇, after, h₈,
    passphrase, h₉, h⟩ := h
  refine ⟨login, h₁, _, h₂, prompts, h₃, _, h₄, o, h₅, options, h₆, before, h₇, after, h₈,
    passphrase, h₉, ?_⟩
  split at h
  · cases h
  · next hnone =>
      rw [if_neg hnone]
      simp only [bind_eq_ok] at h ⊢
      obtain ⟨port, hport, kind, hkind, _, _, timeout, ht, conn, hc, auth, ha, banner, hb,
        delay, hd, user, huser, pass, hpass, expect, hexpect, h⟩ := h
      cases h
      exact ⟨port, hport, kind, hkind, "", rfl, timeout, ht, conn, hc, auth, ha, banner,
        hb, delay, hd, user, huser, pass, hpass, expect, hexpect, rfl⟩

/-- The same equipment is decoded to the same profile. -/
theorem decodeProfile_congr {dep dep' : Dependencies} (h : dep.equipment = dep'.equipment) :
    decodeProfile py dep = decodeProfile py dep' := by
  simp only [Dependencies.equipment, Equipment.mk.injEq] at h
  obtain ⟨-, -, -, -, hlogin, htemplates, hprompts, hpaging, hsuccess, herror, hrules⟩ := h
  simp only [decodeProfile, hlogin, htemplates, hprompts, hpaging, hsuccess, herror, hrules]

/-- The same equipment gives the same transport. -/
theorem resolveTransport_congr {dep dep' : Dependencies} (h : dep.equipment = dep'.equipment)
    (promptPatterns : Json) :
    resolveTransport py dep promptPatterns = resolveTransport py dep' promptPatterns := by
  simp only [Dependencies.equipment, Equipment.mk.injEq] at h
  obtain ⟨-, hvendor, hprotocol, hport, -⟩ := h
  simp only [resolveTransport, hvendor, hprotocol, hport]

/-- **The equipment determines the settings**, but for the credential. -/
theorem connectionSettings_congr {dep dep' : Dependencies} {profile : Profile} {s s' : Settings}
    (h : dep.equipment = dep'.equipment) (hs : connectionSettings py dep profile = .ok s)
    (hs' : connectionSettings py dep' profile = .ok s') :
    s.withoutCredential = s'.withoutCredential := by
  simp only [connectionSettings, bind_eq_ok] at hs hs'
  obtain ⟨password, -, secret, -, t, ht, ⟨kind, port⟩, htransport, hs⟩ := hs
  obtain ⟨password', -, secret', -, t', ht', ⟨kind', port'⟩, htransport', hs'⟩ := hs'
  have hip : dep.managementIp = dep'.managementIp := congrArg Equipment.managementIp h
  rw [resolveTransport_congr h, htransport'] at htransport
  cases htransport
  rw [hip] at ht
  have hsame : t.withoutCredential = t'.withoutCredential := by
    have hbuild := buildConnectionSettings_credential ht
    rw [buildConnectionSettings_credential ht'] at hbuild
    exact (Except.ok.inj hbuild).symm
  cases hs
  cases hs'
  exact congrArg (fun u : Settings => { u with deviceType := kind, port := port }) hsame

/-- **The equipment determines a session**, but for the credential. -/
theorem Session.same_of_equipment {session session' : Session py}
    (h : session.dep.equipment = session'.dep.equipment) (hip : session.ip = session'.ip) :
    session.profile = session'.profile ∧ session.commands = session'.commands ∧
      session.settings.withoutCredential = session'.settings.withoutCredential := by
  have hprofile : session.profile = session'.profile := by
    have := session.profile_eq
    rw [decodeProfile_congr h, session'.profile_eq] at this
    exact (Except.ok.inj this).symm
  refine ⟨hprofile, ?_, ?_⟩
  · have := session.commands_eq
    rw [hprofile, hip, session'.commands_eq] at this
    exact (Except.ok.inj this).symm
  · have := session.settings_eq
    rw [hprofile] at this
    exact connectionSettings_congr h this session'.settings_eq

/-! ## Whose rows they are -/

namespace World

variable {P : Platform} {w₀ w₁ w : World py}

/-- A job that is not in the store has no journal yet, and neither has it right behind its
insertion. -/
theorem Moved.journal_of_new (h : w₀.Reachable P) (hmoved : Moved P w₀ w₁) {id : Id}
    (hnone : w₀.queue.db.job? id = none) : w₁.journal id = [] := by
  have hunclaimed : ∀ {t job}, w₀.queue.ClaimedBy t job → job.id ≠ id := by
    rintro t job hclaimed rfl
    obtain ⟨j, hj, -⟩ := h.queue.hasStarted hclaimed
    rw [hnone] at hj
    cases hj
  refine List.eq_nil_iff_forall_not_mem.mpr fun e hm => ?_
  rcases hmoved.entry hm with hold | ⟨i, t, job, q, k, waiting, keepalive, hw, hid, -⟩
  · obtain ⟨t, job, hclaimed, hid, -⟩ := h.kept.owned (List.ne_nil_of_mem hold)
    exact hunclaimed hclaimed hid
  · exact hunclaimed (h.kept.claimed hw) hid

/-- **The rows of a session.**  A session of a job whose journal was still empty when the
store held `a` and `b`, at versions no lower than the pinned ones, uses `a` and `b`.

The load has seen a state of the rows that is no earlier than that of the insertion, and since the
versions are the pinned ones, it is no later either. -/
theorem Steps.session_rows (h : w₁.Reachable P) (hs : Steps P w₁ w) {id : Id} {j : Job}
    {session : Session py} (hnil : w₁.journal id = []) (hj : w.queue.db.job? id = some j)
    (hm : .called (Call.connect session) ∈ w.journal id) {a b : Asset}
    (ha : w₁.queue.db.asset? .switches j.pins.switchId = some a)
    (hb : w₁.queue.db.asset? .commandProfiles j.pins.commandProfileId = some b)
    (hva : j.pins.switchVersion ≤ a.version) (hvb : j.pins.commandProfileVersion ≤ b.version) :
    session.dep.equipment = .ofRows a b := by
  have hreach : w.Reachable P := h.trans hs
  obtain ⟨t, job, j', -, rfl, hallowed, hj', -, hdesc⟩ := hreach.owner (List.ne_nil_of_mem hm)
  rw [hj] at hj'
  cases hj'
  obtain ⟨hloaded, hok⟩ := opened_loaded hallowed hm
  obtain ⟨t', now, hcommitted, habsent⟩ := hs.heard_since h hnil hloaded
  obtain ⟨r, hr, hfollows⟩ := h.queue.loaded_after (Steps.queue hs) habsent
    (hdesc.switchId ▸ ha) (hdesc.commandProfileId ▸ hb) ⟨now, hcommitted⟩
  obtain ⟨-, hsv, hpv⟩ := dependencyProblem_ok hok
  rw [hr] at hsv hpv
  have hsv : r.switch.version = j.pins.switchVersion := hsv.trans hdesc.switchVersion
  have hpv : r.profile.version = j.pins.commandProfileVersion :=
    hpv.trans hdesc.commandProfileVersion
  -- no earlier revision, and at the pinned version no later one
  have hswitch : a = r.switch :=
    hfollows.switch.2 (le_antisymm hfollows.switch.1 (hsv ▸ hva))
  have hprofile : b = r.profile :=
    hfollows.profile.2 (le_antisymm hfollows.profile.1 (hpv ▸ hvb))
  rw [hr, hswitch, hprofile]
  exact r.equipment_dependencies

/-- An execution that has stopped its heartbeat without a session, and lost no checkpoint,
has ended its job as failed. -/
theorem Reachable.ended_failed (h : w.Reachable P) {id : Id}
    (hstop : .called Call.stopHeartbeat ∈ w.journal id) (hclosed : ¬Opened (w.journal id))
    (hheard : ¬Lost (w.journal id)) :
    ∃ j, w.queue.db.job? id = some j ∧ j.status = .failed := by
  obtain ⟨t, job, j, -, rfl, hallowed, -⟩ := h.owner (List.ne_nil_of_mem hstop)
  rcases stopped_concluded hallowed hstop with ⟨c, r, hc, hm, hend⟩ | hlost
  · obtain ⟨t', now, ht⟩ := h.heard hm
    obtain ⟨j', hj', hstatus⟩ := h.queue.saved_final ht hc
    exact ⟨j', hj', hstatus.trans (hend.resolve_right fun hopen => hclosed hopen.1)⟩
  · exact absurd hlost hheard

/-- The target of a session is the job's. -/
theorem Reachable.session_target (h : w.Reachable P) {id : Id} {j : Job} {session : Session py}
    (hj : w.queue.db.job? id = some j) (hm : .called (Call.connect session) ∈ w.journal id) :
    session.ip = j.targetIp := by
  obtain ⟨t, job, j', -, -, hallowed, hj', -, hdesc⟩ := h.owner (List.ne_nil_of_mem hm)
  rw [hj] at hj'
  cases hj'
  exact (opened_target hallowed hm).trans hdesc.targetIp

/-- A release is not in the store before its preparation. -/
theorem Reachable.release_new (h : w₀.Reachable P) (hs : Steps P w₀ w) {p id : Id} {j : Job}
    (hnone : w₀.queue.db.job? p = none) (hj : w.queue.db.job? id = some j)
    (hp : j.preparationJobId = some p) : w₀.queue.db.job? id = none := by
  cases hj₀ : w₀.queue.db.job? id with
  | none => rfl
  | some j₀ =>
      obtain ⟨j', hj', ho⟩ := h.queue.origin (Steps.queue hs) hj₀
      rw [hj] at hj'
      cases hj'
      obtain ⟨prep, hprep, -⟩ := h.queue.confirmed.authorized id j₀ p hj₀
        ((Job.preparationJobId_of_origin ho).symm.trans hp)
      rw [hnone] at hprep
      cases hprep

/-- **The revision a release runs with.**  Take the step that inserts a pre-query and any run
behind it.  The switch and the profile it is pinned to are in the store then; every session
of its release uses their rows as they stand at that moment, and agrees with every session of
the pre-query itself in everything but the credential; and an execution of the release that
ends without a session, and loses no checkpoint, leaves it failed.

Nothing locks the switch between the pre-query and the release, and both are claimed by whoever
comes first.  What carries the pinned revision through is that the row of a job keeps the two
versions, that a version of an asset determines its columns, and that a session is opened on a row
that was read at these versions.  An asset that has been edited meanwhile is read at another
version, and the execution ends before it opens a session. -/
theorem Reachable.pinned_revision (h : w₀.Reachable P) {a : Act} (ha : w₀.step P a = some w₁)
    (hs : Steps P w₁ w) {p id : Id} {prep j : Job} (hnone : w₀.queue.db.job? p = none)
    (hprep : w₁.queue.db.job? p = some prep) (hj : w.queue.db.job? id = some j)
    (hp : j.preparationJobId = some p) :
    ∃ switch profile, w₁.queue.db.asset? .switches prep.pins.switchId = some switch ∧
      w₁.queue.db.asset? .commandProfiles prep.pins.commandProfileId = some profile ∧
      (∀ session, .called (Call.connect session) ∈ w.journal id →
        session.dep.equipment = .ofRows switch profile ∧
        ∀ session', .called (Call.connect session') ∈ w.journal p →
          session'.dep.equipment = session.dep.equipment ∧
          session'.profile = session.profile ∧ session'.commands = session.commands ∧
          session'.settings.withoutCredential = session.settings.withoutCredential) ∧
      (.called Call.stopHeartbeat ∈ w.journal id → ¬Opened (w.journal id) →
        ¬Lost (w.journal id) → j.status = .failed) := by
  have h₁ : w₁.Reachable P := h.tail ⟨a, ha⟩
  have hreach : w.Reachable P := h₁.trans hs
  have hmoved := step_moved ha
  have hsteps : Steps P w₀ w := .head ⟨a, ha⟩ hs
  -- neither job has a journal when the pre-query is inserted
  have hnilp : w₁.journal p = [] := hmoved.journal_of_new h hnone
  have hnil : w₁.journal id = [] := hmoved.journal_of_new h (h.release_new hsteps hnone hj hp)
  -- both are pinned to a revision that the tables hold, or held, then
  obtain ⟨prep', hprep', hauth⟩ := hreach.queue.confirmed.authorized id j p hj hp
  obtain ⟨prep'', hprep'', ho⟩ := h₁.queue.origin (Steps.queue hs) hprep
  rw [hprep'] at hprep''
  cases hprep''
  have hpins' : prep'.pins = prep.pins := Job.pins_of_origin ho
  have hpins : j.pins = prep.pins := hauth.pins.trans hpins'
  obtain ⟨r, hr, -, hseen, hseen'⟩ := h₁.queue.pinned p prep hprep
  obtain ⟨switch, hswitch, hvs⟩ := hseen
  obtain ⟨profile, hprofile, hvp⟩ := hseen'
  have hswitch : w₁.queue.db.asset? .switches prep.pins.switchId = some switch := by
    rw [hr]
    exact hswitch
  have hprofile : w₁.queue.db.asset? .commandProfiles prep.pins.commandProfileId =
      some profile := by
    rw [hr]
    exact hprofile
  have hvs : prep.pins.switchVersion ≤ switch.version := hr ▸ hvs.1
  have hvp : prep.pins.commandProfileVersion ≤ profile.version := hr ▸ hvp.1
  refine ⟨switch, profile, hswitch, hprofile, fun session hm => ?_, fun hstop hclosed hheard => ?_⟩
  · have hrows : session.dep.equipment = .ofRows switch profile :=
      hs.session_rows h₁ hnil hj hm (hpins ▸ hswitch) (hpins ▸ hprofile) (hpins ▸ hvs)
        (hpins ▸ hvp)
    refine ⟨hrows, fun session' hm' => ?_⟩
    have hrows' : session'.dep.equipment = .ofRows switch profile :=
      hs.session_rows h₁ hnilp hprep' hm' (hpins' ▸ hswitch) (hpins' ▸ hprofile)
        (hpins' ▸ hvs) (hpins' ▸ hvp)
    have hsame := hrows'.trans hrows.symm
    have hip : session'.ip = session.ip := by
      rw [hreach.session_target hprep' hm', hreach.session_target hj hm, hauth.targetIp]
    exact ⟨hsame, Session.same_of_equipment hsame hip⟩
  · obtain ⟨j', hj', hfailed⟩ := hreach.ended_failed hstop hclosed hheard
    rw [hj] at hj'
    cases hj'
    exact hfailed

end World

/-- Whether an entry opens a session. -/
def Demo.opens : Event (@Call.Result Demo.python) Exc → Bool
  | .called (.connect _) => true
  | _ => false

/-- In the concrete run the release `10` opens a session, on the rows that were in the tables
when the pre-query `4` was inserted. -/
theorem Demo.commanded_revision : ∃ session switch profile,
    .called (Call.connect session) ∈ Demo.commanded.journal 10 ∧
    Demo.inserted.queue.db.asset? .switches 2 = some switch ∧
    Demo.inserted.queue.db.asset? .commandProfiles 1 = some profile ∧
    session.dep.equipment = .ofRows switch profile := by
  have hstep : Demo.inserting.step Demo.platform (.store (.advance 1)) = some Demo.inserted := by
    have hsome : (Demo.inserting.step Demo.platform (.store (.advance 1))).isSome := by
      decide +kernel
    obtain ⟨w, hw⟩ := Option.isSome_iff_exists.mp hsome
    rw [Demo.inserted, Demo.does, hw, Option.getD_some]
  have hnone : Demo.inserting.queue.db.job? 4 = none := by decide +kernel
  have hprep : (Demo.inserted.queue.db.job? 4).any
      fun j => j.pins.switchId = 2 && j.pins.commandProfileId = 1 := by decide +kernel
  have hrelease : (Demo.commanded.queue.db.job? 10).any (·.preparationJobId = some 4) := by
    decide +kernel
  have hopened : (Demo.commanded.journal 10).any Demo.opens := by decide +kernel
  obtain ⟨prep, hprep, hpins⟩ := (Option.any_eq_true _ _).mp hprep
  obtain ⟨j, hj, hp⟩ := (Option.any_eq_true _ _).mp hrelease
  obtain ⟨hswitchId, hprofileId⟩ : prep.pins.switchId = 2 ∧ prep.pins.commandProfileId = 1 := by
    simpa using hpins
  obtain ⟨switch, profile, hswitch, hprofile, hsession, -⟩ :=
    Demo.inserting_reachable.pinned_revision hstep
      (Demo.queried_steps.trans Demo.commanded_steps) hnone hprep hj (by simpa using hp)
  obtain ⟨e, hm, he⟩ := List.any_eq_true.mp hopened
  cases e with
  | returned q r => cases he
  | called q =>
      cases q with
      | connect session =>
          exact ⟨session, switch, profile, hm, hswitchId ▸ hswitch, hprofileId ▸ hprofile,
            (hsession session hm).1⟩
      | _ => cases he

end BindPlane
