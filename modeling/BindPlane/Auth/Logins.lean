import BindPlane.Auth.Codes
import BindPlane.Auth.Resets

/-!
# Sessions and the accounts behind them

A session is opened for the version of an account that is read once, and is looked up by two
transactions: one that resolves it, and one that reads the account behind that.  Nothing holds the
account in between, nor between the login and the row of the session.

What `current` lets through is nevertheless the account that logged in, with the password, the
address and the permissions that it had then (`session_authorised`); and a session whose account has
another version is refused for good (`sessions_end`).
-/

namespace BindPlane.Auth

open ReadCommitted
open Mail (Bytes)

variable {box : Sealer} {now : Instant} {K : Set (Resource Key)} {d d' : Db} {op : Op} {r : Reply}
  {s s' : Accounts} {userId version : ℕ} {user : User} {digest : Bytes}

/-! ## What the transactions have seen -/

/-- Nothing may be returned that has not been seen. -/
private theorem good_within {W : Db → Prop} {v : View Db Key} (hinv : (contract box).inv v.db v.seq)
    (hW : W v.db) (hheld : v.held = ∅) : ((contract box).within W).Good v :=
  ⟨⟨hinv, hW⟩, by simp [hheld]⟩

/-- What is refused has no reply. -/
private theorem error_elim {e : Failure} {p : Prop} (h : (.error e : Except Failure Reply) = .ok r) :
    p := by
  cases h

/-- The account that a session is created for. -/
def Db.HasVersion (d : Db) (userId version : ℕ) : Prop :=
  ∃ u, d.users.get? userId = some u ∧ u.enabled = true ∧ u.authVersion = version

theorem createSession_saw {idle absolute : ℕ} {clockFirst : Bool} (h : Accounts.Reachable box s)
    (hs : Sys.Steps (body box) s s') {t : ℕ} (hidle : s.Idle t) (ht : s'.txns t =
      .committed (.createSession digest userId version idle absolute clockFirst) now r) :
    ∃ s₁, Sys.Steps (body box) s s₁ ∧ Sys.Steps (body box) s₁ s' ∧
      (∃ w p, s₁.txns t = .active
        (.createSession digest userId version idle absolute clockFirst) now w p) ∧
      s₁.db.HasVersion userId version := by
  refine h.sound.moment body_kept (P := fun d => d.HasVersion userId version)
    (fun v hinv hnone hpending hheld => ?_) hs hidle ht
  unfold body started
  simp only [program, createSession, shareAccount, Tx.bind_eq, Tx.bind_assoc]
  refine (good_within hinv hnone hheld).snapshot fun v₁ h₁ hv₁ => ?_
  refine Tx.Ensures.require_bind (fun _ => ?_) fun _ _ _ => error_elim
  refine Tx.Ensures.require_bind (fun _ => ?_) fun _ _ _ => error_elim
  refine hv₁.snapshot fun v₂ h₂ hv₂ => ?_
  refine Tx.Ensures.expect_bind (fun u hu => ?_) fun _ _ _ => error_elim
  obtain ⟨hrow, hp⟩ := Option.filter_eq_some_iff.mp hu
  rw [snapshot_eq (h₂.pending.trans (h₁.pending.trans hpending))] at hrow
  rw [Bool.and_eq_true, decide_eq_true_eq] at hp
  exact absurd ⟨u, hrow, hp.1, hp.2⟩ hv₂.within

theorem findPublicAccount_saw (h : Accounts.Reachable box s) (hs : Sys.Steps (body box) s s')
    {t : ℕ} (hidle : s.Idle t)
    (ht : s'.txns t = .committed (.findPublicAccount userId) now (.account userId user)) :
    ∃ s₁, Sys.Steps (body box) s s₁ ∧ Sys.Steps (body box) s₁ s' ∧
      (∃ w p, s₁.txns t = .active (.findPublicAccount userId) now w p) ∧
        s₁.db.findPublicAccount userId = some user := by
  refine h.sound.moment body_kept (P := fun d => d.findPublicAccount userId = some user)
    (fun v hinv hnone hpending hheld => ?_) hs hidle ht
  unfold body started
  simp only [program, publicAccount, Tx.bind_eq, Tx.bind_assoc]
  refine (good_within hinv hnone hheld).snapshot fun v₁ h₁ hv₁ => ?_
  refine Tx.Ensures.require_bind (fun _ => ?_) fun _ _ _ => error_elim
  refine hv₁.snapshot fun v₂ h₂ hv₂ => ?_
  refine Tx.Ensures.expect_bind (fun u hu => ?_) fun _ _ _ => error_elim
  rw [snapshot_eq (h₂.pending.trans (h₁.pending.trans hpending))] at hu
  intro v₃ _ hreply
  cases hreply
  exact absurd hu hv₂.within

theorem resolve_saw {resolved : Resolved} (h : Accounts.Reachable box s)
    (hs : Sys.Steps (body box) s s') {t : ℕ} (hidle : s.Idle t)
    (ht : s'.txns t = .committed (.resolve digest) now (.resolved resolved)) :
    ∃ s₁, Sys.Steps (body box) s s₁ ∧ Sys.Steps (body box) s₁ s' ∧
      (∃ w p, s₁.txns t = .active (.resolve digest) now w p) ∧ now ≤ s₁.db.clock ∧
        s₁.db.resolve digest = .ok resolved := by
  refine h.sound.moment body_kept (P := fun d => now ≤ d.clock ∧ d.resolve digest = .ok resolved)
    (fun v hinv hnone hpending hheld => ?_) hs hidle ht
  unfold body started
  simp only [program, resolve, Tx.bind_eq, Tx.bind_assoc]
  refine (good_within hinv hnone hheld).snapshot fun v₁ h₁ hv₁ => ?_
  refine Tx.Ensures.require_bind (fun hclock => ?_) fun _ _ _ => error_elim
  refine hv₁.snapshot fun v₂ h₂ hv₂ => ?_
  have hsnap₁ := snapshot_eq (h₁.pending.trans hpending)
  have hsnap := snapshot_eq (h₂.pending.trans (h₁.pending.trans hpending))
  rw [hsnap₁, decide_eq_true_eq] at hclock
  have hnow : now ≤ v₂.db.clock := hclock.symm.le.trans (others h₂.of_within.since).clock_le
  cases hresolve : v₂.snapshot.resolve digest with
  | error e => exact fun _ _ => error_elim
  | ok answer =>
      intro v₃ _ hreply
      cases hreply
      rw [hsnap] at hresolve
      exact absurd ⟨hnow, hresolve⟩ hv₂.within

/-! ## Where a session is from -/

/-- **What a commit makes of a session**: where one is from that is there behind it.

A session is never given to somebody else: its token, its account and its version are those of its
creation, and what changes are its times and whether it is there. -/
inductive Session.From (d : Db) (now : Instant) (op : Op) (id : ℕ) : Session → Prop
  | kept (x : Session) (hrow : d.sessions.get? id = some x) : From d now op id x
  | revoked (x : Session) (hrow : d.sessions.get? id = some x) : From d now op id x.revoke
  | touched (x : Session) (t : Instant) (idle : ℕ) (hrow : d.sessions.get? id = some x)
      (hop : op = .resolveAndTouch x.tokenDigest idle) (hlive : x.live t = true) (hidle : 0 < idle)
      (ht : Moment now d t) : From d now op id (x.touch t idle)
  | created (tokenDigest userId version idle absolute clockFirst) (t : Instant)
      (hop : op = .createSession tokenDigest userId version idle absolute clockFirst)
      (hidle : 0 < idle) (habsolute : 0 < absolute) (ht : Moment now d t) :
      From d now op id (newSession tokenDigest userId version idle absolute t)

theorem Effect.session_from (h : Effect box now K d op d' r) {id : ℕ} {x : Session}
    (hx : d'.sessions.get? id = some x) : Session.From d now op id x := by
  cases h with
  | sessionCreated _ _ _ _ _ _ t _ _ hidle habsolute ht =>
      rcases insert_eq_some hx with hx | ⟨-, rfl⟩
      · exact .kept x hx
      · exact .created _ _ _ _ _ _ t rfl hidle habsolute ht
  | touched _ _ i y t _ hrow hdigest hlive _ hidle ht =>
      obtain ⟨x₀, hx₀, ⟨rfl, -⟩ | ⟨rfl, hi⟩⟩ := updateWhere_eq_some hx
      · exact .kept x hx₀
      · obtain rfl : id = i := List.mem_singleton.mp (List.contains_iff_mem.mp hi)
        obtain rfl := Option.some.inj (hrow.symm.trans hx₀)
        exact .touched _ t _ hx₀ (by rw [hdigest]) hlive hidle ht
  | deactivated =>
      obtain ⟨x₀, hx₀, ⟨rfl, -⟩ | ⟨rfl, -⟩⟩ := updateWhere_eq_some hx
      · exact .kept x hx₀
      · exact .revoked x₀ hx₀
  | deleted => exact .kept x (deleteWhere_eq_some hx).1
  | sessionsDeleted => exact .kept x (deleteWhere_eq_some hx).1
  | sessionsCleaned => exact .kept x (deleteWhere_eq_some hx).1
  | _ => exact .kept x hx

/-- **Every session has been created** for the account and the version that it has, at a moment of a
login, for as long as it may live at most.

A session does not change hands, so that the way back from its row leads to one commit.  Everything
that is known of a session later, whose it is, for which version and how long it may live, was fixed
there. -/
theorem Accounts.Reachable.session_created (h : Accounts.Reachable box s) {id : ℕ} {x : Session}
    (hx : s.db.sessions.get? id = some x) : ∃ t now r idle absolute clockFirst s₁ s₂,
      s.txns t = .committed
        (.createSession x.tokenDigest x.userId x.authVersion idle absolute clockFirst) now r ∧
      s.CommitOf box t
        (.createSession x.tokenDigest x.userId x.authVersion idle absolute clockFirst) now r s₁ s₂ ∧
      Moment now s₁.db x.createdAt ∧ x.absoluteExpiresAt = x.createdAt + absolute := by
  obtain ⟨y, hrun⟩ := h
  induction hrun generalizing x with
  | refl => cases hx
  | @tail s₁ s₂ hrun hstep ih =>
      obtain ⟨a, ha⟩ := hstep
      have hreach : Accounts.Reachable box s₁ := ⟨y, hrun⟩
      have hstays : ∀ {x₀ : Session}, s₁.db.sessions.get? id = some x₀ →
          ∃ t now r idle absolute clockFirst s₃ s₄, s₂.txns t = .committed (.createSession
            x₀.tokenDigest x₀.userId x₀.authVersion idle absolute clockFirst) now r ∧
            s₂.CommitOf box t (.createSession x₀.tokenDigest x₀.userId x₀.authVersion idle absolute
              clockFirst) now r s₃ s₄ ∧ Moment now s₃.db x₀.createdAt ∧
                x₀.absoluteExpiresAt = x₀.createdAt + absolute := by
        intro x₀ hx₀
        obtain ⟨t, now, r, idle, absolute, clockFirst, s₃, s₄, ht, hcommit, hrest⟩ := ih hx₀
        refine ⟨t, now, r, idle, absolute, clockFirst, s₃, s₄, ?_, ?_, hrest⟩
        · exact hreach.sound.committed_stays body_kept (.single ⟨a, ha⟩) ht
        · exact { hcommit with after := hcommit.after.tail ⟨a, ha⟩ }
      cases hreach.sound.outcome ha with
      | quiet hdb _ => exact hstays (hdb ▸ hx)
      | commit op now r w hactive hcommit hcommitted =>
          cases Effect.session_from hcommit hx with
          | kept _ hx₀ => exact hstays hx₀
          | revoked x₀ hx₀ => exact (hstays hx₀ :)
          | touched x₀ t idle hx₀ => exact (hstays hx₀ :)
          | created _ _ _ idle absolute clockFirst t hop _ _ ht =>
              subst hop
              have hnew := (hcommitted _ _ _ _).mpr (Or.inr ⟨rfl, rfl, rfl, rfl⟩)
              have hstep := Sys.step_commits ha hnew fun hold => by cases hactive.symm.trans hold
              exact ⟨a.txn, now, r, idle, absolute, clockFirst, s₁, s₂, hnew,
                ⟨hreach, ⟨w, hactive⟩, hstep ▸ ha, .refl⟩, ht, rfl⟩

/-- Both ways to resolve a session. -/
def Op.resolves (digest : Bytes) : Op → Prop
  | .resolveAndTouch tokenDigest _ | .resolve tokenDigest => tokenDigest = digest
  | _ => False

/-- **A session that is presented** to a transaction that began at `now`: its row, and a moment at
which it was live.

The moment need not be that at which the transaction ends: the clock is read by one of its
statements. -/
structure Session.Presented (d : Db) (now : Instant) (digest : Bytes) (userId version id : ℕ)
    (x : Session) (t : Instant) : Prop where
  row : d.sessions.get? id = some x
  digest : x.tokenDigest = digest
  user : x.userId = userId
  version : x.authVersion = version
  moment : now ≤ t
  live : x.live t = true

theorem Db.resolve_presented (h : d.resolve digest = .ok (some (userId, version)))
    (hnow : now ≤ d.clock) :
    ∃ id x, Session.Presented d now digest userId version id x d.clock := by
  unfold Db.resolve at h
  cases hfound : d.sessionOf digest with
  | none =>
      rw [hfound] at h
      cases h
  | some found =>
      obtain ⟨hrow, hdigest⟩ := Table.find?_eq_some hfound
      rw [hfound] at h
      simp only [Option.bind_some] at h
      split_ifs at h with hlive
      · cases huser : d.users.get? found.2.userId with
        | none =>
            rw [huser] at h
            cases h
        | some u =>
            rw [huser] at h
            simp only [Option.map_some] at h
            split_ifs at h
            · cases h
            · simp only [Except.ok.injEq, Option.some.injEq, Prod.mk.injEq] at h
              exact ⟨found.1, found.2, hrow, of_decide_eq_true hdigest, h.1, h.2, hnow, hlive⟩
      · cases h

theorem Effect.touched_presented {idle : ℕ}
    (h : Effect box now K d (.resolveAndTouch digest idle) d'
      (.resolved (some (userId, version)))) :
    ∃ id x t, Session.Presented d now digest userId version id x t := by
  cases h with
  | read _ _ hop => cases hop
  | touched _ _ id x t _ hrow hdigest hlive _ _ ht =>
      exact ⟨id, x, t, hrow, hdigest, rfl, rfl, ht.1, hlive⟩

/-- Whoever resolves a session has found it. -/
theorem Accounts.Reachable.presented (h : Accounts.Reachable box s)
    (hs : Sys.Steps (body box) s s') {t : ℕ} (hidle : s.Idle t)
    (ht : s'.txns t = .committed op now (.resolved (some (userId, version))))
    (hop : op.resolves digest) : ∃ s₁ id x time, Sys.Steps (body box) s s₁ ∧
      Sys.Steps (body box) s₁ s' ∧ (∀ op now r, s₁.txns t ≠ .committed op now r) ∧
        Session.Presented s₁.db now digest userId version id x time := by
  cases op with
  | resolveAndTouch =>
      obtain rfl : _ = digest := hop
      rcases h.sound.committed body_kept hs ht with hold | ⟨s₁, s₂, hcommit⟩
      · exact absurd hold (hidle.2 _ _ _)
      · obtain ⟨w, hend⟩ := hcommit.ended
        obtain ⟨id, x, time, hx⟩ := Effect.touched_presented hcommit.commits
        refine ⟨s₁, id, x, time, hcommit.before, .head ⟨_, hcommit.step⟩ hcommit.after, ?_, hx⟩
        intro op now r hold
        cases hend.symm.trans hold
  | resolve =>
      obtain rfl : _ = digest := hop
      obtain ⟨s₁, hfirst, hrest, ⟨w, p, hrunning⟩, hnow, hresolve⟩ := resolve_saw h hs hidle ht
      obtain ⟨id, x, hx⟩ := Db.resolve_presented hresolve hnow
      refine ⟨s₁, id, x, _, hfirst, hrest, ?_, hx⟩
      intro op now r hold
      cases hrunning.symm.trans hold
  | _ => exact hop.elim

/-- A session that is resolved has been created. -/
theorem Accounts.Reachable.resolved_created (h : Accounts.Reachable box s) {t : ℕ}
    (ht : s.txns t = .committed op now (.resolved (some (userId, version))))
    (hop : op.resolves digest) : ∃ t now r idle absolute clockFirst, s.txns t =
      .committed (.createSession digest userId version idle absolute clockFirst) now r := by
  obtain ⟨y, hrun⟩ := h
  obtain ⟨s₁, id, x, time, hfirst, hrest, -, hx⟩ :=
    Accounts.Reachable.presented ⟨y, .refl⟩ hrun (Sys.init_idle _ _ _) ht hop
  have h₁ : Accounts.Reachable box s₁ := ⟨y, hfirst⟩
  obtain ⟨t, now, r, idle, absolute, clockFirst, s₂, s₃, hlogin, -⟩ := h₁.session_created hx.row
  rw [hx.digest, hx.user, hx.version] at hlogin
  exact ⟨t, now, r, idle, absolute, clockFirst, h₁.sound.committed_stays body_kept hrest hlogin⟩

/-! ## What a session lets through -/

theorem Db.findPublicAccount_eq_some (h : d.findPublicAccount userId = some user) :
    d.users.get? userId = some user ∧ user.enabled = true :=
  Option.filter_eq_some_iff.mp h

/-- **A login and a moment of it.**  The transaction `login`, which has committed in `s`, is running
in `s₁`, and the account it creates a session for is enabled there and has the version that the
session is given.  `u` is the account at that moment.

The application checks the password before, of an account with some version, and gives the version
to the transaction.  So what has been checked was the password of an account with this version; the
structure names a state, while the login is running, at which the account has it. -/
structure Accounts.LoginAt (box : Sealer) (s s₁ : Accounts) (login : ℕ) (op : Op) (now : Instant)
    (userId version : ℕ) (u : User) : Prop where
  committed : ∃ r, s.txns login = .committed op now r
  running : ∃ w p, s₁.txns login = .active op now w p
  reachable : Accounts.Reachable box s₁
  before : Sys.Steps (body box) s₁ s
  account : s₁.db.users.get? userId = some u
  enabled : u.enabled = true
  version : u.authVersion = version

/-- Every committed login has such a moment. -/
theorem Accounts.Reachable.loginAt {idle absolute : ℕ} {clockFirst : Bool}
    (h : Accounts.Reachable box s) {login : ℕ} (hlogin : s.txns login =
      .committed (.createSession digest userId version idle absolute clockFirst) now r) :
    ∃ s₁ u, s.LoginAt box s₁ login
      (.createSession digest userId version idle absolute clockFirst) now userId version u := by
  obtain ⟨y, hrun⟩ := h
  obtain ⟨s₁, hfirst, hlater, hrunning, u, hu, henabled, hversion⟩ :=
    createSession_saw ⟨y, .refl⟩ hrun (Sys.init_idle _ _ _) hlogin
  exact ⟨s₁, u, ⟨r, hlogin⟩, hrunning, ⟨y, hfirst⟩, hlater, hu, henabled, hversion⟩

/-- **Whoever a session lets through is the account that logged in.**

A session is resolved, and the account is read by a transaction that begins behind that.  If
`current` accepts the two, the session was created by a login.  At a moment `s₁` of that login the
account was enabled and had the version of the session; and at the moment `s₂` at which it was read
it had the password, the address and the roles it had at `s₁`, and might do exactly what it might
then.

Nothing holds the account between the two transactions, nor between the login and the row of the
session.  What carries the result is that the version is compared, and that it pins the account. -/
theorem Accounts.Reachable.session_authorised (h : Accounts.Reachable box s)
    (hs : Sys.Steps (body box) s s') {resolving reading : ℕ} {now' : Instant} {account : User}
    (hresolved : s.txns resolving = .committed op now (.resolved (some (userId, version))))
    (hop : op.resolves digest) (hidle : s.Idle reading)
    (hread : s'.txns reading = .committed (.findPublicAccount userId) now' (.account userId user))
    (hcurrent : current (some (userId, version)) (some user) = some account) :
    ∃ login now₀ idle absolute clockFirst s₁ s₂ u,
      s.LoginAt box s₁ login (.createSession digest userId version idle absolute clockFirst) now₀
        userId version u ∧
      Sys.Steps (body box) s s₂ ∧ Sys.Steps (body box) s₂ s' ∧
      s₂.db.findPublicAccount userId = some account ∧ s₁.db.Pinned s₂.db u account ∧
      ∀ required, (s₂.db.authority userId).has required =
        (s₁.db.authority userId).has required := by
  obtain ⟨login, now₀, r₀, idle, absolute, clockFirst, hlogin⟩ := h.resolved_created hresolved hop
  obtain ⟨s₁, u, hmoment⟩ := h.loginAt hlogin
  obtain ⟨s₂, hmiddle, hrest, -, hpublic⟩ := findPublicAccount_saw h hs hidle hread
  -- `current` has compared the versions
  obtain ⟨hversion, rfl⟩ : version = user.authVersion ∧ user = account := by
    unfold current at hcurrent
    simp only [Bool.and_eq_true, decide_eq_true_eq] at hcurrent
    obtain ⟨hsame, haccount⟩ := Option.ite_none_right_eq_some.mp hcurrent
    exact ⟨hsame.2, Option.some.inj haccount⟩
  obtain ⟨huser, -⟩ := Db.findPublicAccount_eq_some hpublic
  obtain ⟨hsame, hauthority⟩ := hmoment.reachable.pinned (hmoment.before.trans hmiddle)
    hmoment.account huser (hversion.symm.trans hmoment.version.symm)
  exact ⟨login, now₀, idle, absolute, clockFirst, s₁, s₂, u, hmoment, hmiddle, hrest, hpublic, hsame,
    hauthority⟩

namespace Demo

/-- A transaction that nobody has asked for. -/
def absent (s : Accounts) (t : ℕ) : Bool :=
  match s.txns t with
  | .absent => true
  | _ => false

theorem absent_idle {s : Accounts} {t : ℕ} (h : absent s t = true) : s.Idle t := by
  unfold absent at h
  split at h
  · next ht => exact ⟨fun _ _ _ _ => by rw [ht]; nofun, fun _ _ _ => by rw [ht]; nofun⟩
  · cases h

/-- A login, and a request with its session. -/
def browsing : List Op := [.createSession [7] 3 1 1000 1000 true, .resolveAndTouch [7] 1000]

/-- The account of the request. -/
def reading : List Op := [.findPublicAccount 3]

/-- The account of the first setup. -/
def owner : User := ⟨setup.name, setup.email, "first", 1, none, some "en", [0]⟩

theorem browsing_authorised : ∃ login now₀ idle absolute clockFirst s₁ s₂ u,
    (after browsing).LoginAt sealer s₁ login (.createSession [7] 3 1 idle absolute clockFirst) now₀
      3 1 u ∧
    Sys.Steps (body sealer) (after browsing) s₂ ∧
    Sys.Steps (body sealer) s₂ (acts (after browsing) 2 reading) ∧
    s₂.db.findPublicAccount 3 = some owner ∧ s₁.db.Pinned s₂.db u owner ∧
    ∀ required, (s₂.db.authority 3).has required = (s₁.db.authority 3).has required := by
  have hresolved : outcome (after browsing) 1 =
      some (.resolveAndTouch [7] 1000, 0, .resolved (some (3, 1))) := by decide +kernel
  have hread : outcome (acts (after browsing) 2 reading) 2 =
      some (.findPublicAccount 3, 0, .account 3 owner) := by decide +kernel
  exact (after_reachable browsing).session_authorised (acts_steps _ _ reading)
    (outcome_committed hresolved) rfl (absent_idle (by decide +kernel)) (outcome_committed hread)
    (by decide +kernel)

end Demo

/-! ## What ends a session -/

/-- The owner changes the password or the address, or somebody the standing, or revokes. -/
def Op.endsSessions (userId : ℕ) : Op → Reply → Prop
  | .changePassword _ id _ _ _ _, _ | .mutateUserLifecycle _ id _ _, _
  | .revokeUserSessions _ id, _ => id = userId
  | op, r => op.changesAddress userId r

/-- Such a commit gives the account another version, or takes it away. -/
theorem Effect.endsSessions (h : Effect box now K d op d' r) (hop : op.endsSessions userId r)
    {u' : User} (hu' : d'.users.get? userId = some u') :
    ∃ u, d.users.get? userId = some u ∧ u.authVersion < u'.authVersion := by
  -- an update of the account itself
  have hbump : ∀ f : User → User, (∀ u, u.authVersion < (f u).authVersion) →
      (d.users.modify userId f).get? userId = some u' →
      ∃ u, d.users.get? userId = some u ∧ u.authVersion < u'.authVersion := by
    intro f hf hu'
    rw [Table.get?_modify_self] at hu'
    obtain ⟨u, hu, rfl⟩ := Option.map_eq_some_iff.mp hu'
    exact ⟨u, hu, hf u⟩
  cases h with
  | passwordChanged =>
      obtain rfl : _ = userId := hop
      exact hbump (User.setPassword _) (fun _ => Nat.lt_succ_self _) hu'
  | emailChanged =>
      obtain rfl : _ = userId := hop
      exact hbump (User.setEmail _) (fun _ => Nat.lt_succ_self _) hu'
  | deactivated =>
      obtain rfl : _ = userId := hop
      exact hbump (User.setDisabled _) (fun _ => Nat.lt_succ_self _) hu'
  | reactivated =>
      obtain rfl : _ = userId := hop
      exact hbump (User.setDisabled _) (fun _ => Nat.lt_succ_self _) hu'
  | deleted =>
      obtain rfl : _ = userId := hop
      obtain ⟨-, hkept⟩ := deleteWhere_eq_some hu'
      simp at hkept
  | sessionsRevoked =>
      obtain rfl : _ = userId := hop
      obtain ⟨u, hu, ⟨-, hkept⟩ | ⟨rfl, -⟩⟩ := updateWhere_eq_some hu'
      · simp at hkept
      · exact ⟨u, hu, Nat.lt_succ_self _⟩
  | read op r hop' =>
      cases op with
      | changePassword => cases hop'
      | mutateUserLifecycle => cases hop'
      | revokeUserSessions => cases hop'
      | completeEmailChange => cases hop'
      | _ => exact hop.elim
  | _ => exact hop.elim

/-- A session whose account has another version is refused by whoever reads the account later.

The transaction reads the account once, at some moment behind the change.  There the version is
another one than that of the session, or there is no account, and `current` needs no more. -/
theorem Accounts.Reachable.refused (h : Accounts.Reachable box s) (hs : Sys.Steps (body box) s s')
    {login reading idle absolute : ℕ} {now₀ now' : Instant} {r₀ : Reply} {clockFirst : Bool}
    (hlogin : s.txns login =
      .committed (.createSession digest userId version idle absolute clockFirst) now₀ r₀)
    (hchanged : ∀ u, s.db.users.get? userId = some u → u.authVersion ≠ version)
    (hidle : s.Idle reading)
    (hread : s'.txns reading = .committed (.findPublicAccount userId) now' (.account userId user)) :
    current (some (userId, version)) (some user) = none := by
  obtain ⟨s₁, u, -, -, h₁, hlater, hu, -, rfl⟩ := h.loginAt hlogin
  obtain ⟨s₂, hmiddle, -, -, hpublic⟩ := findPublicAccount_saw h hs hidle hread
  obtain ⟨huser, -⟩ := Db.findPublicAccount_eq_some hpublic
  cases hold : s.db.users.get? userId with
  | none =>
      rw [h.gone hmiddle (Sys.steps_retired hlater (h₁.retired hu)) hold] at huser
      cases huser
  | some u₀ =>
      have hle := h₁.version_le hlater hu hold
      have hne := hchanged u₀ hold
      have hle' := h.version_le hmiddle hold huser
      refine if_neg ?_
      rw [Bool.and_eq_true, decide_eq_true_eq, decide_eq_true_eq]
      omega

/-- **What ends the sessions of an account**, between two states: the owner or a reset sets another
password, the address is changed, the standing, or the account is taken away, or somebody revokes its
sessions. -/
def Accounts.Revoked (box : Sealer) (s s' : Accounts) (userId : ℕ) : Prop :=
  ∃ t op now r s₁ s₂, ReadCommitted.CommitOf (contract box) (body box) s s' t op now r s₁ s₂ ∧
    (op.endsSessions userId r ∨
      ∃ selector digest hash user, ResetBy s₁.db s₂.db now selector digest hash userId user)

/-- **An ended session is over.**  Whoever has a session of an account that was created before its
password, its address or its standing changed, or before it was revoked, is refused by every look at
the account that begins behind that, whether or not the session is still there.

`Revoked` lists what should end the sessions of an account.  None of it looks for the rows of the
sessions: it raises the version of the account, or deletes the account, and a session keeps the
version for which it was created.  So the argument is about numbers that only grow, and holds
whether the row of the session is deleted, not yet deleted, or read a moment before. -/
theorem Accounts.Reachable.sessions_end (h : Accounts.Reachable box s)
    (hs : Sys.Steps (body box) s s') {s'' : Accounts} (hs' : Sys.Steps (body box) s' s'')
    {login reading idle absolute : ℕ} {now₀ now' : Instant} {r₀ : Reply} {clockFirst : Bool}
    (hlogin : s.txns login =
      .committed (.createSession digest userId version idle absolute clockFirst) now₀ r₀)
    (hrevoked : Accounts.Revoked box s s' userId) (hidle : s'.Idle reading)
    (hread : s''.txns reading =
      .committed (.findPublicAccount userId) now' (.account userId user)) :
    current (some (userId, version)) (some user) = none := by
  have h' : Accounts.Reachable box s' := h.steps hs
  refine h'.refused hs' (h.sound.committed_stays body_kept hs hlogin) (fun u hu => ?_) hidle hread
  obtain ⟨t, op, now, r, a, a', hcommit, hends⟩ := hrevoked
  have ha : Accounts.Reachable box a := h.steps hcommit.before
  have ha' : Accounts.Reachable box a' := ha.steps (.single ⟨_, hcommit.step⟩)
  -- the version for which the session was created
  obtain ⟨s₁, u₁, -, -, h₁, hlater, hu₁, -, rfl⟩ := h.loginAt hlogin
  have hgrows : ∀ u', a'.db.users.get? userId = some u' →
      ∃ u₀, a.db.users.get? userId = some u₀ ∧ u₀.authVersion < u'.authVersion := by
    intro u' hu'
    rcases hends with hop | ⟨selector, digest, hash, user, hreset⟩
    · exact Effect.endsSessions hcommit.commits hop hu'
    · rw [hreset.password, Table.get?_modify_self, hreset.account] at hu'
      obtain rfl := Option.some.inj hu'
      exact ⟨user, hreset.account, Nat.lt_succ_self _⟩
  cases hold : a'.db.users.get? userId with
  | none =>
      have hretired : a'.Retired userId := Sys.steps_retired
        ((hlater.trans hcommit.before).tail ⟨_, hcommit.step⟩) (h₁.retired hu₁)
      rw [ha'.gone hcommit.after hretired hold] at hu
      cases hu
  | some u' =>
      obtain ⟨u₀, hu₀, hlt⟩ := hgrows u' hold
      have hle := h₁.version_le (hlater.trans hcommit.before) hu₁ hu₀
      have hle' := ha'.version_le hcommit.after hold hu
      omega

namespace Demo

/-- A login. -/
def login : List Op := [.createSession [7] 3 1 1000 1000 true]

/-- Another password, set by the owner. -/
def renewal : List Op := [.changePassword [0] 3 1 "second" "en" 0]

/-- The account behind it. -/
def renewed : User := { owner with passwordHash := "second", authVersion := 2 }

theorem renewal_ends : current (some (3, 1)) (some renewed) = none := by
  have hlogin : outcome (after login) 0 =
      some (.createSession [7] 3 1 1000 1000 true, 0, .done) := by decide +kernel
  have hrenewal : outcome (acts (after login) 1 renewal) 1 =
      some (.changePassword [0] 3 1 "second" "en" 0, 0, .changedAt 0) := by decide +kernel
  have hread : outcome (acts (acts (after login) 1 renewal) 2 reading) 2 =
      some (.findPublicAccount 3, 0, .account 3 renewed) := by decide +kernel
  refine (after_reachable login).sessions_end (acts_steps _ _ renewal) (acts_steps _ _ reading)
    (outcome_committed hlogin) ?_ (absent_idle (by decide +kernel)) (outcome_committed hread)
  rcases (after_reachable login).sound.committed body_kept (acts_steps _ _ renewal)
    (outcome_committed hrenewal) with hold | ⟨s₁, s₂, hcommit⟩
  · exact absurd hold (outcome_none (by decide +kernel) _ _ _)
  · exact ⟨1, _, _, _, s₁, s₂, hcommit, Or.inl rfl⟩

end Demo

end BindPlane.Auth
