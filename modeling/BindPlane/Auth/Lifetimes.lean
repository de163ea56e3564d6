import BindPlane.Auth.Logins

/-!
# How long a session lives

The clocks of a session are in order in every state (`Session.Clocked`).  A session is presented to
a transaction that begins before its login is `absolute` ago (`session_in_time`), and it has been
used since it could last be idle (`idle_session_ends`), whoever resolves it and at whatever moment
between its statements.
-/

namespace BindPlane.Auth

open ReadCommitted
open Mail (Bytes)

variable {box : Sealer} {now : Instant} {K : Set (Resource Key)} {d d' : Db} {op : Op} {r : Reply}
  {s s' : Accounts} {userId version : ℕ} {digest : Bytes} {id : ℕ} {x : Session}

/-! ## The clocks of a session -/

/-- **The clocks of a session**, at `time`.

The four times of a session are written by different transactions, from clocks that were read at
different moments.  That they are in order is what the checks of the resolvers rely on. -/
structure Session.Clocked (x : Session) (time : Instant) : Prop where
  created : x.createdAt ≤ x.lastSeenAt
  seen : x.lastSeenAt ≤ time
  idle : x.lastSeenAt < x.idleExpiresAt
  absolute : x.idleExpiresAt ≤ x.absoluteExpiresAt

theorem Session.From.clocked (h : Session.From d now op id x)
    (hd : ∀ id x, d.sessions.get? id = some x → x.Clocked d.clock) : x.Clocked d.clock := by
  cases h with
  | kept _ hrow => exact hd id x hrow
  | revoked x hrow =>
      have hx := hd id x hrow
      exact ⟨hx.created, hx.seen, hx.idle, hx.absolute⟩
  | touched x t idle hrow _ hlive hidle ht =>
      have hx := hd id x hrow
      rw [Session.live, Bool.and_eq_true, decide_eq_true_eq, decide_eq_true_eq] at hlive
      refine ⟨hx.created.trans (le_max_right _ _), max_le ht.2 hx.seen, lt_min ?_ ?_,
        min_le_right _ _⟩
      · exact Nat.lt_add_of_pos_right hidle
      · exact max_lt hlive.2 (hx.idle.trans_le hx.absolute)
  | created _ _ _ idle absolute _ t _ hidle habsolute ht =>
      exact ⟨le_rfl, ht.2, lt_min (Nat.lt_add_of_pos_right hidle)
        (Nat.lt_add_of_pos_right habsolute), min_le_right _ _⟩

/-- The clocks of every session are in order. -/
theorem Accounts.Reachable.clocked (h : Accounts.Reachable box s)
    (hx : s.db.sessions.get? id = some x) : x.Clocked s.db.clock := by
  refine h.keeps (P := fun d => ∀ id x, d.sessions.get? id = some x → x.Clocked d.clock)
    (fun _ => nofun) (fun {op now K d d' r n} hc _ _ hd id x hx => ?_) id x hx
  have hclock : d.clock ≤ d'.clock := (Others.of_moves (Set.empty_disjoint _) hc.moves).clock_le
  have hbefore := (hc.session_from hx).clocked hd
  exact { hbefore with seen := hbefore.seen.trans hclock }

/-- **No session outlives its login by more than it may.**  Whoever resolves a session has begun before
the end that was set at a moment of its login.

The end of a session is fixed when its row is inserted, and neither of the two resolvers moves it.
The login reads its clock at a moment of its own, which is why `createdAt` is only known to lie
between the beginning of the transaction and its commit (`Moment`). -/
theorem Accounts.Reachable.session_in_time (h : Accounts.Reachable box s) {t : ℕ}
    (ht : s.txns t = .committed op now (.resolved (some (userId, version))))
    (hop : op.resolves digest) :
    ∃ login now₀ r₀ idle absolute clockFirst s₁ s₂ createdAt,
      s.CommitOf box login (.createSession digest userId version idle absolute clockFirst) now₀ r₀
        s₁ s₂ ∧ Moment now₀ s₁.db createdAt ∧ now < createdAt + absolute := by
  obtain ⟨y, hrun⟩ := h
  obtain ⟨s₀, id, x, time, hfirst, hrest, -, hx⟩ :=
    Accounts.Reachable.presented ⟨y, .refl⟩ hrun (Sys.init_idle _ _ _) ht hop
  have h₀ : Accounts.Reachable box s₀ := ⟨y, hfirst⟩
  obtain ⟨login, now₀, r₀, idle, absolute, clockFirst, s₁, s₂, -, hcommit, hcreated, habsolute⟩ :=
    h₀.session_created hx.row
  rw [hx.digest, hx.user, hx.version] at hcommit
  refine ⟨login, now₀, r₀, idle, absolute, clockFirst, s₁, s₂, x.createdAt,
    { hcommit with after := hcommit.after.trans hrest }, hcreated, ?_⟩
  have hlive := hx.live
  rw [Session.live, Bool.and_eq_true, decide_eq_true_eq, decide_eq_true_eq, habsolute] at hlive
  exact hx.moment.trans_lt hlive.2

/-! ## Idle sessions -/

/-- How long an operation keeps a session of a token alive: `limit` at most, if it does so at all.
-/
def Op.KeepsFor (digest : Bytes) (limit : ℕ) : Op → Prop
  | .createSession tokenDigest _ _ idle _ _ | .resolveAndTouch tokenDigest idle =>
      tokenDigest = digest → idle ≤ limit
  | _ => True

/-- Whether it does so. -/
def Op.keeps (digest : Bytes) : Op → Prop
  | .createSession tokenDigest _ _ _ _ _ | .resolveAndTouch tokenDigest _ => tokenDigest = digest
  | _ => False

/-- A session of a token is kept alive for `limit` at most. -/
theorem Session.From.limited {limit : ℕ} (h : Session.From d now op id x)
    (hop : op.KeepsFor digest limit)
    (hd : ∀ id x, d.sessions.get? id = some x → x.tokenDigest = digest →
      x.idleExpiresAt ≤ x.lastSeenAt + limit) (hx : x.tokenDigest = digest) :
    x.idleExpiresAt ≤ x.lastSeenAt + limit := by
  cases h with
  | kept _ hrow => exact hd id x hrow hx
  | revoked x hrow => exact hd id x hrow hx
  | touched x t idle _ hop' =>
      subst hop'
      exact (min_le_left _ _).trans (Nat.add_le_add_left (hop hx) _)
  | created _ _ _ _ _ _ t hop' =>
      subst hop'
      exact (min_le_left _ _).trans (Nat.add_le_add_left (hop hx) _)

/-- Where nobody keeps it alive it expires when it would have. -/
theorem Session.From.expires {limit : Instant} (h : Session.From d now op id x)
    (hop : ¬op.keeps digest)
    (hd : ∀ id x, d.sessions.get? id = some x → x.tokenDigest = digest → x.idleExpiresAt ≤ limit)
    (hx : x.tokenDigest = digest) : x.idleExpiresAt ≤ limit := by
  cases h with
  | kept _ hrow => exact hd id x hrow hx
  | revoked x hrow => exact hd id x hrow hx
  | touched x t idle _ hop' =>
      subst hop'
      exact absurd hx hop
  | created _ _ _ _ _ _ t hop' =>
      subst hop'
      exact absurd hx hop

/-- **An idle session ends.**  Whoever begins `limit` behind a state, with a token that nobody else has
used since, finds no session, if every use had kept it alive for `limit` at most.

The bound is on all that may be written to the row.  In the first state no session of the token
lasts longer than `limit` from the clock, because whoever has written its end had read the clock
before; from there on nobody else prolongs it (`halone`); and the transaction in question looks at
the row before it writes its own touch.  Nothing is assumed of the moments at which the statements
of these transactions are executed. -/
theorem Accounts.Reachable.idle_session_ends (h : Accounts.Reachable box s)
    (hs : Sys.Steps (body box) s s') {limit t : ℕ} {answer : Resolved}
    (hlimit : ∀ t op now r, s.txns t = .committed op now r → op.KeepsFor digest limit)
    (hidle : s.Idle t) (ht : s'.txns t = .committed op now (.resolved answer))
    (hop : op.resolves digest) (hlate : s.db.clock + limit ≤ now)
    (halone : ∀ t' op now r, t' ≠ t → s'.txns t' = .committed op now r →
      s.txns t' = .committed op now r ∨ ¬op.keeps digest) : answer = none := by
  cases answer with
  | none => rfl
  | some answer =>
  exfalso
  obtain ⟨userId, version⟩ := answer
  obtain ⟨s₁, id, x, time, hfirst, hrest, hnew, hx⟩ := h.presented hs hidle ht hop
  have h₁ : Accounts.Reachable box s₁ := h.steps hfirst
  -- what every session of the token has left in the first state
  have hlimited : ∀ id x, s.db.sessions.get? id = some x → x.tokenDigest = digest →
      x.idleExpiresAt ≤ s.db.clock + limit := by
    intro id x hx hdigest
    have hkept : ∀ id x, s.db.sessions.get? id = some x → x.tokenDigest = digest →
        x.idleExpiresAt ≤ x.lastSeenAt + limit := by
      obtain ⟨y, hrun⟩ := h
      refine (installed_sound y).steps_keep_where body_kept (N := ∅)
        (P := fun d => ∀ id x, d.sessions.get? id = some x → x.tokenDigest = digest →
          x.idleExpiresAt ≤ x.lastSeenAt + limit)
        (c := fun op _ _ => op.KeepsFor digest limit) (fun _ _ hop hc hd id x hx => ?_) hrun
        (fun _ hi => absurd hi (Set.notMem_empty _)) (fun t op now r ht => ?_) fun _ _ => nofun
      · exact (Effect.session_from hc hx).limited hop hd
      · exact Or.inr (hlimit t op now r ht)
    exact (hkept id x hx hdigest).trans (Nat.add_le_add_right (h.clocked hx).seen _)
  -- and has no more of later
  have hexpires : ∀ id x, s₁.db.sessions.get? id = some x → x.tokenDigest = digest →
      x.idleExpiresAt ≤ s.db.clock + limit := by
    refine h.sound.steps_keep_where body_kept (N := ∅)
      (P := fun d => ∀ id x, d.sessions.get? id = some x → x.tokenDigest = digest →
        x.idleExpiresAt ≤ s.db.clock + limit)
      (c := fun op _ _ => ¬op.keeps digest) (fun _ _ hop hc hd id x hx => ?_) hfirst
      (fun _ hi => absurd hi (Set.notMem_empty _)) (fun t' op' now' r' ht' => ?_) hlimited
    · exact (Effect.session_from hc hx).expires hop hd
    · refine halone t' op' now' r' ?_ (h₁.sound.committed_stays body_kept hrest ht')
      rintro rfl
      exact hnew op' now' r' ht'
  have hlive := hx.live
  rw [Session.live, Bool.and_eq_true, decide_eq_true_eq] at hlive
  exact absurd (hx.moment.trans_lt hlive.1)
    (not_lt.mpr ((hexpires id x hx.row hx.digest).trans hlate))

namespace Demo

theorem browsing_in_time : ∃ login now₀ r₀ idle absolute clockFirst s₁ s₂ createdAt,
    (after browsing).CommitOf sealer login (.createSession [7] 3 1 idle absolute clockFirst) now₀ r₀
      s₁ s₂ ∧ Moment now₀ s₁.db createdAt ∧ 0 < createdAt + absolute := by
  have hresolved : outcome (after browsing) 1 =
      some (.resolveAndTouch [7] 1000, 0, .resolved (some (3, 1))) := by decide +kernel
  exact (after_reachable browsing).session_in_time (outcome_committed hresolved) rfl

/-- A login, and nothing for as long as the session may be idle. -/
def idling : Accounts := act (after login) 1 (.elapse 1000)

theorem idling_steps : Sys.Steps (body sealer) (after login) idling := act_steps _ _ _

/-- Nobody is found by whoever looks then. -/
theorem idling_ends : ∃ answer, (act idling 2 (.resolve [7])).txns 2 =
    .committed (.resolve [7]) 1000 (.resolved answer) ∧ answer = none := by
  have hlogin : outcome (after login) 0 =
      some (.createSession [7] 3 1 1000 1000 true, 0, .done) := by decide +kernel
  have helapsed : outcome (act idling 2 (.resolve [7])) 1 = some (.elapse 1000, 0, .done) := by
    decide +kernel
  have hresolved : outcome (act idling 2 (.resolve [7])) 2 =
      some (.resolve [7], 1000, .resolved none) := by decide +kernel
  have hidling : Accounts.Reachable sealer idling := (after_reachable login).steps idling_steps
  have hkept : ∀ t op now r, (after login).txns t = .committed op now r →
      op.KeepsFor [7] 1000 := by
    intro t op now r ht
    by_cases hfirst : t = 0
    · subst hfirst
      cases (outcome_committed hlogin).symm.trans ht
      exact fun _ => le_rfl
    · have hother : (act (after []) 0 (.createSession [7] 3 1 1000 1000 true)).txns t =
          (after []).txns t := act_others hfirst (after_reachable [])
      cases hother.symm.trans ht
  refine ⟨none, outcome_committed hresolved, (after_reachable login).idle_session_ends
    (idling_steps.trans (act_steps _ _ _)) hkept
    (absent_idle (by decide +kernel)) (outcome_committed hresolved)
    (show Op.resolves [7] _ from rfl) (by decide +kernel) fun t op now r hne ht => ?_⟩
  by_cases hsecond : t = 1
  · subst hsecond
    cases (outcome_committed helapsed).symm.trans ht
    exact Or.inr fun h => h.elim
  · rw [act_others hne hidling, idling, act_others hsecond (after_reachable login)] at ht
    exact Or.inl ht

end Demo

end BindPlane.Auth
