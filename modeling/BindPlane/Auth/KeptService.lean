import BindPlane.Auth.KeptEmailChange
import BindPlane.Auth.KeptInvitations
import BindPlane.Auth.KeptLifecycle
import BindPlane.Auth.KeptRecovery
import BindPlane.Auth.KeptSessions
import BindPlane.ReadCommitted.Committed

/-!
# The auth service keeps its contract

Every transaction of the service keeps the contract (`body_kept`), and the store behind the first
setup is one that the contract knows.  So every state of every run is (`Reachable.sound`): the rows
say what the journal says, and the journal is one that every event in it was allowed by.
-/

namespace BindPlane.Auth

open ReadCommitted

variable {box : Sealer}

/-- **Every transaction keeps the contract.** -/
theorem body_kept : (contract box).Kept (body box) := by
  intro op now v hinv hpending hheld
  have hv : (contract box).Good v := ⟨hinv, by simp [hheld]⟩
  unfold body started
  simp only [Tx.bind_eq]
  refine hv.snapshot fun v₁ h₁ hv₁ => ?_
  refine Tx.Ensures.require_bind (fun hclock => ?_) fun _ _ _ => trivial
  have hpending₁ : v₁.pending = id := h₁.pending.trans hpending
  rw [snapshot_eq hpending₁, decide_eq_true_eq] at hclock
  have hnow : now ≤ v₁.db.clock := hclock.ge
  cases op with
  | elapse time =>
      refine hv₁.update fun v₂ h₂ hv₂ => Contract.Good.pure (v := v₂.queue _) hv₂
        fun v₃ h₃ hv₃ => ended hv₃ (.elapsed time) ?_
      rw [View.snapshot, h₃.pending, View.queue_pending, h₂.pending, hpending₁]
      rfl
  | requestPasswordReset => exact Contract.wrap (requestPasswordReset_kept hv₁ hpending₁ hnow)
  | completePasswordReset => exact Contract.wrap (completePasswordReset_kept hv₁ hpending₁ hnow)
  | changePassword => exact Contract.wrap (changePassword_kept hv₁ hpending₁)
  | requestEmailChange => exact Contract.wrap (requestEmailChange_kept hv₁ hpending₁ hnow)
  | resendEmailChange => exact Contract.wrap (resendEmailChange_kept hv₁ hpending₁ hnow)
  | completeEmailChange => exact Contract.wrap (completeEmailChange_kept hv₁ hpending₁ hnow)
  | mutateUserLifecycle => exact Contract.wrap (mutateUserLifecycle_kept hv₁ hpending₁)
  | createRole => exact Contract.wrap (createRole_kept hv₁ hpending₁)
  | replaceRole => exact Contract.wrap (replaceRole_kept hv₁ hpending₁)
  | deleteRole => exact Contract.wrap (deleteRole_kept hv₁ hpending₁)
  | replaceUserRoles => exact Contract.wrap (replaceUserRoles_kept hv₁ hpending₁)
  | revokeUserSessions => exact Contract.wrap (revokeUserSessions_kept hv₁ hpending₁)
  | createInvitation => exact Contract.wrap (createInvitation_kept hv₁ hpending₁ hnow)
  | resendInvitation => exact Contract.wrap (resendInvitation_kept hv₁ hpending₁ hnow)
  | revokeInvitation => exact Contract.wrap (revokeInvitation_kept hv₁ hpending₁)
  | completeInvitation => exact Contract.wrap (completeInvitation_kept hv₁ hpending₁ hnow)
  | updateUserName userId name =>
      refine Contract.wrap (updateUser_kept hv₁ hpending₁ fun {K d user} huser => ?_)
      exact .nameUpdated userId name user huser
  | updateUserLocale userId locale =>
      refine Contract.wrap (updateUser_kept hv₁ hpending₁ fun {K d user} huser => ?_)
      exact .localeUpdated userId locale user huser
  | saveSystemIdentity => exact Contract.wrap (saveSystemIdentity_kept hv₁ hpending₁)
  | sweepMail => exact Contract.wrap (sweepAuthorities_kept hv₁ hpending₁)
  | createSession => exact Contract.wrap (createSession_kept hv₁ hpending₁ hnow)
  | resolveAndTouch => exact Contract.wrap (resolveAndTouch_kept hv₁ hpending₁ hnow)
  | resolve => exact Contract.wrap (resolve_kept hv₁ hpending₁)
  | deleteSession => exact Contract.wrap (deleteSession_kept hv₁ hpending₁)
  | cleanupSessions => exact Contract.wrap (cleanupSessions_kept hv₁ hpending₁)
  | findPublicAccount => exact Contract.wrap (publicAccount_kept hv₁ hpending₁ fun _ => rfl)
  | findByCanonicalEmail => exact Contract.wrap (accountByEmail_kept hv₁ hpending₁)
  | initializeLocale => exact Contract.wrap (initializeLocale_kept hv₁ hpending₁)

/-! ## Reachable states -/

/-- Behind the first setup there are three roles and one account, and nothing else. -/
theorem installed_roles {x : Installation} {roleId : ℕ} {r : Role}
    (h : (Db.installed x).roles.get? roleId = some r) : (roleId, r) ∈ seedRoles := by
  have hnodup : (seedRoles.map Prod.fst).Nodup := by decide
  rcases (Table.get?_insertAll_eq_some ∅ hnodup (fun _ _ => Table.get?_empty _)).mp h with
    hmem | hnone
  · exact hmem
  · cases hnone

theorem installed_users {x : Installation} {userId : ℕ} {u : User}
    (h : (Db.installed x).users.get? userId = some u) : userId = 3 ∧ u.roles = [superRole] ∧
      u.email = x.email := by
  rcases insert_eq_some h with hnone | ⟨rfl, rfl⟩
  · cases hnone
  · exact ⟨rfl, rfl, rfl⟩

/-- The role of the super admin, as it is installed. -/
theorem installed_super (x : Installation) :
    ∃ r, (Db.installed x).roles.get? superRole = some r ∧ r.systemKey = some "super_admin" := by
  have hnodup : (seedRoles.map Prod.fst).Nodup := by decide
  refine ⟨⟨some "super_admin", "Super Admin", "super admin",
    "Full access to every permission in the live catalog.", 1, []⟩, ?_, rfl⟩
  refine (Table.get?_insertAll_eq_some ∅ hnodup fun _ _ => Table.get?_empty _).mpr (Or.inl ?_)
  exact List.mem_cons_self

theorem seedRoles_system : ∀ p ∈ seedRoles, p.1 < 4 ∧
    (p.2.systemKey.isSome = true → p.1 = superRole) := by decide

theorem installed_valid (x : Installation) : (Db.installed x).Valid 4 := by
  exact {
    users := fun i u hu => by
      rw [(installed_users hu).1]
      decide
    sessions := fun _ _ hx => nomatch hx
    emailChanges := fun _ _ hx => nomatch hx
    invitations := fun _ _ hx => nomatch hx
    roles := fun i r hr => (seedRoles_system _ (installed_roles hr)).1
    outbox := fun _ _ hx => nomatch hx
    born := by
      rintro i y ⟨e, he, -⟩
      cases he
    once := by
      rintro i y z ⟨e, he, -⟩
      cases he
    invitation := fun _ _ hx => nomatch hx
    request := fun _ _ hx => nomatch hx
    super := installed_super x
    system := fun i r hr hsystem => (seedRoles_system _ (installed_roles hr)).2 hsystem
    held := fun i u hu j hj => by
      rw [(installed_users hu).2.1, List.mem_singleton] at hj
      exact hj ▸ (installed_super x).imp fun _ hr => hr.1 }

theorem installed_recorded (x : Installation) : (Db.installed x).Recorded :=
  ⟨nofun, nofun, nofun, nofun, fun _ => Or.inr (fun _ _ hissued => nomatch hissued), .nil⟩

theorem installed_sound (x : Installation) : Sound (contract box) (Accounts.initial x) := by
  have hinv : (contract box).inv (Db.installed x) 4 := ⟨installed_valid x, installed_recorded x⟩
  exact Sound.init hinv

namespace Accounts.Reachable

variable {s s' : Accounts}

/-- **Every state of every run is one that the contract knows.** -/
theorem sound (h : Accounts.Reachable box s) : Sound (contract box) s := by
  obtain ⟨x, hrun⟩ := h
  exact (installed_sound x).steps body_kept hrun

theorem valid (h : Accounts.Reachable box s) : s.db.Valid s.seq := h.sound.inv.1

theorem recorded (h : Accounts.Reachable box s) : s.db.Recorded := h.sound.inv.2

theorem steps (h : Accounts.Reachable box s) (hs : Sys.Steps (body box) s s') :
    Accounts.Reachable box s' := by
  obtain ⟨x, hrun⟩ := h
  exact ⟨x, hrun.trans hs⟩

/-- What holds behind the first setup and is kept by every commit holds of every state. -/
theorem keeps {P : Db → Prop} (h : Accounts.Reachable box s)
    (hinstalled : ∀ x, P (Db.installed x))
    (hcommit : ∀ {op now K d d' r n}, Effect box now K d op d' r → d.Valid n → d.Recorded → P d →
      P d') : P s.db := by
  obtain ⟨x, hrun⟩ := h
  refine (installed_sound x).steps_keep body_kept (fun hinv hc hd => ?_) hrun (hinstalled x)
  exact hcommit hc hinv.1 hinv.2 hd

end Accounts.Reachable

/-- **The commit of a transaction**, in a run that leads to `s`: the states before and behind it.

A committed transaction has a place in the run: the state in front of its last step, with everything
it is going to write, and the state behind it. -/
structure Accounts.CommitOf (box : Sealer) (s : Accounts) (t : ℕ) (op : Op) (now : Instant)
    (r : Reply) (s₁ s₂ : Accounts) : Prop where
  reachable : Accounts.Reachable box s₁
  ended : ∃ w, s₁.txns t = .active op now w (.pure r)
  step : s₁.step (body box) (.advance t) = some s₂
  after : Sys.Steps (body box) s₂ s

/-- Every transaction that has committed has done so in one step, which is an effect of its
operation. -/
theorem Accounts.Reachable.commit {s : Accounts} (h : Accounts.Reachable box s) {t : ℕ} {op : Op}
    {now : Instant} {r : Reply} (ht : s.txns t = .committed op now r) :
    ∃ s₁ s₂, s.CommitOf box t op now r s₁ s₂ ∧
      Effect box now (s₁.heldBy t) s₁.db op s₂.db r := by
  obtain ⟨x, hrun⟩ := h
  rcases (installed_sound x).committed body_kept hrun ht with hold | ⟨s₁, s₂, hc⟩
  · cases hold
  · exact ⟨s₁, s₂, ⟨⟨x, hc.before⟩, hc.ended, hc.step, hc.after⟩, hc.commits⟩

/-! ## Runs, one transaction after the other -/

namespace Demo

/-- Whatever is sealed is one byte. -/
def sealer : Sealer := fun _ _ => some [1]

def setup : Installation where
  clock := 0
  name := ⟨"Admin", by decide, by decide⟩
  email := ⟨"admin@test.invalid", by decide +kernel⟩
  passwordHash := "first"
  locale := "en"

/-- Somebody who is invited. -/
def clerk : Name := ⟨"Clerk", by decide, by decide⟩

def clerkEmail : Email := ⟨"clerk@test.invalid", by decide +kernel⟩

/-- Let a transaction advance until it has ended, `n` statements at most. -/
def drive (t : ℕ) : ℕ → Accounts → Accounts
  | 0, s => s
  | n + 1, s => (s.step (body sealer) (.advance t)).elim s (drive t n)

/-- A transaction by itself. -/
def act (s : Accounts) (t : ℕ) (op : Op) : Accounts :=
  (s.run (body sealer) [.request t op, .begin t s.db.clock]).elim s (drive t 60)

/-- Transactions by themselves, numbered from `n` on. -/
def acts (s : Accounts) (n : ℕ) : List Op → Accounts
  | [] => s
  | op :: ops => acts (act s n op) (n + 1) ops

theorem drive_steps (t n : ℕ) (s : Accounts) : Sys.Steps (body sealer) s (drive t n s) := by
  induction n generalizing s with
  | zero => exact .refl
  | succ n ih =>
      show Sys.Steps (body sealer) s ((s.step (body sealer) (.advance t)).elim s (drive t n))
      cases hs : s.step (body sealer) (.advance t) with
      | none => exact .refl
      | some s' => exact .head ⟨_, hs⟩ (ih s')

theorem act_steps (s : Accounts) (t : ℕ) (op : Op) : Sys.Steps (body sealer) s (act s t op) := by
  rw [act]
  rcases hs : s.run (body sealer) [.request t op, .begin t s.db.clock] with _ | s'
  · exact .refl
  · rw [Option.elim_some]
    exact (Sys.run_steps hs).trans (drive_steps t 60 s')

theorem acts_steps (s : Accounts) (n : ℕ) (ops : List Op) :
    Sys.Steps (body sealer) s (acts s n ops) := by
  induction ops generalizing s n with
  | nil => exact .refl
  | cons op ops ih => exact (act_steps s n op).trans (ih (act s n op) (n + 1))

/-- The first setup, and what is done behind it. -/
def after (ops : List Op) : Accounts := acts (Accounts.initial setup) 0 ops

theorem after_reachable (ops : List Op) : Accounts.Reachable sealer (after ops) :=
  ⟨setup, acts_steps _ _ ops⟩

/-- A step of another transaction. -/
theorem step_other {s s' : Accounts} (h : Accounts.Reachable sealer s)
    {a : Action ℕ Op Instant} (ha : s.step (body sealer) a = some s') {t : ℕ} (ht : t ≠ a.txn) :
    s'.txns t = s.txns t :=
  (Sys.step_others h.sound.undrawn ha ht).1

theorem drive_others {t t' n : ℕ} (ht : t' ≠ t) {s : Accounts} (h : Accounts.Reachable sealer s) :
    (drive t n s).txns t' = s.txns t' := by
  induction n generalizing s with
  | zero => rfl
  | succ n ih =>
      show ((s.step (body sealer) (.advance t)).elim s (drive t n)).txns t' = s.txns t'
      cases hs : s.step (body sealer) (.advance t) with
      | none => rfl
      | some s' => exact (ih (h.steps (.single ⟨_, hs⟩))).trans (step_other h hs ht)

/-- One transaction by itself leaves the others alone. -/
theorem act_others {t t' : ℕ} (ht : t' ≠ t) {op : Op} {s : Accounts}
    (h : Accounts.Reachable sealer s) : (act s t op).txns t' = s.txns t' := by
  rw [act]
  rcases hs : s.run (body sealer) [.request t op, .begin t s.db.clock] with _ | s'
  · rfl
  · rw [Option.elim_some, drive_others ht (h.steps (Sys.run_steps hs))]
    rw [Sys.run, Option.bind_eq_some_iff] at hs
    obtain ⟨s₁, hrequest, hs⟩ := hs
    rw [Sys.run, Option.bind_eq_some_iff] at hs
    obtain ⟨s₂, hbegin, hs⟩ := hs
    cases hs
    rw [step_other (h.steps (.single ⟨_, hrequest⟩)) hbegin ht, step_other h hrequest ht]

/-- What a transaction has committed. -/
def outcome (s : Accounts) (t : ℕ) : Option (Op × Instant × Reply) :=
  match s.txns t with
  | .committed op now r => some (op, now, r)
  | _ => none

theorem outcome_committed {s : Accounts} {t : ℕ} {op : Op} {now : Instant} {r : Reply}
    (h : outcome s t = some (op, now, r)) : s.txns t = .committed op now r := by
  unfold outcome at h
  split at h
  · next ht =>
      cases h
      exact ht
  · cases h

theorem outcome_none {s : Accounts} {t : ℕ} (h : outcome s t = none) (op : Op) (now : Instant)
    (r : Reply) : s.txns t ≠ .committed op now r := by
  intro ht
  rw [outcome, ht] at h
  cases h

end Demo

end BindPlane.Auth
