import BindPlane.ReadCommitted.Contract

/-!
# What has been committed

A run of a system that keeps a contract is a sequence of commits of the contract, and steps that
leave the store alone.

* `Sound.committed` finds the commit of a transaction in the run, and `Sound.moment` a moment
  behind its begin at which what it has seen was so.
* `Sound.steps_keep_where` is an induction over the commits of a run.
* `Sound.length_le` and `Sound.exists_committed` count commits: a number that every commit of a kind
  increases is at least that of the transactions that have made one, and a number that only commits
  of a kind increase, by one, is at most that.

Counting commits replaces counting rows.  A row that limits how often something happens is deleted
or overwritten in the end, and then nothing in the store tells how often it did.  The records of the
committed transactions stay, and `length_le` with `exists_committed` compares two kinds of them by a
number of the store that the one kind increases and only the other one can.
-/

namespace ReadCommitted

universe u

variable {τ σ κ ο θ ε ρ : Type u} [DecidableEq τ] [DecidableEq κ] {C : Contract σ κ ο θ ρ}
  {body : ο → θ → Tx σ κ ε ρ} {s s' : Sys τ σ κ ο θ ε ρ}

/-- **The commit of a transaction**, on the way from `s` to `s'`: the states before and behind it.

Two states of the run stand around the commit, and the effect relates their stores.  The structure
keeps the way from the first state and to the last, so that what was known before can be carried to
`s₁`, and what the commit has established from `s₂` on. -/
structure CommitOf (C : Contract σ κ ο θ ρ) (body : ο → θ → Tx σ κ ε ρ)
    (s s' : Sys τ σ κ ο θ ε ρ) (t : τ) (op : ο) (now : θ) (r : ρ)
    (s₁ s₂ : Sys τ σ κ ο θ ε ρ) : Prop where
  before : Sys.Steps body s s₁
  sound : Sound C s₁
  ended : ∃ w, s₁.txns t = .active op now w (.pure r)
  step : s₁.step body (.advance t) = some s₂
  commits : C.commits op now (s₁.heldBy t) s₁.db s₂.db r
  after : Sys.Steps body s₂ s'

/-- A transaction that neither runs nor has committed. -/
structure Sys.Idle (s : Sys τ σ κ ο θ ε ρ) (t : τ) : Prop where
  active : ∀ op now w p, s.txns t ≠ .active op now w p
  committed : ∀ op now r, s.txns t ≠ .committed op now r

omit [DecidableEq τ] [DecidableEq κ] in
/-- At first nobody has begun. -/
theorem Sys.init_idle (db : σ) (n : ℕ) (t : τ) : (Sys.init db n : Sys τ σ κ ο θ ε ρ).Idle t where
  active _ _ _ _ h := nomatch h
  committed _ _ _ h := nomatch h

/-- A transaction that has committed since has done so in one step. -/
theorem Sound.committed (hC : C.Kept body) (h : Sound C s) (hs : Sys.Steps body s s') {t : τ}
    {op : ο} {now : θ} {r : ρ} (ht : s'.txns t = .committed op now r) :
    s.txns t = .committed op now r ∨ ∃ s₁ s₂, CommitOf C body s s' t op now r s₁ s₂ := by
  induction hs with
  | refl => exact Or.inl ht
  | @tail s₁ s₂ hrun hstep ih =>
      obtain ⟨a, ha⟩ := hstep
      have hsound := h.steps hC hrun
      -- it had committed before the last step
      have hearlier : s₁.txns t = .committed op now r →
          s.txns t = .committed op now r ∨ ∃ s₃ s₄, CommitOf C body s s₂ t op now r s₃ s₄ := by
        intro hcommitted
        refine (ih hcommitted).imp_right fun ⟨s₃, s₄, hcommit⟩ => ⟨s₃, s₄, ?_⟩
        exact { hcommit with after := hcommit.after.tail ⟨a, ha⟩ }
      by_cases hold : s₁.txns t = .committed op now r
      · exact hearlier hold
      · cases hsound.outcome ha with
        | quiet _ hcommitted => exact hearlier ((hcommitted t op now r).mp ht)
        | commit op' now' r' w hactive hcommit hcommitted =>
            rcases (hcommitted t op now r).mp ht with hold' | ⟨rfl, rfl, rfl, rfl⟩
            · exact absurd hold' hold
            · have haction := Sys.step_commits ha ht hold
              rw [haction] at ha
              exact Or.inr ⟨s₁, s₂, hrun, hsound, ⟨w, haction ▸ hactive⟩, ha, hcommit, .refl⟩

/-- **A moment on the way**: while a transaction runs that did not run before, `P` holds at some state,
or it fails at all of them and at the one in which the transaction was about to begin. -/
theorem Sys.Steps.passes {P : σ → Prop} (hs : Sys.Steps body s s') {t : τ} (hidle : s.Idle t)
    {op : ο} {now : θ} {w : σ → σ} {p : Tx σ κ ε ρ} (ht : s'.txns t = .active op now w p) :
    (∃ s₁, Sys.Steps body s s₁ ∧ Sys.Steps body s₁ s' ∧
      (∃ w p, s₁.txns t = .active op now w p) ∧ P s₁.db) ∨
      ∃ s₀, Sys.Steps body s s₀ ∧ (∀ op now w p, s₀.txns t ≠ .active op now w p) ∧ ¬P s₀.db ∧
        Sys.StepsWithin body (fun d => ¬P d) s₀ s' := by
  induction hs generalizing w p with
  | refl => exact absurd ht (hidle.active op now w p)
  | @tail s₂ s₃ hrun hstep ih =>
      obtain ⟨a, ha⟩ := hstep
      by_cases hP : P s₃.db
      · exact Or.inl ⟨s₃, hrun.tail ⟨a, ha⟩, .refl, ⟨w, p, ht⟩, hP⟩
      · rcases Sys.step_active_back ha ht with ⟨w', p', hbefore⟩ | ⟨hrequested, hdb⟩
        · rcases ih hbefore with ⟨s₁, hfirst, hrest, hrunning, hP₁⟩ | ⟨s₀, hfirst, hnot, hP₀, hwithin⟩
          · exact Or.inl ⟨s₁, hfirst, hrest.tail ⟨a, ha⟩, hrunning, hP₁⟩
          · exact Or.inr ⟨s₀, hfirst, hnot, hP₀, hwithin.tail ⟨⟨a, ha⟩, hP⟩⟩
        · refine Or.inr ⟨s₂, hrun, fun _ _ _ _ hactive => ?_, hdb ▸ hP, .single ⟨⟨a, ha⟩, hP⟩⟩
          rw [hrequested] at hactive
          cases hactive

/-- What has committed stays committed. -/
theorem Sound.committed_stays (hC : C.Kept body) (h : Sound C s) (hs : Sys.Steps body s s') {t : τ}
    {op : ο} {now : θ} {r : ρ} (ht : s.txns t = .committed op now r) :
    s'.txns t = .committed op now r := by
  induction hs with
  | refl => exact ht
  | tail hrun hstep ih =>
      obtain ⟨a, ha⟩ := hstep
      cases (h.steps hC hrun).outcome ha with
      | quiet _ hcommitted => exact (hcommitted t op now r).mpr ih
      | commit _ _ _ _ _ _ hcommitted => exact (hcommitted t op now r).mpr (Or.inl ih)

/-- **What a transaction must have seen**: a program that does not come to a result as long as `P`
fails has committed it behind a moment at which it was running and `P` held.

This is how one reasons about what a transaction has read without a lock: at some moment while it
was running the thing was so, or else it would have gone another way. -/
theorem Sound.moment (hC : C.Kept body) {P : σ → Prop} {op : ο} {now : θ} {r : ρ}
    (hbody : ∀ v, C.inv v.db v.seq → ¬P v.db → v.pending = id → v.held = ∅ →
      (body op now).Ensures (C.within fun d => ¬P d).interference (fun res _ => res ≠ .ok r) v)
    (h : Sound C s) (hs : Sys.Steps body s s') {t : τ} (hidle : s.Idle t)
    (ht : s'.txns t = .committed op now r) :
    ∃ s₁, Sys.Steps body s s₁ ∧ Sys.Steps body s₁ s' ∧
      (∃ w p, s₁.txns t = .active op now w p) ∧ P s₁.db := by
  rcases h.committed hC hs ht with hold | ⟨s₁, s₂, hcommit⟩
  · exact absurd hold (hidle.2 op now r)
  · obtain ⟨w, hend⟩ := hcommit.ended
    rcases hcommit.before.passes (P := P) hidle hend with
      ⟨s₀, hfirst, hrest, hrunning, hP⟩ | ⟨s₀, hfirst, hnot, hbefore, hwithin⟩
    · exact ⟨s₀, hfirst, hrest.trans (.head ⟨_, hcommit.step⟩ hcommit.after), hrunning, hP⟩
    · have hkept : C.KeptWithin (fun d => ¬P d) body
          fun op' now' res _ => op' = op → now' = now → res ≠ .ok r := by
        intro op' now' v hinv hv hpending hheld
        by_cases hop : op' = op ∧ now' = now
        · obtain ⟨rfl, rfl⟩ := hop
          exact (hbody v hinv hv hpending hheld).mono fun _ _ hres _ _ => hres
        · exact Tx.Ensures.trivial (fun _ _ hop' hnow => absurd ⟨hop', hnow⟩ hop) v
      have hres := (h.steps hC hfirst).follow hC hkept hbefore hnot hwithin hend
      exact absurd rfl (hres rfl rfl)

/-- **A property of the store that commits of a kind keep**, where only those are made and none of
them has drawn a number that had retired. -/
theorem Sound.steps_keep_where (hC : C.Kept body) {P : σ → Prop} {N : Set ℕ}
    {c : ο → θ → ρ → Prop}
    (hP : ∀ {op now K d d' r n}, C.inv d n → (∀ i ∈ N, Resource.serial i ∉ K) → c op now r →
      C.commits op now K d d' r → P d → P d')
    (h : Sound C s) (hs : Sys.Steps body s s') (hN : ∀ i ∈ N, s.Retired i)
    (hkind : ∀ t op now r, s'.txns t = .committed op now r →
      s.txns t = .committed op now r ∨ c op now r) (h₀ : P s.db) : P s'.db := by
  induction hs with
  | refl => exact h₀
  | @tail s₁ s₂ hrun hstep ih =>
      obtain ⟨a, ha⟩ := hstep
      have hsound := h.steps hC hrun
      have ih := ih fun t op now r ht =>
        hkind t op now r (hsound.committed_stays hC (.single ⟨a, ha⟩) ht)
      cases hsound.outcome ha with
      | quiet hdb _ => exact hdb ▸ ih
      | commit op now r w hactive hcommit hcommitted =>
          have hheld : ∀ i ∈ N, Resource.serial i ∉ s₁.heldBy a.txn := by
            intro i hi hmem
            have hfree := (Sys.steps_retired hrun (hN i hi)).2
            cases hfree.symm.trans hmem
          refine hP hsound.inv hheld ?_ hcommit ih
          -- it is new: a transaction that has committed does not do so again
          refine (hkind _ op now r ((hcommitted _ op now r).mpr (Or.inr ⟨rfl, rfl, rfl, rfl⟩)))
            |>.resolve_left fun hold => ?_
          cases hactive.symm.trans (h.committed_stays hC hrun hold)

/-- A property of the store that every commit keeps, of a store that the contract knows. -/
theorem Sound.steps_keep (hC : C.Kept body) {P : σ → Prop}
    (hP : ∀ {op now K d d' r n}, C.inv d n → C.commits op now K d d' r → P d → P d')
    (h : Sound C s) (hs : Sys.Steps body s s') (h₀ : P s.db) : P s'.db :=
  h.steps_keep_where hC (N := ∅) (c := fun _ _ _ => True)
    (fun hinv _ _ hcommit hd => hP hinv hcommit hd) hs (fun _ hi => absurd hi (Set.notMem_empty _))
    (fun _ _ _ _ _ => Or.inr trivial) h₀

/-- **Commits of a kind are at most what they increase.** -/
theorem Sound.length_le {m : σ → ℕ} {c : ο → θ → ρ → Prop} (hC : C.Kept body)
    (hmono : ∀ {op now K d d' r}, C.commits op now K d d' r → m d ≤ m d')
    (hcount : ∀ {op now K d d' r}, C.commits op now K d d' r → c op now r → m d < m d')
    (h : Sound C s) (hs : Sys.Steps body s s') {ts : List τ} (hts : ts.Nodup)
    (hbefore : ∀ t ∈ ts, ∀ op now r, s.txns t ≠ .committed op now r)
    (hafter : ∀ t ∈ ts, ∃ op now r, s'.txns t = .committed op now r ∧ c op now r) :
    ts.length + m s.db ≤ m s'.db := by
  induction hs generalizing ts with
  | refl =>
      cases ts with
      | nil => rw [List.length_nil, Nat.zero_add]
      | cons t ts =>
          obtain ⟨op, now, r, ht, -⟩ := hafter t List.mem_cons_self
          exact absurd ht (hbefore t List.mem_cons_self op now r)
  | @tail s₁ s₂ hrun hstep ih =>
      obtain ⟨a, ha⟩ := hstep
      cases (h.steps hC hrun).outcome ha with
      | quiet hdb hcommitted =>
          rw [hdb]
          refine ih hts hbefore fun t ht => ?_
          obtain ⟨op, now, r, hcommit, hc⟩ := hafter t ht
          exact ⟨op, now, r, (hcommitted t op now r).mp hcommit, hc⟩
      | commit op now r w hactive hcommit hcommitted =>
          -- whoever else has committed had committed before
          have hothers : ∀ t ∈ ts, t ≠ a.txn →
              ∃ op now r, s₁.txns t = .committed op now r ∧ c op now r := by
            intro t ht hne
            obtain ⟨op', now', r', hcommit', hc⟩ := hafter t ht
            refine ⟨op', now', r', ?_, hc⟩
            exact ((hcommitted t op' now' r').mp hcommit').resolve_right fun hnew => hne hnew.1
          by_cases hmem : a.txn ∈ ts
          · have hlength : (ts.erase a.txn).length + 1 = ts.length := by
              rw [List.length_erase_of_mem hmem]
              exact Nat.sub_add_cancel (List.length_pos_of_mem hmem)
            have hrest := ih (hts.erase a.txn)
              (fun t ht => hbefore t (List.mem_of_mem_erase ht))
              (fun t ht => hothers t (List.mem_of_mem_erase ht) (hts.mem_erase_iff.mp ht).1)
            have hc : c op now r := by
              obtain ⟨op', now', r', hcommit', hc⟩ := hafter _ hmem
              rcases (hcommitted _ op' now' r').mp hcommit' with hold | ⟨-, rfl, rfl, rfl⟩
              · rw [hactive] at hold
                cases hold
              · exact hc
            have hlt := hcount hcommit hc
            omega
          · refine (ih hts hbefore fun t ht => hothers t ht ?_).trans (hmono hcommit)
            rintro rfl
            exact hmem ht

/-- **What only commits of a kind increase** is at most their number. -/
theorem Sound.exists_committed {m : σ → ℕ} {c : ο → θ → ρ → Prop} (hC : C.Kept body)
    (hone : ∀ {op now K d d' r}, C.commits op now K d d' r → m d' ≤ m d + 1)
    (hnone : ∀ {op now K d d' r}, C.commits op now K d d' r → ¬c op now r → m d' ≤ m d)
    (h : Sound C s) (hs : Sys.Steps body s s') :
    ∃ ts : List τ, ts.Nodup ∧ (∀ t ∈ ts, (∀ op now r, s.txns t ≠ .committed op now r) ∧
      ∃ op now r, s'.txns t = .committed op now r ∧ c op now r) ∧
        m s'.db ≤ m s.db + ts.length := by
  induction hs with
  | refl => exact ⟨[], List.nodup_nil, nofun, le_rfl⟩
  | @tail s₁ s₂ hrun hstep ih =>
      obtain ⟨a, ha⟩ := hstep
      obtain ⟨ts, hts, hall, hle⟩ := ih
      have hsound := h.steps hC hrun
      have hstill : ∀ t ∈ ts, (∀ op now r, s.txns t ≠ .committed op now r) ∧
          ∃ op now r, s₂.txns t = .committed op now r ∧ c op now r := by
        intro t ht
        obtain ⟨hnew, op, now, r, hcommit, hc⟩ := hall t ht
        exact ⟨hnew, op, now, r, hsound.committed_stays hC (.single ⟨a, ha⟩) hcommit, hc⟩
      cases hsound.outcome ha with
      | quiet hdb _ => exact ⟨ts, hts, hstill, hdb ▸ hle⟩
      | commit op now r w hactive hcommit hcommitted =>
          by_cases hc : c op now r
          · refine ⟨a.txn :: ts, List.nodup_cons.mpr ⟨fun hmem => ?_, hts⟩, fun t ht => ?_, ?_⟩
            · obtain ⟨-, op', now', r', hcommit', -⟩ := hall _ hmem
              rw [hactive] at hcommit'
              cases hcommit'
            · rcases List.mem_cons.mp ht with rfl | ht
              · refine ⟨fun op' now' r' hold => ?_, op, now, r, ?_, hc⟩
                · cases hactive.symm.trans (h.committed_stays hC hrun hold)
                · exact (hcommitted _ op now r).mpr (Or.inr ⟨rfl, rfl, rfl, rfl⟩)
              · exact hstill t ht
            · rw [List.length_cons]
              have hle' := hone hcommit
              omega
          · exact ⟨ts, hts, hstill, (hnone hcommit hc).trans hle⟩

end ReadCommitted
