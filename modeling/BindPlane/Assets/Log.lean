import BindPlane.Assets.Stored

/-!
# The audit record of concurrent edits

What any interleaving of edits leaves in the rows and in the audit record.

**One commit.**  `Commit` is what a transaction may do: nothing, or one row and one record.  The
lock on the row makes the version it has compared the current one (`Commit.row_kept`), and the
number of the record later than those of the same asset.

**A run.**  `Desk.audited` puts the commits together: the version of a row counts its records,
the records of each column chain from its first value to its last, and no two edits change a
row from the same version.
-/

namespace BindPlane.Assets

open ReadCommitted Contract

variable {J : Type} {P : Platform J} {d d' : Db J} {k : Kind} {id : String}

/-! ## The store -/

namespace Db

@[simp] theorem row?_put_self (row : Row J) : (d.put k id row).row? k id = some row := by
  unfold row? put
  dsimp only
  rw [Function.update_self, AList.lookup_insert]

theorem row?_put_ne {k' : Kind} {id' : String} (h : (k', id') ≠ (k, id)) (row : Row J) :
    (d.put k id row).row? k' id' = d.row? k' id' := by
  unfold row? put
  dsimp only
  by_cases hk : k' = k
  · subst hk
    have hid : id' ≠ id := fun hid => h (by rw [hid])
    rw [Function.update_self, AList.lookup_insert_ne hid]
  · rw [Function.update_of_ne hk]

/-- The second of two writes to a row stays. -/
theorem put_put (row row' : Row J) : (d.put k id row).put k id row' = d.put k id row' := by
  unfold put
  dsimp only
  rw [Function.update_self, AList.insert_insert, Function.update_idem]

@[simp] theorem row?_addEvent (e : Event J) : (d.addEvent e).row? k id = d.row? k id := rfl

end Db

/-- A record of an edit of an asset. -/
def Event.about (k : Kind) (id : String) (e : Event J) : Bool :=
  e.action = k.asset.action && e.objectId = id

theorem Event.about_iff {e : Event J} :
    e.about k id = true ↔ e.action = k.asset.action ∧ e.objectId = id := by
  simp [about]

/-- The records of an asset. -/
def Db.log (d : Db J) (k : Kind) (id : String) : List (Event J) := d.events.filter (Event.about k id)

@[simp] theorem Db.log_put (row : Row J) (k' : Kind) (id' : String) :
    (d.put k id row).log k' id' = d.log k' id' := rfl

theorem Db.log_addEvent (e : Event J) :
    (d.addEvent e).log k id = if e.about k id then d.log k id ++ [e] else d.log k id := by
  show (d.events ++ [e]).filter _ = _
  rw [List.filter_append]
  split
  · next h => exact congrArg _ (List.filter_cons_of_pos h)
  · next h => exact (congrArg _ (List.filter_cons_of_neg h)).trans (List.append_nil _)

theorem updateEvent_about {actor : Actor} {n : ℕ} {cell : Column → Value J}
    {set : List (Column × Value J × Change J)} {k' : Kind} {id' : String} :
    (updateEvent actor k id n cell set).about k' id' = true ↔ (k', id') = (k, id) := by
  rw [Event.about_iff, Prod.mk.injEq]
  exact and_congr ⟨fun h => (Kind.action_injective h).symm, fun h => h ▸ rfl⟩ eq_comm

/-! ## One commit -/

section Commit

variable [DecidableEq J]

/-- **The contract**: what a commit may do.

An edit ends in one of two ways, without any effect or with a row and its record.  There is no third
one, also not if a statement behind the update fails: then the update is undone as well. -/
inductive Commit (P : Platform J) (req : Request) (times : Times) (K : Set (Resource Key)) :
    Db J → Db J → ℕ → Prop
  | unchanged {d : Db J} (row : Row J) (next : Next J)
      (hrow : d.row? req.edit.kind req.id = some row)
      (hversion : (row.version : ℤ) = req.edit.version)
      (hnext : req.edit.next P req.sealed times.handler = .ok next)
      (hsame : auditFields P req.edit.kind row next = []) :
      Commit P req times K d d row.version
  | changed {d : Db J} (row : Row J) (next : Next J) (cell cell' : Column → Value J) (n : ℕ)
      (hkey : .key (.row req.edit.kind req.id) ∈ K)
      (hrow : d.row? req.edit.kind req.id = some row)
      (hversion : (row.version : ℤ) = req.edit.version)
      (hnext : req.edit.next P req.sealed times.handler = .ok next)
      (hne : auditFields P req.edit.kind row next ≠ [])
      (hassign : assign P (auditFields P req.edit.kind row next) row.cell = some cell)
      (hhook : ∀ c, c ≠ .nextRunAt → cell' c = cell c)
      (hserial : .serial n ∈ K)
      (hlater : ∀ e ∈ d.log req.edit.kind req.id, e.id < n) :
      Commit P req times K d
        ((d.put req.edit.kind req.id ⟨row.version + 1, cell'⟩).addEvent
          (updateEvent req.actor req.edit.kind req.id n cell
            (auditFields P req.edit.kind row next)))
        (row.version + 1)

variable {req : Request} {times : Times} {K : Set (Resource Key)} {r : ℕ}

/-- A row whose lock is somebody else's stays, with its records. -/
theorem Commit.row_kept (h : Commit P req times K d d' r) (hkey : .key (.row k id) ∉ K) :
    d'.row? k id = d.row? k id ∧ d'.log k id = d.log k id := by
  cases h with
  | unchanged => exact ⟨rfl, rfl⟩
  | changed row next cell cell' n hk =>
      have hne : (k, id) ≠ (req.edit.kind, req.id) := by
        rintro heq
        cases heq
        exact hkey hk
      refine ⟨Db.row?_put_ne hne _, ?_⟩
      rw [Db.log_addEvent, if_neg fun habout => hne (updateEvent_about.mp habout), Db.log_put]

/-- What a commit has read and what was requested of it. -/
theorem Commit.row_next (h : Commit P req times K d d' r) : ∃ row next,
    d.row? req.edit.kind req.id = some row ∧
      req.edit.next P req.sealed times.handler = .ok next := by
  cases h with
  | unchanged row next hrow hversion hnext => exact ⟨row, next, hrow, hnext⟩
  | changed row next cell cell' n hkey hrow hversion hnext => exact ⟨row, next, hrow, hnext⟩

/-- The store and the numbers drawn: records have numbers that were drawn. -/
def Db.Numbered (d : Db J) (n : ℕ) : Prop := ∀ e ∈ d.events, e.id < n

def contract (P : Platform J) : Contract (Db J) Key Request Times ℕ where
  inv := Db.Numbered
  inv_mono h hn e he := (h e he).trans_le hn
  commits := Commit P

variable {v v' : View (Db J) Key}

theorem row_stable (hkey : .key (.row k id) ∈ v.held) (h : (contract P).Since v v') :
    v'.db.row? k id = v.db.row? k id ∧ v'.db.log k id = v.db.log k id :=
  interference_induct (P := fun d d' => d'.row? k id = d.row? k id ∧ d'.log k id = d.log k id)
    (fun _ => ⟨rfl, rfl⟩)
    (by rintro _ _ _ ⟨hrow, hlog⟩ ⟨hrow', hlog'⟩; exact ⟨hrow'.trans hrow, hlog'.trans hlog⟩)
    (fun hK hc => Commit.row_kept hc (Set.disjoint_left.mp hK hkey)) h.rel

theorem ended_of_commit (hv : (contract P).Good v)
    (hc : Commit P req times v.held v.db v.snapshot r) :
    (contract P).Ended (ε := Failure) req times (.ok r) v := by
  refine ⟨?_, hc⟩
  generalize v.snapshot = d' at hc
  cases hc with
  | unchanged => exact hv.1
  | changed row next cell cell' n hkey hrow hversion hnext hne hassign hhook hserial =>
      intro e he
      rcases List.mem_append.mp he with he | he
      · exact hv.1 e he
      · cases List.mem_singleton.mp he
        exact hv.2 n hserial

/-! ## The programs keep the contract -/

variable {β : Type} {Q : Except Failure β → View (Db J) Key → Prop}

/-- The hook writes the next run, if anything. -/
theorem hook_bind {now : Instant} {version : ℕ} {cell : Column → Value J} {e : Event J}
    {g : Unit → Txn J β} (hv : (contract P).Good v) (he : ∀ e v, Q (.error e) v)
    (hpending : ∀ d, v.pending d = (d.put k id ⟨version, cell⟩).addEvent e)
    (h : ∀ v' cell', (contract P).Since v v' → (contract P).Good v' →
      (∀ c, c ≠ .nextRunAt → cell' c = cell c) →
      (∀ d, v'.pending d = (d.put k id ⟨version, cell'⟩).addEvent e) →
      (g ()).Ensures (contract P).interference Q v') :
    ((hook P k id now).bind g).Ensures (contract P).interference Q v := by
  have hsame : (g ()).Ensures (contract P).interference Q v :=
    h v cell (Later.refl v).since hv (fun _ _ => rfl) hpending
  cases k with
  | schedule =>
      show (Tx.bind (recomputeNextRun P id now) g).Ensures _ _ _
      simp only [recomputeNextRun, Tx.bind_eq, Tx.bind_assoc]
      refine hv.snapshot fun v₁ h₁ hv₁ => ?_
      refine Tx.Ensures.expect_bind (fun row hrow => ?_) (fun _ _ _ => he _ _)
      have hrow' : row = ⟨version, cell⟩ := by
        rw [View.snapshot, h₁.pending, hpending] at hrow
        simpa using hrow.symm
      subst hrow'
      -- whatever the next run is, it alone is written
      have hwrite : ∀ x : Value J, ((Tx.update fun s : Db J => s.put .schedule id
          ⟨version, Function.update cell .nextRunAt x⟩).bind g).Ensures
            (contract P).interference Q v₁ := by
        intro x
        refine hv₁.update fun v₂ h₂ hv₂ => ?_
        refine h _ (Function.update cell .nextRunAt x) ?_ hv₂ ?_ ?_
        · exact h₁.since.trans h₂.since
        · exact fun c hc => Function.update_of_ne hc _ _
        · intro d
          rw [View.queue_pending, Function.comp_apply, h₂.pending, h₁.pending, hpending]
          exact congrArg (Db.addEvent · e) (Db.put_put _ _)
      split
      · split
        · exact hwrite _
        · exact fun _ _ => he _ _
      · exact hwrite _
  | _ => exact hsame

theorem claimEntry_bind {old new : Column → Value J} {g : Unit → Txn J β}
    (hv : (contract P).Good v)
    (h : ∀ v', (contract P).Later v v' → (contract P).Good v' →
      (g ()).Ensures (contract P).interference Q v') :
    ((claimEntry k old new).bind g).Ensures (contract P).interference Q v := by
  have hsame : (g ()).Ensures (contract P).interference Q v := h v (Later.refl v) hv
  unfold claimEntry
  split
  · exact hsame
  · split
    · split
      · exact hsame
      · exact hv.acquire fun v' h' hv' _ => h v' h' hv'
    · exact hsame

/-- **Every request keeps the contract.** -/
theorem body_kept : (contract P).Kept (body P) := by
  intro req times v hinv hpending hheld
  have hv : (contract P).Good v := ⟨hinv, by simp [hheld]⟩
  unfold body
  split
  · exact fun _ _ => trivial
  · next next hnext =>
    simp only [updateAuditedThen, selectForUpdate, Tx.bind_eq, Tx.bind_assoc, Tx.pure_eq]
    refine Tx.Ensures.require_bind (fun _ => ?_) (fun _ _ _ => trivial)
    refine Tx.Ensures.require_bind (fun _ => ?_) (fun _ _ _ => trivial)
    refine hv.snapshot fun v₁ h₁ hv₁ => ?_
    refine Tx.Ensures.expect_bind (fun _ _ => ?_) (fun _ _ _ => trivial)
    refine hv₁.acquire fun v₂ h₂ hv₂ hkey => hv₂.snapshot fun v₃ h₃ hv₃ => ?_
    have hpending₃ := h₃.pending.trans (h₂.pending.trans (h₁.pending.trans hpending))
    refine Tx.Ensures.expect_bind (fun row hrow => ?_) (fun _ _ _ => trivial)
    refine Tx.Ensures.require_bind (fun hversion => ?_) (fun _ _ _ => trivial)
    have hversion := of_decide_eq_true hversion
    have hrow₃ : v₃.db.row? req.edit.kind req.id = some row := by
      rw [View.snapshot, hpending₃] at hrow
      exact hrow
    split
    · next hsame =>
      refine hv₃.pure fun v₄ h₄ hv₄ => ended_of_commit hv₄ ?_
      rw [View.snapshot, h₄.pending, hpending₃]
      refine .unchanged row next ?_ hversion hnext hsame
      rw [(row_stable (h₃.held hkey) h₄.since).1, hrow₃]
    · next hne =>
      refine Tx.Ensures.expect_bind (fun cell hcell => ?_) (fun _ _ _ => trivial)
      refine Tx.Ensures.require_bind (fun _ => ?_) (fun _ _ _ => trivial)
      refine claimEntry_bind hv₃ fun v₄ h₄ hv₄ => hv₄.snapshot fun v₅ h₅ hv₅ => ?_
      refine Tx.Ensures.require_bind (fun _ => ?_) (fun _ _ _ => trivial)
      refine hv₅.update fun v₆ h₆ hv₆ => ?_
      refine Good.nextSerial (v := v₆.queue _) hv₆ fun n v₇ h₇ hv₇ hserial _ hnumbered => ?_
      refine hv₇.update fun v₈ h₈ hv₈ => ?_
      have hpending₆ := h₆.pending.trans (h₅.pending.trans (h₄.pending.trans hpending₃))
      have hpending₈ : ∀ d, (v₈.queue fun s : Db J => s.addEvent (updateEvent req.actor
          req.edit.kind req.id n cell (auditFields P req.edit.kind row next))).pending d =
          (d.put req.edit.kind req.id ⟨row.version + 1, cell⟩).addEvent (updateEvent req.actor
            req.edit.kind req.id n cell (auditFields P req.edit.kind row next)) := by
        intro d
        rw [View.queue_pending, Function.comp_apply, h₈.pending, h₇.pending, View.queue_pending,
          Function.comp_apply, hpending₆]
        rfl
      refine hook_bind (v := v₈.queue _) hv₈ (fun _ _ => trivial) hpending₈
        fun v₉ cell' h₉ hv₉ hhook hpending₉ => ?_
      refine hv₉.pure fun v₁₀ h₁₀ hv₁₀ => ended_of_commit hv₁₀ ?_
      have hlast : (contract P).Since v₇ v₁₀ :=
        h₈.since.trans (Since.trans (w := v₉) h₉ h₁₀.since)
      have hlate : (contract P).Since v₃ v₇ := h₄.since.trans
        (h₅.since.trans (h₆.since.trans (Since.trans (w := v₇) h₇.since (Later.refl v₇).since)))
      have hkey₃ := h₃.held hkey
      rw [View.snapshot, h₁₀.pending, hpending₉]
      refine .changed row next cell cell' n (hlast.held (hlate.held hkey₃)) ?_ hversion hnext hne
        hcell hhook (hlast.held hserial) ?_
      · rw [(row_stable hkey₃ (hlate.trans hlast)).1, hrow₃]
      · rw [(row_stable (hlate.held hkey₃) hlast).2]
        exact fun e he => hnumbered e (List.mem_filter.mp he).1

end Commit

/-! ## The record of an asset -/

/-- What a record says of a column. -/
def Event.entry (c : Column) (e : Event J) : Option (Change J) := e.changes.lookup c

/-- What some records say of a column, one after the other. -/
def trail (c : Column) (es : List (Event J)) : List (Change J) := es.filterMap (Event.entry c)

/-- Changes that lead from one value to another, each from where the last one led. -/
def Chain (b : Value J) : Value J → List (Change J) → Prop
  | a, [] => a = b
  | a, .fromTo old new :: rest => old = a ∧ Chain b new rest
  | _, _ :: _ => False

theorem Chain.snoc {a b b' : Value J} {l : List (Change J)} (h : Chain b a l) :
    Chain b' a (l ++ [.fromTo b b']) := by
  induction l generalizing a with
  | nil => exact ⟨h.symm, rfl⟩
  | cons x l ih =>
      cases x with
      | fromTo old new => exact ⟨h.1, ih h.2⟩
      | cleared => exact h
      | replaced => exact h

/-- The only record about a column is the one that is found. -/
theorem Event.entry_eq_some {e : Event J} (hnodup : (e.changes.map Prod.fst).Nodup) {c : Column}
    {x : Change J} : e.entry c = some x ↔ (c, x) ∈ e.changes := by
  unfold Event.entry
  generalize e.changes = changes at hnodup
  induction changes with
  | nil => simp
  | cons y changes ih =>
      obtain ⟨hy, hrest⟩ := List.nodup_cons.mp hnodup
      rw [List.lookup_cons, List.mem_cons]
      by_cases hc : c = y.1
      · subst hc
        have hno : (y.1, x) ∉ changes := fun hmem => hy (List.mem_map.mpr ⟨_, hmem, rfl⟩)
        rw [beq_self_eq_true, or_iff_left hno]
        exact ⟨fun h => by cases h; rfl, fun h => by rw [← h]⟩
      · rw [beq_false_of_ne hc, ih hrest, or_iff_right fun h => hc (congrArg Prod.fst h)]

/-- **A history**: records that lead from one row to another, each describing its edit.

A history is read from the first row to the last, record by record: each record describes the edit
between two rows, and the rows in between are determined by it up to secrets. -/
inductive History (P : Platform J) (k : Kind) (row : Row J) : List (Event J) → Row J → Prop
  | start : History P k row [] row
  | edit {es : List (Event J)} {row' row'' : Row J} {e : Event J} (h : History P k row es row')
      (he : Describes P k row' row'' e.changes) : History P k row (es ++ [e]) row''

variable {row row' : Row J} {es : List (Event J)}

/-- The version counts the records. -/
theorem History.version (h : History P k row es row') :
    row'.version = row.version + es.length := by
  induction h with
  | start => rfl
  | edit h he ih => rw [he.version, ih, List.length_append, List.length_singleton, Nat.add_assoc]

/-- **The records of a column chain** from its first value to its last. -/
theorem History.chain (h : History P k row es row') {f : AssetField} (hf : f ∈ k.asset.fields)
    (hsecret : f.secret = false) :
    Chain (auditValue P (row'.cell f.column) f.json) (auditValue P (row.cell f.column) f.json)
      (trail f.column es) := by
  induction h with
  | start => rfl
  | @edit es row' row'' e h he ih =>
      have hnamed := he.named f hf hsecret
      unfold trail at ih ⊢
      rw [List.filterMap_append]
      cases hentry : e.entry f.column with
      | none =>
          have hsame : auditValue P (row'.cell f.column) f.json =
              auditValue P (row''.cell f.column) f.json := by
            by_contra hne
            have hmem := (hnamed _).mpr ⟨hne, rfl⟩
            rw [(Event.entry_eq_some he.once).mpr hmem] at hentry
            cases hentry
          rw [List.filterMap_cons_none hentry, List.filterMap_nil, List.append_nil, ← hsame]
          exact ih
      | some x =>
          obtain ⟨-, rfl⟩ := (hnamed x).mp ((Event.entry_eq_some he.once).mp hentry)
          rw [List.filterMap_cons_some hentry, List.filterMap_nil]
          exact ih.snoc

/-! ## Runs -/

/-- What an edit that changes something does to the store: one row, and one record of it.

The row and the record belong to one commit, and neither is there without the other.  The actor and
the name in the record are those of this request and of the row that it leaves. -/
structure Records (P : Platform J) (req : Request) (row row' : Row J) (e : Event J)
    (d d' : Db J) : Prop where
  was : d.row? req.edit.kind req.id = some row
  version : (row.version : ℤ) = req.edit.version
  describes : Describes P req.edit.kind row row' e.changes
  actor : e.actor = req.actor
  about : e.about req.edit.kind req.id = true
  objectName : e.objectName = row'.cell req.edit.kind.asset.label
  later : ∀ e' ∈ d.log req.edit.kind req.id, e'.id < e.id
  writes : d' = (d.put req.edit.kind req.id row').addEvent e

theorem Records.row?_log {req : Request} {row row' : Row J} {e : Event J}
    (h : Records P req row row' e d d') :
    d'.row? k id = (if (k, id) = (req.edit.kind, req.id) then some row' else d.row? k id) ∧
      d'.log k id =
        if (k, id) = (req.edit.kind, req.id) then d.log k id ++ [e] else d.log k id := by
  have habout := Event.about_iff.mp h.about
  have hiff : e.about k id = true ↔ (k, id) = (req.edit.kind, req.id) := by
    rw [Event.about_iff, habout.1, habout.2, Prod.mk.injEq]
    exact and_congr ⟨fun h => (Kind.action_injective h).symm, fun h => h ▸ rfl⟩ eq_comm
  rw [h.writes, Db.row?_addEvent, Db.log_addEvent, Db.log_put]
  split
  · next hsame =>
      obtain ⟨rfl, rfl⟩ := Prod.mk.injEq .. ▸ hsame
      rw [Db.row?_put_self, if_pos (hiff.mpr rfl)]
      exact ⟨rfl, rfl⟩
  · next hne =>
      rw [Db.row?_put_ne hne, if_neg fun h => hne (hiff.mp h)]
      exact ⟨rfl, rfl⟩

section Runs

/-- **What a step does.**  A commit that changes something answers the next version and leaves
its record; anything else, a failure of any kind among it, leaves the store alone. -/
inductive Recorded (P : Platform J) (s s' : Desk J) (t : ℕ) : Prop
  | nothing (hdb : s'.db = s.db)
      (hcommitted : ∀ t' req times r, s'.txns t' = .committed req times r →
        s.txns t' = .committed req times r ∨ (r : ℤ) = req.edit.version)
  | change (req : Request) (times : Times) (row row' : Row J) (e : Event J)
      (hdb : Records P req row row' e s.db s'.db)
      (hcommitted : ∀ t' req' times' r, s'.txns t' = .committed req' times' r ↔
        s.txns t' = .committed req' times' r ∨
          (t' = t ∧ req' = req ∧ times' = times ∧ r = row'.version))

variable {s s' : Desk J} {db : Db J} {n : ℕ}

theorem Kind.label_ne {k : Kind} : k.asset.label ≠ .nextRunAt := by
  cases k <;> decide

/-- **A step of the desk**, where the JSON of the requests is in range.

A step of the system is one statement of one transaction, and almost all of them do nothing to the
store.  The one that commits is either without effect or an edit as `Records` has it; there is no
state in which the row has been written and the record has not. -/
theorem Desk.recorded [DecidableEq J] (hP : P.Lawful) (hs : Sound (contract P) s)
    {a : Action ℕ Request Times}
    (ha : s.step (body P) a = some s')
    (hrange : ∀ t req, (s.txns t).op? = some req → req.edit.InRange P) :
    Recorded P s s' a.txn := by
  cases hs.outcome ha with
  | quiet hdb hcommitted => exact .nothing hdb fun t' req times r h => Or.inl ((hcommitted ..).mp h)
  | commit req times r w hrun hcommit hcommitted =>
      have hreq := hrange a.txn req (by rw [hrun]; rfl)
      generalize hdb : s'.db = d' at hcommit
      cases hcommit with
      | unchanged row next hrow hversion =>
          refine .nothing hdb fun t' req' times' r' h => ?_
          rcases (hcommitted ..).mp h with h | ⟨rfl, rfl, rfl, rfl⟩
          · exact Or.inl h
          · exact Or.inr hversion
      | changed row next cell cell' m hkey hrow hversion hnext hne hassign hhook hserial hlater =>
          refine .change req times row ⟨row.version + 1, cell'⟩ (updateEvent req.actor req.edit.kind
            req.id m cell (auditFields P req.edit.kind row next)) ?_ hcommitted
          refine ⟨hrow, hversion, ?_, rfl, updateEvent_about.mpr rfl, ?_, hlater, hdb⟩
          · exact .of_assign hP (Edit.next_fits hreq hnext) hne hassign hhook
          · exact (hhook _ Kind.label_ne).symm

/-- Only the transaction that moves commits. -/
theorem Desk.committed_old [DecidableEq J] {a : Action ℕ Request Times}
    (ha : s.step (body P) a = some s') {t : ℕ} {req : Request} {times : Times} {r : ℕ}
    (ht : s'.txns t = .committed req times r) (hno : s.txns t ≠ .committed req times r) :
    t = a.txn := by
  by_contra hne
  have hsame : s'.txns t = s.txns t := by
    cases Sys.step_moved ha with
    | quiet _ _ htxns => rw [htxns, Function.update_of_ne hne]
    | commit _ _ _ _ _ _ htxns => rw [htxns, Function.update_of_ne hne]
  exact hno (hsame ▸ ht)

/-- **The record of all assets**, in every state of a run.

This is what an auditor can rely on: who has the first row of an asset and its records has the whole
course of the columns that are not secret, and no column has been changed that no record tells of.
-/
structure Audited [DecidableEq J] (P : Platform J) (db : Db J) (s : Desk J) : Prop where
  /-- Two edits that change an asset from the same version are one. -/
  once : ∀ t t' req req' times times' r r', s.txns t = .committed req times r →
    s.txns t' = .committed req' times' r' → req.edit.kind = req'.edit.kind → req.id = req'.id →
      req.edit.version = req'.edit.version → (r : ℤ) ≠ req.edit.version →
        (r' : ℤ) ≠ req'.edit.version → t = t'
  /-- The records since the start lead from the first row to the present one, in the order of
  their numbers. -/
  history : ∀ k id row, db.row? k id = some row → ∃ row' es, s.db.row? k id = some row' ∧
    s.db.log k id = db.log k id ++ es ∧ History P k row es row' ∧
      (es.map Event.id).Pairwise (· < ·)
  absent : ∀ k id, db.row? k id = none →
    s.db.row? k id = none ∧ s.db.log k id = db.log k id
  /-- What every next step does. -/
  recorded : ∀ a s', s.step (body P) a = some s' → Recorded P s s' a.txn

/-- An edit that changed a row answered the version it left, or an earlier one than now. -/
def Answered (s : Desk J) : Prop :=
  ∀ t req times r, s.txns t = .committed req times r → (r : ℤ) ≠ req.edit.version →
    (r : ℤ) = req.edit.version + 1 ∧
      ∃ row, s.db.row? req.edit.kind req.id = some row ∧ r ≤ row.version

theorem Answered.step {a : ℕ} (h : Answered s) (hstep : Recorded P s s' a) : Answered s' := by
  intro t req times r ht hr
  cases hstep with
  | nothing hdb hcommitted =>
      rw [hdb]
      rcases hcommitted t req times r ht with ht | heq
      · exact h t req times r ht hr
      · exact absurd heq hr
  | change req' times' row row' e hdb hcommitted =>
      rw [hdb.row?_log.1]
      have hversion := hdb.describes.version
      rcases (hcommitted t req times r).mp ht with ht | ⟨rfl, rfl, rfl, rfl⟩
      · obtain ⟨hnext, row₀, hrow₀, hle⟩ := h t req times r ht hr
        refine ⟨hnext, ?_⟩
        split
        · next hsame =>
            obtain ⟨hk, hid⟩ := Prod.mk.injEq .. ▸ hsame
            rw [hk, hid, hdb.was] at hrow₀
            cases hrow₀
            exact ⟨row', rfl, by omega⟩
        · exact ⟨row₀, hrow₀, hle⟩
      · rw [if_pos rfl]
        refine ⟨?_, row', rfl, le_rfl⟩
        have hwas := hdb.version
        omega

/-- Two changes from one version are one: the first moves the version on. -/
theorem Answered.once {a : ℕ} (h : Answered s) (hstep : Recorded P s s' a) {t : ℕ}
    {req req' : Request} {times times' : Times} {r r' : ℕ}
    (ht : s.txns t = .committed req times r) (ha : s'.txns a = .committed req' times' r')
    (hnew : s.txns a ≠ .committed req' times' r') (hk : req.edit.kind = req'.edit.kind)
    (hid : req.id = req'.id) (hversion : req.edit.version = req'.edit.version)
    (hr : (r : ℤ) ≠ req.edit.version) : (r' : ℤ) = req'.edit.version := by
  cases hstep with
  | nothing hdb hcommitted => exact ((hcommitted _ _ _ _ ha).resolve_left hnew)
  | change req₁ times₁ row row' e hdb hcommitted =>
      obtain ⟨-, rfl, rfl, rfl⟩ := ((hcommitted _ _ _ _).mp ha).resolve_left hnew
      obtain ⟨hnext, row₀, hrow₀, hle⟩ := h t req times r ht hr
      rw [hk, hid, hdb.was] at hrow₀
      cases hrow₀
      have hwas := hdb.version
      omega

theorem Recorded.history {t : ℕ} (h : Recorded P s s' t) {row₀ row : Row J} {es : List (Event J)}
    (hrow : s.db.row? k id = some row) (hlog : s.db.log k id = db.log k id ++ es)
    (hes : History P k row₀ es row) (hsorted : (es.map Event.id).Pairwise (· < ·)) :
    ∃ row' es', s'.db.row? k id = some row' ∧ s'.db.log k id = db.log k id ++ es' ∧
      History P k row₀ es' row' ∧ (es'.map Event.id).Pairwise (· < ·) := by
  cases h with
  | nothing hdb _ => exact ⟨row, es, hdb ▸ hrow, hdb ▸ hlog, hes, hsorted⟩
  | change req times row₁ row' e hdb _ =>
      rw [hdb.row?_log.1, hdb.row?_log.2]
      split
      · next hsame =>
          obtain ⟨rfl, rfl⟩ := Prod.mk.injEq .. ▸ hsame
          have hsame : row₁ = row := Option.some.inj (hdb.was.symm.trans hrow)
          subst hsame
          refine ⟨row', es ++ [e], rfl, ?_, .edit hes hdb.describes, ?_⟩
          · rw [hlog, List.append_assoc]
          · rw [List.map_append, List.pairwise_append]
            refine ⟨hsorted, List.pairwise_singleton _ _, fun x hx y hy => ?_⟩
            obtain ⟨e', he', rfl⟩ := List.mem_map.mp hx
            rw [List.map_singleton, List.mem_singleton] at hy
            subst hy
            exact hdb.later e' (hlog ▸ List.mem_append_right _ he')
      · exact ⟨row, es, hrow, hlog, hes, hsorted⟩

theorem Recorded.absent {t : ℕ} (h : Recorded P s s' t) (hrow : s.db.row? k id = none) :
    s'.db.row? k id = none ∧ s'.db.log k id = s.db.log k id := by
  cases h with
  | nothing hdb _ =>
      rw [hdb]
      exact ⟨hrow, rfl⟩
  | change req times row row' e hdb _ =>
      have hne : (k, id) ≠ (req.edit.kind, req.id) := by
        rintro hsame
        obtain ⟨rfl, rfl⟩ := Prod.mk.injEq .. ▸ hsame
        rw [hdb.was] at hrow
        cases hrow
      rw [hdb.row?_log.1, hdb.row?_log.2, if_neg hne, if_neg hne]
      exact ⟨hrow, rfl⟩

/-- **The audit of concurrent edits.**  In every state that any interleaving of edits can reach,
with any of them failing anywhere, the record of every asset is its history.

`Audited` is a statement about the whole run and not about its last state: for every asset the
records, in the order of their numbers, lead from the first values to the current ones, one version
at a time.  The induction is over commits, and its step is `Recorded`: a commit changes one row by
one version and appends its one record, or changes nothing.  That the version which an edit has
compared is still the current one when it commits is what the lock on the row is for, and that the
records of an asset are in order is that their numbers are drawn behind it. -/
theorem Desk.audited [DecidableEq J] (hP : P.Lawful) (hdb : db.Numbered n)
    (h : Desk.Steps P (Sys.init db n) s)
    (hrange : ∀ t req, (s.txns t).op? = some req → req.edit.InRange P) : Audited P db s := by
  have hsound : ∀ s', Desk.Steps P (Sys.init db n) s' → Sound (contract P) s' :=
    fun s' hs => Sound.steps body_kept (Sound.init hdb) hs
  suffices hboth : Audited P db s ∧ Answered s from hboth.1
  induction h with
  | refl =>
      have hnone : ∀ t req times r,
          (Sys.init db n : Desk J).txns t ≠ .committed req times r := fun _ _ _ _ ht => by cases ht
      refine ⟨⟨?_, ?_, fun _ _ hrow => ⟨hrow, rfl⟩, ?_⟩, ?_⟩
      · exact fun t t' req req' times times' r r' ht => absurd ht (hnone _ _ _ _)
      · exact fun k id row hrow =>
          ⟨row, [], hrow, (List.append_nil _).symm, .start, List.Pairwise.nil⟩
      · exact fun a s' ha => recorded hP (hsound _ .refl) ha hrange
      · exact fun t req times r ht => absurd ht (hnone _ _ _ _)
  | @tail s₁ s₂ hrun hstep ih =>
      obtain ⟨a, ha⟩ := hstep
      have hrange₁ : ∀ t req, (s₁.txns t).op? = some req → req.edit.InRange P := fun t req ht =>
        hrange t req (Sys.Steps.op (Relation.ReflTransGen.single ⟨a, ha⟩) ht)
      obtain ⟨haudit, hanswered⟩ := ih hrange₁
      have hrec := haudit.recorded a s₂ ha
      refine ⟨⟨?_, ?_, ?_, ?_⟩, hanswered.step hrec⟩
      · intro t t' req req' times times' r r' ht ht' hk hid hversion hr hr'
        by_contra hne
        by_cases h₁ : s₁.txns t = .committed req times r
        · by_cases h₂ : s₁.txns t' = .committed req' times' r'
          · exact hne (haudit.once t t' req req' times times' r r' h₁ h₂ hk hid hversion hr hr')
          · obtain rfl := committed_old ha ht' h₂
            exact hr' (hanswered.once hrec h₁ ht' h₂ hk hid hversion hr)
        · obtain rfl := committed_old ha ht h₁
          by_cases h₂ : s₁.txns t' = .committed req' times' r'
          · exact hr (hanswered.once hrec h₂ ht h₁ hk.symm hid.symm hversion.symm hr')
          · exact hne (committed_old ha ht' h₂).symm
      · intro k id row hrow
        obtain ⟨row', es, hrow', hlog, hes, hsorted⟩ := haudit.history k id row hrow
        exact hrec.history hrow' hlog hes hsorted
      · intro k id hrow
        obtain ⟨hrow', hlog⟩ := haudit.absent k id hrow
        obtain ⟨hnow, hlog'⟩ := hrec.absent hrow'
        exact ⟨hnow, hlog'.trans hlog⟩
      · exact fun b s' hb => recorded hP (hsound _ (.tail hrun ⟨a, ha⟩)) hb hrange

end Runs

namespace Demo

/-- A clock that stands still is all that an edit of a group needs. -/
def location : Location where
  civil _ := ⟨1970, 1, 1, 0, 0, 0⟩
  weekday _ := 4
  date _ := 0

/-- PostgreSQL on canonical texts; no JSON is read. -/
def platform : Platform Unit where
  unmarshal _ := none
  jsonb _ := none
  uuid s := if isCanonicalUUID s then some s else none
  inet s := if validIPv4 s then some s else none
  cidr s := if canonicalIPv4Prefix s then some s else none
  storable _ := true
  regexpError _ := none
  devices := ⟨location, 0⟩

theorem platform_lawful : platform.Lawful where
  uuid _ h := if_pos h
  inet _ h := if_pos h
  cidr _ h := if_pos h
  jsonb _ _ _ h := nomatch h

def groupId : String := "3f2504e0-4f89-41d3-9a0c-0305e82c3301"

/-- One group. -/
def store : Db Unit where
  rows := Function.update (fun _ => ∅) .group
    (AList.singleton groupId ⟨1, Function.update (fun _ => .nil) .name (.text "Core")⟩)
  events := []

/-- An admin names the group. -/
def naming (version : ℤ) (name : String) : Request where
  actor := ⟨"1", "admin@test.invalid"⟩
  id := groupId
  edit := .group ⟨version, some name, none⟩
  sealed _ _ := .error .keySize

/-- Two edits of the group, the second of which asks while the first is under way. -/
def raced : Option (Desk Unit) :=
  Sys.run (body platform) (Sys.init store 0) <|
    [.request 0 (naming 1 "Edge"), .begin 0 ⟨0, 0⟩, .request 1 (naming 1 "Spine"), .begin 1 ⟨0, 0⟩,
      .advance 1, .advance 0] ++ List.replicate 8 (.advance 0) ++ List.replicate 3 (.advance 1)

/-- The second edit is stale, and the record tells the first. -/
theorem raced_audited : ∃ s, raced = some s ∧ (s.db.row? .group groupId).any (·.version = 2) ∧
    (s.db.log .group groupId).map (fun e => e.changes) =
      [[(.name, .fromTo (.text "Core") (.text "Edge"))]] ∧ Audited platform store s := by
  have hrow : (raced.any fun s => (s.db.row? .group groupId).any (·.version = 2)) = true := by
    decide +kernel
  have hlog : (raced.any fun s => (s.db.log .group groupId).map (fun e => e.changes) =
      [[(.name, .fromTo (.text "Core") (.text "Edge"))]]) = true := by decide +kernel
  obtain ⟨s, hs, hrow⟩ := (Option.any_eq_true _ _).mp hrow
  rw [hs, Option.any_some] at hlog
  refine ⟨s, hs, hrow, of_decide_eq_true hlog, Desk.audited (n := 0) platform_lawful ?_
    (Sys.run_steps hs) fun t req ht => ?_⟩
  · exact fun e he => absurd he List.not_mem_nil
  · have hmem := (Sys.run_op_back hs ht).resolve_left fun h => nomatch h
    simp only [List.cons_append, List.nil_append, List.mem_cons, List.mem_append,
      List.mem_replicate, reduceCtorEq, and_false, or_false, false_or, Action.request.injEq]
      at hmem
    rcases hmem with ⟨-, rfl⟩ | ⟨-, rfl⟩ <;> trivial

end Demo

end BindPlane.Assets
