import BindPlane.Assets.Server
import BindPlane.Assets.Log
import BindPlane.ReadCommitted.Pairs

/-!
# What nobody learns of a secret

Two runs of the admin API, from stores that are alike, with requests that are alike: they may
differ in passwords and secrets, before they are sealed and after, but not in whether there are
any.  Then every response is the same, and every audit record
(`AdminHandler.Lawful.secrets_hidden`).

**Alike.**  A relation between the two values of a secret column is a parameter of the relation
between rows (`Cells`): what the API hides is related by `SameNull`.

**Operations.**  Each takes what is alike to what is alike: a seal, a handler, an edit of a row
(`updateAuditedThen_related`), a new row (`createAudited_related`), a request (`serve_alike`).

**Why two runs.**  That a secret is not shown cannot be said of one run, since any text might happen
to occur in a response.  It is said of two runs that differ in the secrets and in nothing else: who
sees the responses and the records cannot tell which of the two he has seen.

**What is shown.**  Whether there is a secret is shown on purpose, so the two runs agree in that.
The ciphertexts differ between them too, and are treated like the secrets themselves: they must not
get out either.
-/

namespace BindPlane.Assets

open ReadCommitted Codec Tx

variable {J : Type}

/-! ## Rows that are alike -/

/-- The columns of a table whose values are secret. -/
def Kind.secrets (k : Kind) : List Column :=
  (k.asset.fields.filter AssetField.secret).map AssetField.column

theorem Kind.secret_iff {k : Kind} : ∀ f ∈ k.asset.fields,
    f.secret = true ↔ f.column ∈ k.secrets := by
  cases k <;> decide

/-- The two are null together. -/
def SameNull (v v' : Value J) : Prop := v = .nil ↔ v' = .nil

/-- Two rows that differ in their secrets at most.

The columns that are not secret are equal, and for the secret ones the relation is left open: most
of the proof does not depend on it, and it is instantiated once at the end. -/
structure Cells (S : Value J → Value J → Prop) (k : Kind) (cell cell' : Column → Value J) :
    Prop where
  shown : ∀ c ∉ k.secrets, cell' c = cell c
  hidden : ∀ c ∈ k.secrets, S (cell c) (cell' c)

theorem Cells.update {S : Value J → Value J → Prop} {k : Kind} {cell cell' : Column → Value J}
    (h : Cells S k cell cell') {c : Column} {w w' : Value J} (hw : S w w')
    (hsame : c ∉ k.secrets → w' = w) :
    Cells S k (Function.update cell c w) (Function.update cell' c w') := by
  refine ⟨fun c' hc' => ?_, fun c' hc' => ?_⟩
  · by_cases hcc : c' = c
    · subst hcc
      rw [Function.update_self, Function.update_self]
      exact hsame hc'
    · rw [Function.update_of_ne hcc, Function.update_of_ne hcc]
      exact h.shown c' hc'
  · by_cases hcc : c' = c
    · subst hcc
      rw [Function.update_self, Function.update_self]
      exact hw
    · rw [Function.update_of_ne hcc, Function.update_of_ne hcc]
      exact h.hidden c' hc'

/-- Two entries of a table. -/
structure Alike (S : Value J → Value J → Prop) (k : Kind) (e e' : Sigma fun _ : String => Row J) :
    Prop where
  id : e'.1 = e.1
  version : e'.2.version = e.2.version
  cells : Cells S k e.2.cell e'.2.cell

/-- Two stores that differ in secrets at most. -/
structure Db.Alike (S : Value J → Value J → Prop) (d d' : Db J) : Prop where
  rows : ∀ k, List.Forall₂ (Assets.Alike S k) (d.rows k).entries (d'.rows k).entries
  events : d'.events = d.events

/-- Two states of the server that differ in secrets at most. -/
structure Server.Alike (S : Value J → Value J → Prop) (s s' : Server J) : Prop where
  db : s.db.Alike S s'.db
  seq : s'.seq = s.seq
  createdAt : s'.createdAt = s.createdAt

section Store

variable {S : Value J → Value J → Prop} {k : Kind} {id : String}

/-- Two rows by one key. -/
def RowAlike (S : Value J → Value J → Prop) (k : Kind) (row row' : Row J) : Prop :=
  row'.version = row.version ∧ Cells S k row.cell row'.cell

theorem dlookup_alike {l l' : List (Sigma fun _ : String => Row J)}
    (h : List.Forall₂ (Alike S k) l l') :
    Option.Rel (RowAlike S k) (l.dlookup id) (l'.dlookup id) := by
  induction h with
  | nil => exact .none
  | @cons e e' l l' he h ih =>
      have hi := he.id
      by_cases hid : id = e.1
      · obtain ⟨i, row⟩ := e
        obtain ⟨i', row'⟩ := e'
        cases hi
        cases hid
        rw [List.dlookup_cons_eq, List.dlookup_cons_eq]
        exact .some ⟨he.version, he.cells⟩
      · rw [List.dlookup_cons_ne _ e hid, List.dlookup_cons_ne _ e' fun h => hid (h.trans hi)]
        exact ih

theorem kerase_alike {l l' : List (Sigma fun _ : String => Row J)}
    (h : List.Forall₂ (Alike S k) l l') :
    List.Forall₂ (Alike S k) (l.kerase id) (l'.kerase id) := by
  induction h with
  | nil => exact .nil
  | @cons e e' l l' he h ih =>
      have hi : e'.1 = e.1 := he.id
      by_cases hid : id = e.1
      · rw [List.kerase_cons_eq hid, List.kerase_cons_eq (hid.trans hi.symm)]
        exact h
      · rw [List.kerase_cons_ne hid, List.kerase_cons_ne fun heq => hid (heq.trans hi)]
        exact .cons he ih

variable {d d' : Db J}

theorem Db.Alike.row? (h : d.Alike S d') : Option.Rel (RowAlike S k) (d.row? k id) (d'.row? k id) :=
  dlookup_alike (h.rows k)

theorem Db.Alike.put (h : d.Alike S d') {row row' : Row J} (hrow : RowAlike S k row row') :
    (d.put k id row).Alike S (d'.put k id row') := by
  refine ⟨fun k' => ?_, h.events⟩
  unfold Db.put
  dsimp only
  by_cases hk : k' = k
  · subst hk
    rw [Function.update_self, Function.update_self, AList.entries_insert, AList.entries_insert]
    exact .cons ⟨rfl, hrow.1, hrow.2⟩ (kerase_alike (h.rows k'))
  · rw [Function.update_of_ne hk, Function.update_of_ne hk]
    exact h.rows k'

theorem Db.Alike.addEvent (h : d.Alike S d') (e : Event J) :
    (d.addEvent e).Alike S (d'.addEvent e) := by
  refine ⟨h.rows, ?_⟩
  show d'.events ++ [e] = d.events ++ [e]
  rw [h.events]

/-- What is read off two tables alike is the same. -/
theorem map_entries {β : Type} {l l' : List (Sigma fun _ : String => Row J)}
    (h : List.Forall₂ (Alike S k) l l') {f f' : (Sigma fun _ : String => Row J) → β}
    (hf : ∀ e e', Alike S k e e' → f' e' = f e) : l'.map f' = l.map f := by
  induction h with
  | nil => rfl
  | cons he h ih => rw [List.map_cons, List.map_cons, hf _ _ he, ih]

end Store

/-! ## What is requested -/

section Requested

variable {P : Platform J}

/-- Two requested values of a column of a credential: of a secret both are null, or both are texts
that can be stored. -/
def Requested (P : Platform J) (c : Column) (v v' : Value J) : Prop :=
  if c ∈ Kind.credential.secrets then
    (v = .nil ∧ v' = .nil) ∨
      ∃ t t', v = .text t ∧ v' = .text t' ∧ P.storable t = true ∧ P.storable t' = true
  else v' = v

theorem Requested.refl {c : Column} (h : c ∉ Kind.credential.secrets) (v : Value J) :
    Requested P c v v := by
  unfold Requested
  rw [if_neg h]

theorem Requested.sameNull {c : Column} {v v' : Value J} (h : Requested P c v v') :
    SameNull v v' := by
  unfold Requested at h
  unfold SameNull
  split at h
  · rcases h with ⟨rfl, rfl⟩ | ⟨t, t', rfl, rfl, -⟩
    · exact Iff.rfl
    · simp
  · rw [h]

theorem secrets_type : ∀ c ∈ Kind.credential.secrets, c.type = .text := by decide

/-- What is stored of them. -/
theorem stored_alike {c : Column} {v v' : Value J} (h : Requested P c v v') :
    Option.Rel (fun w w' => SameNull w w' ∧ (c ∉ Kind.credential.secrets → w' = w))
      (stored P c v) (stored P c v') := by
  unfold Requested at h
  split at h
  · next hc =>
      have hstored : ∀ t, P.storable t = true → stored P c (.text t) = some (.text t) := by
        intro t ht
        unfold stored
        rw [secrets_type c hc]
        exact if_pos ht
      rcases h with ⟨rfl, rfl⟩ | ⟨t, t', rfl, rfl, ht, ht'⟩
      · have hnil : stored P c (.nil : Value J) = some .nil := by
          unfold stored
          rw [secrets_type c hc]
        rw [hnil]
        exact .some ⟨Iff.rfl, fun _ => rfl⟩
      · rw [hstored t ht, hstored t' ht']
        refine .some ⟨?_, fun hno => absurd hc hno⟩
        unfold SameNull
        simp
  · subst h
    cases stored P c v' with
    | none => exact .none
    | some w => exact .some ⟨Iff.rfl, fun _ => rfl⟩

/-- The values of a statement, column by column. -/
theorem insertValues_alike {values values' : List (Column × Value J)}
    (h : List.Forall₂ (fun v v' => v'.1 = v.1 ∧ Requested P v.1 v.2 v'.2) values values') :
    ∀ {cell cell' : Column → Value J}, Cells SameNull .credential cell cell' →
      Option.Rel (Cells SameNull .credential) (insertValues P values cell)
        (insertValues P values' cell') := by
  induction h with
  | nil => intro cell cell' hcell; exact .some hcell
  | @cons v v' values values' hv h ih =>
      intro cell cell' hcell
      obtain ⟨c, v⟩ := v
      obtain ⟨c', v'⟩ := v'
      obtain ⟨hc, hv⟩ := hv
      dsimp only at hc hv
      subst hc
      have hw := stored_alike hv
      unfold insertValues at ih ⊢
      rw [List.foldlM_cons, List.foldlM_cons]
      dsimp only
      generalize stored P c' v = o at hw
      generalize stored P c' v' = o' at hw
      cases hw with
      | none => exact .none
      | @some w w' hw =>
          exact ih (hcell.update hw.1 hw.2)

variable [DecidableEq J]

/-- The constraints of a credential do not look at what is hidden. -/
theorem allows_alike {d d' : Db J} (hd : d.Alike SameNull d') {id : String}
    {cell cell' : Column → Value J} (hcell : Cells SameNull .credential cell cell') :
    Kind.credential.allows d' id cell' = Kind.credential.allows d id cell := by
  have hname : cell' .name = cell .name := hcell.shown _ (by decide)
  have husername : cell' .username = cell .username := hcell.shown _ (by decide)
  have hactive : cell' .isActive = cell .isActive := hcell.shown _ (by decide)
  have hpassword : SameNull (cell .encryptedPassword) (cell' .encryptedPassword) :=
    hcell.hidden _ (by decide)
  have hunique : Kind.credential.isUnique d' id cell' = Kind.credential.isUnique d id cell := by
    show (d'.rows .credential).entries.all _ = (d.rows .credential).entries.all _
    have hall : ∀ (l : List (Sigma fun _ : String => Row J)) p,
        l.all p = (l.map p).all (fun b => b) := by
      intro l p
      rw [List.all_map]
      rfl
    rw [hall, hall]
    refine congrArg (List.all · _) (map_entries (hd.rows .credential) fun e e' he => ?_)
    rw [he.id, hname, he.cells.shown _ (by decide)]
  unfold Kind.allows
  rw [hunique]
  unfold Kind.checked Kind.required Kind.choices Kind.references
  unfold SameNull at hpassword
  simp [hname, husername, hactive, hpassword]

theorem claimEntry_related {R : Db J → Db J → Prop} {old old' cell cell' : Column → Value J}
    (hold : old' .name = old .name) (hcell : cell' .name = cell .name) :
    Related (fun _ => true) R (fun _ _ => True)
      (claimEntry .credential old cell) (claimEntry .credential old' cell') := by
  unfold claimEntry Kind.unique
  dsimp only
  rw [hcell]
  split
  · rw [hold]
    split
    · exact .pure trivial
    · exact .acquire _
  · exact .pure trivial

end Requested

/-! ## Edits -/

section Edits

variable [DecidableEq J] {P : Platform J}

/-- Two columns to set, and what the audit record says of them. -/
def SetAlike (P : Platform J) (x x' : Column × Value J × Change J) : Prop :=
  x'.1 = x.1 ∧ x'.2.2 = x.2.2 ∧ Requested P x.1 x.2.1 x'.2.1

/-- Two maps of requested values. -/
def NextAlike (P : Platform J) (next next' : Next J) : Prop :=
  ∀ c, Option.Rel (Requested P c) (next c) (next' c)

/-- **One round of the audit** tells of a secret only whether it is cleared. -/
theorem auditField_alike {row row' : Row J} (hrow : RowAlike SameNull .credential row row')
    {next next' : Next J} (hnext : NextAlike P next next') {f : AssetField}
    (hf : f ∈ Kind.credential.asset.fields) :
    Option.Rel (SetAlike P) (auditField P row next f) (auditField P row' next' f) := by
  have hsecret := Kind.secret_iff f hf
  have hvalue := hnext f.column
  unfold auditField
  generalize next f.column = o at hvalue
  generalize next' f.column = o' at hvalue
  cases hvalue with
  | none => exact .none
  | @some v v' hv =>
      dsimp only
      by_cases hs : f.secret = true
      · have hread : f.read row' = f.read row := by
          have hnull := hrow.2.hidden _ (hsecret.mp hs)
          unfold SameNull at hnull
          unfold AssetField.read
          rw [if_pos hs, if_pos hs]
          simp [hnull]
        have hnull := hv.sameNull
        unfold SameNull at hnull
        simp only [hread, hs, true_and, if_true, ← hnull]
        split
        · exact .none
        · split
          · exact .some ⟨rfl, rfl, hv⟩
          · exact .some ⟨rfl, rfl, hv⟩
      · have hc : f.column ∉ Kind.credential.secrets := fun hc => hs (hsecret.mpr hc)
        have hread : f.read row' = f.read row := by
          unfold AssetField.read
          rw [if_neg hs, if_neg hs, hrow.2.shown _ hc]
        have heq : v' = v := by
          unfold Requested at hv
          rwa [if_neg hc] at hv
        subst heq
        simp only [hread, hs, false_and, if_false, Bool.false_eq_true]
        split
        · exact .none
        · exact .some ⟨rfl, rfl, .refl hc v'⟩

theorem auditFields_alike {row row' : Row J} (hrow : RowAlike SameNull .credential row row')
    {next next' : Next J} (hnext : NextAlike P next next') :
    List.Forall₂ (SetAlike P) (auditFields P .credential row next)
      (auditFields P .credential row' next') := by
  have hfields : ∀ fields : List AssetField, fields ⊆ Kind.credential.asset.fields →
      List.Forall₂ (SetAlike P) (fields.filterMap (auditField P row next))
        (fields.filterMap (auditField P row' next')) := by
    intro fields hsub
    induction fields with
    | nil => exact .nil
    | cons f fields ih =>
        obtain ⟨hf, hsub⟩ := List.cons_subset.mp hsub
        have hround := auditField_alike hrow hnext hf
        rw [List.filterMap_cons, List.filterMap_cons]
        generalize auditField P row next f = o at hround
        generalize auditField P row' next' f = o' at hround
        cases hround with
        | none => exact ih hsub
        | some hx => exact .cons hx (ih hsub)
  exact hfields _ (List.Subset.refl _)

omit [DecidableEq J] in
theorem assign_eq (set : List (Column × Value J × Change J)) (cell : Column → Value J) :
    assign P set cell = insertValues P (set.map fun x => (x.1, x.2.1)) cell := by
  unfold assign insertValues
  rw [List.foldlM_map]

omit [DecidableEq J] in
theorem assign_alike {set set' : List (Column × Value J × Change J)}
    (h : List.Forall₂ (SetAlike P) set set') {cell cell' : Column → Value J}
    (hcell : Cells SameNull .credential cell cell') :
    Option.Rel (Cells SameNull .credential) (assign P set cell) (assign P set' cell') := by
  rw [assign_eq, assign_eq]
  refine insertValues_alike ?_ hcell
  rw [List.forall₂_map_left_iff, List.forall₂_map_right_iff]
  exact h.imp fun x x' hx => ⟨hx.1, hx.2.2⟩

omit [DecidableEq J] in
/-- The audit records are the same. -/
theorem updateEvent_alike {set set' : List (Column × Value J × Change J)}
    (h : List.Forall₂ (SetAlike P) set set') {cell cell' : Column → Value J}
    (hcell : Cells SameNull .credential cell cell') (actor : Actor) (id : String) (n : ℕ) :
    updateEvent actor .credential id n cell' set' = updateEvent actor .credential id n cell set := by
  have hname : cell' .name = cell .name := hcell.shown _ (by decide)
  have hchanges : set'.map (fun x => (x.1, x.2.2)) = set.map fun x => (x.1, x.2.2) := by
    induction h with
    | nil => rfl
    | cons hx h ih => rw [List.map_cons, List.map_cons, hx.1, hx.2.1, ih]
  unfold updateEvent
  rw [hchanges]
  exact congrArg (fun v => Event.mk n actor _ id v _) hname

omit [DecidableEq J] in
/-- The row that an edit reads. -/
theorem selectForUpdate_related (id : String) :
    Related (fun _ => true) (Db.Alike (J := J) SameNull) (RowAlike SameNull .credential)
      (selectForUpdate .credential id) (selectForUpdate .credential id) := by
  refine Related.bind Related.snapshot fun d d' hd => ?_
  refine Related.bind (.expect hd.row? _) fun _ _ _ => ?_
  refine Related.bind (.acquire _) fun _ _ _ => ?_
  refine Related.bind Related.snapshot fun d d' hd => ?_
  exact .expect hd.row? _

/-- **Two edits of one credential** that ask for the same but for the texts of secrets.

The two edits take the same way through the function: what decides about it are the version, the
columns that are not secret, and whether a secret is there.  Where they write a ciphertext they
write two, and the audit says of both the same. -/
theorem updateAuditedThen_related {next next' : Next J} (hnext : NextAlike P next next')
    (actor : Actor) (id : String) (version : ℤ) (now : Instant) :
    Related (fun _ => true) (Db.Alike SameNull) (fun r r' => r' = r)
      (updateAuditedThen P actor .credential id version next now)
      (updateAuditedThen P actor .credential id version next' now) := by
  refine Related.bind (selectForUpdate_related id) fun row row' hrow => ?_
  refine Related.bind (.require (by rw [hrow.1]) _) fun _ _ _ => ?_
  have hset := auditFields_alike hrow hnext
  have hcells := assign_alike hset hrow.2
  dsimp only
  generalize auditFields P .credential row next = set at hset hcells
  generalize auditFields P .credential row' next' = set' at hset hcells
  have hempty : set' = [] ↔ set = [] := by
    cases hset with
    | nil => exact Iff.rfl
    | cons _ _ => exact iff_of_false (List.cons_ne_nil _ _) (List.cons_ne_nil _ _)
  rw [hrow.1]
  by_cases hnone : set = []
  · rw [if_pos hnone, if_pos (hempty.mpr hnone)]
    exact .pure rfl
  · rw [if_neg hnone, if_neg fun h => hnone (hempty.mp h)]
    refine Related.bind (.expect hcells _) fun cell cell' hcell => ?_
    refine Related.bind (.require rfl _) fun _ _ _ => ?_
    refine Related.bind (claimEntry_related (hrow.2.shown _ (by decide))
      (hcell.shown _ (by decide))) fun _ _ _ => ?_
    refine Related.bind Related.snapshot fun s s' hs => ?_
    refine Related.bind (.require (allows_alike hs hcell) _) fun _ _ _ => ?_
    refine Related.bind (.update fun d d' hd => hd.put ⟨rfl, hcell⟩) fun _ _ _ => ?_
    refine Related.bind Related.nextSerial fun n n' hn => ?_
    subst hn
    rw [updateEvent_alike hset hcell]
    refine Related.bind (.update fun d d' hd => hd.addEvent _) fun _ _ _ => ?_
    exact Related.bind (Q := fun _ _ => True) (.pure trivial) fun _ _ _ => .pure rfl

/-- **Two new credentials** that are the same but for the texts of secrets. -/
theorem createAudited_related {values values' : List (Column × Value J)}
    (h : List.Forall₂ (fun v v' => v'.1 = v.1 ∧ Requested P v.1 v.2 v'.2) values values')
    (actor : Actor) (action name id : String) :
    Related (fun _ => true) (Db.Alike SameNull) (fun r r' => r' = r)
      (createAudited P actor action name id values)
      (createAudited P actor action name id values') := by
  have hdefaults : Cells SameNull .credential (credentialDefaults (J := J)) credentialDefaults :=
    ⟨fun _ _ => rfl, fun _ _ => Iff.rfl⟩
  refine Related.bind (.expect (insertValues_alike h hdefaults) _) fun cell cell' hcell => ?_
  refine Related.bind (claimEntry_related rfl (hcell.shown _ (by decide))) fun _ _ _ => ?_
  refine Related.bind Related.snapshot fun s s' hs => ?_
  have hfree : (s'.row? .credential id).isNone = (s.row? .credential id).isNone := by
    have hrow : Option.Rel (RowAlike SameNull .credential) (s.row? .credential id)
        (s'.row? .credential id) := hs.row?
    generalize s.row? .credential id = o at hrow
    generalize s'.row? .credential id = o' at hrow
    cases hrow <;> rfl
  refine Related.bind (.require (by rw [hfree, allows_alike hs hcell]) _) fun _ _ _ => ?_
  refine Related.bind (.update fun d d' hd => hd.put ⟨rfl, hcell⟩) fun _ _ _ => ?_
  refine Related.bind Related.nextSerial fun n n' hn => ?_
  subst hn
  refine Related.bind (.update fun d d' hd => hd.addEvent _) fun _ _ _ => ?_
  exact .pure rfl

end Edits

/-! ## Handlers -/

section Handlers

variable {P : Platform J}

/-- Two handlers that refuse alike, or pass on what is related. -/
inductive Answers {α β : Type} (Q : α → β → Prop) : Except Refusal α → Except Refusal β → Prop
  | refused (r : Refusal) : Answers Q (.error r) (.error r)
  | passed {a : α} {b : β} (h : Q a b) : Answers Q (.ok a) (.ok b)

theorem Answers.bind {α β γ δ : Type} {Q : α → β → Prop} {R : γ → δ → Prop}
    {x : Except Refusal α} {y : Except Refusal β} {f : α → Except Refusal γ}
    {g : β → Except Refusal δ} (h : Answers Q x y) (hfg : ∀ a b, Q a b → Answers R (f a) (g b)) :
    Answers R (x >>= f) (y >>= g) := by
  cases h with
  | refused r => exact .refused r
  | passed h => exact hfg _ _ h

/-- A check of the same. -/
theorem check_alike {c c' : Bool} (h : c' = c) (r : Refusal) :
    Answers (fun _ _ => c = true) (check c r) (check c' r) := by
  subst h
  unfold check
  split
  · next hc => exact .passed hc
  · exact .refused r

theorem NextAlike.empty : NextAlike P Next.empty Next.empty := fun _ => .none

variable {next next' : Next J}

theorem NextAlike.set (h : NextAlike P next next') {c : Column} {v v' : Value J}
    (hv : Requested P c v v') : NextAlike P (next.set c v) (next'.set c v') := by
  intro c'
  unfold Next.set
  by_cases hc : c' = c
  · subst hc
    rw [Function.update_self, Function.update_self]
    exact .some hv
  · rw [Function.update_of_ne hc, Function.update_of_ne hc]
    exact h c'

theorem NextAlike.supply (h : NextAlike P next next') {c : Column}
    (hc : c ∉ Kind.credential.secrets) (v : Option (Value J)) :
    NextAlike P (next.supply c v) (next'.supply c v) := by
  cases v with
  | none => exact h
  | some v => exact h.set (.refl hc v)

theorem NextAlike.optionalText (h : NextAlike P next next') {c : Column}
    (hc : c ∉ Kind.credential.secrets) (s : Option String) :
    NextAlike P (optionalText next c s) (optionalText next' c s) := by
  cases s with
  | none => exact h
  | some s =>
      unfold Assets.optionalText
      dsimp only
      split
      · exact h.set (.refl hc _)
      · exact h.set (.refl hc _)

theorem NextAlike.requiredText (h : NextAlike P next next') {c : Column}
    (hc : c ∉ Kind.credential.secrets) (s : Option String) (r : Refusal) :
    Answers (NextAlike P) ((requiredText next c s).elim (.error r) .ok)
      ((requiredText next' c s).elim (.error r) .ok) := by
  cases s with
  | none => exact .passed h
  | some s =>
      unfold Assets.requiredText
      dsimp only
      split
      · exact .passed (h.set (.refl hc _))
      · exact .refused r

/-- The seal takes a text, and what it makes of it can be stored. -/
def Seals (P : Platform J) (sealed : Column → String → Except SealError String) (text : String) :
    Prop :=
  ∀ c, ∃ s, sealed c text = .ok s ∧ P.storable s = true

variable {sealed sealed' : Column → String → Except SealError String} {t t' : String}

/-- **Two texts of a secret**: there is one in both requests, or in none. -/
def SameText (t t' : String) : Prop := t = "" ↔ t' = ""

theorem requested_secret {c : Column} (hc : c ∈ Kind.credential.secrets) {s s' : String}
    (hs : P.storable s = true) (hs' : P.storable s' = true) :
    Requested P c (.text s) (.text s') := by
  unfold Requested
  rw [if_pos hc]
  exact Or.inr ⟨s, s', rfl, rfl, hs, hs'⟩

theorem sealColumn_alike (h : NextAlike P next next') {c : Column}
    (hc : c ∈ Kind.credential.secrets) (ht : SameText t t') (hseal : Seals P sealed t)
    (hseal' : Seals P sealed' t') :
    Answers (NextAlike P) (sealColumn sealed c t next) (sealColumn sealed' c t' next') := by
  obtain ⟨s, hs, hstorable⟩ := hseal c
  obtain ⟨s', hs', hstorable'⟩ := hseal' c
  unfold sealColumn
  unfold SameText at ht
  by_cases hempty : t = ""
  · rw [if_pos hempty, if_pos (ht.mp hempty)]
    exact .passed h
  · rw [if_neg hempty, if_neg fun h => hempty (ht.mpr h), hs, hs']
    exact .passed (h.set (requested_secret hc hstorable hstorable'))

/-- Two bodies of an edit. -/
structure CredentialEdit.Alike (input input' : CredentialEdit) : Prop where
  rest : input' = { input with password := input'.password, secret := input'.secret }
  password : SameText input.password input'.password
  secret : SameText input.secret input'.secret

theorem editCredential_alike {input input' : CredentialEdit} (h : input.Alike input')
    (hpassword : Seals P sealed input.password) (hsecret : Seals P sealed input.secret)
    (hpassword' : Seals P sealed' input'.password) (hsecret' : Seals P sealed' input'.secret) :
    Answers (NextAlike P) (editCredential sealed input) (editCredential sealed' input') := by
  obtain ⟨version, name, username, description, isActive, password, secret, clearSecret⟩ := input
  obtain ⟨version', name', username', description', isActive', password', secret', clear'⟩ := input'
  obtain ⟨hrest, hp, hs⟩ := h
  cases hrest
  dsimp only at hpassword hsecret hpassword' hsecret' hp hs
  unfold SameText at hs
  unfold editCredential
  dsimp only
  refine ((NextAlike.empty (P := P)).requiredText (by decide) _ _).bind fun next next' h => ?_
  refine (h.requiredText (by decide) _ _).bind fun next next' h => ?_
  refine (check_alike (by simp [hs]) _).bind fun _ _ _ => ?_
  have htexts := (h.optionalText (c := .description) (by decide) description).supply
    (c := .isActive) (by decide) (isActive.map .bool)
  refine (sealColumn_alike htexts (by decide) hp hpassword hpassword').bind fun next next' h => ?_
  refine (sealColumn_alike h (by decide) hs hsecret hsecret').bind fun next next' h => ?_
  refine .passed ?_
  split
  · refine h.set ?_
    unfold Requested
    rw [if_pos (by decide)]
    exact Or.inl ⟨rfl, rfl⟩
  · exact h

/-- Two bodies of a new credential. -/
structure CredentialInput.Alike (input input' : CredentialInput) : Prop where
  name : input'.name = input.name
  username : input'.username = input.username
  password : SameText input.password input'.password
  secret : SameText input.secret input'.secret

theorem sealText_alike {c : Column} (hc : c ∈ Kind.credential.secrets) (hseal : Seals P sealed t)
    (hseal' : Seals P sealed' t') :
    Answers (fun s s' => Requested P c (.text s) (.text s')) (sealText sealed c t)
      (sealText sealed' c t') := by
  obtain ⟨s, hs, hstorable⟩ := hseal c
  obtain ⟨s', hs', hstorable'⟩ := hseal' c
  unfold sealText
  rw [hs, hs']
  exact .passed (requested_secret hc hstorable hstorable')

/-- What two requests insert. -/
def ValuesAlike (P : Platform J) (x x' : CredentialInput × List (Column × Value J)) : Prop :=
  x'.1.name = x.1.name ∧
    List.Forall₂ (fun v v' => v'.1 = v.1 ∧ Requested P v.1 v.2 v'.2) x.2 x'.2

theorem credentialValues_alike {input input' : CredentialInput} (h : input.Alike input')
    (hpassword : Seals P sealed input.password) (hsecret : Seals P sealed input.secret)
    (hpassword' : Seals P sealed' input'.password) (hsecret' : Seals P sealed' input'.secret) :
    Answers (ValuesAlike P) (credentialValues sealed (some input))
      (credentialValues sealed' (some input')) := by
  obtain ⟨name, username, password, secret⟩ := input
  obtain ⟨name', username', password', secret'⟩ := input'
  obtain ⟨hname, husername, hp, hs⟩ := h
  cases hname
  cases husername
  unfold SameText at hp hs
  unfold credentialValues
  dsimp only at hpassword hsecret hpassword' hsecret' hp hs ⊢
  refine (check_alike (by simp [hp]) _).bind fun _ _ _ => ?_
  refine (sealText_alike (c := .encryptedPassword) (by decide) hpassword hpassword').bind
    fun s s' hsealed => ?_
  have hoptional : Answers (Requested P .encryptedSecret)
      (sealOptional (J := J) sealed .encryptedSecret secret)
      (sealOptional sealed' .encryptedSecret secret') := by
    unfold sealOptional
    by_cases hempty : secret = ""
    · rw [if_pos hempty, if_pos (hs.mp hempty)]
      refine .passed ?_
      unfold Requested
      rw [if_pos (by decide)]
      exact Or.inl ⟨rfl, rfl⟩
    · rw [if_neg hempty, if_neg fun h => hempty (hs.mpr h)]
      have hseal := sealText_alike (c := .encryptedSecret) (by decide) hsecret hsecret'
      generalize sealText sealed .encryptedSecret secret = x at hseal
      generalize sealText sealed' .encryptedSecret secret' = y at hseal
      cases hseal with
      | refused r => exact .refused r
      | passed h => exact .passed h
  refine hoptional.bind fun v v' hv => .passed ⟨rfl, ?_⟩
  refine .cons ⟨rfl, Requested.refl (c := .name) (by decide) _⟩ ?_
  refine .cons ⟨rfl, Requested.refl (c := .username) (by decide) _⟩ ?_
  exact .cons ⟨rfl, hsealed⟩ (.cons ⟨rfl, hv⟩ .nil)

end Handlers

/-! ## Seals -/

namespace AdminHandler

/-- **What the seals rely on**: GCM adds a tag of 16 bytes, and a text column takes any ASCII
text of less than a gigabyte. -/
structure Lawful (a : AdminHandler J) : Prop where
  tag : ∀ key nonce text aad, (a.gcm.sealed key nonce text aad).length = text.length + 16
  ascii : ∀ s : String, (∀ c ∈ s.toList, 0 < c.toNat ∧ c.toNat < 128) → s.length < 2 ^ 30 →
    a.platform.storable s = true

theorem sextets_length_le (bs : Bytes) : (Base64.sextets bs).length ≤ 2 * bs.length := by
  induction bs using Base64.sextets.induct with
  | case1 b₁ b₂ b₃ rest ih =>
      simp only [Base64.sextets, List.length_cons]
      omega
  | case2 b₁ b₂ => simp [Base64.sextets]
  | case3 b => simp [Base64.sextets]
  | case4 => simp [Base64.sextets]

/-- A sealed text is ASCII. -/
theorem pack_ascii (nonce : Nonce) (ciphertext : Bytes) :
    ∀ c ∈ (Api.pack nonce ciphertext).toList, 0 < c.toNat ∧ c.toNat < 128 := by
  have hdigit : ∀ n < 64, 0 < (Base64.digit Base64.urlAlphabet n).toNat ∧
      (Base64.digit Base64.urlAlphabet n).toNat < 128 := by decide +kernel
  intro c hc
  unfold Api.pack at hc
  rw [String.toList_ofList] at hc
  rcases List.mem_append.mp hc with hc | hc
  · simp only [version, List.mem_cons, List.not_mem_nil, or_false] at hc
    obtain rfl | rfl | rfl := hc <;> exact ⟨by decide, by decide⟩
  · obtain ⟨n, hn, rfl⟩ := List.mem_map.mp hc
    exact hdigit n (Base64.sextets_lt _ n hn)

theorem pack_length_le (nonce : Nonce) (ciphertext : Bytes) :
    (Api.pack nonce ciphertext).length ≤ 3 + 2 * (12 + ciphertext.length) := by
  have hsextets := sextets_length_le (nonce.bytes ++ ciphertext)
  rw [List.length_append, nonce.size] at hsextets
  unfold Api.pack
  rw [String.length_ofList, List.length_append]
  unfold Base64.encode
  rw [List.length_map]
  show 3 + _ ≤ _
  omega

variable {a : AdminHandler J}

/-- The texts of a request within the limit can be sealed. -/
theorem Lawful.seals (h : a.Lawful) (env : Around) {text : String}
    (hsize : (utf8 text).length ≤ 2 ^ 16) : Seals a.platform (a.sealed env) text := by
  intro c
  refine ⟨_, Api.adminSeal_eq (g := a.gcm) a.size (env.nonce c) (utf8 text), ?_⟩
  refine h.ascii _ (pack_ascii _ _) ?_
  have hlength := pack_length_le (env.nonce c)
    (a.gcm.sealed a.key (env.nonce c).bytes (utf8 text) [])
  rw [h.tag] at hlength
  omega

end AdminHandler

/-! ## Requests -/

/-- Two requests that find the same around them, but for the nonces. -/
structure Around.Alike (env env' : Around) : Prop where
  authorized : env'.authorized = env.authorized
  now : env'.now = env.now
  newId : env'.newId = env.newId

/-- Two requests that are the same, but for the texts of their passwords and secrets.

This is the relation between two runs that the theorem about secrets starts from: whatever the two
servers answer or record must be the same, so it cannot depend on these texts. -/
inductive Call.Alike : Call → Call → Prop
  | create {input input' : Option CredentialInput}
      (h : Option.Rel CredentialInput.Alike input input') : Call.Alike (.create input) (.create input')
  | edit (id : String) {input input' : Option CredentialEdit}
      (h : Option.Rel CredentialEdit.Alike input input') : Call.Alike (.edit id input) (.edit id input')
  | list : Call.Alike .list .list
  | audit : Call.Alike .audit .audit

/-- The body of a request has at most 64 KiB, and so have the texts in it. -/
def Call.InLimit : Call → Prop
  | .create (some input) =>
      (utf8 input.password).length ≤ 2 ^ 16 ∧ (utf8 input.secret).length ≤ 2 ^ 16
  | .edit _ (some input) =>
      (utf8 input.password).length ≤ 2 ^ 16 ∧ (utf8 input.secret).length ≤ 2 ^ 16
  | _ => True

section Served

variable [DecidableEq J] {a : AdminHandler J} {s s' : Server J} {env env' : Around}

omit [DecidableEq J] in
/-- Related transactions leave servers alike, with one answer. -/
theorem perform_alike {ρ : Type} (hs : s.Alike SameNull s') {p p' : Txn J ρ}
    (h : Related (fun _ => true) (Db.Alike SameNull) (fun r r' => r' = r) p p') (now : Instant) :
    (s.perform now p).1.Alike SameNull (s'.perform now p').1 ∧
      (s'.perform now p').2 = (s.perform now p).2 := by
  obtain ⟨db, seq, createdAt⟩ := s
  obtain ⟨db', seq', createdAt'⟩ := s'
  obtain ⟨hdb, hseq, hcreated⟩ := hs
  cases hseq
  cases hcreated
  have hends := h seq hdb
  unfold Server.perform
  dsimp only at hdb ⊢
  generalize p.solo (fun _ => true) db id seq = out at hends
  generalize p'.solo (fun _ => true) db' id seq = out' at hends
  cases hends with
  | waits => exact ⟨⟨hdb, rfl, rfl⟩, rfl⟩
  | raises e => exact ⟨⟨hdb, rfl, rfl⟩, rfl⟩
  | returns n hr hd =>
      cases hr
      exact ⟨⟨hd, rfl, rfl⟩, rfl⟩

/-- A listing selects of a secret only whether it is given. -/
def Read.discreet (k : Kind) : Read → Bool
  | .column c => c ∉ k.secrets
  | .given c => c ∈ k.secrets
  | _ => true

theorem listings_discreet : ∀ l ∈ listings,
    l.order ∉ l.kind.secrets ∧ ∀ x ∈ l.columns, x.2.discreet l.kind = true := by
  decide

/-- **A category shows the same.** -/
theorem items_alike {d d' : Db J} (hd : d.Alike SameNull d') (precedes : Value J → Value J → Bool) :
    ∀ l ∈ listings, l.items precedes d' = l.items precedes d := by
  intro l hl
  unfold Listing.items
  refine congrArg (fun m => (List.insertionSort (fun x y => precedes x.1 y.1 = true) m).map
    Prod.snd) (map_entries (hd.rows l.kind) fun e e' he => ?_)
  obtain ⟨horder, hcolumns⟩ := listings_discreet l hl
  rw [he.cells.shown _ horder, he.id]
  refine congrArg _ ?_
  unfold Listing.item
  refine List.map_congr_left fun x hx => ?_
  have hread : x.2.value e.1 e'.2 = x.2.value e.1 e.2 := by
    have hdiscreet := hcolumns x hx
    generalize x.2 = r at hdiscreet
    cases r with
    | id => rfl
    | version => exact congrArg (fun n : ℕ => Value.int64 (n : ℤ)) he.version
    | column c => exact he.cells.shown c (of_decide_eq_true hdiscreet)
    | given c =>
        have hsame := he.cells.hidden c (of_decide_eq_true hdiscreet)
        unfold SameNull at hsame
        unfold Read.value
        simp [hsame]
  rw [hread]

theorem credential_alike (ha : a.Lawful) (hs : s.Alike SameNull s') (henv : env.Alike env')
    (actor : Actor) {input input' : Option CredentialInput}
    (hinput : Option.Rel CredentialInput.Alike input input')
    (hlimit : (Call.create input).InLimit) (hlimit' : (Call.create input').InLimit) :
    (a.credential s env actor input).1.Alike SameNull (a.credential s' env' actor input').1 ∧
      (a.credential s' env' actor input').2 = (a.credential s env actor input).2 := by
  have hanswers : Answers (ValuesAlike a.platform) (credentialValues (a.sealed env) input)
      (credentialValues (a.sealed env') input') := by
    cases hinput with
    | none => exact .refused _
    | some h =>
        exact credentialValues_alike h (ha.seals env hlimit.1) (ha.seals env hlimit.2)
          (ha.seals env' hlimit'.1) (ha.seals env' hlimit'.2)
  unfold AdminHandler.credential
  generalize credentialValues (a.sealed env) input = x at hanswers
  generalize credentialValues (a.sealed env') input' = x' at hanswers
  cases hanswers with
  | refused r => exact ⟨hs, rfl⟩
  | @passed y y' h =>
      obtain ⟨hname, hvalues⟩ := h
      obtain ⟨hserver, hreply⟩ := perform_alike hs
        (createAudited_related hvalues actor "credential.create" y.1.name env.newId) env.now
      dsimp only
      rw [henv.now, henv.newId, hname]
      generalize s.perform env.now _ = out at hserver hreply ⊢
      generalize s'.perform env.now _ = out' at hserver hreply ⊢
      obtain ⟨t, r⟩ := out
      obtain ⟨t', r'⟩ := out'
      dsimp only at hreply
      subst hreply
      cases r' with
      | error e => exact ⟨hserver, rfl⟩
      | ok id => exact ⟨hserver, rfl⟩

theorem editCredential_request_alike (ha : a.Lawful) (hs : s.Alike SameNull s')
    (henv : env.Alike env') (actor : Actor) (id : String) {input input' : Option CredentialEdit}
    (hinput : Option.Rel CredentialEdit.Alike input input')
    (hlimit : (Call.edit id input).InLimit) (hlimit' : (Call.edit id input').InLimit) :
    (a.editCredential s env actor id input).1.Alike SameNull
        (a.editCredential s' env' actor id input').1 ∧
      (a.editCredential s' env' actor id input').2 = (a.editCredential s env actor id input).2 := by
  cases hinput with
  | none => exact ⟨hs, rfl⟩
  | @some input input' h =>
      have hanswers := editCredential_alike (P := a.platform) h (ha.seals env hlimit.1)
        (ha.seals env hlimit.2) (ha.seals env' hlimit'.1) (ha.seals env' hlimit'.2)
      have hversion : input'.version = input.version := by rw [h.rest]
      have hbody : Related (fun _ => true) (Db.Alike SameNull) (fun r r' => r' = r)
          (body a.platform ⟨actor, id, .credential input, a.sealed env⟩ ⟨env.now, env.now⟩)
          (body a.platform ⟨actor, id, .credential input', a.sealed env'⟩
            ⟨env.now, env.now⟩) := by
        unfold body Edit.next Edit.version Edit.kind
        dsimp only
        generalize editCredential (a.sealed env) input = x at hanswers
        generalize editCredential (a.sealed env') input' = x' at hanswers
        cases hanswers with
        | refused r => exact .raise _
        | passed hnext =>
            have hedit := updateAuditedThen_related hnext actor id input.version env.now
            rw [← hversion] at hedit
            refine Related.bind (.require rfl _) fun _ _ _ => ?_
            refine Related.bind (.require (by simp only [hversion]) _) fun _ _ _ => ?_
            exact hversion ▸ hedit
      obtain ⟨hserver, hreply⟩ := perform_alike hs hbody env.now
      unfold AdminHandler.editCredential
      dsimp only
      rw [henv.now]
      generalize s.perform env.now _ = out at hserver hreply ⊢
      generalize s'.perform env.now _ = out' at hserver hreply ⊢
      obtain ⟨t, r⟩ := out
      obtain ⟨t', r'⟩ := out'
      dsimp only at hreply
      subst hreply
      cases r' with
      | error e => exact ⟨hserver, rfl⟩
      | ok version => exact ⟨hserver, rfl⟩

/-- **One request of each run.** -/
theorem serve_alike (ha : a.Lawful) (hs : s.Alike SameNull s') (henv : env.Alike env')
    {call call' : Call} (hcall : call.Alike call') (hlimit : call.InLimit)
    (hlimit' : call'.InLimit) :
    (a.serve s env call).1.Alike SameNull (a.serve s' env' call').1 ∧
      (a.serve s' env' call').2 = (a.serve s env call).2 := by
  unfold AdminHandler.serve
  rw [henv.authorized]
  split
  · exact ⟨hs, rfl⟩
  · next actor _ =>
      cases hcall with
      | create h => exact credential_alike ha hs henv actor h hlimit hlimit'
      | edit id h => exact editCredential_request_alike ha hs henv actor id h hlimit hlimit'
      | list =>
          refine ⟨hs, ?_⟩
          refine congrArg (fun l => Response.mk 200 (.assets l)) (List.map_congr_left fun l hl => ?_)
          rw [items_alike hs.db a.precedes l hl]
      | audit =>
          refine ⟨hs, ?_⟩
          show Response.mk 200 (.events s'.latest) = Response.mk 200 (.events s.latest)
          unfold Server.latest
          rw [hs.db.events, hs.createdAt]

/-- **Two runs.**

The induction is on the requests.  What is carried along are the two stores, alike, and the two next
numbers, equal; so the answers of the next request are equal as well, and its two stores alike
again. -/
theorem run_alike (ha : a.Lawful) {calls calls' : List (Around × Call)}
    (hcalls : List.Forall₂ (fun x x' => x.1.Alike x'.1 ∧ x.2.Alike x'.2) calls calls')
    (hlimit : ∀ x ∈ calls, x.2.InLimit) (hlimit' : ∀ x ∈ calls', x.2.InLimit) :
    ∀ {s s' : Server J}, s.Alike SameNull s' →
      (a.run s calls).1.Alike SameNull (a.run s' calls').1 ∧
        (a.run s' calls').2 = (a.run s calls).2 := by
  induction hcalls with
  | nil => intro s s' hs; exact ⟨hs, rfl⟩
  | @cons x x' calls calls' hx _ ih =>
      intro s s' hs
      rw [List.forall_mem_cons] at hlimit hlimit'
      obtain ⟨hserved, hresponse⟩ := serve_alike ha hs hx.1 hx.2 hlimit.1 hlimit'.1
      obtain ⟨hrest, hresponses⟩ := ih hlimit.2 hlimit'.2 hserved
      unfold AdminHandler.run
      dsimp only
      rw [hresponse, hresponses]
      exact ⟨hrest, rfl⟩

/-! ## What the record tells -/

omit [DecidableEq J] in
/-- What an edit requests of the secret. -/
theorem editCredential_secret {sealed : Column → String → Except SealError String}
    {input : CredentialEdit} {next : Next J} (h : editCredential sealed input = .ok next) :
    (input.clearSecret = true → next .encryptedSecret = some .nil) ∧
      (input.secret ≠ "" → ∃ t, next .encryptedSecret = some (.text t)) := by
  obtain ⟨n₁, _, h⟩ := Except.bind_eq_ok h
  obtain ⟨n₂, _, h⟩ := Except.bind_eq_ok h
  obtain ⟨_, hboth, h⟩ := Except.bind_eq_ok h
  obtain ⟨n₃, _, h⟩ := Except.bind_eq_ok h
  obtain ⟨n₄, hsecret, h⟩ := Except.bind_eq_ok h
  have hboth := check_eq_ok hboth
  have hnext : next = if input.clearSecret then n₄.set .encryptedSecret .nil else n₄ := by
    cases h
    rfl
  subst hnext
  constructor
  · intro hclear
    rw [if_pos hclear]
    exact Function.update_self ..
  · intro hne
    have hclear : input.clearSecret ≠ true := by
      intro hclear
      simp [hclear, hne] at hboth
    rw [if_neg hclear]
    unfold sealColumn at hsecret
    rw [if_neg hne] at hsecret
    split at hsecret
    · next t _ =>
        cases hsecret
        exact ⟨t, Function.update_self ..⟩
    · cases hsecret

omit [DecidableEq J] in
theorem perform_ok {ρ : Type} {now : Instant} {p : Txn J ρ} {t : Server J} {r : ρ}
    (h : s.perform now p = (t, .ok r)) :
    ∃ n, p.solo (fun _ => true) s.db id s.seq = some (.ok (r, t.db, n)) := by
  unfold Server.perform at h
  split at h
  · next hout =>
      cases h
      exact ⟨_, hout⟩
  · cases h
  · cases h

/-- What a successful edit of a credential commits. -/
theorem editCredential_commit (hnumbered : s.db.Numbered s.seq) {actor : Actor}
    {objectId : String} {input : CredentialEdit} {version : ℕ} {t : Server J}
    (h : a.editCredential s env actor objectId (some input) = (t, ⟨200, .edited objectId version⟩)) :
    ∃ K, Commit a.platform ⟨actor, objectId, .credential input, a.sealed env⟩ ⟨env.now, env.now⟩ K
      s.db t.db version := by
  unfold AdminHandler.editCredential at h
  dsimp only at h
  split at h
  · next t' r hout =>
      cases h
      obtain ⟨n, hsolo⟩ := perform_ok hout
      have hkept := body_kept (P := a.platform)
        ⟨actor, objectId, .credential input, a.sealed env⟩ ⟨env.now, env.now⟩
        ⟨s.db, s.seq, id, ∅⟩ hnumbered rfl rfl
      obtain ⟨v, hended, hdb, hsnapshot⟩ := Ensures.of_solo _ hkept hsolo
      refine ⟨v.held, ?_⟩
      have hcommit := hended.2
      rw [hdb, hsnapshot] at hcommit
      exact hcommit
  · next t' e hout =>
      have hpayload := congrArg (fun x => x.2.payload) h
      cases e <;> cases hpayload

/-- **The record tells a cleared secret from a replaced one.** -/
theorem secret_told (hnumbered : s.db.Numbered s.seq) {objectId : String}
    {input : CredentialEdit} {version : ℕ} {t : Server J}
    (h : a.serve s env (.edit objectId (some input)) = (t, ⟨200, .edited objectId version⟩)) :
    (input.clearSecret = true →
      (∃ row, s.db.row? .credential objectId = some row ∧ row.cell .encryptedSecret ≠ .nil) →
        ∃ e, t.db.events = s.db.events ++ [e] ∧ e.entry .encryptedSecret = some .cleared) ∧
    (input.secret ≠ "" →
      ∃ e, t.db.events = s.db.events ++ [e] ∧ e.entry .encryptedSecret = some .replaced) := by
  unfold AdminHandler.serve at h
  split at h
  · next r _ =>
      have hpayload := congrArg (fun x => x.2.payload) h
      cases hpayload
  · next actor _ =>
  obtain ⟨K, hcommit⟩ := editCredential_commit hnumbered h
  let f : AssetField := { column := .encryptedSecret, secret := true }
  have hf : f ∈ Kind.credential.asset.fields := by
    unfold Kind.asset credentialFields
    simp [f]
  -- what the round of the secret leaves, the record shows
  have htold : ∀ row next x, s.db.row? .credential objectId = some row →
      editCredential (a.sealed env) input = .ok next →
      (∃ v, auditField a.platform row next f = some (.encryptedSecret, v, x)) →
        ∃ e, t.db.events = s.db.events ++ [e] ∧ e.entry .encryptedSecret = some x := by
    rintro row next x hrow hnext ⟨v, hround⟩
    have hmem : (Column.encryptedSecret, v, x) ∈ auditFields a.platform .credential row next :=
      (mem_auditFields hf rfl).mpr hround
    generalize hdb : t.db = d at hcommit ⊢
    cases hcommit with
    | unchanged row' next' hrow' hversion hnext' hsame =>
        cases hrow.symm.trans hrow'
        cases (show Except.ok next = Except.ok next' from hnext.symm.trans hnext')
        have hnil : auditFields a.platform .credential row next = [] := hsame
        rw [hnil] at hmem
        exact absurd hmem List.not_mem_nil
    | changed row' next' cell cell' n hkey hrow' hversion hnext' =>
        cases hrow.symm.trans hrow'
        cases (show Except.ok next = Except.ok next' from hnext.symm.trans hnext')
        refine ⟨_, rfl, ?_⟩
        rw [Event.entry_eq_some]
        · exact List.mem_map.mpr ⟨_, hmem, rfl⟩
        · show (((auditFields a.platform .credential row next).map _).map Prod.fst).Nodup
          rw [List.map_map]
          exact auditFields_nodup _ _ _
  obtain ⟨row, next, hrow, hnext⟩ := hcommit.row_next
  change editCredential (a.sealed env) input = .ok next at hnext
  obtain ⟨hcleared, hreplaced⟩ := editCredential_secret hnext
  constructor
  · rintro hclear ⟨row', hrow', hgiven⟩
    cases hrow.symm.trans hrow'
    refine htold row next .cleared hrow hnext ⟨.nil, ?_⟩
    unfold auditField
    rw [hcleared hclear]
    simp [f, AssetField.read, hgiven]
  · intro hne
    obtain ⟨text, htext⟩ := hreplaced hne
    refine htold row next .replaced hrow hnext ⟨.text text, ?_⟩
    unfold auditField
    rw [htext]
    simp [f]

/-- **Secrets stay hidden.**  Two runs from stores alike, with requests alike, answer the same and
leave the same audit record, which tells a cleared secret from a replaced one.

That a secret is hidden is said by comparing two runs.  What the API may know of a secret is whether
there is one; so the stores and the requests of the two runs may differ in the secrets and in what
they are sealed to, and agree on where there are any.  A relation of this kind is kept by every
operation in turn (`serve_alike`), from which the statement about sequences of requests is an
induction.  The second part says that hiding has not gone too far. -/
theorem AdminHandler.Lawful.secrets_hidden (ha : a.Lawful) :
    (∀ (s s' : Server J) (calls calls' : List (Around × Call)), s.Alike SameNull s' →
      List.Forall₂ (fun x x' => x.1.Alike x'.1 ∧ x.2.Alike x'.2) calls calls' →
      (∀ x ∈ calls, x.2.InLimit) → (∀ x ∈ calls', x.2.InLimit) →
        (a.run s' calls').2 = (a.run s calls).2 ∧
          (a.run s' calls').1.db.events = (a.run s calls).1.db.events ∧
          (a.run s' calls').1.createdAt = (a.run s calls).1.createdAt) ∧
    ∀ (s t : Server J) (env : Around) (objectId : String) (input : CredentialEdit) (version : ℕ),
      s.db.Numbered s.seq →
      a.serve s env (.edit objectId (some input)) = (t, ⟨200, .edited objectId version⟩) →
        (input.clearSecret = true →
          (∃ row, s.db.row? .credential objectId = some row ∧ row.cell .encryptedSecret ≠ .nil) →
            ∃ e, t.db.events = s.db.events ++ [e] ∧ e.entry .encryptedSecret = some .cleared) ∧
        (input.secret ≠ "" →
          ∃ e, t.db.events = s.db.events ++ [e] ∧ e.entry .encryptedSecret = some .replaced) := by
  refine ⟨fun s s' calls calls' hs hcalls hlimit hlimit' => ?_,
    fun s t env objectId input version hnumbered h => secret_told hnumbered h⟩
  obtain ⟨hserver, hresponses⟩ := run_alike ha hcalls hlimit hlimit' hs
  exact ⟨hresponses, hserver.db.events, hserver.createdAt⟩

end Served

namespace Demo

def zeroKey : Bytes := List.replicate 32 0

def zeroNonce : Nonce := ⟨List.replicate 12 0, rfl⟩

def otherNonce : Nonce := ⟨List.replicate 12 1, rfl⟩

/-- AES-256-GCM on `"first"` and `"second"`, each under one nonce. -/
def gcm : AesGcm where
  sealed key n text aad :=
    if key = zeroKey ∧ aad = [] ∧ n = zeroNonce.bytes ∧ text = utf8 "first" then
      [168, 206, 50, 78, 57,
        230, 241, 84, 2, 76, 116, 73, 47, 19, 226, 186, 0, 252, 195, 190, 208]
    else if key = zeroKey ∧ aad = [] ∧ n = otherNonce.bytes ∧ text = utf8 "second" then
      [6, 37, 160, 5, 20, 237,
        104, 168, 126, 14, 169, 20, 155, 20, 78, 142, 42, 87, 249, 210, 116, 95]
    else text ++ List.replicate 16 0
  opened _ _ _ _ := none

/-- The admin API; rows come in the order of their names. -/
def handler : AdminHandler Unit where
  platform := platform
  gcm := gcm
  key := zeroKey
  size := rfl
  precedes v v' :=
    match v, v' with
    | .text s, .text s' => s ≤ s'
    | _, _ => true

theorem handler_lawful : handler.Lawful where
  tag key nonce text aad := by
    show (gcm.sealed key nonce text aad).length = _
    unfold gcm
    dsimp only
    split
    · next h =>
        rw [h.2.2.2]
        decide +kernel
    · split
      · next h =>
          rw [h.2.2.2]
          decide +kernel
      · rw [List.length_append, List.length_replicate]
  ascii _ _ _ := rfl

def credentialId : String := "9b2d8f6c-0c1e-4b7a-8a55-6f3c2d1e0f10"

/-- A credential with some password and secret. -/
def credentials (password secret : Value Unit) : Server Unit where
  db :=
    { rows := Function.update (fun _ => ∅) .credential (AList.singleton credentialId
        ⟨1, fun c => match c with
          | .name => .text "Core"
          | .username => .text "netops"
          | .isActive => .bool true
          | .encryptedPassword => password
          | .encryptedSecret => secret
          | _ => .nil⟩)
      events := [] }
  seq := 0
  createdAt _ := 0

theorem credentials_alike {S : Value Unit → Value Unit → Prop} {password password' secret
    secret' : Value Unit} (hpassword : S password password') (hsecret : S secret secret') :
    (credentials password secret).Alike S (credentials password' secret') := by
  refine ⟨⟨fun k => ?_, rfl⟩, rfl, rfl⟩
  by_cases hk : k = .credential
  · subst hk
    refine .cons ⟨rfl, rfl, fun c hc => ?_, fun c hc => ?_⟩ .nil
    · cases c <;> first | rfl | exact absurd (by decide) hc
    · have hc : c = .encryptedPassword ∨ c = .encryptedSecret := by
        revert c
        decide
      rcases hc with rfl | rfl
      · exact hpassword
      · exact hsecret
  · have hnone : ∀ v w, ((credentials v w).db.rows k).entries = [] := by
      intro v w
      unfold credentials
      dsimp only
      rw [Function.update_of_ne hk]
      rfl
    rw [hnone, hnone]
    exact .nil

def around (nonce : Nonce) : Around where
  authorized := .ok ⟨"1", "admin@test.invalid"⟩
  now := 0
  newId := ""
  nonce _ := nonce

/-- An edit of the password, or of the secret. -/
def edit (password secret : String) : CredentialEdit where
  version := 1
  name := none
  username := none
  description := none
  isActive := none
  password := password
  secret := secret
  clearSecret := false

def calls (nonce : Nonce) (password : String) : List (Around × Call) :=
  [(around nonce, .edit credentialId (some (edit password ""))), (around nonce, .list),
    (around nonce, .audit)]

/-- Two passwords leave one record; a new secret leaves its own. -/
theorem passwords_hidden :
    ((handler.run (credentials (.text "v1:a") .nil) (calls zeroNonce "first")).2.map
      Response.status = [200, 200, 200] ∧
    (handler.run (credentials (.text "v1:b") .nil) (calls otherNonce "second")).2 =
      (handler.run (credentials (.text "v1:a") .nil) (calls zeroNonce "first")).2) ∧
    ∃ e, (handler.serve (credentials (.text "v1:a") .nil) (around zeroNonce)
        (.edit credentialId (some (edit "" "first")))).1.db.events = [e] ∧
      e.entry .encryptedSecret = some .replaced := by
  refine ⟨⟨by decide +kernel, ?_⟩, ?_⟩
  · refine (handler_lawful.secrets_hidden.1 _ _ _ _ (credentials_alike ?_ ?_) ?_ ?_ ?_).1
    · simp [SameNull]
    · exact Iff.rfl
    · have hsame : (edit "first" "").Alike (edit "second" "") := by
        refine ⟨rfl, ?_, Iff.rfl⟩
        unfold SameText
        decide
      have haround : (around zeroNonce).Alike (around otherNonce) := ⟨rfl, rfl, rfl⟩
      exact .cons ⟨haround, .edit _ (.some hsame)⟩
        (.cons ⟨haround, .list⟩ (.cons ⟨haround, .audit⟩ .nil))
    · simp only [calls, List.forall_mem_cons, List.not_mem_nil, false_implies, implies_true]
      unfold Call.InLimit
      decide +kernel
    · simp only [calls, List.forall_mem_cons, List.not_mem_nil, false_implies, implies_true]
      unfold Call.InLimit
      decide +kernel
  · have hserved : (handler.serve (credentials (.text "v1:a") .nil) (around zeroNonce)
        (.edit credentialId (some (edit "" "first")))).2 = ⟨200, .edited credentialId 2⟩ := by
      decide +kernel
    exact (handler_lawful.secrets_hidden.2 (credentials (.text "v1:a") .nil) _ (around zeroNonce)
      credentialId (edit "" "first") 2 (fun e he => absurd he List.not_mem_nil)
      (Prod.ext rfl hserved)).2 (by decide)

/-- Whether there is a secret is listed. -/
theorem secret_listed :
    ¬ ∀ (a : AdminHandler Unit) (s s' : Server Unit) (calls : List (Around × Call)), a.Lawful →
      s.Alike (fun _ _ => True) s' → (∀ x ∈ calls, x.2.InLimit) →
        (a.run s' calls).2 = (a.run s calls).2 := by
  intro h
  have hlisted := h handler (credentials (.text "v1:a") .nil)
    (credentials (.text "v1:a") (.text "v1:b")) [(around zeroNonce, .list)] handler_lawful
    (credentials_alike trivial trivial) (by simp [Call.InLimit])
  revert hlisted
  decide +kernel

end Demo

end BindPlane.Assets
