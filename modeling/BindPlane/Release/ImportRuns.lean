import BindPlane.Release.Imports
import Mathlib.Data.List.Count
import Mathlib.Data.List.Nodup
import Mathlib.Tactic.SplitIfs

/-!
# Runs of an import

**The loop.**  `Importer.run_spec` follows the records: there is one row of the report for each,
and the tables grow by insertions.  A run without an error has a `plan`, the keys of its records,
which are distinct; then a record is skipped if its key is held and creates its row otherwise
(`Importer.run_planned`).

**Keys that are held.**  With every key of the plan held a run inserts nothing
(`Importer.run_held`), and only then does it report every record as skipped
(`Importer.held_of_run`).

**Two loops.**  `switchImporter_lawful` and `networkImporter_lawful` say that both imports are
such loops.
-/

namespace BindPlane.Imports

/-! ## Maps of names -/

section NamedIDs

variable {κ : Type} [DecidableEq κ] {rows : List (κ × Id)} {k : κ}

theorem namedIDs_concat (rows : List (κ × Id)) (row : κ × Id) (k : κ) :
    namedIDs (rows ++ [row]) k =
      if k = row.1 then (if (namedIDs rows row.1).isSome then some none else some (some row.2))
      else namedIDs rows k := by
  unfold namedIDs
  rw [List.foldl_append]
  rfl

/-- What a map holds, by the rows of the name. -/
theorem namedIDs_spec (rows : List (κ × Id)) (k : κ) :
    ((rows.map Prod.fst).count k = 0 ∧ namedIDs rows k = none) ∨
      ((rows.map Prod.fst).count k = 1 ∧ ∃ id, (k, id) ∈ rows ∧ namedIDs rows k = some (some id)) ∨
      (2 ≤ (rows.map Prod.fst).count k ∧ namedIDs rows k = some none) := by
  induction rows using List.reverseRecOn with
  | nil => exact .inl ⟨rfl, rfl⟩
  | append_singleton rows row ih =>
      rw [namedIDs_concat, List.map_append, List.count_append, List.map_singleton]
      by_cases hk : k = row.1
      · subst hk
        rw [if_pos rfl, List.count_singleton_self]
        obtain ⟨hcount, hnone⟩ | ⟨hcount, id, -, hsome⟩ | ⟨hcount, hmany⟩ := ih
        · rw [hnone, hcount]
          exact .inr (.inl ⟨rfl, row.2, List.mem_append_right _ (List.mem_singleton_self row), rfl⟩)
        · rw [hsome, hcount]
          exact .inr (.inr ⟨le_refl 2, rfl⟩)
        · rw [hmany]
          exact .inr (.inr ⟨Nat.le_succ_of_le hcount, rfl⟩)
      · rw [if_neg hk, List.count_singleton, if_neg fun h => hk (beq_iff_eq.mp h).symm]
        obtain h | ⟨hcount, id, hmem, hsome⟩ | h := ih
        · exact .inl h
        · exact .inr (.inl ⟨hcount, id, List.mem_append_left _ hmem, hsome⟩)
        · exact .inr (.inr h)

/-- A key reads as held exactly if one row has it. -/
theorem namedIDs_held :
    (namedIDs rows k).join.isSome = true ↔ (rows.map Prod.fst).count k = 1 := by
  obtain ⟨hcount, h⟩ | ⟨hcount, id, -, h⟩ | ⟨hcount, h⟩ := namedIDs_spec rows k <;> rw [h]
  · simp [hcount]
  · simp [hcount]
  · simp
    omega

theorem namedIDs_free (h : k ∉ rows.map Prod.fst) : (namedIDs rows k).join.isSome = false := by
  refine Bool.eq_false_iff.mpr fun hheld => ?_
  have hone := namedIDs_held.mp hheld
  rw [List.count_eq_zero.mpr h] at hone
  contradiction

end NamedIDs

/-! ## Reports -/

/-- Rows are added one after another. -/
def Report.addAll (report : Report) (rows : List ImportRow) : Report :=
  rows.foldl Report.add report

/-- The counts of a report are those of its rows, and adding rows changes nothing else. -/
theorem Report.addAll_eq (report : Report) (rows : List ImportRow) :
    report.addAll rows =
      { report with
        created := report.created + rows.countP (·.status = .create)
        skipped := report.skipped + rows.countP (·.status = .skip)
        errors := report.errors + rows.countP (·.status = .error)
        rows := report.rows ++ rows } := by
  induction rows generalizing report with
  | nil => simp [addAll]
  | cons row rows ih =>
      show (report.add row).addAll rows = _
      rw [ih]
      unfold Report.add
      cases hstatus : row.status <;> simp [hstatus, Nat.add_assoc, Nat.add_comm 1]

/-! ## Insertions -/

/-- Rows are inserted one after another, each with its audit event. -/
def Inventory.insertAll (d : Inventory) (actor : String) (ops : List (Id × NewRow)) : Inventory :=
  ops.foldl (fun d op => d.insert actor op.1 op.2) d

/-- The group of a row. -/
def NewRow.groupName : NewRow → Option String
  | .group name => some name
  | _ => none

/-- The columns of a switch. -/
def NewRow.switchColumns : NewRow → Option SwitchColumns
  | .switch columns => some columns
  | _ => none

/-- The columns of a network. -/
def NewRow.networkColumns : NewRow → Option NetworkColumns
  | .network columns => some columns
  | _ => none

/-- The kind of asset that a row is. -/
def NewRow.kind : NewRow → Option Kind
  | .group _ => none
  | .switch _ => some .switches
  | .network _ => some .networks

/-- A row is a switch or a network. -/
def NewRow.isAsset (row : NewRow) : Bool := row.kind.isSome

/-- The switches and networks among some rows. -/
def assetsOf (ops : List (Id × NewRow)) : List NewRow := (ops.map Prod.snd).filter NewRow.isAsset

/-- The groups among some rows. -/
def groupsOf (ops : List (Id × NewRow)) : List String :=
  ops.filterMap fun op => op.2.groupName

@[simp] theorem assetsOf_append (ops more : List (Id × NewRow)) :
    assetsOf (ops ++ more) = assetsOf ops ++ assetsOf more := by
  simp [assetsOf]

@[simp] theorem groupsOf_append (ops more : List (Id × NewRow)) :
    groupsOf (ops ++ more) = groupsOf ops ++ groupsOf more := by
  simp [groupsOf]

namespace Inventory

variable {d : Inventory} {actor : String} {ops : List (Id × NewRow)}

theorem insertAll_append (d : Inventory) (actor : String) (ops more : List (Id × NewRow)) :
    d.insertAll actor (ops ++ more) = (d.insertAll actor ops).insertAll actor more :=
  List.foldl_append

/-- Credentials and profiles stay, and every other table grows by the rows that are its own. -/
theorem insertAll_tables (d : Inventory) (actor : String) (ops : List (Id × NewRow)) :
    d.insertAll actor ops =
      { credentials := d.credentials
        profiles := d.profiles
        groups := d.groups ++ ops.filterMap fun op => op.2.groupName.map fun name => (name, op.1)
        switches := d.switches ++
          ops.filterMap fun op => op.2.switchColumns.map fun columns => (op.1, columns)
        networks := d.networks ++
          ops.filterMap fun op => op.2.networkColumns.map fun columns => (op.1, columns)
        events := d.events ++
          ops.map fun op => ⟨actor, op.2.action, op.1, op.2.label⟩ } := by
  induction ops generalizing d with
  | nil => simp [insertAll]
  | cons op ops ih =>
      show (d.insert actor op.1 op.2).insertAll actor ops = _
      rw [ih]
      obtain ⟨id, row⟩ := op
      cases row <;>
        simp [insert, NewRow.groupName, NewRow.switchColumns, NewRow.networkColumns]

end Inventory

/-! ## One run of the loop -/

/-- The world has grown by some switches and networks, and by the groups that are new in it. -/
def World.Grows (actor : String) (w w' : World) (assets : List NewRow) : Prop :=
  ∃ ops, w'.db = w.db.insertAll actor ops ∧ w'.newGroups = w.newGroups ++ groupsOf ops ∧
    assetsOf ops = assets

theorem World.Grows.refl (actor : String) (w : World) : w.Grows actor w [] :=
  ⟨[], rfl, (List.append_nil _).symm, rfl⟩

theorem World.Grows.trans {actor : String} {w w' w'' : World} {assets more : List NewRow} :
    w.Grows actor w' assets → w'.Grows actor w'' more → w.Grows actor w'' (assets ++ more) := by
  rintro ⟨ops, hdb, hgroups, rfl⟩ ⟨ops', hdb', hgroups', rfl⟩
  refine ⟨ops ++ ops', ?_, ?_, assetsOf_append ops ops'⟩
  · rw [Inventory.insertAll_append, ← hdb, hdb']
  · rw [groupsOf_append, ← List.append_assoc, ← hgroups, hgroups']

/-- What holds of a loop: a record names one key, which passes the checks once, and if it is not
rejected then one row is inserted, with the record's label and the key.

With this an import is a list of keys: each record names one, the loop inserts a row for those that
are not held and skips the others, and no key comes twice.  Everything about the reports and the
tables is then a statement about that list (`plan`). -/
structure Importer.Lawful {κ π : Type} (imp : Importer κ π) (actor : String) (kind : Kind)
    (keyFor : CsvRecord → Option κ) (keyOf : NewRow → Option κ) : Prop where
  create : ∀ {seen record key values n w w' made}, imp.check seen record = .ok (key, values) →
    imp.create n w record key values = some (w', made) →
      ∃ assets, w.Grows actor w' assets ∧
        assets.map keyOf = (if made then [some key] else []) ∧
        assets.map (fun row => (row.kind, row.label)) =
          if made then [(some kind, imp.label record)] else []
  names : ∀ {seen record key values}, imp.check seen record = .ok (key, values) →
    keyFor record = some key
  fresh : ∀ {seen record key values}, imp.check seen record = .ok (key, values) → seen key = 0

section Loop

variable {κ π : Type} [DecidableEq κ] {imp : Importer κ π} {actor : String}
  {kind : Kind} {keyOf : NewRow → Option κ} {s s' : Loop κ} {record : CsvRecord}
  {records : List CsvRecord}

/-- What one step of the loop can be. -/
theorem Importer.step_cases (h : imp.step s record = some s') :
    (∃ message, imp.check s.seen record = .error message ∧
      s' = { s with report := s.report.add ⟨record.line, .error, imp.label record, message⟩ }) ∨
    ∃ key values, imp.check s.seen record = .ok (key, values) ∧
      s'.seen = (fun k => if k = key then record.line else s.seen k) ∧
      (imp.held key = true ∧ s'.world = s.world ∧
          s'.report = s.report.add ⟨record.line, .skip, imp.label record, imp.heldMessage⟩ ∨
        imp.held key = false ∧ ∃ made,
          imp.create s.report.rows.length s.world record key values = some (s'.world, made) ∧
          s'.report = s.report.add
            (if made then ⟨record.line, .create, imp.label record, imp.message key⟩
            else ⟨record.line, .error, imp.label record, "the database rejected this row"⟩)) := by
  unfold Importer.step at h
  cases hcheck : imp.check s.seen record with
  | error message =>
      rw [hcheck] at h
      exact .inl ⟨message, rfl, (Option.some.inj h).symm⟩
  | ok checked =>
      obtain ⟨key, values⟩ := checked
      rw [hcheck] at h
      dsimp only at h
      refine .inr ⟨key, values, rfl, ?_⟩
      cases hheld : imp.held key with
      | true =>
          rw [hheld, if_pos rfl] at h
          obtain rfl := Option.some.inj h
          exact ⟨rfl, .inl ⟨rfl, rfl, rfl⟩⟩
      | false =>
          rw [hheld, if_neg Bool.false_ne_true] at h
          obtain ⟨⟨w', made⟩, hcreate, rfl⟩ := Option.map_eq_some_iff.mp h
          exact ⟨rfl, .inr ⟨rfl, made, hcreate, rfl⟩⟩

theorem Importer.run_cons (h : imp.run s (record :: records) = some s') :
    ∃ next, imp.step s record = some next ∧ imp.run next records = some s' := by
  unfold Importer.run at h
  rw [List.foldlM_cons] at h
  exact Option.bind_eq_some_iff.mp h

/-- The records of a run are reported one by one, and a row that is reported as created has been
inserted. -/
theorem Importer.run_spec {keyFor : CsvRecord → Option κ} (hl : imp.Lawful actor kind keyFor keyOf)
    (h : imp.run s records = some s') :
    ∃ rows assets, s'.report = s.report.addAll rows ∧ s.world.Grows actor s'.world assets ∧
      rows.map (fun row => (row.line, row.label)) =
        records.map (fun record => (record.line, imp.label record)) ∧
      assets.map (fun row => (row.kind, row.label)) =
        (rows.filter (·.status = .create)).map (fun row => (some kind, row.label)) := by
  induction records generalizing s with
  | nil =>
      obtain rfl := Option.some.inj h
      exact ⟨[], [], rfl, World.Grows.refl actor s.world, rfl, rfl⟩
  | cons record records ih =>
      obtain ⟨next, hstep, hrun⟩ := Importer.run_cons h
      obtain ⟨rows, assets, hreport, hgrows, hrows, hlabels⟩ := ih hrun
      have hone : ∃ row made, next.report = s.report.add row ∧
          s.world.Grows actor next.world made ∧
          (row.line, row.label) = (record.line, imp.label record) ∧
          made.map (fun row => (row.kind, row.label)) =
            if row.status = .create then [(some kind, row.label)] else [] := by
        obtain ⟨message, -, rfl⟩ | ⟨key, values, hcheck, -, h⟩ := Importer.step_cases hstep
        · exact ⟨⟨record.line, .error, imp.label record, message⟩, [], rfl,
            World.Grows.refl actor s.world, rfl, rfl⟩
        · obtain ⟨-, hworld, hreport⟩ | ⟨-, made, hcreate, hreport⟩ := h
          · exact ⟨_, [], hreport, hworld ▸ World.Grows.refl actor s.world, rfl, rfl⟩
          · obtain ⟨assets, hgrows, -, hlabels⟩ := hl.create hcheck hcreate
            refine ⟨_, assets, hreport, hgrows, ?_, hlabels.trans ?_⟩ <;> cases made <;> rfl
      obtain ⟨row, made, hnext, hmade, hrow, hlabel⟩ := hone
      refine ⟨row :: rows, made ++ assets, ?_, hmade.trans hgrows, ?_, ?_⟩
      · rw [hreport, hnext]
        rfl
      · rw [List.map_cons, List.map_cons, hrow, hrows]
      · rw [List.map_append, hlabel, hlabels, List.filter_cons]
        by_cases hcreate : row.status = .create
        · rw [if_pos hcreate, if_pos (decide_eq_true hcreate)]
          rfl
        · rw [if_neg hcreate, if_neg (by simpa using hcreate)]
          rfl

/-! ### Without an error -/

/-- The keys of the records: `none` if a record does not pass the checks. -/
def Importer.plan (imp : Importer κ π) (seen : κ → ℕ) : List CsvRecord → Option (List κ)
  | [] => some []
  | record :: records =>
      match imp.check seen record with
      | .error _ => none
      | .ok (key, _) =>
          (imp.plan (fun k => if k = key then record.line else seen k) records).map (key :: ·)

/-- The row of a record that is not rejected. -/
def Importer.row (imp : Importer κ π) (record : CsvRecord) (key : κ) : ImportRow :=
  if imp.held key then ⟨record.line, .skip, imp.label record, imp.heldMessage⟩
  else ⟨record.line, .create, imp.label record, imp.message key⟩

/-- The rows of records whose keys are these. -/
def Importer.rows (imp : Importer κ π) (records : List CsvRecord) (keys : List κ) :
    List ImportRow :=
  List.zipWith imp.row records keys

theorem Importer.plan_cons {seen : κ → ℕ} {keys : List κ}
    (h : imp.plan seen (record :: records) = some keys) :
    ∃ key values rest, imp.check seen record = .ok (key, values) ∧
      imp.plan (fun k => if k = key then record.line else seen k) records = some rest ∧
      keys = key :: rest := by
  unfold Importer.plan at h
  cases hcheck : imp.check seen record with
  | error message =>
      rw [hcheck] at h
      contradiction
  | ok checked =>
      obtain ⟨key, values⟩ := checked
      rw [hcheck] at h
      obtain ⟨rest, hrest, rfl⟩ := Option.map_eq_some_iff.mp h
      exact ⟨key, values, rest, rfl, hrest, rfl⟩

/-- The keys of a plan are those that the records name. -/
theorem Importer.plan_names {keyFor : CsvRecord → Option κ} (hl : imp.Lawful actor kind keyFor keyOf)
    {seen : κ → ℕ} {keys : List κ} (h : imp.plan seen records = some keys) :
    records.map keyFor = keys.map some := by
  induction records generalizing seen keys with
  | nil =>
      obtain rfl := Option.some.inj h
      rfl
  | cons record records ih =>
      obtain ⟨key, values, rest, hcheck, hrest, rfl⟩ := Importer.plan_cons h
      rw [List.map_cons, List.map_cons, hl.names hcheck, ih hrest]

/-- The keys of a plan are distinct, and none was seen before. -/
theorem Importer.plan_nodup {keyFor : CsvRecord → Option κ} (hl : imp.Lawful actor kind keyFor keyOf)
    {seen : κ → ℕ} {keys : List κ} (h : imp.plan seen records = some keys) :
    keys.Nodup ∧ ∀ key ∈ keys, seen key = 0 := by
  induction records generalizing seen keys with
  | nil =>
      obtain rfl := Option.some.inj h
      exact ⟨List.nodup_nil, fun _ h => absurd h List.not_mem_nil⟩
  | cons record records ih =>
      obtain ⟨key, values, rest, hcheck, hrest, rfl⟩ := Importer.plan_cons h
      obtain ⟨hnodup, hseen⟩ := ih hrest
      have hline := record.line_pos
      refine ⟨List.nodup_cons.mpr ⟨fun hmem => ?_, hnodup⟩, fun k hk => ?_⟩
      · have h := hseen key hmem
        rw [if_pos rfl] at h
        omega
      · obtain rfl | hmem := List.mem_cons.mp hk
        · exact hl.fresh hcheck
        · have h := hseen k hmem
          split_ifs at h
          · omega
          · exact h

/-- A run that reports no error has a plan.  The keys that nothing holds are inserted. -/
theorem Importer.run_planned {keyFor : CsvRecord → Option κ} (hl : imp.Lawful actor kind keyFor keyOf)
    (h : imp.run s records = some s') (herrors : s'.report.errors = s.report.errors) :
    ∃ keys assets, imp.plan s.seen records = some keys ∧
      s'.report = s.report.addAll (imp.rows records keys) ∧
      s.world.Grows actor s'.world assets ∧
      assets.map keyOf = (keys.filter fun key => !imp.held key).map some := by
  induction records generalizing s with
  | nil =>
      obtain rfl := Option.some.inj h
      exact ⟨[], [], rfl, rfl, World.Grows.refl actor s.world, rfl⟩
  | cons record records ih =>
      obtain ⟨next, hstep, hrun⟩ := Importer.run_cons h
      -- The number of errors does not fall, so neither this step nor the rest adds one.
      have hle : next.report.errors ≤ s'.report.errors := by
        obtain ⟨rows, -, hreport, -⟩ := Importer.run_spec hl hrun
        rw [hreport, Report.addAll_eq]
        exact Nat.le_add_right _ _
      obtain ⟨message, -, rfl⟩ | ⟨key, values, hcheck, hseen, h⟩ := Importer.step_cases hstep
      · have hlt : s.report.errors + 1 ≤ s'.report.errors := hle
        omega
      · have hone : ∃ made, next.report = s.report.add (imp.row record key) ∧
            s.world.Grows actor next.world made ∧
            made.map keyOf = ([key].filter fun key => !imp.held key).map some := by
          unfold Importer.row
          obtain ⟨hheld, hworld, hreport⟩ | ⟨hheld, made, hcreate, hreport⟩ := h
          · rw [hheld, if_pos rfl]
            exact ⟨[], hreport, hworld ▸ World.Grows.refl actor s.world, by simp [hheld]⟩
          · obtain ⟨assets, hgrows, hkeys, -⟩ := hl.create hcheck hcreate
            cases made with
            | false =>
                have hlt : s.report.errors + 1 ≤ s'.report.errors := by
                  rw [hreport] at hle
                  exact hle
                omega
            | true =>
                rw [hheld, if_neg Bool.false_ne_true]
                exact ⟨assets, hreport, hgrows, by simp [hkeys, hheld]⟩
        obtain ⟨made, hnext, hmade, hkey⟩ := hone
        have hsame : next.report.errors = s.report.errors := by
          refine Nat.le_antisymm (herrors ▸ hle) ?_
          rw [hnext]
          show s.report.errors ≤ (s.report.addAll [imp.row record key]).errors
          rw [Report.addAll_eq]
          exact Nat.le_add_right _ _
        obtain ⟨keys, assets, hplan, hreport, hgrows, hkeys⟩ := ih hrun (herrors.trans hsame.symm)
        refine ⟨key :: keys, made ++ assets, ?_, ?_, hmade.trans hgrows, ?_⟩
        · unfold Importer.plan
          rw [hcheck]
          dsimp only
          rw [← hseen, hplan]
          rfl
        · rw [hreport, hnext]
          rfl
        · rw [List.map_append, hkey, hkeys, ← List.map_append, ← List.filter_append]
          rfl

/-! ### With every key held -/

/-- If every key is held, then nothing is inserted. -/
theorem Importer.run_held {keys : List κ} (hplan : imp.plan s.seen records = some keys)
    (hheld : ∀ key ∈ keys, imp.held key = true) :
    ∃ s', imp.run s records = some s' ∧ s'.world = s.world ∧
      s'.report = s.report.addAll (imp.rows records keys) := by
  induction records generalizing s keys with
  | nil =>
      obtain rfl := Option.some.inj hplan
      exact ⟨s, rfl, rfl, rfl⟩
  | cons record records ih =>
      obtain ⟨key, values, rest, hcheck, hrest, rfl⟩ := Importer.plan_cons hplan
      have hkey := hheld key List.mem_cons_self
      let next : Loop κ := {
        world := s.world
        seen := fun k => if k = key then record.line else s.seen k
        report := s.report.add (imp.row record key) }
      have hstep : imp.step s record = some next := by
        unfold Importer.step
        rw [hcheck]
        dsimp only
        rw [if_pos hkey]
        show _ = some (Loop.mk s.world _ (s.report.add (if imp.held key then _ else _)))
        rw [if_pos hkey]
      obtain ⟨s', hrun, hworld, hreport⟩ :=
        ih (s := next) hrest fun k hk => hheld k (List.mem_cons_of_mem key hk)
      refine ⟨s', ?_, hworld, hreport⟩
      unfold Importer.run
      rw [List.foldlM_cons, hstep]
      exact hrun

/-- A run that reports every record as skipped has found every key held. -/
theorem Importer.held_of_run {keyFor : CsvRecord → Option κ}
    (hl : imp.Lawful actor kind keyFor keyOf) {keys : List κ}
    (hplan : imp.plan s.seen records = some keys) (hrows : s.report.rows = [])
    (h : imp.run s records = some s') (hskip : ∀ row ∈ s'.report.rows, row.status = .skip) :
    ∀ key ∈ keys, imp.held key = true := by
  have herrors : s'.report.errors = s.report.errors := by
    obtain ⟨rows, -, hreport, -⟩ := Importer.run_spec hl h
    rw [hreport, Report.addAll_eq] at hskip ⊢
    have hnone : rows.countP (·.status = .error) = 0 := by
      refine List.countP_eq_zero.mpr fun row hrow herror => ?_
      have hstatus := hskip row (List.mem_append_right _ hrow)
      rw [of_decide_eq_true herror] at hstatus
      contradiction
    show s.report.errors + _ = _
    rw [hnone, Nat.add_zero]
  obtain ⟨keys', -, hplan', hreport, -⟩ := Importer.run_planned hl h herrors
  obtain rfl := Option.some.inj (hplan.symm.trans hplan')
  intro key hkey
  have hlength : records.length = keys.length := by
    simpa using congrArg List.length (Importer.plan_names hl hplan)
  obtain ⟨i, hi, rfl⟩ := List.mem_iff_getElem.mp hkey
  have hrow : imp.row (records.get ⟨i, hlength ▸ hi⟩) keys[i] ∈ s'.report.rows := by
    rw [hreport, Report.addAll_eq, hrows]
    refine List.mem_append_right _ (List.mem_iff_getElem.mpr ⟨i, ?_, ?_⟩)
    · simp [Importer.rows, hlength, hi]
    · simp [Importer.rows]
  have hstatus := hskip _ hrow
  unfold Importer.row at hstatus
  split_ifs at hstatus with hheld
  exact hheld

end Loop

/-! ## The two imports -/

theorem importInsert_spec {env : Env} {actor : String} {n : ℕ} {w w' : World} {row : NewRow}
    {made : Bool} (hasset : row.isAsset = true)
    (h : importInsert env actor n w row = some (w', made)) :
    w.Grows actor w' (if made then [row] else []) := by
  unfold importInsert at h
  cases hinsert : env.insert n w.db row with
  | created id =>
      rw [hinsert] at h
      obtain ⟨rfl, rfl⟩ := Prod.mk.inj (Option.some.inj h)
      have hgroup : row.groupName = none := by
        cases row with
        | group name => contradiction
        | switch columns | network columns => rfl
      refine ⟨[(id, row)], rfl, ?_, ?_⟩
      · simp [groupsOf, hgroup]
      · simp [assetsOf, hasset]
  | rejected =>
      rw [hinsert] at h
      obtain ⟨rfl, rfl⟩ := Prod.mk.inj (Option.some.inj h)
      exact World.Grows.refl actor w
  | failed =>
      rw [hinsert] at h
      contradiction

theorem ensureGroup_spec {env : Env} {actor : String} {n : ℕ} {w w' : World} {name : String}
    {group : Option Id} (h : ensureGroup env actor n w name = some (w', group)) :
    w.Grows actor w' [] := by
  unfold ensureGroup at h
  split_ifs at h with hname
  · obtain ⟨rfl, rfl⟩ := Prod.mk.inj (Option.some.inj h)
    exact World.Grows.refl actor w
  · cases hknown : (w.groups name).join with
    | some known =>
        rw [hknown] at h
        obtain ⟨rfl, rfl⟩ := Prod.mk.inj (Option.some.inj h)
        exact World.Grows.refl actor w
    | none =>
        rw [hknown] at h
        dsimp only at h
        cases hinsert : env.insert n w.db (.group name) with
        | created made =>
            rw [hinsert] at h
            obtain ⟨rfl, rfl⟩ := Prod.mk.inj (Option.some.inj h)
            exact ⟨[(made, .group name)], rfl, rfl, rfl⟩
        | rejected | failed =>
            rw [hinsert] at h
            contradiction

/-- The address of a switch. -/
def NewRow.switchKey (row : NewRow) : Option String := row.switchColumns.map (·.managementIp)

/-- The owner and the network of a network row. -/
def NewRow.networkKey (row : NewRow) : Option (Id × String) :=
  row.networkColumns.map fun columns => (columns.switchId, columns.cidr)

/-- The key that a record of a switch names. -/
def switchKeyFor (record : CsvRecord) : Option String := some (record.fields "management_ip")

/-- The key that a record of a network names. -/
def networkKeyFor (d : Inventory) (record : CsvRecord) : Option (Id × String) :=
  (switchOf (namedIDs d.byIP) (namedIDs d.byName) (record.fields "switch")).map
    fun switchId => (switchId, record.fields "cidr")

theorem checkSwitch_ok {t : Texts} {credentials profiles : String → Option (Option Id)}
    {defaultCredential defaultProfile : Option Id} {seen : String → ℕ} {record : CsvRecord}
    {key : String} {values : SwitchValues}
    (h : checkSwitch t credentials profiles defaultCredential defaultProfile seen record =
      .ok (key, values)) :
    key = record.fields "management_ip" ∧ seen key = 0 := by
  unfold checkSwitch at h
  dsimp only at h
  split at h
  · contradiction
  · -- The defaults decide which of the last two messages there is, and not the key.
    generalize (if record.fields "credential" = "" then _ else _) = credentialId at h
    generalize (if record.fields "profile" = "" then _ else _) = profileId at h
    split_ifs at h with hname hip hseen hprotocol
    all_goals split at h
    all_goals try contradiction
    split at h
    all_goals try contradiction
    obtain ⟨rfl, -⟩ := Prod.mk.inj (Except.ok.inj h)
    exact ⟨rfl, not_not.mp hseen⟩

theorem checkNetwork_ok {t : Texts} {byIP byName : String → Option (Option Id)}
    {seen : Id × String → ℕ} {record : CsvRecord} {key : Id × String} {validated : Bool}
    (h : checkNetwork t byIP byName seen record = .ok (key, validated)) :
    switchOf byIP byName (record.fields "switch") = some key.1 ∧
      key.2 = record.fields "cidr" ∧ seen key = 0 := by
  unfold checkNetwork at h
  dsimp only at h
  split at h
  · contradiction
  · split at h
    · contradiction
    · split_ifs at h with hhost hnamed
      all_goals split at h
      all_goals try contradiction
      all_goals
        rename_i switchId hswitch
        split_ifs at h with hseen
        obtain ⟨rfl, -⟩ := Prod.mk.inj (Except.ok.inj h)
        exact ⟨hswitch, rfl, not_not.mp hseen⟩

theorem switchImporter_lawful (t : Texts) (env : Env) (actor : String)
    (defaultCredential defaultProfile : Option Id) (d : Inventory) :
    (switchImporter t env actor defaultCredential defaultProfile d).Lawful actor .switches
      switchKeyFor NewRow.switchKey where
  names hcheck := congrArg some (checkSwitch_ok hcheck).1.symm
  fresh hcheck := (checkSwitch_ok hcheck).2
  create hcheck hcreate := by
    obtain ⟨⟨w, group⟩, hgroup, hcreate⟩ := Option.bind_eq_some_iff.mp hcreate
    refine ⟨_, (ensureGroup_spec hgroup).trans (importInsert_spec rfl hcreate), ?_, ?_⟩ <;>
      split_ifs <;> rfl

theorem networkImporter_lawful (t : Texts) (env : Env) (actor : String) (d : Inventory) :
    (networkImporter t env actor d).Lawful actor .networks (networkKeyFor d)
      NewRow.networkKey where
  names hcheck := by
    obtain ⟨hswitch, hcidr, -⟩ := checkNetwork_ok hcheck
    unfold networkKeyFor
    rw [hswitch, ← hcidr]
    rfl
  fresh hcheck := (checkNetwork_ok hcheck).2.2
  create hcheck hcreate := by
    obtain ⟨-, hcidr, -⟩ := checkNetwork_ok hcheck
    refine ⟨_, importInsert_spec rfl hcreate, ?_, ?_⟩
    · split_ifs <;> rfl
    · split_ifs
      · exact congrArg (fun label => [(some Kind.networks, label)]) hcidr
      · rfl

end BindPlane.Imports
