import BindPlane.Release.ImportRuns

/-!
# What an import leaves in the tables

**Accounts.**  `importAssets_spec`: the tables change exactly if an import that is no dry run
reports rows to create, no error, and commits; then they have grown by the rows that the report
counts.  `importAssets_dry`: a dry run reports what the import would.

**The same import again.**  The plan of an import does not depend on the rows that it creates, so
the second import has the plan of the first, and it skips a record exactly if its key is held now.
A key that no row or one row held is held then.  A key that several rows share reads as absent,
before and after (`import_again`).

**Owners.**  The owners of a network are read before the loop.  `import_warns` says when the
report warns of every network that ends up with two.
-/

namespace BindPlane.Imports

/-! ## Keys of the tables -/

theorem filterMap_ops {α : Type} (f : NewRow → Option α) (hgroup : ∀ name, f (.group name) = none)
    (ops : List (Id × NewRow)) :
    ops.filterMap (fun op => f op.2) = (assetsOf ops).filterMap f := by
  induction ops with
  | nil => rfl
  | cons op ops ih =>
      obtain ⟨id, row⟩ := op
      cases row with
      | group name =>
          rw [List.filterMap_cons_none (f := fun op => f op.2) (a := (id, .group name))
            (hgroup name), ih]
          rfl
      | switch columns =>
          show _ = (NewRow.switch columns :: assetsOf ops).filterMap f
          rw [List.filterMap_cons, List.filterMap_cons, ih]
      | network columns =>
          show _ = (NewRow.network columns :: assetsOf ops).filterMap f
          rw [List.filterMap_cons, List.filterMap_cons, ih]

namespace World.Grows

variable {actor : String} {w w' : World} {assets : List NewRow}

theorem frame (h : w.Grows actor w' assets) :
    w'.db.credentials = w.db.credentials ∧ w'.db.profiles = w.db.profiles := by
  obtain ⟨ops, hdb, -, -⟩ := h
  rw [hdb, Inventory.insertAll_tables]
  exact ⟨rfl, rfl⟩

theorem switchKeys (h : w.Grows actor w' assets) :
    w'.db.byIP.map Prod.fst = w.db.byIP.map Prod.fst ++ assets.filterMap NewRow.switchKey := by
  obtain ⟨ops, hdb, -, rfl⟩ := h
  rw [hdb, Inventory.insertAll_tables, ← filterMap_ops NewRow.switchKey fun _ => rfl]
  simp [Inventory.byIP, List.map_filterMap, NewRow.switchKey, Function.comp_def]

theorem networkKeys (h : w.Grows actor w' assets) :
    w'.db.byKey.map Prod.fst = w.db.byKey.map Prod.fst ++ assets.filterMap NewRow.networkKey := by
  obtain ⟨ops, hdb, -, rfl⟩ := h
  rw [hdb, Inventory.insertAll_tables, ← filterMap_ops NewRow.networkKey fun _ => rfl]
  simp [Inventory.byKey, List.map_filterMap, NewRow.networkKey, Function.comp_def]

theorem switches_kept (h : w.Grows actor w' assets)
    (hnone : ∀ row ∈ assets, row.switchColumns = none) : w'.db.switches = w.db.switches := by
  obtain ⟨ops, hdb, -, rfl⟩ := h
  rw [hdb, Inventory.insertAll_tables]
  show _ ++ _ = _
  refine List.append_right_eq_self.mpr (List.filterMap_eq_nil_iff.mpr fun op hop => ?_)
  obtain ⟨id, row⟩ := op
  cases row with
  | group name => rfl
  | switch columns =>
      have hmem : NewRow.switch columns ∈ assetsOf ops :=
        List.mem_filter.mpr ⟨List.mem_map_of_mem hop, rfl⟩
      exact absurd (hnone _ hmem) (Option.some_ne_none columns)
  | network columns => rfl

end World.Grows

/-- The rows of some keys have these keys. -/
theorem filterMap_of_map {α κ : Type} {f : α → Option κ} {rows : List α} {keys : List κ}
    (h : rows.map f = keys.map some) : rows.filterMap f = keys := by
  have hid : rows.filterMap f = (rows.map f).filterMap fun key => key := by
    rw [List.filterMap_map]
    rfl
  rw [hid, h, List.filterMap_map]
  exact List.filterMap_some

/-! ## Accounts of an import -/

section Account

variable {t : Texts} {env : Env} {r : Request} {d d' : Inventory} {w : World} {report : Report}

/-- The label of a record. -/
def Kind.label (kind : Kind) (record : CsvRecord) : String :=
  match kind with
  | .switches => record.fields "name"
  | .networks => record.fields "cidr"

/-- The loop variables before the first record. -/
def Request.start {κ : Type} (r : Request) (d : Inventory) : Loop κ :=
  ⟨⟨d, namedIDs d.groups, []⟩, fun _ => 0, r.report⟩

theorem importRows_switches (hkind : r.kind = .switches) :
    importRows t env r d = some (w, report) ↔
      (List.range 4).all env.lookup = true ∧
        ∃ s, (switchImporter t env r.actor r.defaultCredential r.defaultProfile d).run (r.start d)
          r.records = some s ∧ s.world = w ∧ s.report = report := by
  unfold importRows
  split_ifs with hlookups
  · dsimp only
    rw [hkind]
    simp [hlookups, Request.start]
  · exact iff_of_false (fun h => h) fun h => hlookups h.1

theorem importRows_networks (hkind : r.kind = .networks) :
    importRows t env r d = some (w, report) ↔
      (List.range 4).all env.lookup = true ∧
        ∃ s, (networkImporter t env r.actor d).run (r.start d) r.records = some s ∧
          s.world = w ∧ s.report = report := by
  unfold importRows
  split_ifs with hlookups
  · dsimp only
    rw [hkind]
    simp [hlookups, Request.start]
  · exact iff_of_false (fun h => h) fun h => hlookups h.1

/-- The rows of the report, and the rows that were inserted. -/
theorem importRows_spec (h : importRows t env r d = some (w, report)) :
    ∃ rows assets, report = r.report.addAll rows ∧
      World.Grows r.actor ⟨d, namedIDs d.groups, []⟩ w assets ∧
      rows.map (fun row => (row.line, row.label)) =
        r.records.map (fun record => (record.line, r.kind.label record)) ∧
      assets.map (fun row => (row.kind, row.label)) =
        (rows.filter (·.status = .create)).map (fun row => (some r.kind, row.label)) := by
  cases hkind : r.kind with
  | switches =>
      obtain ⟨-, s, hrun, rfl, rfl⟩ := (importRows_switches hkind).mp h
      exact Importer.run_spec (switchImporter_lawful t env r.actor _ _ d) hrun
  | networks =>
      obtain ⟨-, s, hrun, rfl, rfl⟩ := (importRows_networks hkind).mp h
      exact Importer.run_spec (networkImporter_lawful t env r.actor d) hrun

/-- The ways in which an import ends. -/
theorem importAssets_cases (t : Texts) (env : Env) (r : Request) (d : Inventory) :
    importAssets t env r d = (none, d) ∨
    ∃ w report, env.begins = true ∧ importRows t env r d = some (w, report) ∧
      (importAssets t env r d = (some { report with newGroups := w.newGroups }, d) ∧
          ¬(report.errors = 0 ∧ r.dryRun = false ∧ 0 < report.created) ∨
        importAssets t env r d =
            (some { report with newGroups := w.newGroups, committed := true }, w.db) ∧
          report.errors = 0 ∧ r.dryRun = false ∧ 0 < report.created ∧ env.commits = true) := by
  unfold importAssets
  cases hbegins : env.begins with
  | false => exact .inl rfl
  | true =>
      rw [if_pos rfl]
      cases hrows : importRows t env r d with
      | none => exact .inl rfl
      | some made =>
          obtain ⟨w, report⟩ := made
          dsimp only
          by_cases hcommit : report.errors = 0 ∧ r.dryRun = false ∧ 0 < report.created
          · rw [if_pos hcommit]
            cases hcommits : env.commits with
            | false => exact .inl rfl
            | true => exact .inr ⟨w, report, rfl, rfl, .inr ⟨rfl, hcommit.1, hcommit.2.1,
                hcommit.2.2, rfl⟩⟩
          · rw [if_neg hcommit]
            exact .inr ⟨w, report, rfl, rfl, .inl ⟨rfl, hcommit⟩⟩

end Account

/-! ## The same import again -/

/-- The number of rows under the key that a record names. -/
def Inventory.found (d : Inventory) (kind : Kind) (record : CsvRecord) : ℕ :=
  match kind with
  | .switches => (d.byIP.map Prod.fst).countP fun ip => switchKeyFor record = some ip
  | .networks => (d.byKey.map Prod.fst).countP fun key => networkKeyFor d record = some key

/-- No statement of the import fails before the first record. -/
def Env.Serves (env : Env) : Prop :=
  env.begins = true ∧ (List.range 4).all env.lookup = true

/-- Imports one after another, each of which reports every record as skipped and leaves the
tables. -/
def Repeats (t : Texts) (r : Request) : Inventory → List Env → Prop
  | _, [] => True
  | d, env :: envs =>
      (∃ report, importAssets t env r d = (some report, d) ∧
        report.rows.map (fun row => (row.line, row.status)) =
          r.records.map fun record => (record.line, .skip)) ∧
      Repeats t r (importAssets t env r d).2 envs

/-! ### Two switches and one network -/

namespace Demo

def texts : Texts := ⟨fun s => s, fun s => s⟩

def env : Env where
  begins := true
  lookup _ := true
  insert _ d _ := .created (100 + d.events.length)
  commits := true

def switch (name ip : String) : SwitchColumns :=
  ⟨name, ip, 1, 1, "huawei", "", "", "", none, "ssh", none⟩

def inventory (networks : List (Id × NetworkColumns)) : Inventory where
  credentials := []
  profiles := []
  groups := []
  switches := [(1, switch "s1" "10.0.0.1"), (2, switch "s2" "10.0.0.2")]
  networks := networks
  events := []

/-- A row of the network for the first switch. -/
def row : NetworkColumns := ⟨1, "10.1.0.0/24", true, "", ""⟩

def record (line : ℕ) (switch : String) (h : 0 < line) : CsvRecord where
  line := line
  fields column :=
    if column = "cidr" then "10.1.0.0/24" else if column = "switch" then switch else ""
  line_pos := h

def request (records : List CsvRecord) : Request := ⟨.networks, false, records, none, none, "admin"⟩

/-- The first switch's network. -/
def one : Request := request [record 2 "s1" (by decide)]

/-- The network for both switches. -/
def both : Request := request [record 2 "s1" (by decide), record 3 "s2" (by decide)]

theorem env_serves : env.Serves := ⟨rfl, rfl⟩

end Demo

/-! ### The plan of the second import -/

section Again

variable {κ π : Type} [DecidableEq κ] {imp imp' : Importer κ π} {actor : String} {kind : Kind}
  {keyFor : CsvRecord → Option κ} {keyOf : NewRow → Option κ} {records : List CsvRecord}
  {keys held held' : List κ} {s : Loop κ}

theorem Importer.plan_congr (hcheck : imp'.check = imp.check) (seen : κ → ℕ)
    (records : List CsvRecord) : imp'.plan seen records = imp.plan seen records := by
  induction records generalizing seen with
  | nil => rfl
  | cons record records ih =>
      unfold Importer.plan
      rw [hcheck]
      cases imp.check seen record with
      | error message => rfl
      | ok checked => exact congrArg (Option.map _) (ih _)

/-- After an import each of its keys is held by one row, unless several held it before. -/
theorem count_after (hnodup : keys.Nodup) {key : κ} (hkey : key ∈ keys) :
    (held ++ keys.filter fun k => decide (held.count k ≠ 1)).count key = 1 ↔
      held.count key ≤ 1 := by
  rw [List.count_append]
  by_cases hone : held.count key = 1
  · have hnone : (keys.filter fun k => decide (held.count k ≠ 1)).count key = 0 :=
      List.count_eq_zero.mpr fun hmem => of_decide_eq_true (List.mem_filter.mp hmem).2 hone
    rw [hone, hnone]
    exact iff_of_true rfl (le_refl 1)
  · rw [List.count_filter (by simpa using hone), List.count_eq_one_of_mem hnodup hkey]
    omega

/-- What a record names, when it has a plan. -/
theorem Importer.plan_found (hl : imp.Lawful actor kind keyFor keyOf)
    (hplan : imp.plan s.seen records = some keys) :
    (∀ record ∈ records, (held.countP fun k => keyFor record = some k) ≤ 1) ↔
      ∀ key ∈ keys, held.count key ≤ 1 := by
  have hnames := Importer.plan_names hl hplan
  have hcount {record : CsvRecord} {key : κ} (h : keyFor record = some key) :
      (held.countP fun k => keyFor record = some k) = held.count key := by
    rw [h, List.count]
    congr 1
    funext k
    exact decide_eq_decide.mpr ⟨fun h => (Option.some.inj h).symm, fun h => congrArg some h.symm⟩
  refine ⟨fun h key hkey => ?_, fun h record hrecord => ?_⟩
  · obtain ⟨record, hrecord, hname⟩ :=
      List.mem_map.mp (hnames ▸ List.mem_map_of_mem hkey : some key ∈ records.map keyFor)
    rw [← hcount hname]
    exact h record hrecord
  · obtain ⟨key, hkey, hname⟩ :=
      List.mem_map.mp (hnames ▸ List.mem_map_of_mem hrecord : keyFor record ∈ keys.map some)
    rw [hcount hname.symm]
    exact h key hkey

/-- The loop of the second import, with the keys that the first has left. -/
theorem Importer.again (hl : imp.Lawful actor kind keyFor keyOf)
    (hl' : imp'.Lawful actor kind keyFor keyOf) (hcheck : imp'.check = imp.check)
    (hplan : imp.plan s.seen records = some keys)
    (hheld : ∀ key, imp.held key = true ↔ held.count key = 1)
    (hheld' : ∀ key, imp'.held key = true ↔ held'.count key = 1)
    (hkeys : held' = held ++ keys.filter fun key => !imp.held key)
    (next : Loop κ) (hseen : next.seen = s.seen) (hrows : next.report.rows = []) :
    (∃ s', imp'.run next records = some s' ∧ ∀ row ∈ s'.report.rows, row.status = .skip) ↔
      ∀ record ∈ records, (held.countP fun k => keyFor record = some k) ≤ 1 := by
  have hplan' : imp'.plan next.seen records = some keys := by
    rw [hseen, Importer.plan_congr hcheck]
    exact hplan
  have hnodup := (Importer.plan_nodup hl hplan).1
  have hafter {key : κ} (hkey : key ∈ keys) : imp'.held key = true ↔ held.count key ≤ 1 := by
    rw [hheld', hkeys, ← count_after hnodup hkey]
    have hfilter : (fun key => !imp.held key) = fun key => decide (held.count key ≠ 1) := by
      funext key
      rw [Bool.eq_iff_iff, Bool.not_eq_true', decide_eq_true_iff, Ne, ← hheld, Bool.not_eq_true]
    rw [hfilter]
  rw [Importer.plan_found hl hplan]
  refine ⟨fun ⟨s', hrun, hskip⟩ key hkey => ?_, fun h => ?_⟩
  · exact (hafter hkey).mp (Importer.held_of_run hl' hplan' hrows hrun hskip key hkey)
  · have hall : ∀ key ∈ keys, imp'.held key = true := fun key hkey => (hafter hkey).mpr (h key hkey)
    obtain ⟨s', hrun, -, hreport⟩ := Importer.run_held hplan' hall
    refine ⟨s', hrun, fun row hrow => ?_⟩
    rw [hreport, Report.addAll_eq, hrows] at hrow
    obtain ⟨i, hi, rfl⟩ := List.mem_iff_getElem.mp (List.nil_append _ ▸ hrow)
    have hkey : i < keys.length := by
      have h := hi
      simp only [Importer.rows, List.length_zipWith] at h
      omega
    simp only [Importer.rows, List.getElem_zipWith, Importer.row]
    rw [if_pos (hall _ (List.getElem_mem hkey))]

end Again

section Repeat

variable {t : Texts} {env : Env} {r : Request} {d d' : Inventory} {w : World} {report : Report}

/-- An import whose loop skips every record, seen from outside. -/
theorem importAssets_skips (hbegins : env.begins = true) :
    (∃ report, importAssets t env r d = (some report, d) ∧
        report.rows.map (fun row => (row.line, row.status)) =
          r.records.map fun record => (record.line, .skip)) ↔
      ∃ w report, importRows t env r d = some (w, report) ∧
        ∀ row ∈ report.rows, row.status = .skip := by
  refine ⟨fun ⟨report, h, hrows⟩ => ?_, fun ⟨w, report, h, hskip⟩ => ?_⟩
  · -- a report without a difference comes from a loop without one
    have hskip : ∀ row ∈ report.rows, row.status = .skip := fun row hrow => by
      have hmem : (row.line, row.status) ∈ report.rows.map fun row => (row.line, row.status) :=
        List.mem_map_of_mem hrow
      rw [hrows] at hmem
      obtain ⟨record, -, hrecord⟩ := List.mem_map.mp hmem
      exact (congrArg Prod.snd hrecord).symm
    obtain hend | ⟨w, report', -, hrun, hend⟩ := importAssets_cases t env r d
    · rw [hend] at h
      exact absurd (congrArg Prod.fst h) (Option.some_ne_none report).symm
    · refine ⟨w, report', hrun, ?_⟩
      obtain ⟨hend, -⟩ | ⟨hend, -⟩ := hend <;>
        · rw [hend] at h
          obtain rfl := Option.some.inj (congrArg Prod.fst h)
          exact hskip
  · obtain ⟨rows, -, hreport, -, hlines, -⟩ := importRows_spec h
    have hall : report.rows = rows := by
      rw [hreport, Report.addAll_eq]
      exact List.nil_append rows
    -- nothing was created, so the transaction is not committed
    have hcreated : report.created = 0 := by
      have hnone : rows.countP (·.status = .create) = 0 := by
        refine List.countP_eq_zero.mpr fun row hrow hcreate => ?_
        have hstatus := hskip row (hall ▸ hrow)
        rw [of_decide_eq_true hcreate] at hstatus
        contradiction
      rw [hreport, Report.addAll_eq]
      exact (Nat.zero_add _).trans hnone
    refine ⟨{ report with newGroups := w.newGroups }, ?_, ?_⟩
    · unfold importAssets
      rw [if_pos hbegins, h]
      dsimp only
      refine if_neg fun hcommit => ?_
      omega
    · show report.rows.map _ = _
      have hfst : report.rows.map (·.line) = r.records.map (·.line) := by
        have h := congrArg (List.map Prod.fst) hlines
        rw [List.map_map, List.map_map] at h
        rw [hall]
        exact h
      have hpair : report.rows.map (fun row => (row.line, row.status)) =
          (report.rows.map (·.line)).map fun line => (line, RowStatus.skip) := by
        rw [List.map_map]
        exact List.map_congr_left fun row hrow => congrArg (row.line, ·) (hskip row hrow)
      rw [hpair, hfst, List.map_map]
      rfl

/-- The second import reports every record as skipped exactly if no key of the records was shared
before the first. -/
theorem importRows_again {again : Env} (hagain : again.Serves)
    (h : importRows t env r d = some (w, report)) (herrors : report.errors = 0) :
    (∃ w' report', importRows t again r w.db = some (w', report') ∧
        ∀ row ∈ report'.rows, row.status = .skip) ↔
      ∀ record ∈ r.records, d.found r.kind record ≤ 1 := by
  cases hkind : r.kind with
  | switches =>
      obtain ⟨-, s, hrun, rfl, rfl⟩ := (importRows_switches hkind).mp h
      have hl := switchImporter_lawful t env r.actor r.defaultCredential r.defaultProfile d
      obtain ⟨keys, assets, hplan, -, hgrows, hkeys⟩ := Importer.run_planned hl hrun herrors
      -- The names that the checks look up are those of the first import.
      have hcheck : (switchImporter t again r.actor r.defaultCredential r.defaultProfile
          s.world.db).check = (switchImporter t env r.actor r.defaultCredential r.defaultProfile
          d).check := by
        obtain ⟨hcredentials, hprofiles⟩ := hgrows.frame
        show checkSwitch t (namedIDs s.world.db.credentials) (namedIDs s.world.db.profiles) _ _ = _
        rw [hcredentials, hprofiles]
        rfl
      have hheld := hgrows.switchKeys
      rw [filterMap_of_map hkeys] at hheld
      refine Iff.trans ?_ (Importer.again hl (switchImporter_lawful t again r.actor _ _ s.world.db)
        hcheck hplan (fun _ => namedIDs_held) (fun _ => namedIDs_held) hheld
        (r.start s.world.db) rfl rfl)
      simp only [importRows_switches hkind]
      exact ⟨fun ⟨w', report', ⟨_, s', hs, _, hr⟩, hskip⟩ => ⟨s', hs, hr ▸ hskip⟩,
        fun ⟨s', hs, hskip⟩ => ⟨s'.world, s'.report, ⟨hagain.2, s', hs, rfl, rfl⟩, hskip⟩⟩
  | networks =>
      obtain ⟨-, s, hrun, rfl, rfl⟩ := (importRows_networks hkind).mp h
      have hl := networkImporter_lawful t env r.actor d
      obtain ⟨keys, assets, hplan, -, hgrows, hkeys⟩ := Importer.run_planned hl hrun herrors
      -- The import of networks leaves the switches that the records name.
      have hswitches : s.world.db.switches = d.switches := hgrows.switches_kept fun row hrow => by
        obtain ⟨key, -, hkey⟩ := List.mem_map.mp
          (hkeys ▸ List.mem_map_of_mem hrow : row.networkKey ∈ _)
        cases row with
        | group name | network columns => rfl
        | switch columns => contradiction
      have hcheck : (networkImporter t again r.actor s.world.db).check =
          (networkImporter t env r.actor d).check := by
        show checkNetwork t (namedIDs s.world.db.byIP) (namedIDs s.world.db.byName) = _
        unfold Inventory.byIP Inventory.byName
        rw [hswitches]
        rfl
      have hfor : networkKeyFor s.world.db = networkKeyFor d := by
        unfold networkKeyFor Inventory.byIP Inventory.byName
        rw [hswitches]
      have hl' := networkImporter_lawful t again r.actor s.world.db
      rw [hfor] at hl'
      have hheld := hgrows.networkKeys
      rw [filterMap_of_map hkeys] at hheld
      refine Iff.trans ?_ (Importer.again hl hl' hcheck hplan (fun _ => namedIDs_held)
        (fun _ => namedIDs_held) hheld (r.start s.world.db) rfl rfl)
      simp only [importRows_networks hkind]
      exact ⟨fun ⟨w', report', ⟨_, s', hs, _, hr⟩, hskip⟩ => ⟨s', hs, hr ▸ hskip⟩,
        fun ⟨s', hs, hskip⟩ => ⟨s'.world, s'.report, ⟨hagain.2, s', hs, rfl, rfl⟩, hskip⟩⟩

/-- After an import that was committed, the same import, once or several times more, reports
every record as skipped and leaves the tables, exactly if no key of the records was shared by
several rows before.

The condition is on the table before the first import.  A key that one row has is found then and
skipped each time, and a key that no row has is created once and found from there on.  A key that
several rows share is mapped to the empty id, which the loop takes for absent: it creates a further
row, and the key is shared still.  So no number of repetitions mends it. -/
theorem import_again (hfirst : importAssets t env r d = (some report, d'))
    (hcommitted : report.committed = true) {envs : List Env} (henvs : envs ≠ [])
    (hserves : ∀ env ∈ envs, env.Serves) :
    Repeats t r d' envs ↔ ∀ record ∈ r.records, d.found r.kind record ≤ 1 := by
  obtain ⟨w, report', hrows, herrors, rfl⟩ : ∃ w report', importRows t env r d = some (w, report') ∧
      report'.errors = 0 ∧ w.db = d' := by
    obtain hend | ⟨w, report', -, hrun, hend⟩ := importAssets_cases t env r d
    · rw [hend] at hfirst
      exact absurd (congrArg Prod.fst hfirst) (Option.some_ne_none report).symm
    · obtain ⟨hend, -⟩ | ⟨hend, herrors, -⟩ := hend
      · obtain ⟨rows, -, hreport, -⟩ := importRows_spec hrun
        rw [hend] at hfirst
        obtain rfl := Option.some.inj (congrArg Prod.fst hfirst)
        rw [hreport, Report.addAll_eq] at hcommitted
        contradiction
      · rw [hend] at hfirst
        exact ⟨w, report', hrun, herrors, congrArg Prod.snd hfirst⟩
  have hone {env : Env} (henv : env.Serves) :=
    (importAssets_skips henv.1).trans (importRows_again henv hrows herrors)
  refine ⟨fun hall => ?_, fun hfound => ?_⟩
  · obtain ⟨env', rest, rfl⟩ := List.exists_cons_of_ne_nil henvs
    exact (hone (hserves env' List.mem_cons_self)).mp hall.1
  · clear henvs
    induction envs with
    | nil => trivial
    | cons env' rest ih =>
        obtain ⟨report, hend, hskip⟩ := (hone (hserves env' List.mem_cons_self)).mpr hfound
        refine ⟨⟨report, hend, hskip⟩, ?_⟩
        rw [hend]
        exact ih fun env henv => hserves env (List.mem_cons_of_mem env' henv)

end Repeat

/-- The import of a new network, and the same twice more. -/
theorem import_again_new :
    Repeats Demo.texts Demo.one (importAssets Demo.texts Demo.env Demo.one (Demo.inventory [])).2
      [Demo.env, Demo.env] := by
  have hend : (importAssets Demo.texts Demo.env Demo.one (Demo.inventory [])).1.map
      Report.committed = some true := by decide +kernel
  obtain ⟨report, hreport, hcommitted⟩ := Option.map_eq_some_iff.mp hend
  refine (import_again (Prod.ext hreport rfl) hcommitted (List.cons_ne_nil _ _) ?_).mpr ?_
  · intro env henv
    obtain rfl | rfl : env = Demo.env ∨ env = Demo.env := by simpa using henv
    · exact Demo.env_serves
    · exact Demo.env_serves
  · decide +kernel

/-- A network that two rows give to one switch reads as a network that the switch does not own:
every import of it commits another row. -/
theorem reimport_creates :
    ¬∀ (t : Texts) (env : Env) (r : Request) (d d' : Inventory) (report : Report),
      importAssets t env r d = (some report, d') → report.committed = true →
        ∀ envs : List Env, (∀ env ∈ envs, env.Serves) → Repeats t r d' envs := by
  intro hall
  let d := Demo.inventory [(7, Demo.row), (8, Demo.row)]
  have hend : (importAssets Demo.texts Demo.env Demo.one d).1.map Report.committed = some true := by
    decide +kernel
  obtain ⟨report, hreport, hcommitted⟩ := Option.map_eq_some_iff.mp hend
  have h := hall Demo.texts Demo.env Demo.one d _ report (Prod.ext hreport rfl) hcommitted
    [Demo.env] fun env henv => List.mem_singleton.mp henv ▸ Demo.env_serves
  obtain ⟨report', hagain, hskip⟩ := h.1
  have hcreated : (importAssets Demo.texts Demo.env Demo.one
      (importAssets Demo.texts Demo.env Demo.one d).2).1.map (fun report =>
        report.rows.map fun row => (row.line, row.status)) = some [(2, .create)] := by
    decide +kernel
  rw [hagain] at hcreated
  exact absurd ((Option.some.inj hcreated).symm.trans hskip) (by decide)

/-! ## Owners of a network -/

/-- A network belongs to different switches. -/
def Inventory.Shared (d : Inventory) (cidr : String) : Prop :=
  ∃ owner other, owner ≠ other ∧ (owner, cidr) ∈ d.byKey.map Prod.fst ∧
    (other, cidr) ∈ d.byKey.map Prod.fst

section Owners

variable {κ π : Type} [DecidableEq κ] {imp : Importer κ π} {actor : String} {kind : Kind}
  {keyFor : CsvRecord → Option κ} {keyOf : NewRow → Option κ} {records : List CsvRecord}
  {keys : List κ} {seen : κ → ℕ}

/-- The rows of a plan are those of its records. -/
theorem Importer.mem_rows (hl : imp.Lawful actor kind keyFor keyOf)
    (hplan : imp.plan seen records = some keys) {row : ImportRow} :
    row ∈ imp.rows records keys ↔
      ∃ record ∈ records, ∃ key, keyFor record = some key ∧ imp.row record key = row := by
  have hnames := Importer.plan_names hl hplan
  clear hplan
  induction records generalizing keys with
  | nil => simp [Importer.rows]
  | cons record records ih =>
      obtain - | ⟨key, keys⟩ := keys
      · contradiction
      · obtain ⟨hname, hrest⟩ := List.cons.inj hnames
        show row ∈ imp.row record key :: imp.rows records keys ↔ _
        have hrows := ih hrest
        rw [List.mem_cons]
        constructor
        · rintro (rfl | hrow)
          · exact ⟨record, List.mem_cons_self, key, hname, rfl⟩
          · obtain ⟨other, hother, rest⟩ := hrows.mp hrow
            exact ⟨other, List.mem_cons_of_mem record hother, rest⟩
        · rintro ⟨other, hother, k, hk, rfl⟩
          obtain rfl | hother := List.mem_cons.mp hother
          · obtain rfl := Option.some.inj (hname.symm.trans hk)
            exact .inl rfl
          · exact .inr (hrows.mpr ⟨other, hother, k, hk, rfl⟩)

/-- If one row alone has a coarse key, then one row alone has its key. -/
theorem count_eq_one_of_coarse {α ι : Type} [DecidableEq ι] {rows : List α} {f : α → κ}
    {g : α → ι} {k : κ} {i : ι} (hcoarse : ∀ x ∈ rows, f x = k → g x = i)
    (hone : (rows.map g).count i = 1) (hmem : k ∈ rows.map f) : (rows.map f).count k = 1 := by
  have hpos := List.count_pos_iff.mpr hmem
  have hle : (rows.map f).count k ≤ (rows.map g).count i := by
    unfold List.count
    rw [List.countP_map, List.countP_map]
    exact List.countP_mono_left fun x hx h => beq_iff_eq.mpr (hcoarse x hx (beq_iff_eq.mp h))
  omega

theorem networkKeyFor_some {d : Inventory} {record : CsvRecord} {key : Id × String}
    (h : networkKeyFor d record = some key) : key.2 = record.fields "cidr" := by
  obtain ⟨switchId, -, rfl⟩ := Option.map_eq_some_iff.mp h
  rfl

/-- A row that is created carries the warning exactly if its network had an owner before. -/
theorem message_of_owned (t : Texts) (env : Env) (d : Inventory) {key : Id × String}
    (hheld : (networkImporter t env actor d).held key = false) :
    (networkImporter t env actor d).message key =
      if key.2 ∈ d.owners.map Prod.fst then ambiguityWarning else "" := by
  unfold networkImporter
  dsimp only
  obtain ⟨hzero, hnone⟩ | ⟨hone, owner, hmem, hsome⟩ | ⟨hmany, hsome⟩ :=
    namedIDs_spec d.owners key.2
  · rw [hnone, if_neg (List.count_eq_zero.mp hzero)]
  · -- The only owner is not this switch, which would hold the key then.
    have hother : owner ≠ key.1 := by
      rintro rfl
      obtain ⟨network, hnetwork, heq⟩ := List.mem_map.mp hmem
      refine Bool.false_ne_true (hheld.symm.trans (namedIDs_held.mpr ?_))
      unfold Inventory.byKey
      unfold Inventory.owners at hone
      rw [List.map_map] at hone ⊢
      refine count_eq_one_of_coarse (fun network _ h => congrArg Prod.snd h) hone ?_
      refine List.mem_map.mpr ⟨network, hnetwork, ?_⟩
      exact Prod.ext (congrArg Prod.snd heq) (congrArg Prod.fst heq)
    rw [hsome, if_pos (List.count_pos_iff.mp (by omega))]
    exact if_pos fun h => hother (Option.some.inj h)
  · rw [hsome, if_pos (List.count_pos_iff.mp (by omega))]
    rfl

/-- An import of networks that reports no error warns of every network which it creates and which
belongs to different switches then, exactly if no two of its records name one network for
different switches, unless the network had an owner before.

Both sides speak of the same report.  On the left is what the import leaves behind, a label that two
networks have; on the right what it could see, the records of the file and the owners that were read
before the first of them.  A network that is new and has a namesake in the same file is in neither
of the tables that the loop looks at, and that is the only way in which a warning is missed. -/
theorem import_warns {t : Texts} {env : Env} {r : Request} {d : Inventory} {w : World}
    {report : Report} (hkind : r.kind = .networks)
    (h : importRows t env r d = some (w, report)) (herrors : report.errors = 0) :
    (∀ row ∈ report.rows, row.status = .create → w.db.Shared row.label →
      ∃ warned ∈ report.rows, warned.status = .create ∧ warned.label = row.label ∧
        warned.message = ambiguityWarning) ↔
    ∀ record ∈ r.records, ∀ other ∈ r.records, record.fields "cidr" = other.fields "cidr" →
      networkKeyFor d record ≠ networkKeyFor d other →
        record.fields "cidr" ∈ d.owners.map Prod.fst := by
  obtain ⟨-, s, hrun, rfl, rfl⟩ := (importRows_networks hkind).mp h
  have hl := networkImporter_lawful t env r.actor d
  obtain ⟨keys, assets, hplan, hreport, hgrows, hkeys⟩ := Importer.run_planned hl hrun herrors
  have hnames := Importer.plan_names hl hplan
  have hafter := hgrows.networkKeys
  rw [filterMap_of_map hkeys] at hafter
  have hrows {row : ImportRow} : row ∈ s.report.rows ↔ ∃ record ∈ r.records, ∃ key,
      networkKeyFor d record = some key ∧ (networkImporter t env r.actor d).row record key = row := by
    rw [hreport, Report.addAll_eq]
    show row ∈ [] ++ _ ↔ _
    rw [List.nil_append]
    exact Importer.mem_rows hl hplan
  -- A network with no owner before is held under none of its keys.
  have hfree {key : Id × String} (hnone : key.2 ∉ d.owners.map Prod.fst) :
      key ∉ d.byKey.map Prod.fst ∧ (networkImporter t env r.actor d).held key = false := by
    have hmem : key ∉ d.byKey.map Prod.fst := fun hmem => hnone (by
      obtain ⟨_, hrow, rfl⟩ := List.mem_map.mp hmem
      obtain ⟨network, hnetwork, rfl⟩ := List.mem_map.mp hrow
      exact List.mem_map.mpr ⟨_, List.mem_map_of_mem hnetwork, rfl⟩)
    exact ⟨hmem, namedIDs_free hmem⟩
  constructor
  · intro hwarns record hrecord other hother hcidr hne
    by_contra hnone
    have hkey {record : CsvRecord} (hrecord : record ∈ r.records) :
        ∃ key ∈ keys, networkKeyFor d record = some key := by
      obtain ⟨key, hkey, hname⟩ := List.mem_map.mp
        (hnames ▸ List.mem_map_of_mem hrecord : networkKeyFor d record ∈ keys.map some)
      exact ⟨key, hkey, hname.symm⟩
    obtain ⟨key, hmem, hname⟩ := hkey hrecord
    obtain ⟨key', hmem', hname'⟩ := hkey hother
    have hlabel := networkKeyFor_some hname
    have hlabel' := (networkKeyFor_some hname').trans hcidr.symm
    have hcreated {key : Id × String} (hmem : key ∈ keys) (hlabel : key.2 = record.fields "cidr") :
        key ∈ s.world.db.byKey.map Prod.fst := by
      rw [hafter]
      refine List.mem_append_right _ (List.mem_filter.mpr ⟨hmem, ?_⟩)
      rw [(hfree (hlabel ▸ hnone)).2]
      rfl
    have hshared : s.world.db.Shared (record.fields "cidr") := by
      refine ⟨key.1, key'.1, fun h => hne ?_, ?_, ?_⟩
      · rw [hname, hname']
        exact congrArg some (Prod.ext h (hlabel.trans hlabel'.symm))
      · exact hlabel ▸ hcreated hmem hlabel
      · exact hlabel' ▸ hcreated hmem' hlabel'
    have hrow := hrows.mpr ⟨record, hrecord, key, hname, rfl⟩
    unfold Importer.row at hrow
    rw [(hfree (hlabel ▸ hnone)).2, if_neg Bool.false_ne_true] at hrow
    obtain ⟨warned, hwarned, hcreate, hsame, hmessage⟩ := hwarns _ hrow rfl hshared
    obtain ⟨source, -, k, hk, rfl⟩ := hrows.mp hwarned
    unfold Importer.row at hcreate hsame hmessage
    split_ifs at hcreate hsame hmessage with hheld
    have hheld := Bool.eq_false_iff.mpr hheld
    have hk : k.2 ∉ d.owners.map Prod.fst := by
      rw [networkKeyFor_some hk]
      exact (show source.fields "cidr" = record.fields "cidr" from hsame) ▸ hnone
    have hempty := message_of_owned t env d hheld
    rw [if_neg hk] at hempty
    exact absurd (hempty.symm.trans hmessage) (by decide)
  · intro hnames' row hrow hcreate hshared
    obtain ⟨record, hrecord, key, hname, rfl⟩ := hrows.mp hrow
    have hlabel := networkKeyFor_some hname
    unfold Importer.row at hcreate hshared
    split_ifs at hcreate hshared with hheld
    have hheld := Bool.eq_false_iff.mpr hheld
    by_cases howned : key.2 ∈ d.owners.map Prod.fst
    · refine ⟨_, hrow, ?_, rfl, ?_⟩ <;> unfold Importer.row <;>
        rw [hheld, if_neg Bool.false_ne_true]
      show (networkImporter t env r.actor d).message key = _
      rw [message_of_owned t env d hheld, if_pos howned]
    · -- Both owners are new, so two records name the network.
      obtain ⟨owner, other, hne, howner, hother⟩ := hshared
      have hrecord {owner : Id} (h : (owner, record.fields "cidr") ∈ s.world.db.byKey.map Prod.fst) :
          ∃ source ∈ r.records, networkKeyFor d source = some (owner, record.fields "cidr") := by
        rw [hafter] at h
        have hmem := (List.mem_append.mp h).resolve_left (hfree (hlabel ▸ howned)).1
        exact List.mem_map.mp
          (hnames ▸ List.mem_map_of_mem (List.mem_filter.mp hmem).1 : some _ ∈ r.records.map _)
      obtain ⟨source, hsource, hsourceKey⟩ := hrecord howner
      obtain ⟨source', hsource', hsourceKey'⟩ := hrecord hother
      have hcidr := networkKeyFor_some hsourceKey
      have hcidr' := networkKeyFor_some hsourceKey'
      refine absurd ?_ howned
      rw [hlabel, show record.fields "cidr" = source.fields "cidr" from hcidr]
      refine hnames' source hsource source' hsource' (hcidr.symm.trans hcidr') ?_
      rw [hsourceKey, hsourceKey']
      exact fun h => hne (congrArg Prod.fst (Option.some.inj h))

end Owners

/-- A network that has an owner, imported for another switch. -/
theorem import_warns_owned :
    ∃ w report, importRows Demo.texts Demo.env Demo.both (Demo.inventory [(7, Demo.row)]) =
        some (w, report) ∧
      ∀ row ∈ report.rows, row.status = .create → w.db.Shared row.label →
        ∃ warned ∈ report.rows, warned.status = .create ∧ warned.label = row.label ∧
          warned.message = ambiguityWarning := by
  have hend : (importRows Demo.texts Demo.env Demo.both (Demo.inventory [(7, Demo.row)])).map
      (fun made => made.2.errors) = some 0 := by decide +kernel
  obtain ⟨⟨w, report⟩, hrows, herrors⟩ := Option.map_eq_some_iff.mp hend
  refine ⟨w, report, hrows, (import_warns rfl hrows herrors).mpr ?_⟩
  decide +kernel

/-- Two records of one file give a network without an owner to two switches, and no row of the
report says so. -/
theorem import_warns_not :
    ¬∀ (t : Texts) (env : Env) (r : Request) (d : Inventory) (w : World) (report : Report),
      r.kind = .networks → importRows t env r d = some (w, report) → report.errors = 0 →
        ∀ row ∈ report.rows, row.status = .create → w.db.Shared row.label →
          ∃ warned ∈ report.rows, warned.status = .create ∧ warned.label = row.label ∧
            warned.message = ambiguityWarning := by
  intro hall
  have hend : (importRows Demo.texts Demo.env Demo.both (Demo.inventory [])).map
      (fun made => (made.1.db.byKey.map Prod.fst, made.2.errors,
        made.2.rows.map fun row => (row.status, row.label, row.message))) =
      some ([(1, "10.1.0.0/24"), (2, "10.1.0.0/24")], 0,
        [(.create, "10.1.0.0/24", ""), (.create, "10.1.0.0/24", "")]) := by decide +kernel
  obtain ⟨⟨w, report⟩, hrows, hmade⟩ := Option.map_eq_some_iff.mp hend
  obtain ⟨hkeys, hmade⟩ := Prod.mk.inj hmade
  obtain ⟨herrors, hmade⟩ := Prod.mk.inj hmade
  have hshared : w.db.Shared "10.1.0.0/24" := by
    refine ⟨1, 2, by decide, ?_, ?_⟩ <;> rw [hkeys] <;> simp
  have hfirst : ∃ row ∈ report.rows, (row.status, row.label, row.message) =
      (RowStatus.create, "10.1.0.0/24", "") :=
    List.mem_map.mp (hmade ▸ List.mem_cons_self)
  obtain ⟨row, hrow, heq⟩ := hfirst
  obtain ⟨hstatus, hrest⟩ := Prod.mk.inj heq
  obtain ⟨hlabel, -⟩ := Prod.mk.inj hrest
  obtain ⟨warned, hwarned, -, -, hmessage⟩ := hall Demo.texts Demo.env Demo.both
    (Demo.inventory []) w report rfl hrows herrors row hrow hstatus (hlabel ▸ hshared)
  have hmem := hmade ▸ List.mem_map_of_mem hwarned
  rw [hmessage] at hmem
  simp [ambiguityWarning] at hmem

end BindPlane.Imports
