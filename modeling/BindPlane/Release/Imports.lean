import BindPlane.Release.Prefixes
import Mathlib.Algebra.Group.Int.Defs

/-!
# Imports

`importAssets` turns the records of a CSV into switches or networks.  One transaction reads the
maps it needs, goes through the records in order, inserts the rows that are new, and commits if
no row has an error; a dry run does the same and rolls back.

**One loop.**  The two imports differ in what they check, in the key under which a row exists
already and in what they insert.  `Importer` is what a loop needs to know of these, and
`Importer.step` is the loop's body.

**Maps.**  `namedIDs` maps a name to an ID; a name that several rows share is in the map without
one, and reads as ambiguous.

**Faults.**  `Env` answers every statement.  A statement may fail, and the database may reject a
row; a rejected row is undone by its savepoint and reported, and a failed statement ends the
import.

**Source.**  What is modelled here is in `internal/release/admin.go` and
`internal/release/ops_import.go`.
-/

namespace BindPlane.Imports

/-! ## Tables -/

/-- The columns of a switch that an import fills in. -/
structure SwitchColumns where
  name : String
  managementIp : String
  credentialId : Id
  profileId : Id
  vendor : String
  model : String
  site : String
  description : String
  groupId : Option Id
  protocol : String
  port : Option ℕ
  deriving DecidableEq

/-- The columns of a network that an import fills in. -/
structure NetworkColumns where
  switchId : Id
  cidr : String
  validated : Bool
  vlan : String
  description : String
  deriving DecidableEq

/-- A row to insert. -/
inductive NewRow
  | group (name : String)
  | switch (columns : SwitchColumns)
  | network (columns : NetworkColumns)
  deriving DecidableEq

/-- A row of `bp_asset_events`. -/
structure AssetEvent where
  actor : String
  action : String
  objectId : Id
  objectName : String
  deriving DecidableEq

/-- The tables that an import reads and writes; of credentials, profiles and groups, the names. -/
structure Inventory where
  credentials : List (String × Id)
  profiles : List (String × Id)
  groups : List (String × Id)
  switches : List (Id × SwitchColumns)
  networks : List (Id × NetworkColumns)
  events : List AssetEvent
  deriving DecidableEq

namespace NewRow

/-- The action of the row's audit event. -/
def action : NewRow → String
  | group _ => "group.create"
  | switch _ => "switch.import"
  | network _ => "network.import"

/-- The name of the object in the audit event. -/
def label : NewRow → String
  | group name => name
  | switch columns => columns.name
  | network columns => columns.cidr

end NewRow

/-- A row and its audit event are inserted. -/
def Inventory.insert (d : Inventory) (actor : String) (id : Id) (row : NewRow) : Inventory :=
  let d := match row with
    | .group name => { d with groups := d.groups ++ [(name, id)] }
    | .switch columns => { d with switches := d.switches ++ [(id, columns)] }
    | .network columns => { d with networks := d.networks ++ [(id, columns)] }
  { d with events := d.events ++ [⟨actor, row.action, id, row.label⟩] }

/-- What becomes of an insertion. -/
inductive Inserted
  | created (id : Id)
  /-- A constraint does not hold; the savepoint is rolled back. -/
  | rejected
  /-- The statement, or the savepoint, fails. -/
  | failed
  deriving DecidableEq

/-- Go's text functions. -/
structure Texts where
  toLower : String → String
  trimSpace : String → String

/-- The answers of the database to the statements of one import. -/
structure Env where
  begins : Bool
  /-- The `n`-th of the lookups at the start. -/
  lookup : ℕ → Bool
  /-- An insertion for the `n`-th record. -/
  insert : ℕ → Inventory → NewRow → Inserted
  commits : Bool

/-- `namedIDs`: no entry, an entry without an ID, or an ID. -/
def namedIDs {κ : Type} [DecidableEq κ] (rows : List (κ × Id)) : κ → Option (Option Id) :=
  rows.foldl
    (fun m row name =>
      if name = row.1 then (if (m row.1).isSome then some none else some (some row.2)) else m name)
    fun _ => none

/-! ## Reports -/

/-- A record of `readImportCSV`; a column that the file does not have is empty. -/
structure CsvRecord where
  line : ℕ
  fields : String → String
  line_pos : 0 < line

inductive RowStatus
  | create | skip | error
  deriving DecidableEq

structure ImportRow where
  line : ℕ
  status : RowStatus
  label : String
  message : String
  deriving DecidableEq

inductive Kind
  | switches | networks
  deriving DecidableEq

structure Report where
  kind : Kind
  dryRun : Bool
  committed : Bool
  created : ℕ
  skipped : ℕ
  errors : ℕ
  newGroups : List String
  rows : List ImportRow
  deriving DecidableEq

/-- `report.add`. -/
def Report.add (report : Report) (row : ImportRow) : Report :=
  match row.status with
  | .create => { report with created := report.created + 1, rows := report.rows ++ [row] }
  | .skip => { report with skipped := report.skipped + 1, rows := report.rows ++ [row] }
  | .error => { report with errors := report.errors + 1, rows := report.rows ++ [row] }

/-! ## The loop -/

/-- What is written while the loop runs: the tables, the groups that are known and those that
are new.

The tables change while the loop runs, since a row is inserted as soon as its record has passed the
checks.  The maps that were read before the loop do not, apart from that of the groups, which the
loop itself extends. -/
structure World where
  db : Inventory
  groups : String → Option (Option Id)
  newGroups : List String

/-- What a loop needs to know of its kind of asset.

The two imports of the source are two functions of the same shape.  The record lists where they
differ.  Each of them is written here as the common loop with its own values, and what holds of the
loop is shown once. -/
structure Importer (κ π : Type) where
  label : CsvRecord → String
  /-- The checks of a record, with the lines on which keys were seen: a message, or the row's
  key and the values that were read. -/
  check : (κ → ℕ) → CsvRecord → Except String (κ × π)
  /-- A row exists under the key. -/
  held : κ → Bool
  heldMessage : String
  /-- The message of a row that is created. -/
  message : κ → String
  /-- The insertions for a record; `none` ends the import, and `false` is a rejected row. -/
  create : ℕ → World → CsvRecord → κ → π → Option (World × Bool)

/-- The loop variables. -/
structure Loop (κ : Type) where
  world : World
  seen : κ → ℕ
  report : Report

section Loop

variable {κ π : Type} [DecidableEq κ]

/-- The body of the loop.

Every record that does not end the import adds one row to the report.  A key is marked as seen as
soon as the record has passed its checks, also where the row is there already or the database
rejects the insertion. -/
def Importer.step (imp : Importer κ π) (s : Loop κ) (record : CsvRecord) : Option (Loop κ) :=
  match imp.check s.seen record with
  | .error message =>
      some { s with report := s.report.add ⟨record.line, .error, imp.label record, message⟩ }
  | .ok (key, values) =>
      let seen := fun k => if k = key then record.line else s.seen k
      if imp.held key then
        some { s with
          seen := seen
          report := s.report.add ⟨record.line, .skip, imp.label record, imp.heldMessage⟩ }
      else
        (imp.create s.report.rows.length s.world record key values).map fun made =>
          { world := made.1
            seen := seen
            report := s.report.add
              (if made.2 then ⟨record.line, .create, imp.label record, imp.message key⟩
              else ⟨record.line, .error, imp.label record, "the database rejected this row"⟩) }

/-- The loop. -/
def Importer.run (imp : Importer κ π) (s : Loop κ) (records : List CsvRecord) :
    Option (Loop κ) :=
  records.foldlM imp.step s

end Loop

/-! ## Switches -/

/-- `vendorAliases`. -/
def vendorAliases : String → Option String
  | "huawei" | "华为" => some "huawei"
  | "h3c" | "华三" | "新华三" => some "h3c"
  | "ruijie" | "锐捷" => some "ruijie"
  | "cisco" | "思科" => some "cisco"
  | "other" | "其他" => some "other"
  | _ => none

/-- `defaultString`. -/
def defaultString (t : Texts) (value fallback : String) : String :=
  if t.trimSpace value = "" then fallback else t.trimSpace value

/-- `strconv.Atoi`, without its bounds. -/
def goAtoi (s : String) : Option ℤ :=
  match s.toList with
  | '+' :: cs => (atoi cs).map Nat.cast
  | '-' :: cs => (atoi cs).map fun n => -(n : ℤ)
  | cs => (atoi cs).map Nat.cast

/-- The port of a record: `none` if it is not a port. -/
def parsePort (value : String) : Option (Option ℕ) :=
  if value = "" then some none
  else
    match goAtoi value with
    | some n => if n < 1 ∨ 65535 < n then none else some (some n.toNat)
    | none => none

/-- `validIPv4`. -/
def validIPv4 (value : String) : Bool := (parseAddr value).isSome

/-- The values of a switch that were read. -/
structure SwitchValues where
  vendor : String
  protocol : String
  port : Option ℕ
  credentialId : Id
  profileId : Id

/-- The checks of `importSwitches`; the maps are of the credentials and the profiles, and a
default is there if it is a canonical UUID.

The order of the checks decides which message a record with several faults gets, so it is that of
the source: the port is parsed first, and the credential is looked up last but one. -/
def checkSwitch (t : Texts) (credentials profiles : String → Option (Option Id))
    (defaultCredential defaultProfile : Option Id) (seen : String → ℕ) (record : CsvRecord) :
    Except String (String × SwitchValues) :=
  let f := record.fields
  let ip := f "management_ip"
  let vendor := vendorAliases (t.toLower (defaultString t (f "vendor") "other"))
  let protocol := t.toLower (defaultString t (f "protocol") "telnet")
  match parsePort (f "port") with
  | none => .error "port must be 1-65535"
  | some port =>
      let credentialId :=
        if f "credential" = "" then defaultCredential else (credentials (f "credential")).join
      let profileId := if f "profile" = "" then defaultProfile else (profiles (f "profile")).join
      if f "name" = "" then .error "name is required"
      else if !validIPv4 ip then .error "management_ip must be one canonical IPv4 address"
      else if seen ip ≠ 0 then .error ("management_ip repeats line " ++ toString (seen ip))
      else
        match vendor with
        | none => .error "vendor must be huawei, h3c, ruijie, cisco or other"
        | some vendor =>
            if protocol ≠ "telnet" ∧ protocol ≠ "ssh" then
              .error "protocol must be telnet or ssh"
            else
              match credentialId, profileId with
              | none, _ =>
                  .error "credential not found (give its exact name, or choose a default)"
              | some _, none =>
                  .error "command profile not found (give its exact name, or choose a default)"
              | some credentialId, some profileId =>
                  .ok (ip, ⟨vendor, protocol, port, credentialId, profileId⟩)

/-- The group of a record: an ID that is known, or a new row; `none` ends the import.

Where a group is missing it is inserted, and remembered under its name for the records behind.  A
failed insertion is no error of the record: it ends the import. -/
def ensureGroup (env : Env) (actor : String) (n : ℕ) (w : World) (name : String) :
    Option (World × Option Id) :=
  if name = "" then some (w, none)
  else
    match (w.groups name).join with
    | some id => some (w, some id)
    | none =>
        match env.insert n w.db (.group name) with
        | .created id =>
            some ({ db := w.db.insert actor id (.group name)
                    groups := fun g => if g = name then some (some id) else w.groups g
                    newGroups := w.newGroups ++ [name] }, some id)
        | _ => none

/-- `importInsert`. -/
def importInsert (env : Env) (actor : String) (n : ℕ) (w : World) (row : NewRow) :
    Option (World × Bool) :=
  match env.insert n w.db row with
  | .created id => some ({ w with db := w.db.insert actor id row }, true)
  | .rejected => some (w, false)
  | .failed => none

/-- The insertions of `importSwitches`. -/
def createSwitch (env : Env) (actor : String) (n : ℕ) (w : World) (record : CsvRecord)
    (ip : String) (values : SwitchValues) : Option (World × Bool) :=
  let f := record.fields
  (ensureGroup env actor n w (f "group")).bind fun (w, groupId) =>
    importInsert env actor n w (.switch {
      name := f "name"
      managementIp := ip
      credentialId := values.credentialId
      profileId := values.profileId
      vendor := values.vendor
      model := f "model"
      site := f "site"
      description := f "description"
      groupId := groupId
      protocol := values.protocol
      port := values.port })

/-- `host(management_ip),id` of the switches. -/
def Inventory.byIP (d : Inventory) : List (String × Id) :=
  d.switches.map fun s => (s.2.managementIp, s.1)

/-- `name,id` of the switches. -/
def Inventory.byName (d : Inventory) : List (String × Id) :=
  d.switches.map fun s => (s.2.name, s.1)

/-- The loop of `importSwitches`, with the maps read from a state of the tables. -/
def switchImporter (t : Texts) (env : Env) (actor : String)
    (defaultCredential defaultProfile : Option Id) (d : Inventory) :
    Importer String SwitchValues where
  label record := record.fields "name"
  check := checkSwitch t (namedIDs d.credentials) (namedIDs d.profiles) defaultCredential
    defaultProfile
  held ip := (namedIDs d.byIP ip).join.isSome
  heldMessage := "a switch with this management IP already exists"
  message _ := ""
  create := createSwitch env actor

/-! ## Networks -/

/-- `prefix.Masked()`. -/
def masked (addr : IPv4) (bits : Fin 33) : IPv4 :=
  (addr >>> (32 - bits.val)) <<< (32 - bits.val)

/-- The switch that a record names: by its address, or else by its name. -/
def switchOf (byIP byName : String → Option (Option Id)) (name : String) : Option Id :=
  match (byIP name).join with
  | some id => some id
  | none => (byName name).join

/-- The `validated` column: `none` if it is neither true nor false. -/
def parseValidated (t : Texts) (value : String) : Option Bool :=
  match t.toLower value with
  | "" | "false" | "no" | "0" | "否" => some false
  | "true" | "yes" | "1" | "是" => some true
  | _ => none

/-- The checks of `importNetworks`. -/
def checkNetwork (t : Texts) (byIP byName : String → Option (Option Id))
    (seen : Id × String → ℕ) (record : CsvRecord) : Except String ((Id × String) × Bool) :=
  let f := record.fields
  let cidr := f "cidr"
  match parseValidated t (f "validated") with
  | none => .error "validated must be true or false"
  | some validated =>
      match parsePrefix cidr with
      | none => .error "cidr must be an IPv4 network such as 10.0.0.0/24"
      | some (addr, bits) =>
          if masked addr bits ≠ addr then
            .error ("cidr has host bits set; did you mean " ++ addrText (masked addr bits) ++ "/" ++
              toString bits.val ++ "?")
          else
            match switchOf byIP byName (f "switch") with
            | none =>
                if (byName (f "switch")).isSome then
                  .error "several switches share this name; use the management IP"
                else .error "switch not found (give its management IP or exact name)"
            | some switchId =>
                let line := seen (switchId, cidr)
                if line ≠ 0 then .error ("network repeats line " ++ toString line)
                else .ok ((switchId, cidr), validated)

/-- The insertion of `importNetworks`. -/
def createNetwork (env : Env) (actor : String) (n : ℕ) (w : World) (record : CsvRecord)
    (key : Id × String) (validated : Bool) : Option (World × Bool) :=
  importInsert env actor n w (.network {
    switchId := key.1
    cidr := key.2
    validated := validated
    vlan := record.fields "vlan"
    description := record.fields "description" })

/-- `switch_id::text||' '||cidr::text,id` of the networks. -/
def Inventory.byKey (d : Inventory) : List ((Id × String) × Id) :=
  d.networks.map fun n => ((n.2.switchId, n.2.cidr), n.1)

/-- `cidr::text,switch_id::text` of the networks. -/
def Inventory.owners (d : Inventory) : List (String × Id) :=
  d.networks.map fun n => (n.2.cidr, n.2.switchId)

/-- The warning of a row whose network another switch owns. -/
def ambiguityWarning : String :=
  "another switch also owns this network; resolution stays ambiguous until corrected"

/-- The loop of `importNetworks`.  A key that several rows share is in the map without an ID,
which reads as a key that is not there. -/
def networkImporter (t : Texts) (env : Env) (actor : String) (d : Inventory) :
    Importer (Id × String) Bool where
  label record := record.fields "cidr"
  check := checkNetwork t (namedIDs d.byIP) (namedIDs d.byName)
  held key := (namedIDs d.byKey key).join.isSome
  heldMessage := "this switch already owns this network"
  message key :=
    match namedIDs d.owners key.2 with
    | some owner => if owner ≠ some key.1 then ambiguityWarning else ""
    | none => ""
  create := createNetwork env actor

/-! ## One import -/

/-- A request to import. -/
structure Request where
  kind : Kind
  dryRun : Bool
  records : List CsvRecord
  defaultCredential : Option Id
  defaultProfile : Option Id
  actor : String

/-- The report before the first record. -/
def Request.report (r : Request) : Report where
  kind := r.kind
  dryRun := r.dryRun
  committed := false
  created := 0
  skipped := 0
  errors := 0
  newGroups := []
  rows := []

/-- `importSwitches` and `importNetworks`: the tables and the report behind the loop, or `none`
where a statement has failed. -/
def importRows (t : Texts) (env : Env) (r : Request) (d : Inventory) :
    Option (World × Report) :=
  if (List.range 4).all env.lookup then
    let world : World := ⟨d, namedIDs d.groups, []⟩
    match r.kind with
    | .switches =>
        ((switchImporter t env r.actor r.defaultCredential r.defaultProfile d).run
          ⟨world, fun _ => 0, r.report⟩ r.records).map fun s => (s.world, s.report)
    | .networks =>
        ((networkImporter t env r.actor d).run ⟨world, fun _ => 0, r.report⟩ r.records).map
          fun s => (s.world, s.report)
  else none

/-- `importAssets` behind its checks of the request: the report, or `none` for a 503, and the
tables that are left. -/
def importAssets (t : Texts) (env : Env) (r : Request) (d : Inventory) :
    Option Report × Inventory :=
  if env.begins then
    match importRows t env r d with
    | none => (none, d)
    | some (world, report) =>
        let report := { report with newGroups := world.newGroups }
        if report.errors = 0 ∧ r.dryRun = false ∧ 0 < report.created then
          if env.commits then (some { report with committed := true }, world.db) else (none, d)
        else (some report, d)
  else (none, d)

end BindPlane.Imports
