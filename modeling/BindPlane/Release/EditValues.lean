import BindPlane.Codec.JsonDoc
import BindPlane.Release.Prefixes

/-!
# The values of an edit

`updateAuditedThen` writes the columns of a request that differ from what is stored, and it
compares what `auditValue` makes of both.

**Values.**  A column is read by an expression (`Read`), as a Go value; a requested value is stored
as PostgreSQL takes it (`assign`).  The comparison is of Go values, and what the columns hold
afterwards is of PostgreSQL's.

**JSON.**  A `jsonb` column is read as a text, which `encoding/json` decodes: the document is the
same up to its numbers, which are exact decimals in the column and `float64` behind the decoder.

**Faults.**  `Env` answers every statement; one that fails rolls the edit back.
-/

namespace BindPlane.Edits

open JsonDoc

/-! ## JSON texts -/

/-- The JSON grammar, and the input and output of PostgreSQL's `jsonb`.

`encoding/json` and PostgreSQL read the same texts and keep different things of them.  Both are
given here by the document that a text denotes, with its numbers as exact decimals: what the column
stores is that document, and what Go compares is the same document after every number has been
rounded to a `float64`. -/
structure JsonTexts where
  /-- The document of a text, with exact numbers. -/
  read : String → Option (Doc Rat)
  /-- PostgreSQL takes the text for a `jsonb` column. -/
  accepts : String → Bool
  /-- The text of the value that is stored for it. -/
  normal : String → String

namespace JsonTexts

/-- The value that is stored for a text. -/
def jsonb (J : JsonTexts) (text : String) : Option (Doc Rat) :=
  if J.accepts text then (J.read text).map Doc.normal else none

/-- What PostgreSQL stores is what the text says. -/
structure Lawful (J : JsonTexts) : Prop where
  reads : ∀ text, J.accepts text = true → (J.read text).isSome = true
  stores : ∀ text, J.accepts text = true → J.jsonb (J.normal text) = J.jsonb text

/-- `float64` of a number that has one. -/
def rounded (x : Rat) : ℤ := (float64 x).getD 0

/-- `json.Unmarshal` into an `any`: an overflow is an error, also in a member that another of its
name replaces. -/
def unmarshal (J : JsonTexts) (text : String) : Option (Doc ℤ) :=
  (J.read text).bind fun t =>
    if t.numbers.all fun x => (float64 x).isSome then some (t.normal.map rounded) else none

end JsonTexts

/-! ## Columns -/

/-- A value of a column. -/
inductive Stored
  | null
  | text (s : String)
  | int (n : ℤ)
  | bool (b : Bool)
  /-- A `jsonb` value, by its text. -/
  | jsonb (text : String)
  /-- An address, and its mask if that is not the whole address. -/
  | inet (host : String) (mask : Option ℕ)
  deriving DecidableEq

/-- The expression that reads a column: itself or its text, `host(…)`, `… IS NOT NULL`. -/
inductive Read
  | plain | host | present
  deriving DecidableEq

/-- `assetField`. -/
structure AssetField where
  column : String
  read : Read := .plain
  json : Bool := false
  secret : Bool := false

/-- `assetKind`; the tables are kept apart by the kind. -/
structure AssetKind where
  action : String
  label : String
  fields : List AssetField

def credentialFields : AssetKind where
  action := "credential.update"
  label := "name"
  fields :=
    [{ column := "name" }, { column := "username" }, { column := "description" },
      { column := "is_active" }, { column := "encrypted_password", read := .present, secret := true },
      { column := "encrypted_secret", read := .present, secret := true }]

def profileFields : AssetKind where
  action := "profile.update"
  label := "name"
  fields :=
    [{ column := "name" }, { column := "is_active" },
      { column := "login_prompt_patterns", json := true },
      { column := "command_templates", json := true },
      { column := "prompt_patterns", json := true },
      { column := "pagination_rules", json := true },
      { column := "success_patterns", json := true },
      { column := "error_patterns", json := true },
      { column := "parser_rules", json := true }]

def switchFields : AssetKind where
  action := "switch.update"
  label := "name"
  fields :=
    [{ column := "name" }, { column := "management_ip", read := .host },
      { column := "credential_id" }, { column := "command_profile_id" },
      { column := "is_enabled" }, { column := "vendor" }, { column := "model" },
      { column := "site" }, { column := "description" }, { column := "group_id" },
      { column := "protocol" }, { column := "port" }]

def groupFields : AssetKind where
  action := "group.update"
  label := "name"
  fields := [{ column := "name" }, { column := "description" }]

def networkFields : AssetKind where
  action := "network.update"
  label := "cidr"
  fields :=
    [{ column := "switch_id" }, { column := "cidr" }, { column := "is_enabled" },
      { column := "is_validated" }, { column := "vlan" }, { column := "description" }]

def scheduleFields : AssetKind where
  action := "schedule.update"
  label := "name"
  fields :=
    [{ column := "name" }, { column := "kind" }, { column := "cron" }, { column := "scope" },
      { column := "group_id" }, { column := "is_enabled" }]

def ruleFields : AssetKind where
  action := "rule.update"
  label := "name"
  fields :=
    [{ column := "name" }, { column := "description" }, { column := "pattern" },
      { column := "mode" }, { column := "severity" }, { column := "vendor" },
      { column := "group_id" }, { column := "is_enabled" }]

/-- Every kind of asset there is. -/
def assetKinds : List AssetKind :=
  [credentialFields, profileFields, switchFields, groupFields, networkFields, scheduleFields,
    ruleFields]

/-! ## Go values -/

/-- A value behind an `any`. -/
inductive GoValue
  | nil
  | string (s : String)
  | int64 (n : ℤ)
  | bool (b : Bool)
  /-- A decoded document. -/
  | document (t : Doc ℤ)
  deriving DecidableEq

/-- A value of a request. -/
inductive Requested
  | nil
  | string (s : String)
  | int (n : ℤ)
  | bool (b : Bool)
  deriving DecidableEq

/-- The value that a field reads from a column. -/
def AssetField.scan (field : AssetField) (stored : Stored) : GoValue :=
  match field.read, stored with
  | .present, stored => .bool (stored ≠ .null)
  | .host, .inet host _ => .string host
  | _, .null => .nil
  | _, .text s => .string s
  | _, .int n => .int64 n
  | _, .bool b => .bool b
  | _, .jsonb text => .string text
  | _, .inet host none => .string host
  | _, .inet host (some mask) => .string (host ++ "/" ++ toString mask)

/-- A text under `auditValue`. -/
def auditText (J : JsonTexts) (isJson : Bool) (text : String) : GoValue :=
  if isJson then
    match J.unmarshal text with
    | some document => .document document
    | none => .string text
  else .string text

/-- `auditValue` of a value that was read. -/
def auditStored (J : JsonTexts) (isJson : Bool) : GoValue → GoValue
  | .string text => auditText J isJson text
  | value => value

/-- `auditValue` of a value of a request: an `int` is widened. -/
def auditRequested (J : JsonTexts) (isJson : Bool) : Requested → GoValue
  | .nil => .nil
  | .string text => auditText J isJson text
  | .int n => .int64 n
  | .bool b => .bool b

/-- The value that PostgreSQL stores for a requested one: `none` if it rejects it.  An address is
requested as a canonical IPv4 address. -/
def AssetField.assign (J : JsonTexts) (field : AssetField) : Requested → Option Stored
  | .nil => some .null
  | .string s =>
      if field.json then if J.accepts s then some (.jsonb (J.normal s)) else none
      else if field.read = .host then if (parseAddr s).isSome then some (.inet s none) else none
      else some (.text s)
  | .int n => some (.int n)
  | .bool b => some (.bool b)

/-! ## One edit -/

/-- A row of the table. -/
structure Row where
  version : ℕ
  cells : String → Stored

/-- What the audit record says of a column. -/
inductive AuditChange
  | cleared
  | replaced
  | fromTo (current requested : GoValue)

/-- A row of `bp_asset_events`. -/
structure AssetEvent where
  actor : String
  action : String
  objectId : String
  objectName : Stored
  changes : List (String × AuditChange)

structure Db where
  rows : String → Option Row
  events : List AssetEvent

/-- The answers to the statements of an edit. -/
structure Env where
  begins : Bool
  selects : Bool
  /-- The constraints of the table take the row. -/
  updates : Row → Bool
  audits : Bool
  /-- `then`, which writes no column of the kind. -/
  follows : Bool
  commits : Bool

inductive Failure
  | store | notFound | stale
  deriving DecidableEq

/-- A column to set. -/
structure ColumnEdit where
  field : AssetField
  value : Requested
  change : AuditChange

/-- One round of the loop over the fields.

A secret is never compared with what is stored, since the row holds it sealed: a new one always
counts as a change, and the audit says only that it was replaced or cleared. -/
def editOf (J : JsonTexts) (row : Row) (next : String → Option Requested) (field : AssetField) :
    Option ColumnEdit :=
  match next field.column with
  | none => none
  | some value =>
      let current := field.scan (row.cells field.column)
      if field.secret then
        if value = .nil then
          if current = .bool false then none else some ⟨field, value, .cleared⟩
        else some ⟨field, value, .replaced⟩
      else
        let stored := auditStored J field.json current
        let requested := auditRequested J field.json value
        if stored = requested then none else some ⟨field, value, .fromTo stored requested⟩

/-- `UPDATE … SET …,version=version+1`: `none` if a value is not one of its column. -/
def Row.update (J : JsonTexts) (row : Row) (edits : List ColumnEdit) : Option Row := do
  let cells ← edits.mapM fun edit =>
    (edit.field.assign J edit.value).map fun stored => (edit.field.column, stored)
  some {
    version := row.version + 1
    cells := fun column => ((cells.find? (·.1 = column)).map Prod.snd).getD (row.cells column) }

/-- `updateAuditedThen`.

What the database answers to each of the statements is the parameter `env`.  Whatever fails, the row
and the log are those before. -/
def updateAuditedThen (J : JsonTexts) (env : Env) (actor : String) (kind : AssetKind) (d : Db)
    (id : String) (version : ℕ) (next : String → Option Requested) : Except Failure ℕ × Db :=
  if env.begins ∧ env.selects then
    match d.rows id with
    | none => (.error .notFound, d)
    | some row =>
        if row.version ≠ version then (.error .stale, d)
        else
          let edits := kind.fields.filterMap (editOf J row next)
          if edits.isEmpty then
            if env.commits then (.ok row.version, d) else (.error .store, d)
          else
            match row.update J edits with
            | none => (.error .store, d)
            | some row' =>
                if env.updates row' ∧ env.audits ∧ env.follows ∧ env.commits then
                  (.ok row'.version, {
                    rows := fun other => if other = id then some row' else d.rows other
                    events := d.events ++ [{
                      actor := actor
                      action := kind.action
                      objectId := id
                      objectName := row'.cells kind.label
                      changes := edits.map fun edit => (edit.field.column, edit.change) }] })
                else (.error .store, d)
  else (.error .store, d)

end BindPlane.Edits
