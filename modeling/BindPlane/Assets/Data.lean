import BindPlane.Devices.Schedules
import BindPlane.Release.Resolution
import Mathlib.Algebra.Group.Int.Defs
import Mathlib.Algebra.Group.Nat.Defs

/-!
# Audited assets

The seven tables whose rows an admin edits, and the audit record `bp_asset_events`.

**Values.**  A Go `any` is a `Value`.  A row keeps every column as its `read` expression
returns it: a `uuid`, `inet`, `cidr` or `jsonb` by its text.  What JSON texts mean, and what
PostgreSQL makes of a text that it stores in such a column, are parameters (`Platform`); the
model relies on them for the texts that the handlers let through (`Platform.Lawful`).

**Fields.**  An `AssetKind` lists the columns that can be edited, in the order of the audit.
A `secret` column is read only as whether it has a value.

**One table.**  The seven tables have different columns and one way to be edited.  A row is a
function from columns to values here, whatever its table, and the kind of the asset says which of
the columns count; that is how the source treats them too, which builds its statements from the list
of fields.

**Source.**  What is modelled here is in `internal/auth/domain/uuid.go`, `internal/release/admin.go`
and `internal/release/admin_edit.go`.
-/

namespace BindPlane.Assets

/-! ## Values -/

/-- What a Go `any` can hold here. -/
inductive Value (J : Type)
  | nil
  | bool (b : Bool)
  /-- A number of a request. -/
  | int (n : ℤ)
  /-- A number of the database. -/
  | int64 (n : ℤ)
  | text (s : String)
  /-- Whatever else `json.Unmarshal` returns: a number, an array or an object. -/
  | json (j : J)
  deriving DecidableEq

/-- The editable columns of all tables, and `next_run_at`. -/
inductive Column
  | name | username | description | isActive | encryptedPassword | encryptedSecret
  | loginPromptPatterns | commandTemplates | promptPatterns | paginationRules
  | successPatterns | errorPatterns | parserRules
  | managementIp | credentialId | commandProfileId | isEnabled | vendor | model | site
  | groupId | protocol | port
  | switchId | cidr | isValidated | vlan
  | pattern | mode | severity
  | kind | cron | scope | nextRunAt
  deriving DecidableEq

inductive ColumnType
  | text | boolean | integer | uuid | inet | cidr | jsonb | timestamp
  deriving DecidableEq

/-- The declared types. -/
def Column.type : Column → ColumnType
  | .isActive | .isEnabled | .isValidated => .boolean
  | .loginPromptPatterns | .commandTemplates | .promptPatterns | .paginationRules
  | .successPatterns | .errorPatterns | .parserRules => .jsonb
  | .managementIp => .inet
  | .cidr => .cidr
  | .credentialId | .commandProfileId | .groupId | .switchId => .uuid
  | .port => .integer
  | .nextRunAt => .timestamp
  | _ => .text

/-! ## What the handlers let through -/

/-- `domain.IsCanonicalUUID`. -/
def isCanonicalUUID (value : String) : Bool :=
  value.toList.length = 36 &&
    value.toList.zipIdx.all fun ci =>
      if ci.2 ∈ [8, 13, 18, 23] then ci.1 = '-'
      else ci.1.isDigit || ('a' ≤ ci.1 && ci.1 ≤ 'f')

/-- `validIPv4`: `netip.ParseAddr` accepts canonical dotted quads only. -/
def validIPv4 (value : String) : Bool := (parseAddr value).isSome

/-- The number of bits behind the slash: at most 32, without a sign or a leading zero. -/
def prefixBits (bits : List Char) : Option ℕ :=
  if bits.length ≤ 2 && (bits.length ≤ 1 || bits.head? ≠ some '0') then
    (decimalDigits bits).filter (· ≤ 32)
  else none

/-- `canonicalIPv4Prefix`: an address without bits behind the prefix. -/
def canonicalIPv4Prefix (value : String) : Bool :=
  match goCut '/' value.toList with
  | none => false
  | some (address, bits) =>
      match parseAddr (String.ofList address), prefixBits bits with
      | some ip, some n => ip >>> (32 - n) <<< (32 - n) = ip
      | _, _ => false

/-- What the model takes from Go's JSON library, from PostgreSQL and from the operations time
zone. -/
structure Platform (J : Type) where
  /-- `json.Unmarshal` into an `any`. -/
  unmarshal : String → Option (Value J)
  /-- `$1::jsonb::text`. -/
  jsonb : String → Option String
  /-- `$1::uuid::text`. -/
  uuid : String → Option String
  /-- `host($1::inet)`. -/
  inet : String → Option String
  /-- `$1::cidr::text`. -/
  cidr : String → Option String
  /-- Texts that a text column takes. -/
  storable : String → Bool
  /-- The message of `regexp.Compile("(?m)" + pattern)`. -/
  regexpError : String → Option String
  devices : Devices.Platform

/-- **What the platform does with canonical texts**: they are stored as they are, and JSON is
stored with its meaning.

These are the documented laws of the libraries for the texts that pass the handlers, and for no
others.  For example a canonical address is stored as it is, and no more is said of an address in
another spelling. -/
structure Platform.Lawful {J : Type} (P : Platform J) : Prop where
  uuid : ∀ s, isCanonicalUUID s = true → P.uuid s = some s
  inet : ∀ s, validIPv4 s = true → P.inet s = some s
  cidr : ∀ s, canonicalIPv4Prefix s = true → P.cidr s = some s
  jsonb : ∀ s v t, P.unmarshal s = some v → P.jsonb s = some t → P.unmarshal t = some v

section Stored

variable {J : Type} (P : Platform J)

/-- What a column holds after `SET column=$1`, as it is read back; `none` where the statement
fails. -/
def stored (c : Column) (v : Value J) : Option (Value J) :=
  match c.type, v with
  | _, .nil => some .nil
  | .boolean, .bool b => some (.bool b)
  | .integer, .int n => if -2 ^ 31 ≤ n ∧ n < 2 ^ 31 then some (.int64 n) else none
  | .text, .text s => if P.storable s then some (.text s) else none
  | .uuid, .text s => (P.uuid s).map .text
  | .inet, .text s => (P.inet s).map .text
  | .cidr, .text s => (P.cidr s).map .text
  | .jsonb, .text s => (P.jsonb s).map .text
  | .timestamp, .int64 n => some (.int64 n)
  | _, _ => none

/-- `auditValue`: stored and requested values, so that differences of form are no changes. -/
def auditValue (value : Value J) (isJSON : Bool) : Value J :=
  match value with
  | .int n => .int64 n
  | .text s => if isJSON then (P.unmarshal s).getD (.text s) else .text s
  | v => v

end Stored

/-! ## Rows and the audit record -/

/-- A row, without its key. -/
structure Row (J : Type) where
  version : ℕ
  cell : Column → Value J

/-- An entry of the audit record about one column. -/
inductive Change (J : Type)
  | fromTo (old new : Value J)
  | cleared
  | replaced
  deriving DecidableEq

/-- Who asks. -/
structure Actor where
  userId : String
  email : String
  deriving DecidableEq

/-- A row of `bp_asset_events`. -/
structure Event (J : Type) where
  id : ℕ
  actor : Actor
  action : String
  objectId : String
  objectName : Value J
  changes : List (Column × Change J)
  deriving DecidableEq

/-- The tables. -/
inductive Kind
  | credential | profile | switch | group | network | rule | schedule
  deriving DecidableEq

/-- The store: the rows of every table by their ids, and the audit record, oldest first. -/
structure Db (J : Type) where
  rows : Kind → AList fun _ : String => Row J
  events : List (Event J)

/-! ## Editable columns -/

/-- An editable column; `secret` values never enter the audit record. -/
structure AssetField where
  column : Column
  json : Bool := false
  secret : Bool := false

/-- What `updateAuditedThen` needs to know of a table. -/
structure AssetKind where
  action : String
  /-- The column that names the object in the audit record. -/
  label : Column
  fields : List AssetField

def credentialFields : AssetKind where
  action := "credential.update"
  label := .name
  fields :=
    [{ column := .name }, { column := .username }, { column := .description },
      { column := .isActive }, { column := .encryptedPassword, secret := true },
      { column := .encryptedSecret, secret := true }]

def profileFields : AssetKind where
  action := "profile.update"
  label := .name
  fields :=
    [{ column := .name }, { column := .isActive },
      { column := .loginPromptPatterns, json := true }, { column := .commandTemplates, json := true },
      { column := .promptPatterns, json := true }, { column := .paginationRules, json := true },
      { column := .successPatterns, json := true }, { column := .errorPatterns, json := true },
      { column := .parserRules, json := true }]

def switchFields : AssetKind where
  action := "switch.update"
  label := .name
  fields :=
    [{ column := .name }, { column := .managementIp }, { column := .credentialId },
      { column := .commandProfileId }, { column := .isEnabled }, { column := .vendor },
      { column := .model }, { column := .site }, { column := .description },
      { column := .groupId }, { column := .protocol }, { column := .port }]

def groupFields : AssetKind where
  action := "group.update"
  label := .name
  fields := [{ column := .name }, { column := .description }]

def networkFields : AssetKind where
  action := "network.update"
  label := .cidr
  fields :=
    [{ column := .switchId }, { column := .cidr }, { column := .isEnabled },
      { column := .isValidated }, { column := .vlan }, { column := .description }]

def ruleFields : AssetKind where
  action := "rule.update"
  label := .name
  fields :=
    [{ column := .name }, { column := .description }, { column := .pattern },
      { column := .mode }, { column := .severity }, { column := .vendor },
      { column := .groupId }, { column := .isEnabled }]

def scheduleFields : AssetKind where
  action := "schedule.update"
  label := .name
  fields :=
    [{ column := .name }, { column := .kind }, { column := .cron }, { column := .scope },
      { column := .groupId }, { column := .isEnabled }]

/-- The kinds by table. -/
def Kind.asset : Kind → AssetKind
  | .credential => credentialFields
  | .profile => profileFields
  | .switch => switchFields
  | .group => groupFields
  | .network => networkFields
  | .rule => ruleFields
  | .schedule => scheduleFields

/-- No kind lists a column twice. -/
theorem Kind.columns_nodup (k : Kind) : (k.asset.fields.map AssetField.column).Nodup := by
  cases k <;> decide

/-- The JSON fields are the `jsonb` columns. -/
theorem Kind.json_iff (k : Kind) :
    ∀ f ∈ k.asset.fields, f.json = true ↔ f.column.type = .jsonb := by
  cases k <;> decide

theorem Kind.action_injective : Function.Injective fun k : Kind => k.asset.action := by
  intro k k' h
  cases k <;> cases k' <;> first | rfl | exact absurd h (by decide)

/-! ## One edit of a row -/

section Edit

variable {J : Type} [DecidableEq J] (P : Platform J)

/-- The `read` expression of a column. -/
def AssetField.read (f : AssetField) (row : Row J) : Value J :=
  if f.secret then .bool (row.cell f.column ≠ .nil) else row.cell f.column

/-- One round of the loop over the fields: the column to set, and what the audit record says
of it. -/
def auditField (row : Row J) (next : Column → Option (Value J)) (f : AssetField) :
    Option (Column × Value J × Change J) :=
  match next f.column with
  | none => none
  | some value =>
      let current := f.read row
      if f.secret = true ∧ value = .nil ∧ current = .bool false then none
      else if f.secret = true ∧ value = .nil then some (f.column, value, .cleared)
      else if f.secret = true then some (f.column, value, .replaced)
      else
        let old := auditValue P current f.json
        let new := auditValue P value f.json
        if old = new then none else some (f.column, value, .fromTo old new)

/-- The loop over the fields. -/
def auditFields (k : Kind) (row : Row J) (next : Column → Option (Value J)) :
    List (Column × Value J × Change J) :=
  k.asset.fields.filterMap (auditField P row next)

/-- `SET c=$1,…`. -/
def assign (set : List (Column × Value J × Change J)) (cell : Column → Value J) :
    Option (Column → Value J) :=
  set.foldlM (fun cell s => (stored P s.1 s.2.1).map fun v => Function.update cell s.1 v) cell

end Edit

end BindPlane.Assets
