import BindPlane.Assets.Data
import BindPlane.Codec.Envelope

/-!
# Edit requests

The handlers of the seven edits, up to the columns they pass on.

A handler decodes the body, checks it and fills the map `next` from columns to requested
values: a column that is not supplied stays absent, and an empty text clears a column that may
be null.  What it passes on the table can hold (`Edit.next_fits`): a canonical identifier for
a `uuid`, a canonical address for an `inet` or a `cidr`, a JSON text for a `jsonb`, a text, a
boolean or a number for the rest.

**Three stages.**  A body is decoded by the JSON library, checked by the handler, and then handed to
the edit as a map of columns.  The errors of the first two stages are answers to the client, with
the texts of the source; behind them every value is of the type of its column, and this is the only
thing that the edit needs to know of the handlers.

**Source.**  What is modelled here is in `internal/release/admin_edit.go`,
`internal/release/ops_compliance.go` and `internal/release/ops_schedules.go`.
-/

namespace BindPlane.Assets

open Codec

/-! ## Refusals -/

inductive Detail
  | text (s : String)
  | cron (e : CronError)
  deriving DecidableEq

/-- `fail(w, status, detail)`. -/
structure Refusal where
  status : ℕ
  detail : Detail
  deriving DecidableEq

def unprocessable (detail : String) : Refusal := ⟨422, .text detail⟩

/-- Fails unless a condition holds. -/
def check (c : Bool) (r : Refusal) : Except Refusal Unit := if c then .ok () else .error r

/-- Fails with a refusal, where there is one. -/
def refuse : Option Refusal → Except Refusal Unit
  | none => .ok ()
  | some r => .error r

/-! ## Requested columns -/

/-- The map from columns to requested values. -/
abbrev Next (J : Type) := Column → Option (Value J)

namespace Next

variable {J : Type}

def empty : Next J := fun _ => none

/-- `next[column] = value`. -/
def set (next : Next J) (c : Column) (v : Value J) : Next J := Function.update next c (some v)

/-- A field that is passed on as it is. -/
def supply (next : Next J) (c : Column) : Option (Value J) → Next J
  | none => next
  | some v => next.set c v

end Next

section Columns

variable {J : Type} (next : Next J) (c : Column)

/-- A trimmed text; `none` where it is blank. -/
def requiredText : Option String → Option (Next J)
  | none => some next
  | some value =>
      if Devices.trimSpace value ≠ "" then some (next.set c (.text (Devices.trimSpace value)))
      else none

/-- A trimmed text, or null. -/
def optionalText : Option String → Next J
  | none => next
  | some value =>
      if Devices.trimSpace value ≠ "" then next.set c (.text (Devices.trimSpace value))
      else next.set c .nil

def optionalBool (value : Option Bool) : Next J := next.supply c (value.map .bool)

end Columns

/-! ## The bodies -/

structure CredentialEdit where
  version : ℤ
  name : Option String
  username : Option String
  description : Option String
  isActive : Option Bool
  /-- Empty keeps the stored password. -/
  password : String
  /-- Empty keeps the stored secret. -/
  secret : String
  clearSecret : Bool

/-- The rules and patterns are the raw JSON of the body. -/
structure ProfileEdit where
  version : ℤ
  name : Option String
  isActive : Option Bool
  loginPromptPatterns : Option String
  commandTemplates : Option String
  promptPatterns : Option String
  paginationRules : Option String
  successPatterns : Option String
  errorPatterns : Option String
  parserRules : Option String

structure SwitchEdit where
  version : ℤ
  name : Option String
  managementIp : Option String
  credentialId : Option String
  commandProfileId : Option String
  isEnabled : Option Bool
  vendor : Option String
  model : Option String
  site : Option String
  description : Option String
  /-- Empty removes the group. -/
  groupId : Option String
  protocol : Option String
  /-- 0 restores the protocol's default port. -/
  port : Option ℤ

structure NetworkEdit where
  version : ℤ
  switchId : Option String
  cidr : Option String
  isEnabled : Option Bool
  isValidated : Option Bool
  vlan : Option String
  description : Option String

structure GroupEdit where
  version : ℤ
  name : Option String
  description : Option String

structure RuleEdit where
  version : ℤ
  name : Option String
  description : Option String
  pattern : Option String
  mode : Option String
  severity : Option String
  /-- Empty applies the rule to every vendor. -/
  vendor : Option String
  /-- Empty applies the rule to every group. -/
  groupId : Option String
  isEnabled : Option Bool

structure ScheduleEdit where
  version : ℤ
  name : Option String
  kind : Option String
  cron : Option String
  scope : Option String
  groupId : Option String
  isEnabled : Option Bool

/-! ## The handlers -/

def switchVendors : List String := ["huawei", "h3c", "ruijie", "cisco", "other"]

def ruleModes : List String := ["must_contain", "must_not_contain"]

def severities : List String := ["info", "warning", "critical"]

def deviceTaskKinds : List String := ["config_backup", "reachability"]

/-- A text that may be left out, or be empty, or an identifier. -/
def groupIdOk (value : Option String) : Bool := value.all fun s => s = "" || isCanonicalUUID s

section Handlers

variable {J : Type} (P : Platform J)

/-- One round of the loop over the secrets; `sealed` is what `a.seal` makes of a text. -/
def sealColumn (sealed : Column → String → Except SealError String) (c : Column)
    (plaintext : String) (next : Next J) : Except Refusal (Next J) :=
  if plaintext = "" then .ok next
  else
    match sealed c plaintext with
    | .ok s => .ok (next.set c (.text s))
    | .error _ => .error ⟨503, .text "encryption unavailable"⟩

def editCredential (sealed : Column → String → Except SealError String)
    (input : CredentialEdit) : Except Refusal (Next J) := do
  let invalid := unprocessable "invalid credential"
  let next ← (requiredText .empty .name input.name).elim (.error invalid) .ok
  let next ← (requiredText next .username input.username).elim (.error invalid) .ok
  check (!(input.clearSecret && input.secret ≠ "")) invalid
  let next := optionalText next .description input.description
  let next := optionalBool next .isActive input.isActive
  let next ← sealColumn sealed .encryptedPassword input.password next
  let next ← sealColumn sealed .encryptedSecret input.secret next
  .ok (if input.clearSecret then next.set .encryptedSecret .nil else next)

/-- One rule of a profile: its text begins with the bracket of its type. -/
def profileRule (opening : Char) (c : Column) (value : Option String) (next : Next J) :
    Except Refusal (Next J) :=
  match value with
  | none => .ok next
  | some text =>
      if text.toList.head? = some opening then .ok (next.set c (.text text))
      else .error (unprocessable "profile rules must be objects and patterns must be arrays")

def editProfile (input : ProfileEdit) : Except Refusal (Next J) := do
  let next ← (requiredText .empty .name input.name).elim
    (.error (unprocessable "invalid profile")) .ok
  let next := optionalBool next .isActive input.isActive
  let next ← profileRule '\x7b' .loginPromptPatterns input.loginPromptPatterns next
  let next ← profileRule '\x7b' .commandTemplates input.commandTemplates next
  let next ← profileRule '\x7b' .promptPatterns input.promptPatterns next
  let next ← profileRule '\x7b' .paginationRules input.paginationRules next
  let next ← profileRule '\x7b' .parserRules input.parserRules next
  let next ← profileRule '[' .successPatterns input.successPatterns next
  profileRule '[' .errorPatterns input.errorPatterns next

def editSwitch (input : SwitchEdit) : Except Refusal (Next J) := do
  let invalid := unprocessable "invalid switch asset"
  let next ← (requiredText .empty .name input.name).elim (.error invalid) .ok
  check (input.vendor.all (· ∈ switchVendors) && input.protocol.all (· ∈ ["telnet", "ssh"]) &&
    input.port.all (fun p => 0 ≤ p && p ≤ 65535) && groupIdOk input.groupId) invalid
  let next := next.supply .vendor (input.vendor.map .text)
  let next := next.supply .protocol (input.protocol.map .text)
  let next := optionalText next .model input.model
  let next := optionalText next .site input.site
  let next := optionalText next .description input.description
  let next := optionalText next .groupId input.groupId
  let next := next.supply .port (input.port.map fun p => if 0 < p then .int p else .nil)
  check (input.managementIp.all validIPv4 && input.credentialId.all isCanonicalUUID &&
    input.commandProfileId.all isCanonicalUUID) invalid
  let next := next.supply .managementIp (input.managementIp.map .text)
  let next := next.supply .credentialId (input.credentialId.map .text)
  let next := next.supply .commandProfileId (input.commandProfileId.map .text)
  .ok (optionalBool next .isEnabled input.isEnabled)

def editNetwork (input : NetworkEdit) : Except Refusal (Next J) := do
  check (input.switchId.all isCanonicalUUID) (unprocessable "invalid network")
  check (input.cidr.all canonicalIPv4Prefix) (unprocessable "canonical IPv4 CIDR required")
  let next := Next.empty.supply .switchId (input.switchId.map .text)
  let next := next.supply .cidr (input.cidr.map .text)
  let next := optionalBool next .isEnabled input.isEnabled
  let next := optionalBool next .isValidated input.isValidated
  let next := optionalText next .vlan input.vlan
  .ok (optionalText next .description input.description)

def editGroup (input : GroupEdit) : Except Refusal (Next J) := do
  let next ← (requiredText .empty .name input.name).elim
    (.error (unprocessable "invalid group")) .ok
  .ok (optionalText next .description input.description)

/-- The error of `compileRule`. -/
def compileRule (pattern : String) : Option String :=
  if Devices.trimSpace pattern = "" || 2000 < pattern.utf8ByteSize then
    some "pattern must be 1-2000 characters"
  else (P.regexpError pattern).map ("invalid pattern: " ++ ·)

def editRule (input : RuleEdit) : Except Refusal (Next J) := do
  let invalid := unprocessable "invalid rule"
  let next ← (requiredText .empty .name input.name).elim (.error invalid) .ok
  check (input.mode.all (· ∈ ruleModes) && input.severity.all (· ∈ severities) &&
    input.vendor.all (fun v => v = "" || v ∈ switchVendors) && groupIdOk input.groupId) invalid
  refuse ((input.pattern.bind (compileRule P)).map unprocessable)
  let next := next.supply .pattern (input.pattern.map .text)
  let next := next.supply .mode (input.mode.map .text)
  let next := next.supply .severity (input.severity.map .text)
  let next := optionalText next .description input.description
  let next := optionalText next .vendor input.vendor
  let next := optionalText next .groupId input.groupId
  .ok (optionalBool next .isEnabled input.isEnabled)

/-- The error of `o.nextRun`, where `time.Now()` is `now`. -/
def cronError (now : Instant) (expression : String) : Option Refusal :=
  match P.devices.nextRun expression now with
  | .ok _ => none
  | .error e => some ⟨422, .cron e⟩

/-- `editSchedule`, where `time.Now()` is `now`. -/
def editSchedule (now : Instant) (input : ScheduleEdit) : Except Refusal (Next J) := do
  let invalid := unprocessable "invalid schedule"
  let next ← (requiredText .empty .name input.name).elim (.error invalid) .ok
  check (input.kind.all (· ∈ deviceTaskKinds) && input.scope.all (· ∈ ["all", "group"]) &&
    input.scope.all fun s => s ≠ "group" || input.groupId.any isCanonicalUUID) invalid
  let next := next.supply .kind (input.kind.map .text)
  let cron := input.cron.map normalizeCron
  refuse (cron.bind (cronError P now))
  let next := next.supply .cron (cron.map .text)
  let next := next.supply .scope (input.scope.map .text)
  let next := next.supply .groupId <| input.scope.map fun s =>
    if s = "group" then .text (input.groupId.getD "") else .nil
  .ok (optionalBool next .isEnabled input.isEnabled)

end Handlers

end BindPlane.Assets
