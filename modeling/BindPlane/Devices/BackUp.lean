import BindPlane.Devices.Backups
import BindPlane.Devices.Fingerprint
import BindPlane.Worker.Profile
import Mathlib.Algebra.GroupWithZero.Nat

/-!
# One item: back_up and process_device_item

What an executor does between the claim of an item and the transaction it ends the item with.

**Two handlers.**  `back_up` reads the configuration behind a handler of its own, which ends the
item in `recordBackupFailure`: the error goes to the item, the switch and an alert.  What it
computes of the text comes behind that handler; an exception there reaches the one of
`process_device_item`, which ends the item in `failItem` and writes nothing else.  So an executor
is a function to the transaction it asks for (`processDeviceItem`).

**The device.**  `Netmiko` is what the connection answers, `DevicePython` the library underneath.
The switch's columns and those of its credential and profile are the row `dep`; the versions and
the success patterns in it are not among those that `load_device` selects, nor read here.

**Source.**  What is modelled here is in `worker/devices.py`.
-/

namespace BindPlane.Devices

/-! ## Exceptions -/

/-- What the connection raises. -/
inductive Raised
  | authentication
  | connectionTimeout
  | readTimeout
  /-- `TimeoutError`. -/
  | timeout
  | connectionRefused
  /-- Another `OSError`, by its class. -/
  | os (name : String)
  /-- Anything else, by its class. -/
  | other (name : String)
  deriving DecidableEq, Repr

/-- `isinstance(exc, OSError)`. -/
def Raised.isOs : Raised → Bool
  | timeout | connectionRefused | os _ => true
  | _ => false

/-- An exception, as `describe_failure` tells them apart. -/
inductive Failed
  | rejected (message : String)
  | session (message : String)
  | timeout
  | connectionRefused
  | os (name : String)
  | other (name : String)
  deriving DecidableEq, Repr

/-- What the connection raises, where nothing catches it. -/
def Raised.failed : Raised → Failed
  | authentication => .other "NetmikoAuthenticationException"
  | connectionTimeout => .other "NetmikoTimeoutException"
  | readTimeout => .other "ReadTimeout"
  | timeout => .timeout
  | connectionRefused => .connectionRefused
  | os name => .os name
  | other name => .other name

/-- What the computation of settings and patterns raises. -/
def raisedBy {α : Type} : Except Exc α → Except Failed α
  | .ok a => .ok a
  | .error e => .error (.other e.name)

/-- `describe_failure`. -/
def describeFailure : Failed → String
  | .rejected message => message
  | .session message => message
  | .timeout => "Timed out"
  | .connectionRefused => "Connection refused"
  | .os name => "Network error (" ++ name ++ ")"
  | .other name => "Unexpected error (" ++ name ++ ")"

/-! ## The session -/

/-- What the connection of one session answers. -/
structure Netmiko where
  /-- `ConnectHandler`, and `_open` with the login patterns. -/
  connectHandler : Settings → Except Raised Unit
  disablePaging : Json → Except Raised Unit
  sendCommand : String → Except Raised Chars

/-- `connect`. -/
def Netmiko.connect (net : Netmiko) (settings : Settings) : Except Failed Unit :=
  match net.connectHandler settings with
  | .ok () => .ok ()
  | .error .authentication => .error (.session "Switch authentication failed")
  | .error .connectionTimeout => .error (.session "Switch connection timed out")
  | .error e =>
      if e.isOs then .error (.session "Switch connection failed") else .error e.failed

/-- `except` of `read_configuration`. -/
def readFailed {α : Type} : Except Raised α → Except Failed α
  | .ok a => .ok a
  | .error .connectionTimeout | .error .readTimeout =>
      .error (.session "Configuration read timed out")
  | .error e =>
      if e.isOs then .error (.session "Configuration read failed") else .error e.failed

/-- `read_configuration`. -/
def Netmiko.readConfiguration (net : Netmiko) (command : String) (disablePaging : Option Json) :
    Except Failed Chars := do
  readFailed (disablePaging.elim (.ok ()) net.disablePaging)
  readFailed (net.sendCommand command)

/-! ## The configuration -/

/-- The library functions that a backup calls. -/
structure DevicePython extends Python where
  /-- `re.compile`, and `search` of what it returns in a line. -/
  compile : String → Except Exc (Chars → Bool)
  /-- `hashlib.sha256(…).hexdigest()`. -/
  sha256 : Chars → String
  /-- `seal_config` with the worker's key. -/
  sealConfig : Chars → Except Exc String

variable (py : DevicePython)

/-- The value of a column. -/
def columnValue : Cell → Json
  | .json s | .text s => .str s
  | .bool b => .bool b
  | .int n => .int n
  | _ => .null

/-- `_list`. -/
def listOf (value : Json) : Except Exc (List Json) := do
  let value ← match value with
    | .str s => py.loads s
    | v => pure v
  match value with
  | .arr items => pure items
  | _ => pure []

/-- The profile of `read_switch_configuration`. -/
def backupProfile (dep : Dependencies) : Except Exc Profile := do
  let loginPromptPatterns ← mapping py.toPython (columnValue dep.loginPromptPatterns)
  let commandTemplates ← mapping py.toPython (columnValue dep.commandTemplates)
  let promptPatterns ← mapping py.toPython (columnValue dep.promptPatterns)
  let paginationRules ← mapping py.toPython (columnValue dep.paginationRules)
  let parserRules ← mapping py.toPython (columnValue dep.parserRules)
  let errorPatterns ← listOf py (columnValue dep.errorPatterns)
  return {
    loginPromptPatterns := loginPromptPatterns
    commandTemplates := commandTemplates
    promptPatterns := promptPatterns
    paginationRules := paginationRules
    successPatterns := .arr []
    errorPatterns := .arr errorPatterns
    parserRules := parserRules }

/-- The `config_backup` command of a profile. -/
def backupCommand (profile : Profile) : Except Failed String := do
  match ← raisedBy (profile.commandTemplates.get "config_backup") with
  | some (.str command) =>
      if py.strip command = "" then
        throw (.rejected "Command profile has no config_backup command")
      else pure command
  | _ => throw (.rejected "Command profile has no config_backup command")

/-- `disable_paging`, whatever it is, if it counts as true. -/
def backupPaging (profile : Profile) : Except Exc (Option Json) := do
  let truthy := Option.filter (Json.truthy py.toPython)
  match truthy (← profile.commandTemplates.get "disable_paging") with
  | some paging => pure (some paging)
  | none =>
      match truthy (← profile.paginationRules.get "disable_paging_command") with
      | some paging => pure (some paging)
      | none => pure (truthy (← profile.paginationRules.get "disable_paging"))

/-- `MAX_CONFIG_BYTES`. -/
def maxConfigBytes : ℕ := 20 * 1024 * 1024

/-- `len(text.encode("utf-8"))`. -/
def sizeOf (text : Chars) : ℕ := (text.map Char.utf8Size).sum

/-- The checks on a text that was read. -/
def checkConfiguration (profile : Profile) (text : Chars) : Except Failed Chars :=
  if maxConfigBytes < sizeOf text then
    .error (.rejected "Configuration is larger than 20 MB")
  else if ((text.splitOn '\n').countP fun line => line.any (!isSpace ·)) < 3 then
    .error (.rejected "Backup output is too short to be a configuration")
  else do
    let start := String.ofList (text.take 2000)
    if ← raisedBy (outputMatchesAny py.toPython start profile.errorPatterns) then
      .error (.rejected "Backup output matches an error pattern of the command profile")
    else .ok text

/-- `read_switch_configuration`, with `connection_settings` for `settings_builder`; `close` raises
nothing. -/
def readSwitchConfiguration (net : Netmiko) (dep : Dependencies) : Except Failed Chars := do
  let profile ← raisedBy (backupProfile py dep)
  let command ← backupCommand py profile
  let disablePaging ← raisedBy (backupPaging py profile)
  let settings ← raisedBy (connectionSettings py.toPython dep profile)
  net.connect settings
  let raw ← net.readConfiguration command disablePaging
  checkConfiguration py profile (normalizeConfig raw)

/-! ## back_up -/

/-- The block that `back_up` has a handler for. -/
def backupText (net : Netmiko) (dep : Dependencies) : Except Failed Chars :=
  if dep.credentialActive && dep.profileActive then readSwitchConfiguration py net dep
  else .error (.rejected "Credential or command profile is disabled")

/-- `config_ignore_patterns`, if it is a list. -/
def ignorePatterns (dep : Dependencies) : Except Exc (List Json) := do
  match ← (← mapping py.toPython (columnValue dep.parserRules)).get "config_ignore_patterns" with
  | some (.arr items) => pure items
  | _ => pure []

/-- `re.compile` of an element of the list. -/
def compilePattern : Json → Except Exc (Chars → Bool)
  | .str pattern => py.compile pattern
  | _ => .error { name := "TypeError" }

/-- What `back_up` computes of the text behind its handler. -/
def capture (dep : Dependencies) (text : Chars) : Except Exc Capture := do
  let ignore ← ignorePatterns py dep
  let patterns ← ignore.mapM (compilePattern py)
  let sealed ← py.sealConfig text
  return {
    fingerprint := configFingerprint py.sha256 patterns text
    sizeBytes := sizeOf text
    lineCount := text.count '\n' + 1
    sealed := sealed }

/-- `back_up`, up to its transaction. -/
def backUp (net : Netmiko) (item : ClaimedItem) (dep : Dependencies) : Except Exc Op :=
  match backupText py net dep with
  | .error e => .ok (.recordBackupFailure item (describeFailure e))
  | .ok text => (capture py dep text).map (.recordBackup item)

/-! ## check_reachability -/

/-- `check_reachability`, up to its transaction: `dial` opens a connection and measures it.  A
number that is no port is an `OverflowError` of `dial`. -/
def checkReachability (dial : String → ℤ → Except Raised ℕ) (item : ClaimedItem)
    (dep : Dependencies) : Except Failed Op := do
  let (_, port) ← raisedBy
    (resolveTransport py.toPython dep (columnValue dep.promptPatterns))
  match dial ((dep.managementIp.text?).getD "") port with
  | .ok latency => pure (.recordReachability item ⟨port.toNat, some latency, none⟩)
  | .error e =>
      if e.isOs then
        pure (.recordReachability item ⟨port.toNat, none, some (describeFailure e.failed)⟩)
      else throw e.failed

/-! ## process_device_item -/

/-- What an executor meets outside the store.

An executor is a deterministic function of these and of the row it has loaded.  That makes the
exceptions visible: everything that can go wrong outside the store is an argument here, and the
function says to which transaction it leads. -/
structure Surroundings where
  py : DevicePython
  net : Netmiko
  dial : String → ℤ → Except Raised ℕ

/-- `process_device_item`: the transaction it asks for.  One that fails is followed by
`failItem`. -/
def processDeviceItem (out : Surroundings) (item : ClaimedItem) : Option Dependencies → Op
  | none => .skipItem item
  | some dep =>
      if !dep.isEnabled then .skipItem item
      else
        match item.kind with
        | .reachability =>
            match checkReachability out.py out.dial item dep with
            | .ok op => op
            | .error _ => .failItem item
        | .configBackup =>
            match backUp out.py out.net item dep with
            | .ok op => op
            | .error _ => .failItem item

/-- `load_device`, the columns of credential and profile being those of `dep`. -/
def Db.loadDevice (d : Db) (dep : Dependencies) (s : Id) : Option Dependencies :=
  (d.switches.get? s).map fun sw => { dep with isEnabled := sw.isEnabled }

end BindPlane.Devices
