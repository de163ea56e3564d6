import BindPlane.Release.Queue
import Mathlib.Algebra.Group.Nat.Defs

/-!
# Command profiles and session settings

What the executor computes from a switch row and its command profile before and between
its calls: the rendered commands, the connection settings, the reading of an ARP output
and the classification of a release.

The profile's columns are arbitrary JSON, and a column of an unexpected shape raises at
the place the source first uses it.  Of an exception the executor looks at the class, at
whether it is a connection timeout, and at the output it carries, and so does `Exc`.
`Python` is the library underneath: decoding, regular expressions, number and text
conversions, decryption.

**Order of evaluation.**  Where a function of the source may raise at several places, the exception
is that of the first place it comes to.  The definitions follow that order, also where it does not
matter for the result, because the text of the exception ends up in the row of the job.

**Source.**  What is modelled here is in `backend/bind_plane/services/command_profiles.py`,
`backend/bind_plane/worker/release_executor.py`, `worker/devices.py` and `worker/main.py`.
-/

namespace BindPlane

/-- An exception, as far as the executor looks at it. -/
structure Exc where
  /-- `exc.__class__.__name__`. -/
  name : String
  /-- `isinstance(exc, SwitchConnectionTimeoutError)`. -/
  connectionTimeout : Bool := false
  /-- `getattr(exc, "partial_output", None)`, if it is a `str`. -/
  partialOutput : Option String := none
  deriving DecidableEq, Repr

/-- A decoded JSON value. -/
inductive Json
  | null
  | bool (b : Bool)
  | int (n : ℤ)
  /-- A number with a fraction or an exponent, by its text. -/
  | float (text : String)
  | str (s : String)
  | arr (items : List Json)
  | obj (fields : List (String × Json))

/-- The library functions the executor calls.

Each field stands for a function of the standard library or of a package that the executor calls,
and may raise where its type says so.  Nothing is assumed of these functions here; a result that
needs a law of one of them has the law as a hypothesis. -/
structure Python where
  /-- `json.loads`. -/
  loads : String → Except Exc Json
  /-- `re.search(pattern, output, re.IGNORECASE | re.MULTILINE)`; `none` is `re.error`. -/
  search : String → String → Option Bool
  /-- The `groupdict()` of every match of `re.finditer`; `none` is `re.error`. -/
  finditer : String → String → Option (List (List (String × Option String)))
  /-- `str.lower`. -/
  lower : String → String
  /-- `str.strip`. -/
  strip : String → String
  /-- `int(value)`. -/
  int : Json → Except Exc ℤ
  /-- `float(value)`, by its text. -/
  float : Json → Except Exc String
  /-- `str(value)`. -/
  str : Json → String
  /-- `bool(value)` of a float. -/
  nonzero : String → Bool
  /-- The plaintext of a secret of the form `v1:…`. -/
  decrypt : String → Except Exc String

namespace Json

/-- `value.get(key)` of a `dict`. -/
def get (value : Json) (key : String) : Except Exc (Option Json) :=
  match value with
  | .obj fields => .ok ((fields.find? (·.1 = key)).map Prod.snd)
  | _ => .error { name := "AttributeError" }

/-- `bool(value)`. -/
def truthy (py : Python) : Json → Bool
  | null => false
  | bool b => b
  | int n => n ≠ 0
  | float text => py.nonzero text
  | str s => s ≠ ""
  | arr items => !items.isEmpty
  | obj fields => !fields.isEmpty

/-- What `for x in value` walks over. -/
def iterate : Json → Except Exc (List Json)
  | arr items => .ok items
  | str s => .ok (s.toList.map fun c => .str (String.singleton c))
  | obj fields => .ok (fields.map fun f => .str f.1)
  | _ => .error { name := "TypeError" }

end Json

/-- A value or an exception of a class. -/
def orRaise {α : Type} (o : Option α) (name : String) : Except Exc α :=
  match o with
  | some a => .ok a
  | none => .error { name := name }

/-- A computation returns if both its parts do. -/
theorem bind_eq_ok {ε α β : Type} {x : Except ε α} {f : α → Except ε β} {b : β} :
    (x >>= f) = .ok b ↔ ∃ a, x = .ok a ∧ f a = .ok b := by
  cases x <;> simp [bind, Except.bind]

/-- `str(IPv4Address)`. -/
def ipText (ip : IPv4) : String :=
  let n := ip.toNat
  s!"{n / 2 ^ 24}.{n / 2 ^ 16 % 256}.{n / 2 ^ 8 % 256}.{n % 256}"

/-! ## Rendering commands -/

/-- The commands of one job. -/
structure RenderedCommands where
  queryBefore : String
  release : String
  queryAfter : String
  elevatePrivilege : Option String
  enterConfig : Option String
  exitConfig : Option String
  disablePaging : Option String
  deriving DecidableEq, Repr

/-- `_template_optional`. -/
def templateOptional (py : Python) (templates : Json) (name : String) :
    Except Exc (Option String) := do
  match ← templates.get name with
  | some (.str value) => pure (if py.strip value = "" then none else some value)
  | _ => pure none

/-- `_template_required`. -/
def templateRequired (py : Python) (templates : Json) (name : String) : Except Exc String := do
  orRaise (← templateOptional py templates name) "CommandProfileError"

/-- `_pagination_disable_command`. -/
def paginationDisableCommand (py : Python) (paginationRules : Json) :
    Except Exc (Option String) := do
  match paginationRules with
  | .null => pure none
  | rules =>
      match ← templateOptional py rules "disable_paging_command" with
      | some value => pure (some value)
      | none => templateOptional py rules "disable_paging"

/-- A piece of a `string.Template`. -/
inductive TemplatePiece
  | literal (c : Char)
  | placeholder (name : List Char)
  | invalid
  deriving DecidableEq, Repr

/-- Where the scan of a template stands behind a `$`. -/
inductive TemplateScan
  | text
  | dollar
  | named (name : List Char)
  | braced (name : List Char)

/-- `[_a-zA-Z]`. -/
def isIdStart (c : Char) : Bool := c = '_' || ('a' ≤ c && c ≤ 'z') || ('A' ≤ c && c ≤ 'Z')

/-- `[_a-zA-Z0-9]`. -/
def isIdRest (c : Char) : Bool := isIdStart c || ('0' ≤ c && c ≤ '9')

/-- The pieces of a template: `$$`, `$name`, `${name}`, anything else literal, and a `$`
of any other kind invalid. -/
def templatePieces : TemplateScan → List Char → List TemplatePiece
  | .text, [] => []
  | .dollar, [] => [.invalid]
  | .named name, [] => [.placeholder name]
  | .braced _, [] => [.invalid]
  | .text, c :: cs =>
      if c = '$' then templatePieces .dollar cs else .literal c :: templatePieces .text cs
  | .dollar, c :: cs =>
      if c = '$' then .literal '$' :: templatePieces .text cs
      else if c = '{' then templatePieces (.braced []) cs
      else if isIdStart c then templatePieces (.named [c]) cs
      else .invalid :: templatePieces .text cs
  | .named name, c :: cs =>
      if isIdRest c then templatePieces (.named (name ++ [c])) cs
      else if c = '$' then .placeholder name :: templatePieces .dollar cs
      else .placeholder name :: .literal c :: templatePieces .text cs
  | .braced name, c :: cs =>
      if c = '}' && name ≠ [] then .placeholder name :: templatePieces .text cs
      else if (if name = [] then isIdStart c else isIdRest c) then
        templatePieces (.braced (name ++ [c])) cs
      else .invalid :: templatePieces .text cs

/-- `_render_template` with the one placeholder `ip`. -/
def renderTemplate (template : String) (ip : IPv4) : Except Exc String := do
  let pieces := templatePieces .text template.toList
  if pieces.contains .invalid then
    throw { name := "CommandProfileError" }
  if pieces.any fun | .placeholder name => name ≠ ['i', 'p'] | _ => false then
    throw { name := "CommandProfileError" }
  return String.ofList (pieces.flatMap fun
    | .literal c => [c]
    | .placeholder _ => (ipText ip).toList
    | .invalid => [])

/-- `_render_optional_template`. -/
def renderOptionalTemplate (py : Python) (templates : Json) (name : String) (ip : IPv4) :
    Except Exc (Option String) := do
  match ← templateOptional py templates name with
  | none => pure none
  | some template => some <$> renderTemplate template ip

/-- `render_commands`. -/
def renderCommands (py : Python) (templates : Json) (ip : IPv4) (paginationRules : Json) :
    Except Exc RenderedCommands := do
  let query ← templateRequired py templates "single_arp_query"
  let release ← templateRequired py templates "arp_release"
  let disablePaging ← match ← templateOptional py templates "disable_paging" with
    | some value => pure (some value)
    | none => paginationDisableCommand py paginationRules
  return {
    queryBefore := ← renderTemplate query ip
    release := ← renderTemplate release ip
    queryAfter := ← renderTemplate query ip
    elevatePrivilege := ← renderOptionalTemplate py templates "super" ip
    enterConfig := ← renderOptionalTemplate py templates "config" ip
    exitConfig := ← renderOptionalTemplate py templates "exit_config" ip
    disablePaging := ← match disablePaging with
      | none => pure none
      | some template => some <$> renderTemplate template ip }

/-! ## Connection settings -/

/-- `NetmikoConnectionSettings`. -/
structure Settings where
  host : String
  port : ℤ
  deviceType : String
  username : String
  password : String
  secret : Option String
  timeout : ℤ
  connTimeout : ℤ
  authTimeout : ℤ
  bannerTimeout : ℤ
  globalDelayFactor : String
  usernamePattern : Option String
  passwordPattern : Option String
  passphrasePattern : Option String
  queryBeforeExpectString : Option String
  queryAfterExpectString : Option String
  releaseExpectString : Option String
  deriving DecidableEq, Repr

/-- The decoded columns of a command profile. -/
structure Profile where
  loginPromptPatterns : Json
  commandTemplates : Json
  promptPatterns : Json
  paginationRules : Json
  successPatterns : Json
  errorPatterns : Json
  parserRules : Json

/-- `json.loads(dep[k]) if isinstance(dep[k], str) else dep[k]`. -/
def decodeColumn (py : Python) : Cell → Except Exc Json
  | .json s | .text s => py.loads s
  | .bool b => .ok (.bool b)
  | .int n => .ok (.int n)
  | _ => .ok .null

/-- The profile of a dependency row. -/
def decodeProfile (py : Python) (dep : Dependencies) : Except Exc Profile := do
  return {
    loginPromptPatterns := ← decodeColumn py dep.loginPromptPatterns
    commandTemplates := ← decodeColumn py dep.commandTemplates
    promptPatterns := ← decodeColumn py dep.promptPatterns
    paginationRules := ← decodeColumn py dep.paginationRules
    successPatterns := ← decodeColumn py dep.successPatterns
    errorPatterns := ← decodeColumn py dep.errorPatterns
    parserRules := ← decodeColumn py dep.parserRules }

/-- A text column; `none` is `NULL`. -/
def Cell.text? : Cell → Option String
  | .text s => some s
  | _ => none

/-- `legacy_encrypted_secret`, up to the re-encryption `_decrypt_credential_secret`
undoes. -/
def legacyEncryptedSecret (py : Python) (value : Cell) : Except Exc (Option String) :=
  match value.text? with
  | none | some "" => .ok none
  | some s =>
      if s.startsWith "v1:" then some <$> py.decrypt s else .error { name := "ValueError" }

/-- `_require_mapping`. -/
def requireMapping : Json → Except Exc Json
  | .null => .ok (.obj [])
  | .obj fields => .ok (.obj fields)
  | _ => .error { name := "ReleaseJobConfigurationError" }

/-- `_reject_unsupported_keys`. -/
def rejectUnsupportedKeys (supported : List String) : Json → Except Exc Unit
  | .obj fields =>
      if fields.all fun f => supported.contains f.1 then .ok ()
      else .error { name := "ReleaseJobConfigurationError" }
  | _ => .ok ()

/-- `_optional_string`. -/
def optionalString (py : Python) (value : Json) (key : String) :
    Except Exc (Option String) := do
  match ← value.get key with
  | none | some .null => pure none
  | some (.str s) =>
      if py.strip s = "" then throw { name := "ReleaseJobConfigurationError" }
      else pure (some s)
  | some _ => throw { name := "ReleaseJobConfigurationError" }

/-- `_optional_string(value, key) or _optional_string(value, other)`. -/
def optionalStringOr (py : Python) (value : Json) (key other : String) :
    Except Exc (Option String) := do
  match ← optionalString py value key with
  | some s => pure (some s)
  | none => optionalString py value other

/-- `except (TypeError, ValueError)` around a conversion. -/
def converted {α : Type} : Except Exc α → Except Exc α
  | .ok a => .ok a
  | .error e =>
      if e.name = "TypeError" || e.name = "ValueError" then
        .error { name := "ReleaseJobConfigurationError" }
      else .error e

/-- `_int_option`. -/
def intOption (py : Python) (value : Json) (key : String) (default : ℤ) : Except Exc ℤ := do
  match ← value.get key with
  | none => pure default
  | some raw => converted (py.int raw)

/-- `_float_option`. -/
def floatOption (py : Python) (value : Json) (key default : String) : Except Exc String := do
  match ← value.get key with
  | none => pure default
  | some raw => converted (py.float raw)

/-- `_decrypt_credential_secret`. -/
def decryptCredentialSecret : Option String → Except Exc String
  | some s => .ok s
  | none => .error { name := "ReleaseJobConfigurationError" }

/-- `build_connection_settings_for_switch`. -/
def buildConnectionSettings (py : Python) (managementIp username : String)
    (password secret : Option String) (profile : Profile) : Except Exc Settings := do
  let login ← requireMapping profile.loginPromptPatterns
  rejectUnsupportedKeys ["username_pattern", "password_pattern", "passphrase_pattern"] login
  let prompts ← requireMapping profile.promptPatterns
  rejectUnsupportedKeys ["connection_options", "query_expect_string",
    "query_before_expect_string", "query_after_expect_string", "release_expect_string"] prompts
  let options ← requireMapping ((← prompts.get "connection_options").getD (.obj []))
  let before ← optionalStringOr py prompts "query_before_expect_string" "query_expect_string"
  let after ← optionalStringOr py prompts "query_after_expect_string" "query_expect_string"
  let passphrase ← optionalString py login "passphrase_pattern"
  if passphrase.isSome then
    throw { name := "ReleaseJobConfigurationError" }
  return {
    host := managementIp
    port := ← intOption py options "port" 23
    deviceType := (← options.get "device_type").elim "hp_comware_telnet" py.str
    username := username
    password := ← decryptCredentialSecret password
    secret := secret
    timeout := ← intOption py options "timeout" 30
    connTimeout := ← intOption py options "conn_timeout" 20
    authTimeout := ← intOption py options "auth_timeout" 20
    bannerTimeout := ← intOption py options "banner_timeout" 20
    globalDelayFactor := ← floatOption py options "global_delay_factor" "1.0"
    usernamePattern := ← optionalString py login "username_pattern"
    passwordPattern := ← optionalString py login "password_pattern"
    passphrasePattern := passphrase
    queryBeforeExpectString := before
    queryAfterExpectString := after
    releaseExpectString := ← optionalString py prompts "release_expect_string" }

/-- `_mapping`. -/
def mapping (py : Python) (value : Json) : Except Exc Json := do
  let value ← match value with
    | .str s => py.loads s
    | v => pure v
  match value with
  | .obj fields => pure (.obj fields)
  | _ => pure (.obj [])

/-- `VENDOR_DEVICE_TYPES`. -/
def vendorDeviceType : String → Option String
  | "huawei" => some "huawei"
  | "h3c" => some "hp_comware"
  | "ruijie" => some "ruijie_os"
  | "cisco" => some "cisco_ios"
  | _ => none

/-- `DEFAULT_PORTS`. -/
def defaultPort : String → Except Exc ℤ
  | "telnet" => .ok 23
  | "ssh" => .ok 22
  | _ => .error { name := "KeyError" }

/-- `resolve_transport`: the device type and the port. -/
def resolveTransport (py : Python) (dep : Dependencies) (promptPatterns : Json) :
    Except Exc (String × ℤ) := do
  let prompts ← mapping py promptPatterns
  let options ← mapping py ((← prompts.get "connection_options").getD (.obj []))
  let explicit := (← options.get "device_type").filter (Json.truthy py)
  let profileType := explicit.elim "hp_comware_telnet" py.str
  let telnet := profileType.endsWith "_telnet"
  let suffixless :=
    if telnet then String.ofList (profileType.toList.take (profileType.length - 7))
    else profileType
  let base := if explicit.isSome then suffixless
    else ((dep.vendor.text?).bind vendorDeviceType).getD suffixless
  let protocol := (dep.protocol.text?).getD ""
  let deviceType := if protocol = "telnet" then base ++ "_telnet" else base
  let own := match dep.port with
    | .int n => if n = 0 then none else some n
    | _ => none
  match own with
  | some port => pure (deviceType, port)
  | none =>
      match (← options.get "port").filter (Json.truthy py) with
      | some port =>
          if (if telnet then "telnet" else "ssh") = protocol then
            pure (deviceType, ← py.int port)
          else pure (deviceType, ← defaultPort protocol)
      | none => pure (deviceType, ← defaultPort protocol)

/-- `connection_settings`. -/
def connectionSettings (py : Python) (dep : Dependencies) (profile : Profile) :
    Except Exc Settings := do
  let password ← legacyEncryptedSecret py dep.encryptedPassword
  let secret ← legacyEncryptedSecret py dep.encryptedSecret
  let settings ← buildConnectionSettings py ((dep.managementIp.text?).getD "")
    ((dep.username.text?).getD "") password secret profile
  let (deviceType, port) ← resolveTransport py dep profile.promptPatterns
  return { settings with deviceType := deviceType, port := port }

/-! ## Reading outputs -/

/-- `output_matches_any`. -/
def outputMatchesAny (py : Python) (output : String) (patterns : Json) : Except Exc Bool := do
  let rec anyMatch : List Json → Except Exc Bool
    | [] => pure false
    | .str pattern :: rest => do
        if ← orRaise (py.search pattern output) "CommandProfileError" then pure true
        else anyMatch rest
    | _ :: _ => throw { name := "CommandProfileError" }
  anyMatch (← patterns.iterate)

/-- `{value.lower() for value in parser_rules.get(key, [])}`. -/
def lowerValues (py : Python) (parserRules : Json) (key : String) :
    Except Exc (List String) := do
  match ← parserRules.get key with
  | none => pure []
  | some values =>
      (← values.iterate).mapM fun
        | .str s => pure (py.lower s)
        | _ => throw { name := "AttributeError" }

/-- `_entry_type`. -/
def entryTypeOf (py : Python) (rawType : String) (parserRules : Json) :
    Except Exc EntryType := do
  let staticValues ← lowerValues py parserRules "static_type_values"
  let dynamicValues ← lowerValues py parserRules "dynamic_type_values"
  if staticValues.contains (py.lower rawType) then pure .static
  else if dynamicValues.contains (py.lower rawType) then pure .dynamic
  else pure .unknown

/-- One match of the entry expression, if it is about the target. -/
def targetObservation (py : Python) (ip : IPv4) (parserRules : Json)
    (groups : List (String × Option String)) : Except Exc (Option Observation) := do
  let group := fun name => (groups.find? (·.1 = name)).map Prod.snd
  let address ← match group "ip" with
    | none => pure ""
    | some (some s) => pure s
    | some none => throw { name := "AttributeError" }
  if py.strip address ≠ ipText ip then pure none
  else do
    let entryType ← entryTypeOf py ((group "type").join.getD "") parserRules
    pure (some ⟨ip, entryType, (group "mac").join⟩)

/-- The first observation of the most telling type. -/
def mostTelling (observations : List Observation) : Option Observation :=
  ([.static, .unknown, .dynamic] : List EntryType).findSome? fun t =>
    observations.find? (·.entryType = t)

/-- `parse_arp_observation`. -/
def parseArpObservation (py : Python) (ip : IPv4) (output : String) (parserRules : Json) :
    Except Exc Observation := do
  let entryRegex ← parserRules.get "arp_entry_regex"
  let observations ← match entryRegex with
    | some (.str pattern) =>
        if py.strip pattern = "" then pure []
        else do
          let found ← orRaise (py.finditer pattern output) "CommandProfileError"
          let observed ← found.mapM (targetObservation py ip parserRules)
          pure observed.reduceOption
    | _ => pure []
  match mostTelling observations with
  | some observation => pure observation
  | none => do
      let missing ← match ← parserRules.get "missing_patterns" with
        | some (.arr patterns) => outputMatchesAny py output (.arr patterns)
        | _ => pure false
      pure ⟨ip, if missing then .missing else .unknown, none⟩

/-- `ClassifiedReleaseResult`: `details` holds the observation and whether a success
pattern matched. -/
structure ClassifiedReleaseResult where
  status : Status
  message : String
  afterState : Observation
  successPatternMatched : Option Bool
  status_mem : status = .succeeded ∨ status = .failed ∨ status = .needsManualConfirmation :=
    by decide

/-- `classify_release_result`. -/
def classifyReleaseResult (py : Python) (releaseOutput : String) (after : Observation)
    (errorPatterns successPatterns : Json) : Except Exc ClassifiedReleaseResult := do
  if ← outputMatchesAny py releaseOutput errorPatterns then
    return {
      status := .failed
      message := "Release command returned an error pattern"
      afterState := after
      successPatternMatched := none }
  let successPatternMatched ←
    if successPatterns.truthy py then some <$> outputMatchesAny py releaseOutput successPatterns
    else pure none
  match after.entryType with
  | .missing | .dynamic =>
      return {
        status := .succeeded
        message := "Static binding is not present after release"
        afterState := after
        successPatternMatched := successPatternMatched }
  | .static =>
      return {
        status := .failed
        message := "Static binding is still present after release"
        afterState := after
        successPatternMatched := none }
  | .unknown =>
      return {
        status := .needsManualConfirmation
        message := "Post-release state could not be parsed confidently"
        afterState := after
        successPatternMatched := none }

end BindPlane
