import BindPlane.Codec.Envelope
import BindPlane.Coroutine.Shared
import BindPlane.Devices.Schedules

/-!
# The mail settings

The SMTP settings of an installation: one row that any number of API instances read and replace.
Here are its data, the checks of the requests, the cipher of the password, and the calls that
`SettingsManagement` makes: reads and revision-checked writes of the row, encryptions under a
fresh nonce, and the mailer factory.

A password is a Go string and stands as its bytes, nothing else of it is looked at.  Left out are
`updated_at` and the mailers themselves.

**Source.**  What is modelled here is in `internal/auth/application/settings.go`.
-/

namespace BindPlane.Settings

open Coroutine Codec

/-- `strings.TrimSpace`. -/
abbrev trimSpace : String → String := Devices.trimSpace

/-! ## Data -/

def defaultAutoRetryCount : ℤ := 9
def minAutoRetryCount : ℤ := 0
def maxAutoRetryCount : ℤ := 100
def defaultMailRetentionDays : ℤ := 30
def minMailRetentionDays : ℤ := 1
def maxMailRetentionDays : ℤ := 3650

/-- The row of `auth_email_settings`. -/
structure EmailSettingsRecord where
  host : String := ""
  port : ℤ := 0
  security : String := ""
  username : String := ""
  passwordCiphertext : Bytes := []
  fromAddress : String := ""
  fromName : String := ""
  defaultLocale : String := ""
  autoRetryCount : ℤ := 0
  retentionDays : ℤ := 0
  revision : ℤ := 0
deriving DecidableEq

/-- What a save asks for.  No password leaves the saved one alone. -/
structure EmailSettingsInput where
  host : String
  port : ℤ
  security : String
  username : String
  password : Option Bytes
  clearPassword : Bool
  fromAddress : String
  fromName : String
  defaultLocale : String
  autoRetryCount : Option ℤ
  retentionDays : Option ℤ
  revision : ℤ
deriving DecidableEq

/-- What a save answers. -/
structure EmailSettingsView where
  configured : Bool
  host : String
  port : ℤ
  security : String
  username : String
  passwordSet : Bool
  fromAddress : String
  fromName : String
  defaultLocale : String
  autoRetryCount : ℤ
  retentionDays : ℤ
  revision : ℤ
deriving DecidableEq

/-- What the mailer factory gets. -/
structure SMTPSettings where
  host : String
  port : ℤ
  security : String
  username : String
  password : Bytes
  fromAddress : String
  fromName : String
deriving DecidableEq

/-- What fails below `SettingsManagement`. -/
inductive Failure
  | read
  | write
  | encrypt
  | decrypt
  | factory
deriving DecidableEq, Repr

inductive SettingsError
  | mailNotConfigured
  | staleRevision
  | invalidMailSettings
  /-- `domain.ValidationErrors` with one item. -/
  | validation (field code : String)
  /-- `ErrDependencyUnavailable`, with what it wraps. -/
  | dependencyUnavailable (cause : Option Failure)
  /-- An error of the driver, the cipher or the factory. -/
  | failure (cause : Failure)
deriving DecidableEq, Repr

/-- `dependencyError`. -/
def dependencyError : SettingsError → SettingsError
  | .failure cause => .dependencyUnavailable (some cause)
  | e => e

/-! ## The cipher -/

variable (g : AesGcm) (key : Bytes)

/-- `AESGCMSecretBox.Encrypt`. -/
def encrypt (nonce : Nonce) (plaintext : Bytes) : Bytes :=
  nonce.bytes ++ g.sealed key nonce.bytes plaintext []

/-- `AESGCMSecretBox.Decrypt`. -/
def decrypt (ciphertext : Bytes) : Except SettingsError Bytes :=
  if ciphertext = [] then .ok []
  else if ciphertext.length < 12 then .error (.dependencyUnavailable none)
  else match g.opened key (ciphertext.take 12) (ciphertext.drop 12) [] with
    | some plaintext => .ok plaintext
    | none => .error (.failure .decrypt)

theorem encrypt_ne (nonce : Nonce) (plaintext : Bytes) : encrypt g key nonce plaintext ≠ [] := by
  intro h
  have hnil := (List.append_eq_nil_iff.mp h).1
  exact absurd nonce.size (by simp [hnil])

theorem decrypt_encrypt {g : AesGcm} (hg : g.Correct) (nonce : Nonce) (plaintext : Bytes) :
    decrypt g key (encrypt g key nonce plaintext) = .ok plaintext := by
  have hlength : ¬ (encrypt g key nonce plaintext).length < 12 := by
    simp [encrypt, nonce.size]
  unfold decrypt
  rw [if_neg (encrypt_ne g key nonce plaintext), if_neg hlength]
  unfold encrypt
  rw [nonce.take_append, nonce.drop_append, hg.opens]

/-! ## Checks -/

/-- What one API instance was made with. -/
structure Service where
  /-- `cipher` is not `nil`. -/
  cipher : Bool := true
  /-- `factory` is not `nil`. -/
  factory : Bool := true
  /-- `runtime` is not `nil`. -/
  runtime : Bool := true
  production : Bool := false
deriving DecidableEq

/-- An empty password leaves the saved one alone, too. -/
def normalizeEmailSettingsInput (input : EmailSettingsInput) : EmailSettingsInput :=
  if input.password = some [] ∧ !input.clearPassword then { input with password := none }
  else input

/-- The boundary within which a saved password may be used again. -/
def sameSMTPIdentity (input : EmailSettingsInput) (current : EmailSettingsRecord) : Bool :=
  trimSpace input.host = trimSpace current.host && input.port = current.port &&
    trimSpace input.username = trimSpace current.username

/-- Fill in the mail policy that a request leaves out. -/
def applyMailPolicyDefaults (input : EmailSettingsInput) (current : EmailSettingsRecord)
    (hasCurrent : Bool) : EmailSettingsInput :=
  { input with
    autoRetryCount := some (input.autoRetryCount.getD
      (if hasCurrent ∧ minAutoRetryCount ≤ current.autoRetryCount ∧
        current.autoRetryCount ≤ maxAutoRetryCount then current.autoRetryCount
      else defaultAutoRetryCount))
    retentionDays := some (input.retentionDays.getD
      (if hasCurrent ∧ minMailRetentionDays ≤ current.retentionDays ∧
        current.retentionDays ≤ maxMailRetentionDays then current.retentionDays
      else defaultMailRetentionDays)) }

/-- `strings.ContainsAny(s, "\r\n")`. -/
def breaksLine (s : String) : Bool := s.toList.any fun c => c = '\r' || c = '\n'

/-- `domain.Locale.Valid`. -/
def validLocale (locale : String) : Bool := locale = "en" || locale = "zh-CN"

/-- A value within bounds. -/
def within (value : Option ℤ) (low high : ℤ) : Bool := value.any fun v => low ≤ v && v ≤ high

/-- `validateEmailSettingsInput`.  `parseAddress` is the address that `mail.ParseAddress` finds. -/
def validateEmailSettingsInput (parseAddress : String → Option String)
    (input : EmailSettingsInput) (production : Bool) : Except SettingsError Unit :=
  let security := (trimSpace input.security).toLower
  if !within input.autoRetryCount minAutoRetryCount maxAutoRetryCount then
    .error (.validation "autoRetryCount" "invalid_retry_count")
  else if !within input.retentionDays minMailRetentionDays maxMailRetentionDays then
    .error (.validation "retentionDays" "invalid_retention_days")
  else if trimSpace input.host = "" ∨ input.port < 1 ∨ 65535 < input.port then
    .error .invalidMailSettings
  else if security ≠ "none" ∧ security ≠ "starttls" ∧ security ≠ "tls" then
    .error .invalidMailSettings
  else if production ∧ security = "none" then .error .invalidMailSettings
  else if input.clearPassword ∧ input.password.isSome then .error .invalidMailSettings
  else if trimSpace input.username = "" ∧ input.password.any (· ≠ []) then
    .error .invalidMailSettings
  else if trimSpace input.username ≠ "" ∧ input.password = some [] then
    .error .invalidMailSettings
  else if trimSpace input.fromAddress = "" ∨ breaksLine input.fromAddress ∨
      breaksLine input.fromName ∨ trimSpace input.fromName = "" then
    .error .invalidMailSettings
  else if parseAddress (trimSpace input.fromAddress) ≠ some (trimSpace input.fromAddress) then
    .error .invalidMailSettings
  else if !validLocale input.defaultLocale then
    .error (.validation "defaultLocale" "invalid_locale")
  else if 255 < input.host.length ∨ 255 < input.username.length ∨ 200 < input.fromName.length then
    .error .invalidMailSettings
  else .ok ()

/-- A password stands with a username, and only with one. -/
def validSMTPCredentials (username : String) (passwordSet : Bool) : Bool :=
  decide (trimSpace username = "") == !passwordSet

/-! ## Calls -/

/-- What `SettingsManagement` calls. -/
inductive Request
  | getEmailSettings
  | encrypt (plaintext : Bytes)
  | factory (settings : SMTPSettings)
  | saveEmailSettings (expectedRevision : ℤ) (record : EmailSettingsRecord)

/-- What answers a call that does not fail. -/
abbrev Answer : Request → Type
  | .getEmailSettings => EmailSettingsRecord
  | .encrypt _ => Bytes
  | .factory _ => Unit
  | .saveEmailSettings _ _ => EmailSettingsRecord

abbrev Program (α : Type) := Prog Answer SettingsError α

/-- Call, and wrap an error. -/
def dependency (q : Request) : Program (Answer q) :=
  (Prog.perform q).tryCatch fun e => .throw (dependencyError e)

/-- A pure computation, with its error wrapped. -/
def wrapped {α : Type} (o : Except SettingsError α) : Program α :=
  .ofExcept (o.mapError dependencyError)

end BindPlane.Settings
