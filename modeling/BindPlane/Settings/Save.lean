import BindPlane.Settings.Data

/-!
# Saving the mail settings

`SaveEmailSettings` reads the row, checks the request against what it has read, resolves the
password, makes a mailer from what is going to be stored, and replaces the row if its revision is
still the one of the request.  Between any two of these steps other calls, of this and of other
API instances, make theirs.  The mutex that lets one process make one save at a time is left out:
the model has the runs without it as well.

`Desk` is the row with its history: the saves that have been committed and all that was handed to
the mailer factory, newest first, each with the call it belongs to.

**Compare and swap.**  A save is not a transaction.  It reads the row, thinks, and replaces the row
if its revision has not moved; the password it stores may come from the row it has read, sealed
anew.  What must not happen is that the password of one server ends up beside the name of another
one.

**Source.**  What is modelled here is in `internal/auth/adapter/postgres/settings.go` and
`internal/auth/application/settings.go`.
-/

namespace BindPlane.Settings

open Coroutine Codec

variable (g : AesGcm) (key : Bytes) (parseAddress : String → Option String)

/-! ## `SettingsManagement` -/

/-- Resolve the password of a request: the text for the mailer and the ciphertext for the row. -/
def resolveSMTPPassword (s : Service) (input : EmailSettingsInput)
    (current : EmailSettingsRecord) (hasCurrent persist : Bool) : Program (Bytes × Bytes) :=
  if input.clearPassword then pure ([], [])
  else match input.password with
    | some password =>
        if !persist then pure (password, [])
        else if !s.cipher then Prog.raise (.dependencyUnavailable none)
        else do
          let ciphertext ← dependency (.encrypt password)
          pure (password, ciphertext)
    | none =>
        if hasCurrent ∧ !sameSMTPIdentity input current ∧ current.passwordCiphertext ≠ [] then
          Prog.raise .invalidMailSettings
        else if hasCurrent ∧ trimSpace input.username ≠ "" ∧ sameSMTPIdentity input current ∧
            current.passwordCiphertext ≠ [] then
          if !s.cipher then Prog.raise (.dependencyUnavailable none)
          else do
            let plain ← wrapped (decrypt g key current.passwordCiphertext)
            pure (plain, current.passwordCiphertext)
        else pure ([], [])

/-- The settings of a mailer. -/
def smtpSettings (record : EmailSettingsRecord) (password : Bytes) : SMTPSettings :=
  { host := record.host, port := record.port, security := record.security,
    username := record.username, password, fromAddress := record.fromAddress,
    fromName := record.fromName }

def mailerForSMTPSettings (s : Service) (record : EmailSettingsRecord) (password : Bytes) :
    Program Unit :=
  if !s.factory then pure () else dependency (.factory (smtpSettings record password))

def mailerForRecord (s : Service) (record : EmailSettingsRecord) : Program Unit := do
  let password ←
    if record.passwordCiphertext ≠ [] then
      if !s.cipher then Prog.raise (.dependencyUnavailable none)
      else wrapped (decrypt g key record.passwordCiphertext)
    else pure []
  mailerForSMTPSettings s record password

def emailSettingsView (record : EmailSettingsRecord) : EmailSettingsView :=
  { configured := true, host := record.host, port := record.port, security := record.security,
    username := record.username, passwordSet := !record.passwordCiphertext.isEmpty,
    fromAddress := record.fromAddress, fromName := record.fromName,
    defaultLocale := record.defaultLocale,
    autoRetryCount :=
      if within (some record.autoRetryCount) minAutoRetryCount maxAutoRetryCount then
        record.autoRetryCount
      else defaultAutoRetryCount
    retentionDays :=
      if within (some record.retentionDays) minMailRetentionDays maxMailRetentionDays then
        record.retentionDays
      else defaultMailRetentionDays
    revision := record.revision }

/-- The row, or that there is none. -/
def currentEmailSettings : Program (Option EmailSettingsRecord) := do
  match ← Prog.attempt .getEmailSettings with
  | .ok record => pure (some record)
  | .error .mailNotConfigured => pure none
  | .error e => Prog.raise (dependencyError e)

/-- What a valid request asks to be stored, but for the password. -/
def requestedRecord (input : EmailSettingsInput) : EmailSettingsRecord :=
  { host := trimSpace input.host
    port := input.port
    security := (trimSpace input.security).toLower
    username := trimSpace input.username
    fromAddress := trimSpace input.fromAddress
    fromName := trimSpace input.fromName
    defaultLocale := input.defaultLocale
    autoRetryCount := input.autoRetryCount.getD defaultAutoRetryCount
    retentionDays := input.retentionDays.getD defaultMailRetentionDays
    revision := input.revision }

/-- Whether the request is about another revision than the one that was read. -/
def staleInput (input : EmailSettingsInput) (current : Option EmailSettingsRecord) : Bool :=
  input.revision < 0 ||
    match current with
    | some current => input.revision ≠ current.revision
    | none => input.revision ≠ 0

def saveEmailSettings (s : Service) (input : EmailSettingsInput) :
    Program EmailSettingsView := do
  let input := normalizeEmailSettingsInput input
  let current? ← currentEmailSettings
  let current := current?.getD {}
  if staleInput input current? then Prog.raise .staleRevision
  else do
    let input := applyMailPolicyDefaults input current current?.isSome
    Prog.ofExcept (validateEmailSettingsInput parseAddress input s.production)
    let (password, ciphertext) ← resolveSMTPPassword g key s input current current?.isSome true
    let record := { requestedRecord input with passwordCiphertext := ciphertext }
    if !validSMTPCredentials record.username (password ≠ []) then
      Prog.raise .invalidMailSettings
    else do
      mailerForSMTPSettings s record password
      let record ← dependency (.saveEmailSettings input.revision record)
      pure (emailSettingsView record)

/-- `CurrentMailer`, for one delivery. -/
def currentMailer (s : Service) : Program Unit := do
  let record ← dependency .getEmailSettings
  mailerForRecord g key s record
  if !s.factory then Prog.raise (.dependencyUnavailable none) else pure ()

/-- `LoadRuntime`, at the start of a process. -/
def loadRuntime (s : Service) : Program Unit := do
  match ← currentEmailSettings with
  | none => pure ()
  | some record =>
      if !s.runtime ∨ !s.factory then pure () else mailerForRecord g key s record

/-! ## The store -/

/-- A committed save: the call that made it, what that had asked for, and the row it left. -/
structure Save where
  call : ℕ
  input : EmailSettingsInput
  record : EmailSettingsRecord
deriving DecidableEq

/-- What the mailer factory was given, and the request that it was given for. -/
structure Handed where
  input : Option EmailSettingsInput
  settings : SMTPSettings
deriving DecidableEq

structure Desk where
  row : Option EmailSettingsRecord := none
  saves : List Save := []
  handed : List Handed := []
deriving DecidableEq

/-- A request to `SettingsManagement`. -/
inductive Call
  | save (s : Service) (input : EmailSettingsInput)
  | currentMailer (s : Service)
  | loadRuntime (s : Service)
deriving DecidableEq

/-- What a request to save asks for. -/
def Call.input? : Call → Option EmailSettingsInput
  | .save _ input => some input
  | _ => none

/-- How the world treats a call. -/
inductive Choice
  /-- It has no effect and an error for an answer. -/
  | fails
  | succeeds
  /-- It has its effect, and an error for an answer. -/
  | loses
  /-- An encryption succeeds under this nonce. -/
  | seals (nonce : Nonce)

/-- `Store.SaveEmailSettings`: the row afterwards.  Revision 0 inserts, any other replaces the row
of that revision. -/
def Desk.written (d : Desk) (expectedRevision : ℤ) (record : EmailSettingsRecord) :
    Option EmailSettingsRecord :=
  if expectedRevision = 0 then
    match d.row with
    | some _ => none
    | none => some { record with revision := 1 }
  else
    match d.row with
    | some current =>
        if current.revision = expectedRevision then
          some { record with revision := current.revision + 1 }
        else none
    | none => none

/-- What a call does to the desk, and its answer. -/
def react (d : Desk) (i : ℕ) (call : Call) :
    (q : Request) → Choice → Option (Desk × Except SettingsError (Answer q))
  | .getEmailSettings, .fails => some (d, .error (.failure .read))
  | .getEmailSettings, .succeeds =>
      some (d, match d.row with
        | some record => .ok record
        | none => .error .mailNotConfigured)
  | .encrypt _, .fails => some (d, .error (.failure .encrypt))
  | .encrypt plaintext, .seals nonce => some (d, .ok (encrypt g key nonce plaintext))
  | .factory settings, .fails =>
      some ({ d with handed := ⟨call.input?, settings⟩ :: d.handed }, .error (.failure .factory))
  | .factory settings, .succeeds =>
      some ({ d with handed := ⟨call.input?, settings⟩ :: d.handed }, .ok ())
  | .saveEmailSettings _ _, .fails => some (d, .error (.failure .write))
  | .saveEmailSettings revision record, .succeeds =>
      match call, d.written revision record with
      | .save _ input, some saved =>
          some ({ d with row := some saved, saves := ⟨i, input, saved⟩ :: d.saves }, .ok saved)
      | .save _ _, none => some (d, .error .staleRevision)
      | _, _ => none
  | .saveEmailSettings revision record, .loses =>
      match call, d.written revision record with
      | .save _ input, some saved =>
          some ({ d with row := some saved, saves := ⟨i, input, saved⟩ :: d.saves },
            .error (.failure .write))
      | .save _ _, none => some (d, .error (.failure .write))
      | _, _ => none
  | _, _ => none

/-- What a request has been answered with. -/
inductive Reply
  | saved (view : EmailSettingsView)
  | done
deriving DecidableEq

/-- What answers a request. -/
def Call.body : Call → Program Reply
  | .save s input => (saveEmailSettings g key parseAddress s input).bind fun view =>
      pure (.saved view)
  | .currentMailer s => (Settings.currentMailer g key s).bind fun _ => pure .done
  | .loadRuntime s => (Settings.loadRuntime g key s).bind fun _ => pure .done

/-- The requests over the desk. -/
abbrev Office := Pool Desk Call Answer SettingsError Reply

/-- The steps of a list, from an empty desk. -/
def Office.run (acts : List (Act Call Choice)) : Option Office :=
  Pool.run (react g key) (Call.body g key parseAddress) ⟨{}, []⟩ acts

end BindPlane.Settings
