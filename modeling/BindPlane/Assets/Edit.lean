import BindPlane.Assets.Requests
import BindPlane.ReadCommitted.Contract

/-!
# The audited edit

`updateAuditedThen` as a transaction, and the system of any number of edits on one store.

The row is read under its lock, which is held to the end.  A stale version is refused; every
supplied column is compared with what is stored; the columns that differ are written with the
next version, and the audit record of them in the same transaction.  The hook of a schedule
then computes its next run from the row as it is now.  An edit that changes nothing commits
without a write.

**Versions and records.**  The version of a row and the records of its edits are two accounts of one
history.  They are written in one transaction, so that they can only disagree if two edits start
from the same version, and this is what the lock and the comparison exclude.

**Source.**  What is modelled here is in `internal/release/admin_edit.go`.
-/

namespace BindPlane.Assets

open ReadCommitted Codec

/-- The locks: rows, and entries of unique indexes. -/
inductive Key
  | row (k : Kind) (id : String)
  | entry (k : Kind) (value : String)
  deriving DecidableEq

/-- How an edit fails. -/
inductive Failure
  | refused (r : Refusal)
  /-- `ErrNotFound`. -/
  | notFound
  /-- `errStaleAsset`. -/
  | stale
  /-- An error of class 23. -/
  | conflict
  /-- Any other error. -/
  | unavailable
  deriving DecidableEq

/-- The response to a failed edit. -/
def Failure.refusal : Failure → Refusal
  | .refused r => r
  | .notFound => ⟨404, .text "not found"⟩
  | .stale => ⟨409, .text "asset changed since it was loaded; reload and try again"⟩
  | .conflict => ⟨409, .text "change conflicts with existing assets"⟩
  | .unavailable => ⟨503, .text "asset store unavailable"⟩

variable {J : Type}

/-- Transactions on the assets. -/
abbrev Txn (J : Type) := Tx (Db J) Key Failure

/-! ## Constraints -/

/-- The column of the unique index of a table. -/
def Kind.unique : Kind → Option Column
  | .switch => some .managementIp
  | .network => none
  | _ => some .name

/-- The columns that are `NOT NULL`. -/
def Kind.required : Kind → List Column
  | .credential => [.name, .username, .encryptedPassword, .isActive]
  | .profile => [.name, .isActive, .loginPromptPatterns, .commandTemplates, .promptPatterns,
      .paginationRules, .successPatterns, .errorPatterns, .parserRules]
  | .switch => [.name, .managementIp, .credentialId, .commandProfileId, .isEnabled, .vendor,
      .protocol]
  | .group => [.name]
  | .network => [.switchId, .cidr, .isEnabled, .isValidated]
  | .rule => [.name, .pattern, .mode, .severity, .isEnabled]
  | .schedule => [.name, .kind, .cron, .scope, .isEnabled]

/-- The foreign keys. -/
def Kind.references : Kind → List (Column × Kind)
  | .switch => [(.credentialId, .credential), (.commandProfileId, .profile), (.groupId, .group)]
  | .network => [(.switchId, .switch)]
  | .rule => [(.groupId, .group)]
  | .schedule => [(.groupId, .group)]
  | _ => []

/-- The texts that `CHECK` allows in a column. -/
def Kind.choices : Kind → List (Column × List String)
  | .switch => [(.vendor, switchVendors), (.protocol, ["telnet", "ssh"])]
  | .rule => [(.mode, ruleModes), (.severity, severities), (.vendor, switchVendors)]
  | .schedule => [(.kind, deviceTaskKinds), (.scope, ["all", "group"])]
  | _ => []

section Allows

variable [DecidableEq J] (d : Db J) (k : Kind) (id : String) (cell : Column → Value J)

/-- A text is one of some, or null. -/
def Value.among (v : Value J) (choices : List String) : Bool :=
  match v with
  | .nil => true
  | .text s => s ∈ choices
  | _ => false

/-- A foreign key is null or finds its row. -/
def refers (target : Kind) (v : Value J) : Bool :=
  match v with
  | .nil => true
  | .text s => ((d.rows target).lookup s).isSome
  | _ => false

/-- The constraints on a row that range over one column, and that of the schedules. -/
def Kind.checked : Bool :=
  k.required.all (fun c => cell c ≠ .nil) &&
    k.choices.all (fun c => (cell c.1).among c.2) &&
    match k with
    | .switch => match cell .port with
      | .int64 n => 1 ≤ n && n ≤ 65535
      | _ => true
    | .schedule => (cell .scope = .text "group") == (cell .groupId ≠ .nil)
    | _ => true

/-- No other row has the value of the unique column. -/
def Kind.isUnique : Bool :=
  match k.unique with
  | none => true
  | some c => (d.rows k).entries.all fun e => e.1 = id || e.2.cell c ≠ cell c

/-- All constraints on a row. -/
def Kind.allows : Bool :=
  k.checked cell && k.isUnique d id cell && k.references.all fun c => refers d c.2 (cell c.1)

end Allows

/-! ## Statements -/

namespace Db

/-- A row is written. -/
def put (d : Db J) (k : Kind) (id : String) (row : Row J) : Db J :=
  { d with rows := Function.update d.rows k ((d.rows k).insert id row) }

/-- `INSERT INTO bp_asset_events`. -/
def addEvent (d : Db J) (e : Event J) : Db J := { d with events := d.events ++ [e] }

/-- The row of an asset. -/
def row? (d : Db J) (k : Kind) (id : String) : Option (Row J) := (d.rows k).lookup id

end Db

section Programs

variable [DecidableEq J] (P : Platform J)

/-- `SELECT … FROM … WHERE id=$1 FOR UPDATE`. -/
def selectForUpdate (k : Kind) (id : String) : Txn J (Row J) := do
  let before ← Tx.snapshot
  let _ ← Tx.expect (before.row? k id) .notFound
  Tx.acquire (.row k id)
  let latest ← Tx.snapshot
  Tx.expect (latest.row? k id) .notFound

/-- A new value of the unique column waits for whoever else is writing that value. -/
def claimEntry (k : Kind) (old new : Column → Value J) : Txn J Unit :=
  match k.unique with
  | none => pure ()
  | some c =>
      match new c with
      | .text s => if old c = new c then pure () else Tx.acquire (.entry k s)
      | _ => pure ()

/-- The hook of `editSchedule`: the next run of the row as it is now, where `time.Now()` is
`now`. -/
def recomputeNextRun (id : String) (now : Instant) : Txn J Unit := do
  let s ← Tx.snapshot
  let row ← Tx.expect (s.row? .schedule id) .unavailable
  let next ← (match row.cell .isEnabled, row.cell .cron with
    | .bool true, .text expression =>
        match P.devices.nextRun expression now with
        | .ok t => pure (.int64 t)
        | .error _ => Tx.raise .unavailable
    | _, _ => pure .nil : Txn J (Value J))
  Tx.update (·.put .schedule id { row with cell := Function.update row.cell .nextRunAt next })

/-- What runs after the audit record is written. -/
def hook (k : Kind) (id : String) (now : Instant) : Txn J Unit :=
  match k with
  | .schedule => recomputeNextRun P id now
  | _ => pure ()

/-- The audit record of an edit. -/
def updateEvent (actor : Actor) (k : Kind) (id : String) (n : ℕ) (cell : Column → Value J)
    (set : List (Column × Value J × Change J)) : Event J where
  id := n
  actor := actor
  action := k.asset.action
  objectId := id
  objectName := cell k.asset.label
  changes := set.map fun s => (s.1, s.2.2)

/-- `updateAuditedThen`: the version that the row has afterwards.

The checks of the database follow in its order: the types of the assigned texts, the range of the
version, the unique index, and the constraints and references of the table. -/
def updateAuditedThen (actor : Actor) (k : Kind) (id : String) (version : ℤ) (next : Next J)
    (now : Instant) : Txn J ℕ := do
  let row ← selectForUpdate k id
  Tx.require ((row.version : ℤ) = version) .stale
  let set := auditFields P k row next
  if set = [] then pure row.version
  else do
    let cell ← Tx.expect (assign P set row.cell) .unavailable
    -- `version` is an `integer`
    Tx.require (row.version + 1 < 2 ^ 31) .unavailable
    claimEntry k row.cell cell
    let s ← Tx.snapshot
    Tx.require (k.allows s id cell) .conflict
    Tx.update (·.put k id ⟨row.version + 1, cell⟩)
    let n ← Tx.nextSerial
    Tx.update (·.addEvent (updateEvent actor k id n cell set))
    hook P k id now
    pure (row.version + 1)

end Programs

/-! ## Requests -/

/-- The body of an edit. -/
inductive Edit
  | credential (input : CredentialEdit)
  | profile (input : ProfileEdit)
  | switch (input : SwitchEdit)
  | group (input : GroupEdit)
  | network (input : NetworkEdit)
  | rule (input : RuleEdit)
  | schedule (input : ScheduleEdit)

namespace Edit

def kind : Edit → Kind
  | credential _ => .credential
  | profile _ => .profile
  | switch _ => .switch
  | group _ => .group
  | network _ => .network
  | rule _ => .rule
  | schedule _ => .schedule

def version : Edit → ℤ
  | credential input => input.version
  | profile input => input.version
  | switch input => input.version
  | group input => input.version
  | network input => input.version
  | rule input => input.version
  | schedule input => input.version

/-- What the handler passes on. -/
def next (P : Platform J) (sealed : Column → String → Except SealError String) (now : Instant) :
    Edit → Except Refusal (Next J)
  | credential input => editCredential sealed input
  | profile input => editProfile input
  | switch input => editSwitch input
  | group input => editGroup input
  | network input => editNetwork input
  | rule input => editRule P input
  | schedule input => editSchedule P now input

end Edit

/-- A `PATCH` of an admin. -/
structure Request where
  actor : Actor
  id : String
  edit : Edit
  /-- What `a.seal` makes of the secrets of the body. -/
  sealed : Column → String → Except SealError String

/-- When the handler and the hook look at the clock. -/
structure Times where
  handler : Instant
  hook : Instant

section Body

variable [DecidableEq J] (P : Platform J)

/-- The handler of a request, with `applyEditThen`. -/
def body (req : Request) (times : Times) : Txn J ℕ :=
  match req.edit.next P req.sealed times.handler with
  | .error r => Tx.raise (.refused r)
  | .ok next => do
      Tx.require (isCanonicalUUID req.id) .notFound
      Tx.require (1 ≤ req.edit.version) (.refused (unprocessable "current version required"))
      updateAuditedThen P req.actor req.edit.kind req.id req.edit.version next times.hook

end Body

/-- The state of the assets: the store and the edits under way. -/
abbrev Desk (J : Type) := Sys ℕ (Db J) Key Request Times Failure ℕ

/-- Any number of actions. -/
abbrev Desk.Steps [DecidableEq J] (P : Platform J) : Desk J → Desk J → Prop :=
  Sys.Steps (body P)

end BindPlane.Assets
