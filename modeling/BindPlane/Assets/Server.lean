import BindPlane.Assets.Edit
import Mathlib.Data.List.Sort

/-!
# The admin API of the credentials

The requests that create and edit credentials, that list the assets and that list the audit
record, one after the other.

A request comes with what it finds around it (`Around`): whether its session authorises it, the
clock, the identifier that the database generates and the nonces that its seals draw.  What it
answers is a `Response`, with the JSON object by its keys.

**Around a request.**  Everything that a handler reads besides its body and the store is in one
record, so that a handler is a function.  The nonces are among it: two runs may draw different ones,
and the ciphertexts are different then.

**Source.**  What is modelled here is in `internal/release/admin.go`,
`internal/release/admin_edit.go` and `internal/release/asset_audit.go`.
-/

namespace BindPlane.Assets

open ReadCommitted Codec

/-! ## Responses -/

/-- A value of a listed asset: profile rules are passed through as the JSON they are. -/
inductive Item (J : Type)
  | plain (v : Value J)
  | raw (s : String)
  deriving DecidableEq

/-- A listed record. -/
structure EventItem (J : Type) where
  id : ℕ
  actorEmail : String
  action : String
  objectId : String
  objectName : Value J
  changes : List (Column × Change J)
  createdAt : Instant
  deriving DecidableEq

inductive Payload (J : Type)
  | detail (d : Detail)
  | created (id name : String)
  | edited (id : String) (version : ℕ)
  | assets (categories : List (String × List (List (String × Item J))))
  | events (events : List (EventItem J))
  deriving DecidableEq

structure Response (J : Type) where
  status : ℕ
  payload : Payload J
  deriving DecidableEq

/-- `fail`. -/
def Refusal.response {J : Type} (r : Refusal) : Response J := ⟨r.status, .detail r.detail⟩

/-! ## The server -/

/-- The store, the next number of a record, and when the records were written. -/
structure Server (J : Type) where
  db : Db J
  seq : ℕ
  createdAt : ℕ → Instant

/-- What the handlers are made of: the key has passed `credentialKey`. -/
structure AdminHandler (J : Type) where
  platform : Platform J
  gcm : AesGcm
  key : Bytes
  size : key.length = 32
  /-- What `ORDER BY` puts first. -/
  precedes : Value J → Value J → Bool

/-- What a request finds around it. -/
structure Around where
  /-- What `a.authorize` makes of the session. -/
  authorized : Except Refusal Actor
  now : Instant
  /-- `gen_random_uuid()`. -/
  newId : String
  nonce : Column → Nonce

variable {J : Type} [DecidableEq J]

omit [DecidableEq J] in
/-- One transaction by itself. -/
def Server.perform {ρ : Type} (s : Server J) (now : Instant) (p : Txn J ρ) :
    Server J × Except Failure ρ :=
  match p.solo (fun _ => true) s.db id s.seq with
  | some (.ok (r, db, seq)) =>
      ({ db, seq, createdAt := fun n => if s.seq ≤ n ∧ n < seq then now else s.createdAt n }, .ok r)
  | some (.error e) => (s, .error e)
  | none => (s, .error .unavailable)

/-! ## New credentials -/

/-- The body of a new credential. -/
structure CredentialInput where
  name : String
  username : String
  password : String
  secret : String

/-- The defaults of `bp_credentials`. -/
def credentialDefaults : Column → Value J
  | .isActive => .bool true
  | _ => .nil

/-- `VALUES ($1,…)`. -/
def insertValues (P : Platform J) (values : List (Column × Value J)) (cell : Column → Value J) :
    Option (Column → Value J) :=
  values.foldlM (fun cell v => (stored P v.1 v.2).map fun w => Function.update cell v.1 w) cell

/-- `createAudited`, of a credential. -/
def createAudited (P : Platform J) (actor : Actor) (action name id : String)
    (values : List (Column × Value J)) : Txn J String := do
  let cell ← Tx.expect (insertValues P values credentialDefaults) .unavailable
  claimEntry .credential (fun _ => .nil) cell
  let s ← Tx.snapshot
  Tx.require ((s.row? .credential id).isNone && Kind.credential.allows s id cell) .conflict
  Tx.update (·.put .credential id ⟨1, cell⟩)
  let n ← Tx.nextSerial
  Tx.update (·.addEvent ⟨n, actor, action, id, .text name, []⟩)
  pure id

/-- A sealed text, or the failure of the handler. -/
def sealText (sealed : Column → String → Except SealError String) (c : Column)
    (plaintext : String) : Except Refusal String :=
  match sealed c plaintext with
  | .ok s => .ok s
  | .error _ => .error ⟨503, .text "encryption unavailable"⟩

/-- A sealed text, or null for an empty one. -/
def sealOptional (sealed : Column → String → Except SealError String) (c : Column)
    (plaintext : String) : Except Refusal (Value J) :=
  if plaintext = "" then .ok .nil else (sealText sealed c plaintext).map .text

/-- What `credential` inserts; `none` is a body that cannot be decoded. -/
def credentialValues (sealed : Column → String → Except SealError String)
    (input : Option CredentialInput) : Except Refusal (CredentialInput × List (Column × Value J)) :=
  let required := unprocessable "credential name, username and password required"
  match input with
  | none => .error required
  | some input => do
      check (Devices.trimSpace input.name ≠ "" && Devices.trimSpace input.username ≠ "" &&
        input.password ≠ "") required
      let password ← sealText sealed .encryptedPassword input.password
      let secret ← sealOptional sealed .encryptedSecret input.secret
      .ok (input, [(.name, .text input.name), (.username, .text input.username),
        (.encryptedPassword, .text password), (.encryptedSecret, secret)])

/-! ## Listed assets -/

/-- What a query selects. -/
inductive Read
  | id
  | version
  | column (c : Column)
  /-- `c IS NOT NULL`. -/
  | given (c : Column)

def Read.value (id : String) (row : Row J) : Read → Value J
  | .id => .text id
  | .version => .int64 row.version
  | .column c => row.cell c
  | .given c => .bool (row.cell c ≠ .nil)

/-- A query of `list`, and the names of its columns. -/
structure Listing where
  category : String
  kind : Kind
  columns : List (String × Read)
  order : Column

/-- Secrets are never listed, only whether an optional privilege secret is stored.

This list is all that the listing of the assets can show. -/
def listings : List Listing :=
  [{ category := "credentials", kind := .credential, order := .name
     columns := [("id", .id), ("name", .column .name), ("username", .column .username),
       ("description", .column .description), ("is_active", .column .isActive),
       ("has_secret", .given .encryptedSecret), ("version", .version)] },
   { category := "profiles", kind := .profile, order := .name
     columns := [("id", .id), ("name", .column .name), ("is_active", .column .isActive),
       ("version", .version), ("login_prompt_patterns", .column .loginPromptPatterns),
       ("command_templates", .column .commandTemplates),
       ("prompt_patterns", .column .promptPatterns),
       ("pagination_rules", .column .paginationRules),
       ("success_patterns", .column .successPatterns),
       ("error_patterns", .column .errorPatterns), ("parser_rules", .column .parserRules)] },
   { category := "switches", kind := .switch, order := .name
     columns := [("id", .id), ("name", .column .name), ("management_ip", .column .managementIp),
       ("credential_id", .column .credentialId),
       ("command_profile_id", .column .commandProfileId), ("is_enabled", .column .isEnabled),
       ("version", .version), ("vendor", .column .vendor), ("model", .column .model),
       ("site", .column .site), ("description", .column .description),
       ("group_id", .column .groupId), ("protocol", .column .protocol),
       ("port", .column .port)] },
   { category := "networks", kind := .network, order := .cidr
     columns := [("id", .id), ("switch_id", .column .switchId), ("cidr", .column .cidr),
       ("is_enabled", .column .isEnabled), ("is_validated", .column .isValidated),
       ("vlan", .column .vlan), ("description", .column .description), ("version", .version)] },
   { category := "groups", kind := .group, order := .name
     columns := [("id", .id), ("name", .column .name), ("description", .column .description),
       ("version", .version)] }]

/-- `jsonColumns`. -/
def Read.json : Read → Bool
  | .column c => profileFields.fields.any fun f => f.column = c && f.json
  | _ => false

/-- One row of a category. -/
def Listing.item (l : Listing) (id : String) (row : Row J) : List (String × Item J) :=
  l.columns.map fun x =>
    match x.2.value id row with
    | .text s => (x.1, if l.category = "profiles" && x.2.json then .raw s else .plain (.text s))
    | v => (x.1, .plain v)

/-- A category, in its order. -/
def Listing.items (l : Listing) (precedes : Value J → Value J → Bool) (d : Db J) :
    List (List (String × Item J)) :=
  (((d.rows l.kind).entries.map fun e => (e.2.cell l.order, l.item e.1 e.2)).insertionSort
    fun x y => precedes x.1 y.1 = true).map Prod.snd

/-- `ORDER BY id DESC LIMIT 200`. -/
def Server.latest (s : Server J) : List (EventItem J) :=
  ((s.db.events.insertionSort fun e e' => e'.id ≤ e.id).take 200).map fun e =>
    ⟨e.id, e.actor.email, e.action, e.objectId, e.objectName, e.changes, s.createdAt e.id⟩

/-! ## Requests -/

/-- A request, with its decoded body where it has one. -/
inductive Call
  | create (input : Option CredentialInput)
  | edit (id : String) (input : Option CredentialEdit)
  | list
  | audit

namespace AdminHandler

variable (a : AdminHandler J)

/-- `a.seal`, with the nonce of the column. -/
def sealed (env : Around) (c : Column) (plaintext : String) : Except SealError String :=
  Api.adminSeal a.gcm a.key (env.nonce c) (utf8 plaintext)

def credential (s : Server J) (env : Around) (actor : Actor) (input : Option CredentialInput) :
    Server J × Response J :=
  match credentialValues (a.sealed env) input with
  | .error r => (s, r.response)
  | .ok (input, values) =>
      match s.perform env.now
        (createAudited a.platform actor "credential.create" input.name env.newId values) with
      | (s', .ok id) => (s', ⟨201, .created id input.name⟩)
      | (s', .error _) => (s', ⟨409, .detail (.text "credential could not be saved")⟩)

def editCredential (s : Server J) (env : Around) (actor : Actor) (id : String)
    (input : Option CredentialEdit) : Server J × Response J :=
  match input with
  | none => (s, (unprocessable "invalid credential").response)
  | some input =>
      match s.perform env.now
        (body a.platform ⟨actor, id, .credential input, a.sealed env⟩ ⟨env.now, env.now⟩) with
      | (s', .ok version) => (s', ⟨200, .edited id version⟩)
      | (s', .error e) => (s', e.refusal.response)

/-- One request. -/
def serve (s : Server J) (env : Around) (call : Call) : Server J × Response J :=
  match env.authorized with
  | .error r => (s, r.response)
  | .ok actor =>
      match call with
      | .create input => a.credential s env actor input
      | .edit id input => a.editCredential s env actor id input
      | .list => (s, ⟨200, .assets (listings.map fun l => (l.category, l.items a.precedes s.db))⟩)
      | .audit => (s, ⟨200, .events s.latest⟩)

/-- One request after the other, and the responses. -/
def run (s : Server J) : List (Around × Call) → Server J × List (Response J)
  | [] => (s, [])
  | (env, call) :: calls =>
      let served := a.serve s env call
      let rest := run served.1 calls
      (rest.1, served.2 :: rest.2)

end AdminHandler

end BindPlane.Assets
