import BindPlane.Release.Queue

/-!
# Admin edits of assets

`updateAudited` is one transaction over any asset table: lock the row, refuse a stale
version, compare every supplied column with what is stored, and write the columns that
differ together with the next version and an audit record.  An edit that changes
nothing commits without a write.  Creation and import only insert rows, at version 1.

**Versions.**  The version is what makes an edit optimistic: a page shows a row at some version, and
its edit is refused if the row has a later one by then.  The row is locked before the versions are
compared, so two edits of one version cannot both succeed.  The release path uses the same numbers
to tell whether a job still runs with the equipment it was made for.

**Source.**  What is modelled here is in `internal/release/admin_edit.go`.
-/

namespace BindPlane

open ReadCommitted

/-- An editable column; `secret` values never enter the audit record. -/
structure AssetField where
  column : Column
  json : Bool := false
  secret : Bool := false

/-- What `updateAudited` needs to know of a table. -/
structure AssetKind where
  table : AssetTable
  action : String
  /-- The column that names the object in the audit record. -/
  label : Column
  fields : List AssetField

def credentialFields : AssetKind where
  table := .credentials
  action := "credential.update"
  label := .name
  fields :=
    [{ column := .name }, { column := .username }, { column := .description },
      { column := .isActive }, { column := .encryptedPassword, secret := true },
      { column := .encryptedSecret, secret := true }]

def profileFields : AssetKind where
  table := .commandProfiles
  action := "profile.update"
  label := .name
  fields :=
    [{ column := .name }, { column := .isActive },
      { column := .loginPromptPatterns, json := true },
      { column := .commandTemplates, json := true },
      { column := .promptPatterns, json := true },
      { column := .paginationRules, json := true },
      { column := .successPatterns, json := true },
      { column := .errorPatterns, json := true },
      { column := .parserRules, json := true }]

def switchFields : AssetKind where
  table := .switches
  action := "switch.update"
  label := .name
  fields :=
    [{ column := .name }, { column := .managementIp }, { column := .credentialId },
      { column := .commandProfileId }, { column := .isEnabled }, { column := .vendor },
      { column := .model }, { column := .site }, { column := .description },
      { column := .groupId }, { column := .protocol }, { column := .port }]

def networkFields : AssetKind where
  table := .networks
  action := "network.update"
  label := .cidr
  fields :=
    [{ column := .switchId }, { column := .cidr }, { column := .isEnabled },
      { column := .isValidated }, { column := .vlan }, { column := .description }]

/-- The kinds by table. -/
def assetKind : AssetTable → AssetKind
  | .credentials => credentialFields
  | .commandProfiles => profileFields
  | .switches => switchFields
  | .networks => networkFields

/-- `reflect.DeepEqual` of the two `auditValue`s. -/
def sameValue (P : Platform) (json : Bool) (current value : Cell) : Bool :=
  match json, current, value with
  | true, .json a, .json b => P.sameJson a b
  | _, a, b => a = b

/-- One round of the loop over the fields: the column to set, and what the audit
record says of it. -/
def auditField (P : Platform) (row : Asset) (next : Column → Option Cell)
    (field : AssetField) : Option (Column × Cell × AuditChange) :=
  match next field.column with
  | none => none
  | some value =>
      let current := row.cell field.column
      if field.secret then
        if value = .null && current = .null then none
        else some (field.column, value, if value = .null then .cleared else .replaced)
      else if sameValue P field.json current value then none
      else some (field.column, value, .fromTo current value)

/-- `SET …,version=version+1`. -/
def Asset.edited (set : List (Column × Cell)) (a : Asset) : Asset where
  version := a.version + 1
  cell c := ((set.find? (·.1 = c)).map Prod.snd).getD (a.cell c)

/-- `SELECT version,… WHERE id=$1 FOR UPDATE`. -/
def selectAssetForUpdate (table : AssetTable) (id : Id) : Txn (Option Asset) := do
  let before ← Tx.snapshot
  match before.asset? table id with
  | none => pure none
  | some _ => do
      Tx.acquire (.asset table id)
      let latest ← Tx.snapshot
      pure (latest.asset? table id)

/-- `authorize` and `updateAudited`: the version the row has afterwards.

The comparison with the stored values happens behind the row's lock, so the audit entry speaks of
the values that the update replaces.  A request that changes no value writes nothing, and the
version stays. -/
def updateAudited (P : Platform) (actor : Principal) (table : AssetTable) (id : UuidText)
    (version : ℕ) (next : Column → Option Cell) : Txn ℕ := do
  Tx.require actor.operator (.forbidden "operator role required")
  Tx.require actor.admin (.forbidden "admin role required")
  let id ← Tx.expect id.id? .notFound
  Tx.require (1 ≤ version) (.unprocessable "current version required")
  let found ← selectAssetForUpdate table id
  let row ← Tx.expect found .notFound
  Tx.require (row.version = version) .staleAsset
  let kind := assetKind table
  let edits := kind.fields.filterMap (auditField P row next)
  if edits.isEmpty then pure row.version
  else do
    let set := edits.map fun e => (e.1, e.2.1)
    Tx.update (·.modifyAsset table id (Asset.edited set))
    Tx.update (·.addAssetEvent ⟨actor.userId, actor.email, kind.action, id,
      (row.edited set).cell kind.label, edits.map fun e => (e.1, e.2.2)⟩)
    pure (row.version + 1)

/-- A row to create, as the handlers and the import build it. -/
structure NewAsset where
  table : AssetTable
  action : String
  label : String
  cell : Column → Cell

/-- One `INSERT … RETURNING id` with its audit record. -/
def insertAsset (actor : Principal) (row : NewAsset) : Txn Id := do
  let id ← Tx.nextSerial
  Tx.update (·.putAsset row.table id ⟨1, row.cell⟩)
  Tx.update (·.addAssetEvent ⟨actor.userId, actor.email, row.action, id, .text row.label, []⟩)
  pure id

/-- One inserted row after the other. -/
def insertAssets (actor : Principal) : List NewAsset → Txn (List Id)
  | [] => pure []
  | row :: rest => do
      let id ← insertAsset actor row
      let ids ← insertAssets actor rest
      pure (id :: ids)

/-- `createAudited` (one row) and `importAssets` (the accepted rows of a file). -/
def createAssets (actor : Principal) (rows : List NewAsset) : Txn (List Id) := do
  Tx.require actor.operator (.forbidden "operator role required")
  Tx.require actor.admin (.forbidden "admin role required")
  insertAssets actor rows

end BindPlane
