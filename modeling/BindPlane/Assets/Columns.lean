import BindPlane.Assets.Edit
import BindPlane.Release.EditsHeld

/-!
# The two accounts of an edit

`updateAuditedThen` stands in this development twice, because two questions are asked of it.
`Edits` asks what the columns hold afterwards: there a column has the values of its PostgreSQL
type, JSON keeps its exact numbers, and the comparison of what is decoded can lose some of them
(`Edits.Lost`).  `Assets` asks what the audit record says after any number of edits that run at
once: there a column holds what the Go code reads from it, and the edit is a transaction with
its locks.

**One table of fields.**  The fields of both are the same list, up to how a column is named
(`Kind.declared_fields`): an `Assets` field is an `Edits` field whose `read` expression is told
by the type of its column and by whether it is a secret.

**One comparison.**  Over rows that are read alike and requests for the same values, one round
of the loop finds the same column to set, with the same value and the same entry in the audit
record (`auditField_declared`), and so does the loop (`auditFields_declared`).  In particular an
edit is taken for one without changes by the one exactly if it is by the other.

**Scalars.**  A decoded document that is a text is a Go string, and so is a text that cannot be
decoded; `Edits` keeps the two apart.  No rule of a profile is a scalar (`profileRule`), so the
difference does not come up: `Composite` says that it does not.
-/

namespace BindPlane.Assets

open JsonDoc

/-! ## Columns and fields -/

/-- The name of a column in its table. -/
def Column.text : Column → String
  | .name => "name"
  | .username => "username"
  | .description => "description"
  | .isActive => "is_active"
  | .encryptedPassword => "encrypted_password"
  | .encryptedSecret => "encrypted_secret"
  | .loginPromptPatterns => "login_prompt_patterns"
  | .commandTemplates => "command_templates"
  | .promptPatterns => "prompt_patterns"
  | .paginationRules => "pagination_rules"
  | .successPatterns => "success_patterns"
  | .errorPatterns => "error_patterns"
  | .parserRules => "parser_rules"
  | .managementIp => "management_ip"
  | .credentialId => "credential_id"
  | .commandProfileId => "command_profile_id"
  | .isEnabled => "is_enabled"
  | .vendor => "vendor"
  | .model => "model"
  | .site => "site"
  | .groupId => "group_id"
  | .protocol => "protocol"
  | .port => "port"
  | .switchId => "switch_id"
  | .cidr => "cidr"
  | .isValidated => "is_validated"
  | .vlan => "vlan"
  | .pattern => "pattern"
  | .mode => "mode"
  | .severity => "severity"
  | .kind => "kind"
  | .cron => "cron"
  | .scope => "scope"
  | .nextRunAt => "next_run_at"

/-- The `read` expression of a column: `… IS NOT NULL` of a secret, `host(…)` of an address, and
the column itself or its text otherwise. -/
def AssetField.readOf (f : AssetField) : Edits.Read :=
  if f.secret then .present else if f.column.type = .inet then .host else .plain

/-- The field as `Edits` has it. -/
def AssetField.declared (f : AssetField) : Edits.AssetField where
  column := f.column.text
  read := f.readOf
  json := f.json
  secret := f.secret

/-- The kind as `Edits` has it. -/
def Kind.declared : Kind → Edits.AssetKind
  | .credential => Edits.credentialFields
  | .profile => Edits.profileFields
  | .switch => Edits.switchFields
  | .group => Edits.groupFields
  | .network => Edits.networkFields
  | .rule => Edits.ruleFields
  | .schedule => Edits.scheduleFields

/-- **One table of fields**: the actions, the labels and the fields of both are the same, and
there are no other kinds. -/
theorem Kind.declared_fields (k : Kind) :
    k.declared.action = k.asset.action ∧ k.declared.label = k.asset.label.text ∧
      k.declared.fields = k.asset.fields.map AssetField.declared ∧
      k.declared ∈ Edits.assetKinds := by
  cases k <;> exact ⟨rfl, rfl, rfl, by simp [Kind.declared, Edits.assetKinds]⟩

/-! ## Values -/

namespace Value

/-- What `json.Unmarshal` leaves in an `any` for a document: a scalar is itself. -/
def ofDocument : Doc ℤ → Value (Doc ℤ)
  | .null => .nil
  | .bool b => .bool b
  | .string s => .text s
  | t => .json t

/-- A Go value of `Edits`. -/
def ofGo : Edits.GoValue → Value (Doc ℤ)
  | .nil => .nil
  | .string s => .text s
  | .int64 n => .int64 n
  | .bool b => .bool b
  | .document t => ofDocument t

/-- A value of a request. -/
def ofRequested : Edits.Requested → Value (Doc ℤ)
  | .nil => .nil
  | .string s => .text s
  | .int n => .int n
  | .bool b => .bool b

end Value

/-- An entry of the audit record. -/
def Change.ofAudit : Edits.AuditChange → Change (Doc ℤ)
  | .cleared => .cleared
  | .replaced => .replaced
  | .fromTo current requested => .fromTo (.ofGo current) (.ofGo requested)

/-- A document, if the value is one, is an array or an object. -/
def Composite : Edits.GoValue → Prop
  | .document (.array _) | .document (.object _) => True
  | .document _ => False
  | _ => True

/-- Values that are not scalars in disguise are told apart. -/
theorem Value.ofGo_inj {a b : Edits.GoValue} (ha : Composite a) (hb : Composite b) :
    ofGo a = ofGo b ↔ a = b := by
  refine ⟨fun h => ?_, congrArg ofGo⟩
  have hdocument : ∀ t, Composite (.document t) → ofDocument t = .json t := by
    intro t ht
    cases t <;> first | rfl | exact ht.elim
  have hne : ∀ t g, Composite (.document t) → (∀ t', g ≠ .document t') →
      ofDocument t ≠ ofGo g := by
    intro t g ht hg heq
    rw [hdocument t ht] at heq
    cases g with
    | document t' => exact hg t' rfl
    | _ => cases heq
  cases a with
  | document t =>
      cases b with
      | document t' =>
          have hjson : Value.json t = .json t' := by
            rw [← hdocument t ha, ← hdocument t' hb]
            exact h
          rw [Value.json.inj hjson]
      | _ => exact absurd h (hne t _ ha (by intro t' ht; cases ht))
  | _ =>
      cases b with
      | document t' => exact absurd h.symm (hne t' _ hb (by intro t ht; cases ht))
      | _ => cases h <;> rfl

/-! ## The comparison -/

section Comparison

variable {P : Platform (Doc ℤ)} {J : Edits.JsonTexts} {k : Kind} {row : Row (Doc ℤ)}
  {row' : Edits.Row} {next : Next (Doc ℤ)} {next' : String → Option Edits.Requested}

/-- Both have the same `encoding/json`. -/
def Platform.Decodes (P : Platform (Doc ℤ)) (J : Edits.JsonTexts) : Prop :=
  ∀ text, P.unmarshal text = (J.unmarshal text).map Value.ofDocument

/-- **Read alike**: the rows of both hold the same in a field, as the edit reads it; both requests
have the same value for it; and no document among these is a scalar. -/
structure AssetField.Alike (f : AssetField) (J : Edits.JsonTexts) (row : Row (Doc ℤ))
    (row' : Edits.Row) (next : Next (Doc ℤ)) (next' : String → Option Edits.Requested) : Prop where
  secret : f.secret = true → (row.cell f.column = .nil ↔ row'.cells f.column.text = .null)
  cell : f.secret = false →
    row.cell f.column = .ofGo (f.declared.scan (row'.cells f.column.text))
  next : next f.column = (next' f.column.text).map .ofRequested
  stored : Composite
    (Edits.auditStored J f.json (f.declared.scan (row'.cells f.column.text)))
  requested : ∀ value, next' f.column.text = some value →
    Composite (Edits.auditRequested J f.json value)

theorem auditText_declared (hP : P.Decodes J) (json : Bool) (text : String) :
    auditValue P (.text text) json = .ofGo (Edits.auditText J json text) := by
  unfold Edits.auditText
  cases json with
  | false => rfl
  | true =>
      show (P.unmarshal text).getD (.text text) = _
      rw [hP text, if_pos rfl]
      cases J.unmarshal text <;> rfl

/-- `auditValue` of what is stored. -/
theorem auditStored_declared (hP : P.Decodes J) (f : Edits.AssetField) (json : Bool)
    (stored : Edits.Stored) :
    auditValue P (.ofGo (f.scan stored)) json = .ofGo (Edits.auditStored J json (f.scan stored)) := by
  have hscan : ∀ t, f.scan stored ≠ .document t := by
    intro t
    unfold Edits.AssetField.scan
    split <;> (intro h; cases h)
  cases hvalue : f.scan stored with
  | string text => exact auditText_declared hP json text
  | document t => exact absurd hvalue (hscan t)
  | _ => rfl

/-- `auditValue` of what is requested. -/
theorem auditRequested_declared (hP : P.Decodes J) (json : Bool) (value : Edits.Requested) :
    auditValue P (.ofRequested value) json = .ofGo (Edits.auditRequested J json value) := by
  cases value with
  | string text => exact auditText_declared hP json text
  | _ => rfl

/-- **One round of the loop** finds the same in both: nothing to set, or the same value with the
same entry of the audit record. -/
theorem auditField_declared (hP : P.Decodes J) {f : AssetField}
    (h : f.Alike J row row' next next') :
    auditField P row next f = (Edits.editOf J row' next' f.declared).map fun edit =>
      (f.column, .ofRequested edit.value, .ofAudit edit.change) := by
  unfold auditField Edits.editOf
  rw [h.next, show f.declared.column = f.column.text from rfl]
  cases hvalue : next' f.column.text with
  | none => rfl
  | some value =>
      have hnil : Value.ofRequested value = .nil ↔ value = .nil := by
        cases value <;> simp [Value.ofRequested]
      dsimp only [Option.map_some]
      rw [show f.declared.secret = f.secret from rfl, show f.declared.json = f.json from rfl]
      cases hsecret : f.secret with
      | true =>
          have hcurrent : f.read row = .bool false ↔
              f.declared.scan (row'.cells f.column.text) = .bool false := by
            have hread : f.declared.read = .present := if_pos hsecret
            unfold AssetField.read Edits.AssetField.scan
            rw [if_pos hsecret, hread]
            have hcell := h.secret hsecret
            simp [hcell]
          simp only [hnil, hcurrent, true_and, if_true]
          by_cases hclear : value = .nil
          · by_cases hempty : f.declared.scan (row'.cells f.column.text) = .bool false
            · simp [hclear, hempty]
            · simp [hclear, hempty, Change.ofAudit]
          · simp [hclear, Change.ofAudit]
      | false =>
          have hread : f.read row = row.cell f.column := by
            unfold AssetField.read
            rw [hsecret]
            rfl
          have hsame : Value.ofGo (Edits.auditStored J f.json
                (f.declared.scan (row'.cells f.column.text))) =
              .ofGo (Edits.auditRequested J f.json value) ↔
              Edits.auditStored J f.json (f.declared.scan (row'.cells f.column.text)) =
                Edits.auditRequested J f.json value :=
            Value.ofGo_inj h.stored (h.requested value hvalue)
          simp only [Bool.false_eq_true, false_and, if_false, hread, h.cell hsecret,
            auditStored_declared hP, auditRequested_declared hP, hsame]
          split
          · rfl
          · rfl

/-- **The loop** finds the same in both: an edit of an asset sets the same columns, to the same
values, and says the same of them in the audit record. -/
theorem auditFields_declared (hP : P.Decodes J)
    (h : ∀ f ∈ k.asset.fields, f.Alike J row row' next next') :
    (auditFields P k row next).map (fun set => (set.1.text, set.2)) =
      (k.declared.fields.filterMap (Edits.editOf J row' next')).map fun edit =>
        (edit.field.column, .ofRequested edit.value, .ofAudit edit.change) := by
  obtain ⟨-, -, hfields, -⟩ := k.declared_fields
  unfold auditFields
  rw [hfields, List.filterMap_map, List.map_filterMap, List.map_filterMap]
  refine List.filterMap_congr fun f hf => ?_
  rw [auditField_declared hP (h f hf), Option.map_map, Function.comp_apply]
  cases hedit : Edits.editOf J row' next' f.declared with
  | none => rfl
  | some edit =>
      have hcolumn : edit.field.column = f.column.text := by
        rw [(Edits.editOf_some hedit).1]
        rfl
      simp only [Option.map_some, Function.comp_apply, hcolumn]

end Comparison

end BindPlane.Assets
