import BindPlane.Release.EditValues
import Mathlib.Data.List.Nodup

/-!
# What an edit leaves in the columns

**Written columns.**  A column that is written holds what was requested, since PostgreSQL has
stored it (`Row.update_spec`).

**Unwritten columns.**  A column that is left alone was found equal by the comparison of Go values.
For most columns that is equality in the table.  It is not for a document whose numbers differ
behind the decimals that `float64` has, and not for an address that is stored with a mask: `Lost`
says so, and `updateAudited_holds` that there is nothing else.
-/

namespace BindPlane.Edits

open JsonDoc

/-! ## Values that are held -/

/-- Two values of a column are the same: documents may have different texts. -/
def Same (J : JsonTexts) : Stored → Stored → Prop
  | .jsonb t, .jsonb t' => J.jsonb t = J.jsonb t'
  | a, b => a = b

/-- A column holds the value that PostgreSQL stores for a requested one. -/
def Holds (J : JsonTexts) (field : AssetField) (value : Requested) (stored : Stored) : Prop :=
  ∃ s, field.assign J value = some s ∧ Same J s stored

/-- The value of a column is one of its type. -/
def AssetField.Fits (J : JsonTexts) (field : AssetField) : Stored → Prop
  | .jsonb t => field.json = true ∧ J.accepts t = true
  | .inet _ _ => field.json = false ∧ field.read = .host
  | _ => field.json = false ∧ field.read ≠ .host

/-- A requested value that an edit takes for the stored one, although it is another: a document
which agrees with the stored one but for numbers that `float64` rounds to the same (or which
PostgreSQL does not take), or the address of a stored address with a mask.

The two cases have nothing in common but the comparison.  A document is compared as Go decodes it,
and an address as `host` shows it, without its mask; an edit that changes only what these forget is
taken for no edit, and reports success. -/
def Lost (J : JsonTexts) (value : Requested) (stored : Stored) : Prop :=
  match value, stored with
  | .string t, .jsonb s => ∃ a b, J.read s = some a ∧ J.read t = some b ∧
      (∀ x ∈ a.numbers ++ b.numbers, (float64 x).isSome = true) ∧
      a.normal.shape = b.normal.shape ∧
      a.normal.numbers.map JsonTexts.rounded = b.normal.numbers.map JsonTexts.rounded ∧
      (J.accepts t = true → a.normal.numbers ≠ b.normal.numbers)
  | .string t, .inet host mask => t = host ∧ mask ≠ none
  | _, _ => False

/-- How the fields of a kind are declared: a secret is read as whether it is there, and a document
as its text. -/
structure AssetField.Declared (field : AssetField) : Prop where
  secret : field.secret = true → field.json = false ∧ field.read = .present
  plain : field.secret = false → field.read ≠ .present
  json : field.json = true → field.read = .plain

theorem assetKinds_declared {kind : AssetKind} (hkind : kind ∈ assetKinds) :
    (kind.fields.map (·.column)).Nodup ∧ ∀ field ∈ kind.fields, field.Declared := by
  have hall : ∀ kind ∈ assetKinds, (kind.fields.map (·.column)).Nodup ∧ ∀ field ∈ kind.fields,
      (field.secret = true → field.json = false ∧ field.read = .present) ∧
        (field.secret = false → field.read ≠ .present) ∧
        (field.json = true → field.read = .plain) := by decide
  obtain ⟨hnodup, hfields⟩ := hall kind hkind
  refine ⟨hnodup, fun field hfield => ?_⟩
  obtain ⟨hsecret, hplain, hjson⟩ := hfields field hfield
  exact ⟨hsecret, hplain, hjson⟩

theorem Same.refl (J : JsonTexts) (s : Stored) : Same J s s := by
  cases s <;> exact rfl

/-! ## Documents -/

section Documents

variable {J : JsonTexts} {s t : String}

theorem unmarshal_eq_some {document : Doc ℤ} :
    J.unmarshal s = some document ↔ ∃ a, J.read s = some a ∧
      (∀ x ∈ a.numbers, (float64 x).isSome = true) ∧ a.normal.map JsonTexts.rounded = document := by
  unfold JsonTexts.unmarshal
  rw [Option.bind_eq_some_iff]
  constructor
  · rintro ⟨a, hread, h⟩
    split_ifs at h with hall
    exact ⟨a, hread, List.all_eq_true.mp hall, Option.some.inj h⟩
  · rintro ⟨a, hread, hall, rfl⟩
    exact ⟨a, hread, if_pos (List.all_eq_true.mpr hall)⟩

/-- Texts that `auditValue` does not tell apart. -/
theorem auditText_eq : auditText J true s = auditText J true t ↔
    (∃ a b, J.read s = some a ∧ J.read t = some b ∧
        (∀ x ∈ a.numbers ++ b.numbers, (float64 x).isSome = true) ∧
        a.normal.shape = b.normal.shape ∧
        a.normal.numbers.map JsonTexts.rounded = b.normal.numbers.map JsonTexts.rounded) ∨
      J.unmarshal s = none ∧ J.unmarshal t = none ∧ s = t := by
  unfold auditText
  rw [if_pos rfl, if_pos rfl]
  constructor
  · intro h
    cases hs : J.unmarshal s with
    | none =>
        cases ht : J.unmarshal t with
        | none =>
            rw [hs, ht] at h
            exact .inr ⟨rfl, rfl, GoValue.string.inj h⟩
        | some document =>
            rw [hs, ht] at h
            contradiction
    | some document =>
        cases ht : J.unmarshal t with
        | none =>
            rw [hs, ht] at h
            contradiction
        | some document' =>
            rw [hs, ht] at h
            obtain rfl := GoValue.document.inj h
            obtain ⟨a, hreads, halls, ha⟩ := unmarshal_eq_some.mp hs
            obtain ⟨b, hreadt, hallt, hb⟩ := unmarshal_eq_some.mp ht
            obtain ⟨hshape, hnumbers⟩ := (Doc.map_eq_iff _).mp (ha.trans hb.symm)
            refine .inl ⟨a, b, hreads, hreadt, fun x hx => ?_, hshape, hnumbers⟩
            exact (List.mem_append.mp hx).elim (halls x) (hallt x)
  · rintro (⟨a, b, hreads, hreadt, hall, hshape, hnumbers⟩ | ⟨hs, ht, rfl⟩)
    · have hs := unmarshal_eq_some.mpr
        ⟨a, hreads, fun x hx => hall x (List.mem_append_left _ hx), rfl⟩
      have ht := unmarshal_eq_some.mpr
        ⟨b, hreadt, fun x hx => hall x (List.mem_append_right _ hx), rfl⟩
      rw [hs, ht, (Doc.map_eq_iff _).mpr ⟨hshape, hnumbers⟩]
    · rfl

end Documents

/-! ## Columns -/

section Columns

variable {J : JsonTexts} {row : Row} {next : String → Option Requested} {field : AssetField}
  {value : Requested} {stored : Stored}

/-- A text is audited as a document or as itself. -/
theorem auditText_cases (J : JsonTexts) (isJson : Bool) (s : String) :
    (∃ t, auditText J isJson s = .document t) ∨ auditText J isJson s = .string s := by
  unfold auditText
  split_ifs
  · cases J.unmarshal s with
    | some document => exact .inl ⟨document, rfl⟩
    | none => exact .inr rfl
  · exact .inr rfl

/-- Only a text is audited like a text. -/
theorem string_of_auditText {isJson : Bool} {s : String}
    (h : auditText J isJson s = auditRequested J isJson value) : ∃ t, value = .string t := by
  cases value with
  | string t => exact ⟨t, rfl⟩
  | nil | int n | bool b =>
      obtain ⟨document, hs⟩ | hs := auditText_cases J isJson s <;> rw [hs] at h <;> contradiction

/-- Documents that `auditValue` takes for equal: the requested one is stored already unless its
numbers differ, or PostgreSQL does not take it. -/
theorem holds_document (hJ : J.Lawful) {s t : String} (hjson : field.json = true)
    (haccepts : J.accepts s = true) (h : auditText J true s = auditText J true t) :
    Holds J field (.string t) (.jsonb s) ↔ ¬Lost J (.string t) (.jsonb s) := by
  have hassign : Holds J field (.string t) (.jsonb s) ↔
      J.accepts t = true ∧ J.jsonb t = J.jsonb s := by
    unfold Holds AssetField.assign
    dsimp only
    rw [if_pos hjson]
    constructor
    · rintro ⟨stored, hstored, hsame⟩
      split_ifs at hstored with haccepted
      obtain rfl := Option.some.inj hstored
      exact ⟨haccepted, (hJ.stores t haccepted).symm.trans hsame⟩
    · rintro ⟨haccepted, hsame⟩
      exact ⟨_, if_pos haccepted, (hJ.stores t haccepted).trans hsame⟩
  rw [hassign]
  obtain ⟨a, b, hreads, hreadt, hall, hshape, hnumbers⟩ | ⟨hs, -, rfl⟩ := auditText_eq.mp h
  · constructor
    · rintro ⟨haccepted, hsame⟩ ⟨a', b', hreads', hreadt', -, -, -, hne⟩
      obtain rfl := Option.some.inj (hreads.symm.trans hreads')
      obtain rfl := Option.some.inj (hreadt.symm.trans hreadt')
      unfold JsonTexts.jsonb at hsame
      rw [if_pos haccepted, if_pos haccepts, hreads, hreadt] at hsame
      exact hne haccepted (congrArg Doc.numbers (Option.some.inj hsame)).symm
    · intro hlost
      have hboth : J.accepts t = true ∧ a.normal.numbers = b.normal.numbers := by
        by_contra hno
        refine hlost ⟨a, b, hreads, hreadt, hall, hshape, hnumbers, fun haccepted heq => ?_⟩
        exact hno ⟨haccepted, heq⟩
      refine ⟨hboth.1, ?_⟩
      unfold JsonTexts.jsonb
      rw [if_pos hboth.1, if_pos haccepts, hreads, hreadt]
      exact congrArg some (Doc.eq_iff.mpr ⟨hshape, hboth.2⟩).symm
  · refine iff_of_true ⟨haccepts, rfl⟩ ?_
    rintro ⟨a, b, hreads, -, hall, -⟩
    have hsome := unmarshal_eq_some.mpr
      ⟨a, hreads, fun x hx => hall x (List.mem_append_left _ hx), rfl⟩
    rw [hsome] at hs
    contradiction

/-- A value that is taken for the stored one. -/
theorem holds_of_same (hJ : J.Lawful) (hread : field.read ≠ .present)
    (hplain : field.json = true → field.read = .plain) (hfits : field.Fits J stored)
    (hhost : field.read = .host → ∃ s, value = .string s ∧ (parseAddr s).isSome = true)
    (h : auditStored J field.json (field.scan stored) = auditRequested J field.json value) :
    Holds J field value stored ↔ ¬Lost J value stored := by
  unfold AssetField.scan at h
  cases stored with
  -- documents are compared as they decode, which may lose a number
  | jsonb s =>
      obtain ⟨hjson, haccepts⟩ := hfits
      rw [hplain hjson, hjson] at h
      obtain ⟨t, rfl⟩ := string_of_auditText h
      exact holds_document hJ hjson haccepts h
  -- an address is read without its mask, so the mask is lost
  | inet host mask =>
      obtain ⟨hjson, hhostRead⟩ := hfits
      rw [hhostRead, hjson] at h
      obtain ⟨t, rfl, haddr⟩ := hhost hhostRead
      obtain rfl : host = t := GoValue.string.inj h
      have hassign : field.assign J (.string host) = some (.inet host none) := by
        unfold AssetField.assign
        dsimp only
        rw [hjson, if_neg Bool.false_ne_true, if_pos hhostRead, if_pos haddr]
      unfold Holds
      rw [hassign]
      cases mask with
      | none => exact iff_of_true ⟨_, rfl, rfl⟩ fun hlost => hlost.2 rfl
      | some mask =>
          refine iff_of_false ?_ fun hno => hno ⟨rfl, Option.some_ne_none mask⟩
          rintro ⟨_, ⟨⟩, hsame⟩
          exact Option.some_ne_none mask (Stored.inet.inj hsame).2.symm
  -- every other value is read as it is stored
  | null | text s | int n | bool b =>
      obtain ⟨hjson, hnotHost⟩ := hfits
      have hplainRead : field.read = .plain := by
        cases hr : field.read with
        | plain => rfl
        | host => exact absurd hr hnotHost
        | present => exact absurd hr hread
      rw [hplainRead, hjson] at h
      cases value with
      | nil | int m | bool c =>
          first
            | contradiction
            | (cases h; exact iff_of_true ⟨_, rfl, rfl⟩ fun hlost => hlost)
      | string t =>
          first
            | contradiction
            | (cases h
               refine iff_of_true ⟨_, ?_, Same.refl J _⟩ fun hlost => hlost
               unfold AssetField.assign
               dsimp only
               rw [hjson, if_neg Bool.false_ne_true, if_neg hnotHost])

/-- A column that the edit leaves alone. -/
theorem holds_of_unedited (hJ : J.Lawful) (hfield : field.Declared)
    (hfits : field.Fits J (row.cells field.column))
    (hhost : field.read = .host → ∃ s, value = .string s ∧ (parseAddr s).isSome = true)
    (hvalue : next field.column = some value) (h : editOf J row next field = none) :
    Holds J field value (row.cells field.column) ↔ ¬Lost J value (row.cells field.column) := by
  unfold editOf at h
  rw [hvalue] at h
  dsimp only at h
  generalize row.cells field.column = stored at *
  cases hsecret : field.secret with
  | true =>
      obtain ⟨hjson, hread⟩ := hfield.secret hsecret
      rw [hsecret, if_pos rfl] at h
      split_ifs at h with hnil hcurrent
      obtain rfl := hnil
      -- A secret that is not there is not there.
      have hnull : stored = .null := by
        unfold AssetField.scan at hcurrent
        rw [hread] at hcurrent
        simpa using hcurrent
      subst hnull
      exact iff_of_true ⟨.null, rfl, rfl⟩ fun hlost => hlost
  | false =>
      rw [hsecret, if_neg Bool.false_ne_true] at h
      split_ifs at h with hsame
      exact holds_of_same hJ (hfield.plain hsecret) hfield.json hfits hhost hsame

/-- A column that the edit writes was not taken for the stored one. -/
theorem not_lost_of_edited {edit : ColumnEdit} (hfield : field.Declared)
    (hfits : field.Fits J (row.cells field.column)) (hvalue : next field.column = some value)
    (h : editOf J row next field = some edit) : ¬Lost J value (row.cells field.column) := by
  unfold editOf at h
  rw [hvalue] at h
  dsimp only at h
  generalize row.cells field.column = stored at *
  intro hlost
  unfold AssetField.scan at h
  unfold Lost at hlost
  split at hlost
  · rename_i t s
    obtain ⟨a, b, hreads, hreadt, hall, hshape, hnumbers, -⟩ := hlost
    obtain ⟨hjson, -⟩ := hfits
    have hsecret : field.secret = false := by
      by_contra hsecret
      have hnot := (hfield.secret (Bool.eq_true_of_not_eq_false hsecret)).1
      rw [hjson] at hnot
      contradiction
    rw [hsecret, if_neg Bool.false_ne_true, hfield.json hjson, hjson] at h
    have hsame : auditStored J true (.string s) = auditRequested J true (.string t) :=
      auditText_eq.mpr (.inl ⟨a, b, hreads, hreadt, hall, hshape, hnumbers⟩)
    dsimp only at h
    rw [if_pos hsame] at h
    contradiction
  · rename_i t host mask
    obtain ⟨rfl, -⟩ := hlost
    obtain ⟨hjson, hread⟩ := hfits
    have hsecret : field.secret = false := by
      by_contra hsecret
      have hnot := (hfield.secret (Bool.eq_true_of_not_eq_false hsecret)).2
      rw [hread] at hnot
      contradiction
    rw [hsecret, if_neg Bool.false_ne_true, hread, hjson] at h
    have hsame : auditStored J false (.string t) = auditRequested J false (.string t) := rfl
    rw [if_pos hsame] at h
    contradiction
  · exact hlost

theorem editOf_some {edit : ColumnEdit} (h : editOf J row next field = some edit) :
    edit.field = field ∧ next field.column = some edit.value := by
  unfold editOf at h
  cases hvalue : next field.column with
  | none =>
      rw [hvalue] at h
      contradiction
  | some value =>
      rw [hvalue] at h
      dsimp only at h
      split_ifs at h <;> obtain rfl := Option.some.inj h <;> exact ⟨rfl, rfl⟩

end Columns

/-! ## Rows -/

section Rows

variable {J : JsonTexts} {row row' : Row} {edits : List ColumnEdit}

/-- Values for some columns, in order. -/
theorem mapM_assign {cells : List (String × Stored)}
    (h : (edits.mapM fun edit : ColumnEdit =>
      (edit.field.assign J edit.value).map fun s => (edit.field.column, s)) = some cells)
    (hnodup : (edits.map (·.field.column)).Nodup) :
    (∀ edit ∈ edits, ∃ s, edit.field.assign J edit.value = some s ∧
      (cells.find? (·.1 = edit.field.column)).map Prod.snd = some s) ∧
    ∀ column, (∀ edit ∈ edits, edit.field.column ≠ column) →
      cells.find? (·.1 = column) = none := by
  induction edits generalizing cells with
  | nil =>
      obtain rfl := Option.some.inj h
      exact ⟨fun _ hmem => absurd hmem List.not_mem_nil, fun _ _ => rfl⟩
  | cons edit edits ih =>
      rw [List.mapM_cons] at h
      obtain ⟨cell, hcell, h⟩ := Option.bind_eq_some_iff.mp h
      obtain ⟨rest, hrest, h⟩ := Option.bind_eq_some_iff.mp h
      obtain rfl := Option.some.inj h
      obtain ⟨s, hassign, rfl⟩ := Option.map_eq_some_iff.mp hcell
      rw [List.map_cons, List.nodup_cons] at hnodup
      obtain ⟨hheld, hfree⟩ := ih hrest hnodup.2
      constructor
      · intro other hmem
        obtain rfl | hmem := List.mem_cons.mp hmem
        · exact ⟨s, hassign, by rw [List.find?_cons_of_pos (by simp)]; rfl⟩
        · obtain ⟨s', hassign', hfind⟩ := hheld other hmem
          refine ⟨s', hassign', ?_⟩
          rw [List.find?_cons_of_neg ?_]
          · exact hfind
          · intro heq
            refine hnodup.1 (List.mem_map.mpr ⟨other, hmem, ?_⟩)
            exact (of_decide_eq_true heq).symm
      · intro column hne
        rw [List.find?_cons_of_neg ?_]
        · exact hfree column fun other hmem => hne other (List.mem_cons_of_mem edit hmem)
        · intro heq
          exact hne edit List.mem_cons_self (of_decide_eq_true heq)

/-- The written columns hold what was requested, and the others what they held. -/
theorem Row.update_spec (h : row.update J edits = some row')
    (hnodup : (edits.map (·.field.column)).Nodup) :
    (∀ edit ∈ edits, edit.field.assign J edit.value = some (row'.cells edit.field.column)) ∧
    ∀ column, (∀ edit ∈ edits, edit.field.column ≠ column) →
      row'.cells column = row.cells column := by
  unfold Row.update at h
  obtain ⟨cells, hcells, h⟩ := Option.bind_eq_some_iff.mp h
  obtain rfl := Option.some.inj h
  obtain ⟨hheld, hfree⟩ := mapM_assign hcells hnodup
  constructor
  · intro edit hmem
    obtain ⟨s, hassign, hfind⟩ := hheld edit hmem
    dsimp only
    rw [hassign, hfind]
    rfl
  · intro column hne
    dsimp only
    rw [hfree column hne]
    rfl

theorem nodup_columns {fields : List AssetField} {next : String → Option Requested}
    (hnodup : (fields.map (·.column)).Nodup) :
    ((fields.filterMap (editOf J row next)).map (·.field.column)).Nodup := by
  induction fields with
  | nil => exact List.nodup_nil
  | cons field fields ih =>
      rw [List.map_cons, List.nodup_cons] at hnodup
      cases hedit : editOf J row next field with
      | none =>
          rw [List.filterMap_cons_none hedit]
          exact ih hnodup.2
      | some edit =>
          rw [List.filterMap_cons_some hedit, List.map_cons, List.nodup_cons]
          refine ⟨fun hmem => hnodup.1 ?_, ih hnodup.2⟩
          obtain ⟨other, hother, heq⟩ := List.mem_map.mp hmem
          obtain ⟨source, hsource, hsome⟩ := List.mem_filterMap.mp hother
          rw [(editOf_some hsome).1, (editOf_some hedit).1] at heq
          exact List.mem_map.mpr ⟨source, hsource, heq⟩

end Rows

/-! ## Edits -/

section Edits

variable {J : JsonTexts} {env : Env} {actor : String} {kind : AssetKind} {d d' : Db} {id : String}
  {version n : ℕ} {next : String → Option Requested} {row : Row}

/-- The row behind an edit that returns without an error. -/
theorem updateAuditedThen_ok (hrow : d.rows id = some row)
    (h : updateAuditedThen J env actor kind d id version next = (.ok n, d')) :
    (kind.fields.filterMap (editOf J row next) = [] ∧ d'.rows id = some row) ∨
      ∃ row', row.update J (kind.fields.filterMap (editOf J row next)) = some row' ∧
        d'.rows id = some row' := by
  unfold updateAuditedThen at h
  by_cases hbegins : env.begins = true ∧ env.selects = true
  · rw [if_pos hbegins, hrow] at h
    dsimp only at h
    by_cases hversion : row.version ≠ version
    · rw [if_pos hversion] at h
      exact nomatch (Prod.mk.inj h).1
    · rw [if_neg hversion] at h
      by_cases hempty : (kind.fields.filterMap (editOf J row next)).isEmpty = true
      · rw [if_pos hempty] at h
        split_ifs at h with hcommits
        · obtain rfl := (Prod.mk.inj h).2
          exact .inl ⟨List.isEmpty_iff.mp hempty, hrow⟩
        · exact nomatch (Prod.mk.inj h).1
      · rw [if_neg hempty] at h
        cases hupdate : row.update J (kind.fields.filterMap (editOf J row next)) with
        | none =>
            rw [hupdate] at h
            exact nomatch (Prod.mk.inj h).1
        | some row' =>
            rw [hupdate] at h
            dsimp only at h
            split_ifs at h with hall
            · obtain rfl := (Prod.mk.inj h).2
              exact .inr ⟨row', rfl, if_pos rfl⟩
            · exact nomatch (Prod.mk.inj h).1
  · rw [if_neg hbegins] at h
    exact nomatch (Prod.mk.inj h).1

/-- An edit that returns without an error leaves the row of the asset with every supplied column
holding the requested value, exactly if none of the values is lost.

`Lost` does not mention the edit: it compares the value that was asked for with the one in the
table.  A column of the new row is either written, and then PostgreSQL has stored what was asked
for, or left alone, and then the two were equal as values of Go.  What `float64` and the mask of an
address forget is the difference between equal in Go and equal in the table. -/
theorem updateAudited_holds (hJ : J.Lawful) (hkind : kind ∈ assetKinds) (hrow : d.rows id = some row)
    (hfits : ∀ field ∈ kind.fields, field.Fits J (row.cells field.column))
    (hhost : ∀ field ∈ kind.fields, field.read = .host → ∀ value, next field.column = some value →
      ∃ s, value = .string s ∧ (parseAddr s).isSome = true)
    (h : updateAuditedThen J env actor kind d id version next = (.ok n, d')) :
    (∃ row', d'.rows id = some row' ∧ ∀ field ∈ kind.fields, ∀ value,
        next field.column = some value → Holds J field value (row'.cells field.column)) ↔
      ∀ field ∈ kind.fields, ∀ value, next field.column = some value →
        ¬Lost J value (row.cells field.column) := by
  obtain ⟨hnodup, hdeclared⟩ := assetKinds_declared hkind
  -- Every column of the new row is either written or as it was.
  have hcolumn : ∃ row', d'.rows id = some row' ∧ ∀ field ∈ kind.fields,
      (editOf J row next field = none ∧ row'.cells field.column = row.cells field.column) ∨
      ∃ edit, editOf J row next field = some edit ∧
        field.assign J edit.value = some (row'.cells field.column) := by
    obtain ⟨hempty, hsame⟩ | ⟨row', hupdate, hrow'⟩ := updateAuditedThen_ok hrow h
    · exact ⟨row, hsame, fun field hfield => .inl
        ⟨List.filterMap_eq_nil_iff.mp hempty field hfield, rfl⟩⟩
    · have hcolumns : ((kind.fields.filterMap (editOf J row next)).map (·.field.column)).Nodup :=
        nodup_columns hnodup
      obtain ⟨hwritten, hothers⟩ := Row.update_spec hupdate hcolumns
      refine ⟨row', hrow', fun field hfield => ?_⟩
      cases hedit : editOf J row next field with
      | none =>
          refine .inl ⟨rfl, hothers _ fun edit hmem heq => ?_⟩
          obtain ⟨other, hother, hsome⟩ := List.mem_filterMap.mp hmem
          rw [(editOf_some hsome).1] at heq
          rw [List.inj_on_of_nodup_map hnodup hother hfield heq, hedit] at hsome
          contradiction
      | some edit =>
          have hassign := hwritten edit (List.mem_filterMap.mpr ⟨field, hfield, hedit⟩)
          rw [(editOf_some hedit).1] at hassign
          exact .inr ⟨edit, rfl, hassign⟩
  obtain ⟨row', hrow', hcolumn⟩ := hcolumn
  have hiff : ∀ field ∈ kind.fields, ∀ value, next field.column = some value →
      (Holds J field value (row'.cells field.column) ↔ ¬Lost J value (row.cells field.column)) := by
    intro field hfield value hvalue
    obtain ⟨hnone, hcell⟩ | ⟨edit, hedit, hassign⟩ := hcolumn field hfield
    · rw [hcell]
      exact holds_of_unedited hJ (hdeclared field hfield) (hfits field hfield)
        (fun hread => hhost field hfield hread value hvalue) hvalue hnone
    · refine iff_of_true ?_
        (not_lost_of_edited (hdeclared field hfield) (hfits field hfield) hvalue hedit)
      obtain rfl := Option.some.inj (hvalue.symm.trans (editOf_some hedit).2)
      exact ⟨_, hassign, Same.refl J _⟩
  constructor
  · rintro ⟨row'', hrow'', hholds⟩ field hfield value hvalue
    obtain rfl := Option.some.inj (hrow'.symm.trans hrow'')
    exact (hiff field hfield value hvalue).mp (hholds field hfield value hvalue)
  · intro hlost
    exact ⟨row', hrow', fun field hfield value hvalue =>
      (hiff field hfield value hvalue).mpr (hlost field hfield value hvalue)⟩

end Edits

/-! ## A number that `float64` does not have -/

namespace Demo

def pageSize (x : Rat) : Doc Rat := .object (.cons "page_size" (.number x) .nil)

/-- A few texts, with their documents and what PostgreSQL writes for them. -/
def texts : List (String × Doc Rat × String) :=
  [("\x7b\"page_size\": 9007199254740992\x7d", pageSize 9007199254740992,
      "\x7b\"page_size\": 9007199254740992\x7d"),
    ("\x7b\"page_size\":9007199254740993\x7d", pageSize 9007199254740993,
      "\x7b\"page_size\": 9007199254740993\x7d"),
    ("\x7b\"page_size\": 9007199254740993\x7d", pageSize 9007199254740993,
      "\x7b\"page_size\": 9007199254740993\x7d"),
    ("\x7b\"page_size\":24\x7d", pageSize 24, "\x7b\"page_size\": 24\x7d"),
    ("\x7b\"page_size\": 24\x7d", pageSize 24, "\x7b\"page_size\": 24\x7d")]

def json : JsonTexts where
  read text := (texts.find? (·.1 = text)).map (·.2.1)
  accepts text := (texts.find? (·.1 = text)).isSome
  normal text := ((texts.find? (·.1 = text)).map (·.2.2)).getD text

theorem json_lawful : json.Lawful where
  reads text h := by
    show ((texts.find? (·.1 = text)).map (·.2.1)).isSome = true
    rw [Option.isSome_map]
    exact h
  stores text h := by
    have hall : ∀ entry ∈ texts, json.jsonb (json.normal entry.1) = json.jsonb entry.1 := by
      decide +kernel
    obtain ⟨entry, hentry⟩ := Option.isSome_iff_exists.mp h
    have hname : entry.1 = text := by simpa using List.find?_some hentry
    rw [← hname]
    exact hall entry (List.mem_of_find?_eq_some hentry)

def profile : Row where
  version := 1
  cells column :=
    if column = "name" then .text "core"
    else if column = "is_active" then .bool true
    else .jsonb "\x7b\"page_size\": 9007199254740992\x7d"

def db : Db := { rows := fun _ => some profile, events := [] }

def env : Env where
  begins := true
  selects := true
  updates _ := true
  audits := true
  follows := true
  commits := true

/-- A request for one column. -/
def rules (text : String) (column : String) : Option Requested :=
  if column = "parser_rules" then some (.string text) else none

/-- An edit of the rules, with what is in the tables after it. -/
def edit (text : String) : Except Failure ℕ × Db :=
  updateAuditedThen json env "root" profileFields db "p" 1 (rules text)

/-- An edit that returns a version. -/
theorem edit_eq {text : String} {n : ℕ} (h : (edit text).1 = .ok n) :
    updateAuditedThen json env "root" profileFields db "p" 1 (rules text) =
      (.ok n, (edit text).2) := by
  show edit text = _
  generalize edit text = answer at h ⊢
  exact Prod.ext h rfl

theorem profileFields_mem : profileFields ∈ assetKinds :=
  .tail _ (.head _)

def profileRules : AssetField := { column := "parser_rules", json := true }

theorem profileRules_mem : profileRules ∈ profileFields.fields := by
  repeat constructor

theorem profileFields_plain : ∀ field ∈ profileFields.fields, field.read ≠ .host := by decide

theorem profile_fits :
    ∀ field ∈ profileFields.fields, field.Fits json (profile.cells field.column) := by
  have haccepts : json.accepts "\x7b\"page_size\": 9007199254740992\x7d" = true := by decide +kernel
  refine List.forall_mem_cons.mpr ⟨⟨rfl, nofun⟩, List.forall_mem_cons.mpr ⟨⟨rfl, nofun⟩, ?_⟩⟩
  iterate 7 refine List.forall_mem_cons.mpr ⟨⟨rfl, haccepts⟩, ?_⟩
  exact List.forall_mem_nil _

theorem rules_eq_some {text column : String} {value : Requested}
    (h : rules text column = some value) : column = "parser_rules" ∧ value = .string text := by
  unfold rules at h
  split_ifs at h with hcolumn
  exact ⟨hcolumn, (Option.some.inj h).symm⟩

end Demo

/-- Rules with another number are stored. -/
theorem updateAudited_holds_rules :
    ∃ row', (Demo.edit "\x7b\"page_size\":24\x7d").2.rows "p" = some row' ∧
      ∀ field ∈ profileFields.fields, ∀ value,
        Demo.rules "\x7b\"page_size\":24\x7d" field.column = some value →
          Holds Demo.json field value (row'.cells field.column) := by
  have hok : (Demo.edit "\x7b\"page_size\":24\x7d").1 = .ok 2 := by decide +kernel
  refine (updateAudited_holds Demo.json_lawful Demo.profileFields_mem rfl Demo.profile_fits
    (fun field hfield hread => ?_) (Demo.edit_eq hok)).mpr fun field hfield value hvalue hlost => ?_
  · exact absurd hread (Demo.profileFields_plain field hfield)
  · obtain ⟨hparser, rfl⟩ := Demo.rules_eq_some hvalue
    rw [hparser] at hlost
    obtain ⟨a, b, ha, hb, _, _, hrounded, _⟩ := hlost
    have hstored : Demo.json.read "\x7b\"page_size\": 9007199254740992\x7d" =
        some (Demo.pageSize 9007199254740992) := by decide +kernel
    have hrequested : Demo.json.read "\x7b\"page_size\":24\x7d" = some (Demo.pageSize 24) := by
      decide +kernel
    obtain rfl := Option.some.inj (ha.symm.trans hstored)
    obtain rfl := Option.some.inj (hb.symm.trans hrequested)
    revert hrounded
    decide +kernel

/-- The next integer after `2 ^ 53` is taken for it: the edit returns without an error and leaves
the rules as they were. -/
theorem updateAudited_loses : ¬∀ (J : JsonTexts) (env : Env) (actor : String) (kind : AssetKind)
    (d d' : Db) (id : String) (version n : ℕ) (next : String → Option Requested) (row : Row),
    J.Lawful → kind ∈ assetKinds → d.rows id = some row →
    (∀ field ∈ kind.fields, field.Fits J (row.cells field.column)) →
    (∀ field ∈ kind.fields, field.read = .host → ∀ value, next field.column = some value →
      ∃ s, value = .string s ∧ (parseAddr s).isSome = true) →
    updateAuditedThen J env actor kind d id version next = (.ok n, d') →
    ∃ row', d'.rows id = some row' ∧ ∀ field ∈ kind.fields, ∀ value,
      next field.column = some value → Holds J field value (row'.cells field.column) := by
  intro hall
  have hok : (Demo.edit "\x7b\"page_size\":9007199254740993\x7d").1 = .ok 1 := by decide +kernel
  have hsame : ((Demo.edit "\x7b\"page_size\":9007199254740993\x7d").2.rows "p").map
      (·.cells "parser_rules") = some (Demo.profile.cells "parser_rules") := by decide +kernel
  obtain ⟨row', hrow', hholds⟩ := hall Demo.json Demo.env "root" profileFields Demo.db _ "p" 1 1
    (Demo.rules "\x7b\"page_size\":9007199254740993\x7d") Demo.profile Demo.json_lawful
    Demo.profileFields_mem rfl Demo.profile_fits
    (fun field hfield hread => absurd hread (Demo.profileFields_plain field hfield))
    (Demo.edit_eq hok)
  rw [hrow', Option.map_some, Option.some_inj] at hsame
  obtain ⟨stored, hassign, hstored⟩ :=
    hholds Demo.profileRules Demo.profileRules_mem _ rfl
  rw [show row'.cells Demo.profileRules.column = _ from hsame] at hstored
  have hrequested : Demo.profileRules.assign Demo.json
      (.string "\x7b\"page_size\":9007199254740993\x7d") =
        some (.jsonb "\x7b\"page_size\": 9007199254740993\x7d") := by decide +kernel
  obtain rfl := Option.some.inj (hassign.symm.trans hrequested)
  revert hstored
  show ¬Demo.json.jsonb _ = Demo.json.jsonb _
  decide +kernel

end BindPlane.Edits
