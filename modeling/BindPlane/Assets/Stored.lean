import BindPlane.Assets.Edit

/-!
# What an edit writes

The handlers pass on only what a column can hold (`Edit.next_fits`), so that a value comes back
from the database as it was audited (`audit_stored`).  Hence the audit record of an edit
describes what the edit did to the row: `Describes.of_assign`.
-/

namespace BindPlane.Assets

open Codec

variable {J : Type}

/-! ## Values that a column can hold -/

variable {P : Platform J}

/-- The texts that keep their meaning in a column of a type. -/
def ColumnType.Takes (P : Platform J) : ColumnType → String → Prop
  | .uuid, s => isCanonicalUUID s = true
  | .inet, s => validIPv4 s = true
  | .cidr, s => canonicalIPv4Prefix s = true
  | .jsonb, s => (P.unmarshal s).isSome
  | .timestamp, _ => False
  | _, _ => True

/-- A requested value that its column can hold. -/
def Fits (P : Platform J) (c : Column) : Value J → Prop
  | .nil => True
  | .bool _ => c.type = .boolean
  | .int _ => c.type = .integer
  | .text s => c.type.Takes P s
  | _ => False

/-- All requested values fit. -/
def Next.Fits (P : Platform J) (next : Next J) : Prop :=
  ∀ c v, next c = some v → Assets.Fits P c v

theorem Next.Fits.empty : (Next.empty : Next J).Fits P := fun _ _ h => nomatch h

theorem Next.Fits.set {next : Next J} (h : next.Fits P) {c : Column} {v : Value J}
    (hv : Assets.Fits P c v) : (next.set c v).Fits P := by
  intro c' v' hc
  unfold Next.set at hc
  by_cases hne : c' = c
  · subst hne
    rw [Function.update_self] at hc
    cases hc
    exact hv
  · rw [Function.update_of_ne hne] at hc
    exact h c' v' hc

theorem Next.Fits.supply {next : Next J} (h : next.Fits P) {c : Column} {v : Option (Value J)}
    (hv : ∀ x, v = some x → Assets.Fits P c x) : (next.supply c v).Fits P := by
  cases v with
  | none => exact h
  | some x => exact h.set (hv x rfl)

/-- A text that its handler has checked. -/
theorem Next.Fits.checked {next : Next J} (h : next.Fits P) {c : Column} {s : Option String}
    {p : String → Bool} (hs : s.all p = true) (hp : ∀ x, p x = true → c.type.Takes P x) :
    (next.supply c (s.map .text)).Fits P := by
  cases s with
  | none => exact h
  | some x => exact h.set (hp x hs)

/-- A text for a text column. -/
theorem Next.Fits.free {next : Next J} (h : next.Fits P) {c : Column} {s : Option String}
    (hc : c.type = .text) : (next.supply c (s.map .text)).Fits P := by
  refine h.checked (p := fun _ => true) ?_ fun x _ => ?_
  · cases s <;> rfl
  · rw [hc]
    trivial

theorem Next.Fits.optionalBool {next : Next J} (h : next.Fits P) {c : Column} {b : Option Bool}
    (hc : c.type = .boolean) : (optionalBool next c b).Fits P := by
  refine h.supply fun x hx => ?_
  obtain ⟨b', -, rfl⟩ := Option.map_eq_some_iff.mp hx
  exact hc

theorem Next.Fits.optionalText {next : Next J} (h : next.Fits P) {c : Column} {s : Option String}
    (hs : ∀ x, s = some x → Devices.trimSpace x ≠ "" → c.type.Takes P (Devices.trimSpace x)) :
    (optionalText next c s).Fits P := by
  cases s with
  | none => exact h
  | some x =>
      unfold Assets.optionalText
      dsimp only
      split
      · next hx => exact h.set (hs x rfl hx)
      · exact h.set trivial

/-- A trimmed text for a text column. -/
theorem Next.Fits.trimmed {next : Next J} (h : next.Fits P) {c : Column} {s : Option String}
    (hc : c.type = .text) : (Assets.optionalText next c s).Fits P := by
  refine h.optionalText fun x _ _ => ?_
  rw [hc]
  trivial

theorem Next.Fits.requiredText {next next' : Next J} (h : next.Fits P) {c : Column}
    {s : Option String} (hc : c.type = .text) {r : Refusal}
    (hnext : (requiredText next c s).elim (.error r) Except.ok = .ok next') : next'.Fits P := by
  cases s with
  | none =>
      cases hnext
      exact h
  | some x =>
      unfold Assets.requiredText at hnext
      dsimp only at hnext
      split at hnext
      · cases hnext
        refine h.set ?_
        show c.type.Takes P _
        rw [hc]
        trivial
      · cases hnext

/-- Trimming does nothing to a text without spaces at its ends. -/
theorem trimSpace_eq {s : String} (h : ∀ c ∈ s.toList, isGoSpace c = false) :
    Devices.trimSpace s = s := by
  have hdrop : ∀ l : List Char, (∀ c ∈ l, isGoSpace c = false) → l.dropWhile isGoSpace = l := by
    intro l hl
    cases l with
    | nil => rfl
    | cons c l => rw [List.dropWhile_cons, if_neg (by simp [hl c List.mem_cons_self])]
  unfold Devices.trimSpace
  rw [hdrop _ h, hdrop _ fun c hc => h c (List.mem_reverse.mp hc), List.reverse_reverse]
  exact String.ofList_toList

theorem isGoSpace_eq_false {c : Char} (h : 0x20 < c.toNat) (h' : c.toNat < 0x85) :
    isGoSpace c = false := by
  have hval : c.toNat = c.val.toNat := rfl
  rw [hval] at h h'
  unfold isGoSpace
  rw [Bool.or_eq_false_iff, decide_eq_false_iff_not, Bool.and_eq_false_iff,
    decide_eq_false_iff_not, decide_eq_false_iff_not]
  refine ⟨fun hmem => ?_, Or.inl fun hle => ?_⟩
  · have hmem := List.mem_map_of_mem (f := UInt32.toNat) hmem
    simp only [List.map_cons, List.map_nil, UInt32.reduceToNat, List.mem_cons,
      List.not_mem_nil, or_false] at hmem
    omega
  · have hle := UInt32.le_iff_toNat_le.mp hle
    simp only [UInt32.reduceToNat] at hle
    omega

/-- An identifier has no spaces. -/
theorem trimSpace_uuid {s : String} (h : isCanonicalUUID s = true) : Devices.trimSpace s = s := by
  refine trimSpace_eq fun c hc => ?_
  obtain ⟨i, hi, rfl⟩ := List.getElem_of_mem hc
  have hmem : (s.toList[i], i) ∈ s.toList.zipIdx := by
    rw [List.mem_zipIdx_iff_getElem?]
    exact List.getElem?_eq_getElem hi
  have hchar := List.all_eq_true.mp (Bool.and_eq_true_iff.mp h).2 _ hmem
  generalize s.toList[i] = c at hchar
  dsimp only at hchar
  split at hchar
  · rw [of_decide_eq_true hchar]
    decide
  · rw [Bool.or_eq_true, Bool.and_eq_true, decide_eq_true_eq, decide_eq_true_eq] at hchar
    rcases hchar with hdigit | ⟨hle, hge⟩
    · rw [Char.isDigit, Bool.and_eq_true, decide_eq_true_eq, decide_eq_true_eq] at hdigit
      have h₁ : 48 ≤ c.val.toNat := UInt32.le_iff_toNat_le.mp hdigit.1
      have h₂ : c.val.toNat ≤ 57 := UInt32.le_iff_toNat_le.mp hdigit.2
      refine isGoSpace_eq_false ?_ ?_
      · show 32 < c.val.toNat
        omega
      · show c.val.toNat < 133
        omega
    · have h₁ := UInt32.le_iff_toNat_le.mp (Char.le_def.mp hle)
      have h₂ := UInt32.le_iff_toNat_le.mp (Char.le_def.mp hge)
      simp only [Char.reduceVal, UInt32.reduceToNat] at h₁ h₂
      refine isGoSpace_eq_false ?_ ?_
      · show 32 < c.val.toNat
        omega
      · show c.val.toNat < 133
        omega

/-- A group that a handler has checked. -/
theorem Next.Fits.groupId {next : Next J} (h : next.Fits P) {s : Option String}
    (hs : groupIdOk s = true) : (Assets.optionalText next .groupId s).Fits P := by
  refine h.optionalText fun x hx hne => ?_
  subst hx
  have hx : (x = "" || isCanonicalUUID x) = true := hs
  rcases Bool.or_eq_true _ _ ▸ hx with hempty | huuid
  · rw [of_decide_eq_true hempty] at hne
    exact absurd (by decide) hne
  · show isCanonicalUUID (Devices.trimSpace x) = true
    rw [trimSpace_uuid huuid]
    exact huuid

/-! ## The handlers -/

theorem Except.bind_eq_ok {ε α β : Type} {x : Except ε α} {f : α → Except ε β} {b : β}
    (h : (x >>= f) = .ok b) : ∃ a, x = .ok a ∧ f a = .ok b := by
  cases x with
  | error e => cases h
  | ok a => exact ⟨a, rfl, h⟩

theorem check_eq_ok {c : Bool} {r : Refusal} {u : Unit} (h : check c r = .ok u) : c = true := by
  unfold check at h
  split at h
  · next hc => exact hc
  · cases h

theorem editGroup_fits {input : GroupEdit} {next : Next J} (h : editGroup input = .ok next) :
    next.Fits P := by
  obtain ⟨next₁, hname, h⟩ := Except.bind_eq_ok h
  cases h
  exact (Next.Fits.empty.requiredText rfl hname).trimmed rfl

theorem editSwitch_fits {input : SwitchEdit} {next : Next J} (h : editSwitch input = .ok next) :
    next.Fits P := by
  obtain ⟨next₁, hname, h⟩ := Except.bind_eq_ok h
  obtain ⟨_, hmeta, h⟩ := Except.bind_eq_ok h
  obtain ⟨_, hids, h⟩ := Except.bind_eq_ok h
  have hmeta := check_eq_ok hmeta
  have hids := check_eq_ok hids
  rw [Bool.and_eq_true] at hmeta
  rw [Bool.and_eq_true, Bool.and_eq_true] at hids
  cases h
  have htexts := (((((((Next.Fits.empty (P := P)).requiredText rfl hname).free rfl
    (c := .vendor) (s := input.vendor)).free rfl (c := .protocol) (s := input.protocol)).trimmed
      rfl (c := .model) (s := input.model)).trimmed rfl (c := .site) (s := input.site)).trimmed rfl
      (c := .description) (s := input.description)).groupId hmeta.2
  have hport := htexts.supply (c := .port)
    (v := input.port.map fun p => if 0 < p then .int p else .nil) fun x hx => by
      obtain ⟨p, -, rfl⟩ := Option.map_eq_some_iff.mp hx
      split
      · rfl
      · trivial
  exact (((hport.checked (c := .managementIp) hids.1.1 fun _ => id).checked
    (c := .credentialId) hids.1.2 fun _ => id).checked (c := .commandProfileId) hids.2
      fun _ => id).optionalBool rfl

theorem editNetwork_fits {input : NetworkEdit} {next : Next J}
    (h : editNetwork input = .ok next) : next.Fits P := by
  obtain ⟨_, hswitch, h⟩ := Except.bind_eq_ok h
  obtain ⟨_, hcidr, h⟩ := Except.bind_eq_ok h
  cases h
  have hids := ((Next.Fits.empty (P := P)).checked (c := .switchId) (check_eq_ok hswitch)
    fun _ => id).checked (c := .cidr) (check_eq_ok hcidr) fun _ => id
  exact (((hids.optionalBool rfl).optionalBool rfl).trimmed rfl).trimmed rfl

theorem editRule_fits {input : RuleEdit} {next : Next J}
    (h : editRule P input = .ok next) : next.Fits P := by
  obtain ⟨next₁, hname, h⟩ := Except.bind_eq_ok h
  obtain ⟨_, hmeta, h⟩ := Except.bind_eq_ok h
  obtain ⟨_, _, h⟩ := Except.bind_eq_ok h
  have hmeta := check_eq_ok hmeta
  rw [Bool.and_eq_true] at hmeta
  cases h
  have hname := (Next.Fits.empty (P := P)).requiredText rfl hname
  exact ((((((hname.free rfl).free rfl).free rfl).trimmed rfl).trimmed rfl).groupId
    hmeta.2).optionalBool rfl

theorem editSchedule_fits {now : Instant} {input : ScheduleEdit} {next : Next J}
    (h : editSchedule P now input = .ok next) : next.Fits P := by
  obtain ⟨next₁, hname, h⟩ := Except.bind_eq_ok h
  obtain ⟨_, hmeta, h⟩ := Except.bind_eq_ok h
  obtain ⟨_, _, h⟩ := Except.bind_eq_ok h
  have hmeta := check_eq_ok hmeta
  rw [Bool.and_eq_true] at hmeta
  cases h
  have hname := (Next.Fits.empty (P := P)).requiredText rfl hname
  refine Next.Fits.optionalBool (Next.Fits.supply (((hname.free rfl).free rfl).free rfl) ?_) rfl
  intro x hx
  obtain ⟨scope, hscope, rfl⟩ := Option.map_eq_some_iff.mp hx
  have hgroup := hmeta.2
  rw [hscope] at hgroup
  split
  · next hs =>
      subst hs
      have hany : input.groupId.any isCanonicalUUID = true := by simpa using hgroup
      obtain ⟨g, hg, huuid⟩ := (Option.any_eq_true _ _).mp hany
      rw [hg]
      exact huuid
  · trivial

theorem profileRule_fits {opening : Char} {c : Column} {value : Option String}
    {next next' : Next J} (hn : next.Fits P) (hc : c.type = .jsonb)
    (hrange : ∀ s ∈ value, (P.unmarshal s).isSome)
    (h : profileRule opening c value next = .ok next') : next'.Fits P := by
  unfold profileRule at h
  split at h
  · cases h
    exact hn
  · next text =>
    split at h
    · cases h
      refine hn.set ?_
      show c.type.Takes P _
      rw [hc]
      exact hrange text rfl
    · cases h

/-- The rules and patterns that a profile edit supplies. -/
def ProfileEdit.rules (input : ProfileEdit) : List (Option String) :=
  [input.loginPromptPatterns, input.commandTemplates, input.promptPatterns,
    input.paginationRules, input.parserRules, input.successPatterns, input.errorPatterns]

theorem editProfile_fits {input : ProfileEdit} {next : Next J}
    (hrange : ∀ value ∈ input.rules, ∀ s ∈ value, (P.unmarshal s).isSome)
    (h : editProfile input = .ok next) : next.Fits P := by
  obtain ⟨n₁, hname, h⟩ := Except.bind_eq_ok h
  obtain ⟨n₂, h₂, h⟩ := Except.bind_eq_ok h
  obtain ⟨n₃, h₃, h⟩ := Except.bind_eq_ok h
  obtain ⟨n₄, h₄, h⟩ := Except.bind_eq_ok h
  obtain ⟨n₅, h₅, h⟩ := Except.bind_eq_ok h
  obtain ⟨n₆, h₆, h⟩ := Except.bind_eq_ok h
  obtain ⟨n₇, h₇, h⟩ := Except.bind_eq_ok h
  have hname := ((Next.Fits.empty (P := P)).requiredText rfl hname).optionalBool (c := .isActive)
    (b := input.isActive) rfl
  unfold ProfileEdit.rules at hrange
  simp only [List.forall_mem_cons] at hrange
  obtain ⟨r₁, r₂, r₃, r₄, r₅, r₆, r₇, -⟩ := hrange
  have hlogin := profileRule_fits hname rfl r₁ h₂
  have hcommand := profileRule_fits hlogin rfl r₂ h₃
  have hprompt := profileRule_fits hcommand rfl r₃ h₄
  have hpagination := profileRule_fits hprompt rfl r₄ h₅
  have hparser := profileRule_fits hpagination rfl r₅ h₆
  have hsuccess := profileRule_fits hparser rfl r₆ h₇
  exact profileRule_fits hsuccess rfl r₇ h

theorem sealColumn_fits {sealed : Column → String → Except SealError String} {c : Column}
    {plaintext : String} {next next' : Next J} (hn : next.Fits P) (hc : c.type = .text)
    (h : sealColumn sealed c plaintext next = .ok next') : next'.Fits P := by
  unfold sealColumn at h
  split at h
  · cases h
    exact hn
  · split at h
    · cases h
      refine hn.set ?_
      show c.type.Takes P _
      rw [hc]
      trivial
    · cases h

theorem editCredential_fits {sealed : Column → String → Except SealError String}
    {input : CredentialEdit} {next : Next J} (h : editCredential sealed input = .ok next) :
    next.Fits P := by
  obtain ⟨n₁, hname, h⟩ := Except.bind_eq_ok h
  obtain ⟨n₂, huser, h⟩ := Except.bind_eq_ok h
  obtain ⟨_, _, h⟩ := Except.bind_eq_ok h
  obtain ⟨n₃, hpassword, h⟩ := Except.bind_eq_ok h
  obtain ⟨n₄, hsecret, h⟩ := Except.bind_eq_ok h
  cases h
  have htexts := ((((Next.Fits.empty (P := P)).requiredText rfl hname).requiredText rfl huser).trimmed
    (c := .description) (s := input.description) rfl).optionalBool (c := .isActive)
      (b := input.isActive) rfl
  have hsealed := sealColumn_fits (sealColumn_fits htexts rfl hpassword) rfl hsecret
  split
  · exact hsealed.set trivial
  · exact hsealed

/-- The JSON of an edit can be read: its numbers are in range. -/
def Edit.InRange (P : Platform J) : Edit → Prop
  | .profile input => ∀ value ∈ input.rules, ∀ s ∈ value, (P.unmarshal s).isSome
  | _ => True

/-- **What the handlers pass on fits.** -/
theorem Edit.next_fits {sealed : Column → String → Except SealError String} {now : Instant}
    {edit : Edit} {next : Next J} (hrange : edit.InRange P)
    (h : edit.next P sealed now = .ok next) : next.Fits P := by
  cases edit with
  | credential input => exact editCredential_fits h
  | profile input => exact editProfile_fits hrange h
  | switch input => exact editSwitch_fits h
  | group input => exact editGroup_fits h
  | network input => exact editNetwork_fits h
  | rule input => exact editRule_fits h
  | schedule input => exact editSchedule_fits h

/-! ## Storing and reading back -/

/-- **A stored value is the one that was audited.**

The audit compares a value that has been read with one that has been requested, and the next audit
will read what was stored for the request.  If the two differed, the second record would not begin
where the first one has ended. -/
theorem audit_stored (hP : P.Lawful) {c : Column} {v w : Value J} (hfits : Fits P c v)
    (h : stored P c v = some w) :
    auditValue P w (c.type = .jsonb) = auditValue P v (c.type = .jsonb) := by
  unfold stored at h
  cases v with
  | nil =>
      cases h
      rfl
  | bool b =>
      have hc : c.type = .boolean := hfits
      simp only [hc] at h
      cases h
      rfl
  | int n =>
      have hc : c.type = .integer := hfits
      simp only [hc] at h
      split at h
      · cases h
        rfl
      · cases h
  -- a value of a request is never one of these
  | int64 n => exact absurd hfits (by simp [Fits])
  | json j => exact absurd hfits (by simp [Fits])
  | text s =>
      have htakes : c.type.Takes P s := hfits
      -- the database may store a text in another form; the audit reads both alike
      cases hc : c.type with
      | text =>
          simp only [hc] at h
          split at h
          · cases h
            rfl
          · cases h
      | uuid =>
          rw [hc] at htakes
          simp only [hc, hP.uuid s htakes] at h
          cases h
          rfl
      | inet =>
          rw [hc] at htakes
          simp only [hc, hP.inet s htakes] at h
          cases h
          rfl
      | cidr =>
          rw [hc] at htakes
          simp only [hc, hP.cidr s htakes] at h
          cases h
          rfl
      | jsonb =>
          rw [hc] at htakes
          simp only [hc] at h
          obtain ⟨t, ht, rfl⟩ := Option.map_eq_some_iff.mp h
          obtain ⟨v, hv⟩ := Option.isSome_iff_exists.mp htakes
          simp only [auditValue, decide_true, if_true, hv, hP.jsonb s v t hv ht, Option.getD_some]
      | boolean => simp [hc] at h
      | integer => simp [hc] at h
      | timestamp => simp [hc] at h

/-- A value is stored as null only if null was requested. -/
theorem stored_nil_iff {c : Column} {v w : Value J} (h : stored P c v = some w) :
    w = .nil ↔ v = .nil := by
  unfold stored at h
  cases v with
  | nil =>
      cases h
      exact Iff.rfl
  | bool b => cases hc : c.type <;> simp [hc] at h; subst h; simp
  | int n =>
      cases hc : c.type <;> simp [hc] at h
      obtain ⟨-, rfl⟩ := h
      simp
  | int64 n => cases hc : c.type <;> simp [hc] at h; subst h; simp
  | json j => cases hc : c.type <;> simp [hc] at h
  | text s =>
      cases hc : c.type <;> simp [hc] at h
      · obtain ⟨-, rfl⟩ := h
        simp
      all_goals
        obtain ⟨t, -, rfl⟩ := h
        simp

/-- What `SET` does to the columns that it lists, and to the others. -/
theorem assign_spec {set : List (Column × Value J × Change J)} :
    ∀ {cell cell' : Column → Value J}, (set.map Prod.fst).Nodup →
      assign P set cell = some cell' →
      (∀ s ∈ set, stored P s.1 s.2.1 = some (cell' s.1)) ∧
        ∀ c ∉ set.map Prod.fst, cell' c = cell c := by
  induction set with
  | nil =>
      intro cell cell' _ h
      cases h
      exact ⟨fun s hs => absurd hs List.not_mem_nil, fun _ _ => rfl⟩
  | cons s set ih =>
      intro cell cell' hnodup h
      obtain ⟨hs, hset⟩ := List.nodup_cons.mp hnodup
      unfold assign at h
      rw [List.foldlM_cons] at h
      obtain ⟨cell₁, hcell₁, h⟩ := Option.bind_eq_some_iff.mp h
      obtain ⟨v, hv, rfl⟩ := Option.map_eq_some_iff.mp hcell₁
      obtain ⟨hlisted, hothers⟩ := ih hset h
      refine ⟨?_, ?_⟩
      · intro x hx
        rcases List.mem_cons.mp hx with rfl | hx
        · rw [hothers _ hs, Function.update_self]
          exact hv
        · exact hlisted x hx
      · intro c hc
        rw [List.map_cons, List.mem_cons, not_or] at hc
        rw [hothers c hc.2, Function.update_of_ne hc.1]

/-! ## The audit record of an edit -/

section Describes

variable [DecidableEq J]

theorem auditField_column {row : Row J} {next : Next J} {f : AssetField}
    {s : Column × Value J × Change J} (h : auditField P row next f = some s) :
    s.1 = f.column ∧ next f.column = some s.2.1 := by
  unfold auditField at h
  split at h
  · cases h
  · next value hvalue =>
      dsimp only at h
      split at h
      · cases h
      · split at h
        · cases h
          exact ⟨rfl, hvalue⟩
        · split at h
          · cases h
            exact ⟨rfl, hvalue⟩
          · split at h <;> cases h
            exact ⟨rfl, hvalue⟩

/-- No column is set twice. -/
theorem auditFields_nodup (k : Kind) (row : Row J) (next : Next J) :
    ((auditFields P k row next).map Prod.fst).Nodup := by
  have hsublist : ∀ fields : List AssetField,
      ((fields.filterMap (auditField P row next)).map Prod.fst).Sublist
        (fields.map AssetField.column) := by
    intro fields
    induction fields with
    | nil => exact List.Sublist.refl _
    | cons f fields ih =>
        cases hf : auditField P row next f with
        | none =>
            rw [List.filterMap_cons_none hf]
            exact ih.cons _
        | some s =>
            rw [List.filterMap_cons_some hf, List.map_cons, List.map_cons,
              (auditField_column hf).1]
            exact ih.cons₂ _
  exact k.columns_nodup.sublist (hsublist _)

/-- A column that a field stands for is set by that field's round. -/
theorem mem_auditFields {k : Kind} {row : Row J} {next : Next J} {f : AssetField}
    (hf : f ∈ k.asset.fields) {s : Column × Value J × Change J} (hs : s.1 = f.column) :
    s ∈ auditFields P k row next ↔ auditField P row next f = some s := by
  unfold auditFields
  rw [List.mem_filterMap]
  constructor
  · rintro ⟨f', hf', h⟩
    have hcolumn := (auditField_column h).1
    have hsame := List.inj_on_of_nodup_map k.columns_nodup hf' hf (hcolumn.symm.trans hs)
    rwa [hsame] at h
  · exact fun h => ⟨f, hf, h⟩

/-- **An audit record describes an edit.**  It names a column exactly if the audited values
before and after differ, and gives both; of a secret it says that it was cleared, or that it
has a new value.

A record that names a column although nothing has changed would be as wrong as one that leaves a
change out.  The values in it are those that the audit shows, which for a secret is only whether it
was set. -/
structure Describes (P : Platform J) (k : Kind) (row row' : Row J)
    (changes : List (Column × Change J)) : Prop where
  version : row'.version = row.version + 1
  some_change : changes ≠ []
  once : (changes.map Prod.fst).Nodup
  editable : ∀ x ∈ changes, ∃ f ∈ k.asset.fields, f.column = x.1
  named : ∀ f ∈ k.asset.fields, f.secret = false → ∀ x,
    (f.column, x) ∈ changes ↔
      auditValue P (row.cell f.column) f.json ≠ auditValue P (row'.cell f.column) f.json ∧
        x = .fromTo (auditValue P (row.cell f.column) f.json)
          (auditValue P (row'.cell f.column) f.json)
  secret : ∀ f ∈ k.asset.fields, f.secret = true → ∀ x, (f.column, x) ∈ changes →
    (x = .cleared ∧ row.cell f.column ≠ .nil ∧ row'.cell f.column = .nil) ∨
      (x = .replaced ∧ row'.cell f.column ≠ .nil)
  kept : ∀ c, c ≠ .nextRunAt → c ∉ changes.map Prod.fst → row'.cell c = row.cell c

theorem Kind.column_ne {k : Kind} : ∀ f ∈ k.asset.fields, f.column ≠ .nextRunAt := by
  cases k <;> decide

theorem mem_changes {k : Kind} {row : Row J} {next : Next J} {f : AssetField}
    (hf : f ∈ k.asset.fields) {x : Change J} :
    (f.column, x) ∈ (auditFields P k row next).map (fun s => (s.1, s.2.2)) ↔
      ∃ v, auditField P row next f = some (f.column, v, x) := by
  rw [List.mem_map]
  constructor
  · rintro ⟨⟨c, v, y⟩, hs, heq⟩
    cases heq
    exact ⟨v, (mem_auditFields hf rfl).mp hs⟩
  · rintro ⟨v, h⟩
    exact ⟨_, (mem_auditFields hf rfl).mpr h, rfl⟩

/-- A field whose round sets nothing keeps its column. -/
theorem column_notMem {k : Kind} {row : Row J} {next : Next J} {f : AssetField}
    (hf : f ∈ k.asset.fields) (h : auditField P row next f = none) :
    f.column ∉ (auditFields P k row next).map Prod.fst := by
  intro hmem
  obtain ⟨s, hs, hcolumn⟩ := List.mem_map.mp hmem
  rw [(mem_auditFields hf hcolumn).mp hs] at h
  cases h

/-- **The audit record of an edit describes it**, whatever the hook writes.

The hook of a schedule writes a column that is no field of the audit, and the version is none
either; all other columns that were not to be set keep their values. -/
theorem Describes.of_assign (hP : P.Lawful) {k : Kind} {row : Row J} {next : Next J}
    {cell cell' : Column → Value J} (hfits : next.Fits P)
    (hne : auditFields P k row next ≠ [])
    (h : assign P (auditFields P k row next) row.cell = some cell)
    (hhook : ∀ c, c ≠ .nextRunAt → cell' c = cell c) :
    Describes P k row ⟨row.version + 1, cell'⟩
      ((auditFields P k row next).map fun s => (s.1, s.2.2)) := by
  have hnodup := auditFields_nodup (P := P) k row next
  obtain ⟨hlisted, hothers⟩ := assign_spec hnodup h
  have hcolumns : ((auditFields P k row next).map fun s => (s.1, s.2.2)).map Prod.fst =
      (auditFields P k row next).map Prod.fst := by
    rw [List.map_map]
    rfl
  have hkept : ∀ c, c ≠ .nextRunAt → c ∉ (auditFields P k row next).map Prod.fst →
      cell' c = row.cell c := fun c hc hno => (hhook c hc).trans (hothers c hno)
  have hset : ∀ f ∈ k.asset.fields, ∀ v x, auditField P row next f = some (f.column, v, x) →
      next f.column = some v ∧ stored P f.column v = some (cell' f.column) := by
    intro f hf v x hs
    rw [hhook _ (Kind.column_ne f hf)]
    exact ⟨(auditField_column hs).2, hlisted _ ((mem_auditFields hf rfl).mpr hs)⟩
  refine ⟨rfl, ?_, hcolumns ▸ hnodup, ?_, ?_, ?_, ?_⟩
  · simpa using hne
  · intro x hx
    obtain ⟨s, hs, rfl⟩ := List.mem_map.mp hx
    obtain ⟨f, hf, hround⟩ := List.mem_filterMap.mp hs
    exact ⟨f, hf, (auditField_column hround).1.symm⟩
  · intro f hf hsecret x
    rw [mem_changes hf]
    -- a column that is not set has the same audited value as before
    have hsame : auditField P row next f = none →
        auditValue P (row.cell f.column) f.json = auditValue P (cell' f.column) f.json := by
      intro hnone
      rw [hkept _ (Kind.column_ne f hf) (column_notMem hf hnone)]
    cases hround : auditField P row next f with
    | none =>
        have heq := hsame hround
        constructor
        · rintro ⟨v, hv⟩
          cases hv
        · exact fun hx => absurd heq hx.1
    | some s =>
        obtain ⟨c, v, y⟩ := s
        have hc : c = f.column := (auditField_column hround).1
        subst hc
        obtain ⟨hnext, hstored⟩ := hset f hf v y hround
        have hjson : f.json = decide (f.column.type = .jsonb) := by
          rw [Bool.eq_iff_iff, k.json_iff f hf, decide_eq_true_iff]
        have hnew : auditValue P (cell' f.column) f.json = auditValue P v f.json := by
          rw [hjson]
          exact audit_stored hP (hfits _ _ hnext) hstored
        unfold auditField at hround
        rw [hnext] at hround
        simp only [hsecret, AssetField.read, Bool.false_eq_true, false_and, if_false] at hround
        split at hround
        · cases hround
        · next hdiff =>
            cases hround
            rw [hnew]
            constructor
            · rintro ⟨v', hv'⟩
              cases hv'
              exact ⟨hdiff, rfl⟩
            · rintro ⟨-, rfl⟩
              exact ⟨v, rfl⟩
  · intro f hf hsecret x hx
    obtain ⟨v, hround⟩ := (mem_changes hf).mp hx
    obtain ⟨hnext, hstored⟩ := hset f hf v x hround
    have hnil := stored_nil_iff hstored
    unfold auditField at hround
    rw [hnext] at hround
    simp only [hsecret, AssetField.read, true_and, if_true] at hround
    split at hround
    · cases hround
    · next hnochange =>
        split at hround
        · next hcleared =>
            cases hround
            refine Or.inl ⟨rfl, ?_, hnil.mpr hcleared⟩
            intro hwas
            exact hnochange ⟨hcleared, by simp [hwas]⟩
        · next hreplaced =>
            cases hround
            exact Or.inr ⟨rfl, fun hnow => hreplaced (hnil.mp hnow)⟩
  · intro c hc hno
    exact hkept c hc (hcolumns ▸ hno)

end Describes

end BindPlane.Assets
