import BindPlane.Worker.Profile
import Mathlib.Data.List.Perm.Basic

/-!
# The verdict on a release

What `classify_release_result` may conclude from the output of the query behind a release.

The entries of an output are the matches of the profile's entry expression, and those about
the target are `targetEntries`.  An entry is static, dynamic or neither by the names that
the profile lists, static first.  `parseArpObservation_ok` says what the observation holds:
the most telling type of the target's entries, and without one the answer of the missing
patterns.  Everything below is read off this, so the order of the entries enters only
through a permutation.

**Three answers.**  A release has failed if the switch answered the command with an error pattern,
or if the query behind it still finds a static entry of the address; it has succeeded if the query
finds other entries only, or says that there are none; and it is uncertain where the output tells
neither.  The verdict is a function of the outputs alone, and is compared here with what they say
about the address.
-/

namespace BindPlane

variable {py : Python} {ip : IPv4} {output : String} {rules : Json}

/-! ## Patterns -/

/-- Some pattern of the column matches the output. -/
def SomeMatches (py : Python) (output : String) (patterns : Json) : Prop :=
  ∃ items, patterns.iterate = .ok items ∧ ∃ s, .str s ∈ items ∧ py.search s output = some true

/-- Every element of the column is a pattern, and none of them matches the output. -/
def NoneMatches (py : Python) (output : String) (patterns : Json) : Prop :=
  ∃ items, patterns.iterate = .ok items ∧
    ∀ p ∈ items, ∃ s, p = .str s ∧ py.search s output = some false

theorem anyMatch_ok {b : Bool} {items : List Json}
    (h : outputMatchesAny.anyMatch py output items = .ok b) :
    (b = true → ∃ s, .str s ∈ items ∧ py.search s output = some true) ∧
      (b = false → ∀ p ∈ items, ∃ s, p = .str s ∧ py.search s output = some false) := by
  induction items with
  | nil =>
      obtain rfl : false = b := Except.ok.inj h
      exact ⟨nofun, fun _ p hp => absurd hp List.not_mem_nil⟩
  | cons p rest ih =>
      cases p with
      | str s =>
          rw [outputMatchesAny.anyMatch] at h
          match hs : py.search s output with
          | none => rw [hs] at h; cases h
          | some true =>
              rw [hs] at h
              obtain rfl : true = b := Except.ok.inj h
              exact ⟨fun _ => ⟨s, List.mem_cons_self, hs⟩, nofun⟩
          | some false =>
              rw [hs] at h
              obtain ⟨hsome, hnone⟩ := ih h
              refine ⟨fun hb => ?_, fun hb p hp => ?_⟩
              · obtain ⟨t, ht, hmatch⟩ := hsome hb
                exact ⟨t, List.mem_cons_of_mem _ ht, hmatch⟩
              · obtain rfl | hp := List.mem_cons.mp hp
                · exact ⟨s, rfl, hs⟩
                · exact hnone hb p hp
      | _ => cases h

/-- `output_matches_any` says whether some pattern matches. -/
theorem outputMatchesAny_ok {patterns : Json} {b : Bool}
    (h : outputMatchesAny py output patterns = .ok b) :
    (b = true → SomeMatches py output patterns) ∧
      (b = false → NoneMatches py output patterns) := by
  unfold outputMatchesAny at h
  match hi : patterns.iterate with
  | .error e => rw [hi] at h; cases h
  | .ok items =>
      rw [hi] at h
      obtain ⟨hsome, hnone⟩ := anyMatch_ok h
      exact ⟨fun hb => ⟨items, hi, hsome hb⟩, fun hb => ⟨items, hi, hnone hb⟩⟩

/-! ## Entries -/

/-- One match of the entry expression, by its groups. -/
abbrev EntryMatch := List (String × Option String)

namespace EntryMatch

/-- `groups.get(name)`. -/
def group (row : EntryMatch) (name : String) : Option String :=
  ((row.find? (·.1 = name)).map Prod.snd).join

/-- The entry is about the address. -/
def IsAbout (py : Python) (ip : IPv4) (row : EntryMatch) : Prop :=
  py.strip ((row.group "ip").getD "") = ipText ip

instance : DecidablePred (IsAbout py ip) := fun row =>
  inferInstanceAs (Decidable (py.strip ((row.group "ip").getD "") = ipText ip))

/-- The profile lists the entry's type under the key. -/
def Listed (py : Python) (rules : Json) (key : String) (row : EntryMatch) : Prop :=
  ∃ names, lowerValues py rules key = .ok names ∧ py.lower ((row.group "type").getD "") ∈ names

/-- The entry's type is one of the profile's static types. -/
def IsStatic (py : Python) (rules : Json) (row : EntryMatch) : Prop :=
  row.Listed py rules "static_type_values"

/-- The entry's type is one of the profile's dynamic types, and not a static one. -/
def IsDynamic (py : Python) (rules : Json) (row : EntryMatch) : Prop :=
  ¬ row.IsStatic py rules ∧ row.Listed py rules "dynamic_type_values"

end EntryMatch

/-- The matches of the entry expression; `none` is an expression that does not compile. -/
def entryMatches (py : Python) (output : String) (rules : Json) : Option (List EntryMatch) :=
  match rules.get "arp_entry_regex" with
  | .ok (some (.str pattern)) =>
      if py.strip pattern = "" then some [] else py.finditer pattern output
  | _ => some []

/-- The entries for the target, in the order of the output. -/
def targetEntries (py : Python) (ip : IPv4) (output : String) (rules : Json) :
    List EntryMatch :=
  ((entryMatches py output rules).getD []).filter (EntryMatch.IsAbout py ip)

/-- A missing pattern matches the output. -/
def MissingMatches (py : Python) (output : String) (rules : Json) : Prop :=
  ∃ patterns, rules.get "missing_patterns" = .ok (some (.arr patterns)) ∧
    SomeMatches py output (.arr patterns)

theorem entryTypeOf_ok {row : EntryMatch} {t : EntryType}
    (h : entryTypeOf py ((row.group "type").getD "") rules = .ok t) :
    (t = .static ↔ row.IsStatic py rules) ∧ (t = .dynamic ↔ row.IsDynamic py rules) ∧
      (t = .static ∨ t = .dynamic ∨ t = .unknown) := by
  unfold entryTypeOf at h
  match hs : lowerValues py rules "static_type_values" with
  | .error e => rw [hs] at h; cases h
  | .ok statics =>
      match hd : lowerValues py rules "dynamic_type_values" with
      | .error e => rw [hs, hd] at h; cases h
      | .ok dynamics =>
          rw [hs, hd] at h
          have hstatic : row.IsStatic py rules ↔
              py.lower ((row.group "type").getD "") ∈ statics := by
            simp only [EntryMatch.IsStatic, EntryMatch.Listed, hs, Except.ok.injEq,
              exists_eq_left']
          have hdynamic : row.Listed py rules "dynamic_type_values" ↔
              py.lower ((row.group "type").getD "") ∈ dynamics := by
            simp only [EntryMatch.Listed, hd, Except.ok.injEq, exists_eq_left']
          unfold EntryMatch.IsDynamic
          rw [hstatic, hdynamic]
          replace h : (if statics.contains (py.lower ((row.group "type").getD "")) then
              Except.ok EntryType.static
            else if dynamics.contains (py.lower ((row.group "type").getD "")) then
              Except.ok EntryType.dynamic
            else Except.ok EntryType.unknown : Except Exc EntryType) = .ok t := by
            rw [← h]
            show _ = (if _ then _ else _)
            split_ifs <;> rfl
          simp only [List.contains_iff_mem] at h
          split_ifs at h with h₁ h₂ <;> obtain rfl := Except.ok.inj h <;> simp [*]

/-- A match is turned into an observation exactly if it is about the target. -/
theorem targetObservation_ok {row : EntryMatch} {o : Option Observation}
    (h : targetObservation py ip rules row = .ok o) :
    (¬ row.IsAbout py ip ∧ o = none) ∨
      (row.IsAbout py ip ∧ ∃ t, entryTypeOf py ((row.group "type").getD "") rules = .ok t ∧
        o = some ⟨ip, t, row.group "mac"⟩) := by
  have hgroup : ∀ name, row.group name = ((row.find? (·.1 = name)).map Prod.snd).join :=
    fun _ => rfl
  unfold targetObservation at h
  dsimp only at h
  unfold EntryMatch.IsAbout
  have key : ∀ address : String, (row.group "ip").getD "" = address →
      (if py.strip address ≠ ipText ip then (pure none : Except Exc (Option Observation))
        else do
          let entryType ← entryTypeOf py ((row.group "type").getD "") rules
          pure (some ⟨ip, entryType, row.group "mac"⟩)) = .ok o →
      (¬ py.strip ((row.group "ip").getD "") = ipText ip ∧ o = none) ∨
        (py.strip ((row.group "ip").getD "") = ipText ip ∧
          ∃ t, entryTypeOf py ((row.group "type").getD "") rules = .ok t ∧
            o = some ⟨ip, t, row.group "mac"⟩) := by
    rintro address rfl h
    by_cases habout : py.strip ((row.group "ip").getD "") = ipText ip
    · rw [if_neg (not_not_intro habout)] at h
      match ht : entryTypeOf py ((row.group "type").getD "") rules with
      | .error e => rw [ht] at h; cases h
      | .ok t =>
          rw [ht] at h
          exact .inr ⟨habout, t, rfl, (Except.ok.inj h).symm⟩
    · rw [if_pos habout] at h
      exact .inl ⟨habout, (Except.ok.inj h).symm⟩
  match hip : (row.find? (·.1 = "ip")).map Prod.snd with
  | none => rw [hip] at h; exact key "" (by rw [hgroup, hip]; rfl) h
  | some none => rw [hip] at h; cases h
  | some (some s) => rw [hip] at h; exact key s (by rw [hgroup, hip]; rfl) h

/-! ## The observation -/

theorem mapM_eq_ok {α β ε : Type} {f : α → Except ε β} {l : List α} {ys : List β} :
    l.mapM f = .ok ys ↔ List.Forall₂ (fun a b => f a = .ok b) l ys := by
  induction l generalizing ys with
  | nil =>
      rw [List.mapM_nil, List.forall₂_nil_left_iff]
      exact ⟨fun h => (Except.ok.inj h).symm, fun h => congrArg _ h.symm⟩
  | cons a l ih =>
      rw [List.mapM_cons, List.forall₂_cons_left_iff]
      constructor
      · intro h
        match ha : f a, hl : l.mapM f with
        | .error e, _ => rw [ha] at h; cases h
        | .ok b, .error e => rw [ha, hl] at h; cases h
        | .ok b, .ok bs =>
            rw [ha, hl] at h
            exact ⟨b, bs, rfl, ih.mp hl, (Except.ok.inj h).symm⟩
      · rintro ⟨b, bs, hb, hbs, rfl⟩
        rw [hb, ih.mpr hbs]
        rfl

/-- Each element of one list has its partner in the other. -/
theorem exists_related {α β : Type} {R : α → β → Prop} {l : List α} {l' : List β}
    (h : List.Forall₂ R l l') {a : α} (ha : a ∈ l) : ∃ b ∈ l', R a b := by
  induction h with
  | nil => exact absurd ha List.not_mem_nil
  | @cons c b l l' hcb _ ih =>
      obtain rfl | ha := List.mem_cons.mp ha
      · exact ⟨b, List.mem_cons_self, hcb⟩
      · obtain ⟨b', hb', hR⟩ := ih ha
        exact ⟨b', List.mem_cons_of_mem _ hb', hR⟩

/-- The observations of the target's entries among the matches. -/
def observe (py : Python) (ip : IPv4) (rules : Json) (rows : Option (List EntryMatch)) :
    Except Exc (List Observation) := do
  let found ← orRaise rows "CommandProfileError"
  let observed ← found.mapM (targetObservation py ip rules)
  pure observed.reduceOption

/-- What `parse_arp_observation` makes of the observations. -/
def concludeObservation (py : Python) (ip : IPv4) (output : String) (rules : Json)
    (observations : List Observation) : Except Exc Observation :=
  match mostTelling observations with
  | some observation => pure observation
  | none => do
      let missing ← match ← rules.get "missing_patterns" with
        | some (.arr patterns) => outputMatchesAny py output (.arr patterns)
        | _ => pure false
      pure ⟨ip, if missing then .missing else .unknown, none⟩

theorem parseArpObservation_eq :
    parseArpObservation py ip output rules =
      observe py ip rules (entryMatches py output rules) >>=
        concludeObservation py ip output rules := by
  unfold parseArpObservation entryMatches
  cases rules with
  | obj fields =>
      match hf : (Json.obj fields).get "arp_entry_regex" with
      | .error e => cases hf
      | .ok none => rfl
      | .ok (some value) =>
          cases value with
          | str pattern =>
              by_cases hblank : py.strip pattern = ""
              · simp only [bind, Except.bind, if_pos hblank]
                rfl
              · simp only [bind, Except.bind, if_neg hblank, observe]
                cases py.finditer pattern output with
                | none => rfl
                | some rows =>
                    simp only [orRaise]
                    cases rows.mapM (targetObservation py ip (.obj fields)) <;> rfl
          | _ => rfl
  | _ => rfl

/-- There is one observation for each entry of the target, with the entry's type. -/
theorem observe_ok {rows : Option (List EntryMatch)} {observations : List Observation}
    (h : observe py ip rules rows = .ok observations) :
    ∃ found, rows = some found ∧
      List.Forall₂ (fun row o => row.IsAbout py ip ∧
        entryTypeOf py ((row.group "type").getD "") rules = .ok o.entryType)
        (found.filter (EntryMatch.IsAbout py ip)) observations := by
  unfold observe at h
  cases rows with
  | none => cases h
  | some found =>
      simp only [orRaise, bind, Except.bind] at h
      match hm : found.mapM (targetObservation py ip rules) with
      | .error e => rw [hm] at h; cases h
      | .ok observed =>
          rw [hm] at h
          obtain rfl : observed.reduceOption = observations := Except.ok.inj h
          refine ⟨found, rfl, ?_⟩
          clear h
          induction mapM_eq_ok.mp hm with
          | nil => exact .nil
          | @cons row o found observed ho hrest ih =>
              obtain ⟨habout, rfl⟩ | ⟨habout, t, ht, rfl⟩ := targetObservation_ok ho
              · rw [List.filter_cons_of_neg (by simpa using habout)]
                exact ih (mapM_eq_ok.mpr hrest)
              · rw [List.filter_cons_of_pos (by simpa using habout)]
                exact .cons ⟨habout, ht⟩ (ih (mapM_eq_ok.mpr hrest))

/-- The observations follow the matches through a reordering. -/
theorem observe_perm {rows₁ rows₂ : Option (List EntryMatch)} {observations : List Observation}
    (hrows : Option.Rel List.Perm rows₁ rows₂)
    (h : observe py ip rules rows₁ = .ok observations) :
    ∃ observations', observe py ip rules rows₂ = .ok observations' ∧
      observations.Perm observations' := by
  cases hrows with
  | none => cases h
  | @some found₁ found₂ hperm =>
      unfold observe at h ⊢
      simp only [orRaise, bind, Except.bind] at h ⊢
      match hm : found₁.mapM (targetObservation py ip rules) with
      | .error e => rw [hm] at h; cases h
      | .ok observed =>
          rw [hm] at h
          obtain rfl : observed.reduceOption = observations := Except.ok.inj h
          obtain ⟨observed', hm', hperm'⟩ :=
            List.perm_comp_forall₂ hperm.symm (mapM_eq_ok.mp hm)
          rw [mapM_eq_ok.mpr hm']
          exact ⟨_, rfl, (hperm'.filterMap _).symm⟩

/-- The observation told is of the first type that occurs. -/
theorem mostTelling_eq_some {observations : List Observation} {o : Observation}
    (h : mostTelling observations = some o) :
    o ∈ observations ∧
      (o.entryType = .static ∨
        o.entryType = .unknown ∧ (∀ o' ∈ observations, o'.entryType ≠ .static) ∨
        o.entryType = .dynamic ∧
          ∀ o' ∈ observations, o'.entryType ≠ .static ∧ o'.entryType ≠ .unknown) := by
  have hpick : ∀ t, observations.find? (·.entryType = t) = some o →
      o ∈ observations ∧ o.entryType = t :=
    fun t ht => ⟨List.mem_of_find?_eq_some ht, by simpa using List.find?_some ht⟩
  have hnone : ∀ t, observations.find? (·.entryType = t) = none →
      ∀ o' ∈ observations, o'.entryType ≠ t :=
    fun t ht o' ho' => by simpa using List.find?_eq_none.mp ht o' ho'
  unfold mostTelling at h
  simp only [List.findSome?] at h
  split at h
  · rename_i hs
    obtain rfl := Option.some.inj h
    exact ⟨(hpick _ hs).1, .inl (hpick _ hs).2⟩
  · rename_i hs
    split at h
    · rename_i hu
      obtain rfl := Option.some.inj h
      exact ⟨(hpick _ hu).1, .inr (.inl ⟨(hpick _ hu).2, hnone _ hs⟩)⟩
    · rename_i hu
      split at h
      · rename_i hd
        obtain rfl := Option.some.inj h
        exact ⟨(hpick _ hd).1,
          .inr (.inr ⟨(hpick _ hd).2, fun o' ho' => ⟨hnone _ hs o' ho', hnone _ hu o' ho'⟩⟩)⟩
      · cases h

theorem mostTelling_eq_none {observations : List Observation}
    (h : mostTelling observations = none) :
    ∀ o ∈ observations, o.entryType = .missing := by
  intro o ho
  unfold mostTelling at h
  rw [List.findSome?_eq_none_iff] at h
  have hnot : ∀ t ∈ ([.static, .unknown, .dynamic] : List EntryType), o.entryType ≠ t :=
    fun t ht => by simpa using List.find?_eq_none.mp (h t ht) o ho
  match ht : o.entryType with
  | .missing => rfl
  | .static => exact absurd ht (hnot _ (by decide))
  | .unknown => exact absurd ht (hnot _ (by decide))
  | .dynamic => exact absurd ht (hnot _ (by decide))

/-- The type told does not depend on the order. -/
theorem mostTelling_perm {observations observations' : List Observation}
    (h : observations.Perm observations') :
    (mostTelling observations).map (·.entryType) =
      (mostTelling observations').map (·.entryType) := by
  have hfind : ∀ (t : EntryType) (l : List Observation),
      (l.find? (·.entryType = t)).map (·.entryType) =
        if ∃ o ∈ l, o.entryType = t then some t else none := by
    intro t l
    split_ifs with hsome
    · match hf : l.find? (·.entryType = t) with
      | some o =>
          rw [hf, Option.map_some]
          exact congrArg some (by simpa using List.find?_some hf)
      | none =>
          obtain ⟨o, ho, hto⟩ := hsome
          exact absurd hto (by simpa using List.find?_eq_none.mp hf o ho)
    · rw [List.find?_eq_none.mpr fun o ho => by simpa using fun hto => hsome ⟨o, ho, hto⟩]
      rfl
  have hmem : ∀ t : EntryType, (∃ o ∈ observations, o.entryType = t) ↔
      ∃ o ∈ observations', o.entryType = t := fun t => by simp only [h.mem_iff]
  unfold mostTelling
  rw [List.map_findSome?, List.map_findSome?]
  congr 1
  funext t
  show Option.map _ _ = Option.map _ _
  rw [hfind, hfind]
  simp only [hmem]

/-- What the observation of an output was concluded from. -/
theorem parseArpObservation_ok {observation : Observation}
    (h : parseArpObservation py ip output rules = .ok observation) :
    ∃ observations,
      List.Forall₂ (fun row o => row.IsAbout py ip ∧
        entryTypeOf py ((row.group "type").getD "") rules = .ok o.entryType)
        (targetEntries py ip output rules) observations ∧
      concludeObservation py ip output rules observations = .ok observation := by
  rw [parseArpObservation_eq] at h
  match ho : observe py ip rules (entryMatches py output rules) with
  | .error e => rw [ho] at h; cases h
  | .ok observations =>
      rw [ho] at h
      obtain ⟨found, hfound, hall⟩ := observe_ok ho
      refine ⟨observations, ?_, h⟩
      unfold targetEntries
      rw [hfound]
      exact hall

/-- Without an entry to tell, the missing patterns decide. -/
theorem concludeObservation_none {observations : List Observation} {observation : Observation}
    (hnone : mostTelling observations = none)
    (h : concludeObservation py ip output rules observations = .ok observation) :
    (observation.entryType = .missing ∧ MissingMatches py output rules) ∨
      (observation.entryType = .unknown ∧ ¬ MissingMatches py output rules) := by
  unfold concludeObservation at h
  rw [hnone] at h
  dsimp only at h
  -- whichever the verdict on the patterns is, the entry type says it
  have key : ∀ b : Bool, (b = true ↔ MissingMatches py output rules) →
      (pure ⟨ip, if b then .missing else .unknown, none⟩ : Except Exc Observation) =
        .ok observation →
      (observation.entryType = .missing ∧ MissingMatches py output rules) ∨
        (observation.entryType = .unknown ∧ ¬ MissingMatches py output rules) := by
    intro b hb h
    obtain rfl := (Except.ok.inj h).symm
    cases b with
    | true => exact .inl ⟨rfl, hb.mp rfl⟩
    | false => exact .inr ⟨rfl, fun hm => Bool.false_ne_true (hb.mpr hm)⟩
  match hp : rules.get "missing_patterns" with
  | .error e => rw [hp] at h; cases h
  | .ok none =>
      rw [hp] at h
      exact key false ⟨nofun, fun ⟨_, hp', _⟩ => by rw [hp] at hp'; cases hp'⟩ h
  | .ok (some value) =>
      rw [hp] at h
      cases value with
      | arr patterns =>
          match hm : outputMatchesAny py output (.arr patterns) with
          | .error e => simp only [bind, Except.bind, hm] at h; cases h
          | .ok b =>
              simp only [bind, Except.bind, hm] at h
              refine key b ⟨fun hb => ⟨patterns, hp, (outputMatchesAny_ok hm).1 hb⟩, ?_⟩ h
              -- the patterns that match are the ones that were looked at
              rintro ⟨patterns', hp', items, hi, s, hs, hmatch⟩
              cases b with
              | true => rfl
              | false =>
                  obtain rfl : patterns = patterns' := by
                    rw [hp] at hp'
                    injection hp' with hp'
                    injection hp' with hp'
                    injection hp'
                  obtain ⟨items', hi', hnot⟩ := (outputMatchesAny_ok hm).2 rfl
                  obtain rfl : items = items' := Except.ok.inj (hi.symm.trans hi')
                  obtain ⟨s', hs', hmiss⟩ := hnot _ hs
                  obtain rfl : s = s' := Json.str.inj hs'
                  rw [hmatch] at hmiss
                  exact absurd (Option.some.inj hmiss) (by decide)
      | _ => exact key false ⟨nofun, fun ⟨_, hp', _⟩ => by rw [hp] at hp'; cases hp'⟩ h

/-- If nothing is told, there are no entries. -/
theorem no_entries {rows : List EntryMatch} {observations : List Observation}
    (hall : List.Forall₂ (fun row o => row.IsAbout py ip ∧
      entryTypeOf py ((row.group "type").getD "") rules = .ok o.entryType) rows observations)
    (hnone : mostTelling observations = none) : rows = [] := by
  cases hall with
  | nil => rfl
  | cons h _ =>
      have hmissing := mostTelling_eq_none hnone _ List.mem_cons_self
      obtain ⟨-, -, hs | hs | hs⟩ := entryTypeOf_ok h.2 <;> rw [hmissing] at hs <;> cases hs

/-- A static entry of the target is told. -/
theorem parseArpObservation_static {observation : Observation}
    (h : parseArpObservation py ip output rules = .ok observation)
    (hstatic : ∃ row ∈ targetEntries py ip output rules, row.IsStatic py rules) :
    observation.entryType = .static := by
  obtain ⟨observations, hall, hconclude⟩ := parseArpObservation_ok h
  obtain ⟨row, hrow, hs⟩ := hstatic
  obtain ⟨o, ho, -, ht⟩ := exists_related hall hrow
  have hos : o.entryType = .static := (entryTypeOf_ok ht).1.mpr hs
  match hm : mostTelling observations with
  | none =>
      have := mostTelling_eq_none hm o ho
      rw [hos] at this
      cases this
  | some told =>
      unfold concludeObservation at hconclude
      rw [hm] at hconclude
      obtain rfl : told = observation := Except.ok.inj hconclude
      obtain ⟨-, htold | ⟨-, hno⟩ | ⟨-, hno⟩⟩ := mostTelling_eq_some hm
      · exact htold
      · exact absurd hos (hno o ho)
      · exact absurd hos (hno o ho).1

/-- A binding is told to be gone, or only learned, on the word of every entry. -/
theorem parseArpObservation_gone {observation : Observation}
    (h : parseArpObservation py ip output rules = .ok observation)
    (hgone : observation.entryType = .missing ∨ observation.entryType = .dynamic) :
    (∀ row ∈ targetEntries py ip output rules, row.IsDynamic py rules) ∧
      (targetEntries py ip output rules = [] → MissingMatches py output rules) := by
  obtain ⟨observations, hall, hconclude⟩ := parseArpObservation_ok h
  match hm : mostTelling observations with
  | none =>
      have hempty := no_entries hall hm
      refine ⟨by rw [hempty]; exact nofun, fun _ => ?_⟩
      obtain ⟨-, hmatch⟩ | ⟨hunknown, -⟩ := concludeObservation_none hm hconclude
      · exact hmatch
      · rw [hunknown] at hgone
        simp at hgone
  | some told =>
      unfold concludeObservation at hconclude
      rw [hm] at hconclude
      obtain rfl : told = observation := Except.ok.inj hconclude
      obtain ⟨hmem, hcases⟩ := mostTelling_eq_some hm
      have hno : ∀ o ∈ observations, o.entryType ≠ .static ∧ o.entryType ≠ .unknown := by
        obtain ht | ⟨ht, -⟩ | ⟨-, hno⟩ := hcases
        · rw [ht] at hgone; simp at hgone
        · rw [ht] at hgone; simp at hgone
        · exact hno
      refine ⟨fun row hrow => ?_, fun hempty => ?_⟩
      · obtain ⟨o, ho, -, ht⟩ := exists_related hall hrow
        obtain ⟨-, hdynamic, hs | hs | hs⟩ := entryTypeOf_ok ht
        · exact absurd hs (hno o ho).1
        · exact hdynamic.mp hs
        · exact absurd hs (hno o ho).2
      · rw [hempty, List.forall₂_nil_left_iff] at hall
        rw [hall] at hmem
        exact absurd hmem List.not_mem_nil

/-! ## The order of the entries -/

/-- Searching does not use the entry expression. -/
theorem outputMatchesAny_finditer (found : String → String → Option (List EntryMatch))
    (patterns : Json) :
    outputMatchesAny { py with finditer := found } output patterns =
      outputMatchesAny py output patterns := by
  have hany : ∀ items, outputMatchesAny.anyMatch { py with finditer := found } output items =
      outputMatchesAny.anyMatch py output items := by
    intro items
    induction items with
    | nil => rfl
    | cons p rest ih =>
        cases p with
        | str s =>
            rw [outputMatchesAny.anyMatch, outputMatchesAny.anyMatch, ih]
        | _ => rfl
  unfold outputMatchesAny
  simp only [hany]

theorem rel_symm {rows rows' : Option (List EntryMatch)} (h : Option.Rel List.Perm rows rows') :
    Option.Rel List.Perm rows' rows := by
  cases h with
  | some h => exact .some h.symm
  | none => exact .none

/-- Reordered matches of the output are reordered entries for the target. -/
theorem targetEntries_perm {output' : String}
    (h : Option.Rel List.Perm (entryMatches py output rules) (entryMatches py output' rules)) :
    (targetEntries py ip output rules).Perm (targetEntries py ip output' rules) := by
  unfold targetEntries
  generalize entryMatches py output rules = rows, entryMatches py output' rules = rows' at h
  cases h with
  | some h => exact h.filter _
  | none => exact .refl _

/-- A library that finds the same matches in another order reorders the entries. -/
theorem entryMatches_perm {found : String → String → Option (List EntryMatch)}
    (h : ∀ pattern text, Option.Rel List.Perm (py.finditer pattern text) (found pattern text)) :
    Option.Rel List.Perm (entryMatches py output rules)
      (entryMatches { py with finditer := found } output rules) := by
  unfold entryMatches
  match rules.get "arp_entry_regex" with
  | .ok (some (.str pattern)) =>
      by_cases hblank : py.strip pattern = ""
      · simp only [if_pos hblank]
        exact .some (.refl _)
      · simp only [if_neg hblank]
        exact h pattern output
  | .ok (some (.null)) | .ok (some (.bool _)) | .ok (some (.int _)) | .ok (some (.float _))
  | .ok (some (.arr _)) | .ok (some (.obj _)) | .ok none | .error _ => exact .some (.refl _)

/-- Reordered matches give the same entry type. -/
theorem parseArpObservation_perm {py' : Python} {output' : String}
    (found : String → String → Option (List EntryMatch)) (hpy : py' = { py with finditer := found })
    (hrows : Option.Rel List.Perm (entryMatches py output rules) (entryMatches py' output' rules))
    (hsame : targetEntries py ip output rules ≠ [] ∨ output = output')
    {t : EntryType}
    (h : (parseArpObservation py ip output rules).toOption.map (·.entryType) = some t) :
    (parseArpObservation py' ip output' rules).toOption.map (·.entryType) = some t := by
  subst hpy
  match hp : parseArpObservation py ip output rules with
  | .error e => rw [hp] at h; cases h
  | .ok observation =>
      rw [hp] at h
      obtain rfl : observation.entryType = t := Option.some.inj h
      rw [parseArpObservation_eq] at hp ⊢
      match ho : observe py ip rules (entryMatches py output rules) with
      | .error e => rw [ho] at hp; cases hp
      | .ok observations =>
          rw [ho] at hp
          obtain ⟨observations', ho', hperm⟩ := observe_perm hrows ho
          have ho'' : observe { py with finditer := found } ip rules
              (entryMatches { py with finditer := found } output' rules) =
              .ok observations' := ho'
          rw [ho'']
          -- the most telling entry has the same type in any order
          have htypes := mostTelling_perm hperm
          show (concludeObservation _ _ _ _ _).toOption.map _ = _
          replace hp : concludeObservation py ip output rules observations = .ok observation := hp
          unfold concludeObservation at hp ⊢
          match hm : mostTelling observations, hm' : mostTelling observations' with
          | some o, some o' =>
              rw [hm] at hp
              rw [hm, hm'] at htypes
              obtain rfl : o = observation := Except.ok.inj hp
              exact htypes.symm
          | some o, none => rw [hm, hm'] at htypes; cases htypes
          | none, some o => rw [hm, hm'] at htypes; cases htypes
          | none, none =>
              rw [hm] at hp
              -- no entry tells anything: then the output decides, and it is the same
              obtain hne | rfl := hsame
              · refine absurd ?_ hne
                obtain ⟨rows, hrows, hall⟩ := observe_ok ho
                unfold targetEntries
                rw [hrows]
                exact no_entries hall hm
              · simp only [outputMatchesAny_finditer]
                exact congrArg (fun x => x.toOption.map (·.entryType)) hp

/-! ## The verdict -/

/-- The classification of `device_task`, from its two outputs. -/
def releaseVerdict (py : Python) (targetIp : IPv4) (rawRelease rawAfter : String)
    (profile : Profile) : Except Exc ClassifiedReleaseResult := do
  let after ← parseArpObservation py targetIp rawAfter profile.parserRules
  classifyReleaseResult py rawRelease after profile.errorPatterns profile.successPatterns

theorem eq_of_bind_const {α β : Type} {x : Except Exc α} {b c : β}
    (h : (x >>= fun _ => .ok b) = .ok c) : b = c := by
  cases x with
  | error e => cases h
  | ok a => exact Except.ok.inj h

theorem releaseVerdict_ok {rawRelease rawAfter : String} {profile : Profile}
    {r : ClassifiedReleaseResult}
    (h : releaseVerdict py ip rawRelease rawAfter profile = .ok r)
    (hsucceeded : r.status = .succeeded) :
    NoneMatches py rawRelease profile.errorPatterns ∧
      ∃ after, parseArpObservation py ip rawAfter profile.parserRules = .ok after ∧
        (after.entryType = .missing ∨ after.entryType = .dynamic) := by
  unfold releaseVerdict at h
  match hp : parseArpObservation py ip rawAfter profile.parserRules with
  | .error e => rw [hp] at h; cases h
  | .ok after =>
      rw [hp] at h
      replace h : classifyReleaseResult py rawRelease after profile.errorPatterns
          profile.successPatterns = .ok r := h
      unfold classifyReleaseResult at h
      match he : outputMatchesAny py rawRelease profile.errorPatterns with
      | .error e => rw [he] at h; cases h
      | .ok true =>
          rw [he] at h
          obtain rfl := Except.ok.inj h
          cases hsucceeded
      | .ok false =>
          refine ⟨(outputMatchesAny_ok he).2 rfl, after, rfl, ?_⟩
          rw [he] at h
          replace h : (if profile.successPatterns.truthy py then _ else _) =
              (Except.ok r : Except Exc ClassifiedReleaseResult) := h
          match ht : after.entryType with
          | .missing => exact .inl rfl
          | .dynamic => exact .inr rfl
          | .static =>
              rw [ht] at h
              split_ifs at h <;> obtain rfl := eq_of_bind_const h <;> cases hsucceeded
          | .unknown =>
              rw [ht] at h
              split_ifs at h <;> obtain rfl := eq_of_bind_const h <;> cases hsucceeded

/-- A release is called a success only if no error pattern matches its output, every entry
for the target behind it is dynamic, and without an entry a missing pattern matches.  A
static entry for the target is always told.  The entry type is the same for every order of
the entries: for two outputs with the same entries, and for two libraries that find the same
matches.

The verdict is made from two texts by the patterns of a profile that an administrator has written,
with a library of regular expressions that is a parameter.  So the theorem is about what the code
does with the matches: it looks for the most telling type among the entries for the target, and only
where there are none at the missing patterns.  The last part says that the order in which the
library finds the matches plays no role. -/
theorem releaseVerdict_spec (py : Python) (ip : IPv4) (rawRelease rawAfter : String)
    (profile : Profile) :
    (∀ r, releaseVerdict py ip rawRelease rawAfter profile = .ok r → r.status = .succeeded →
      NoneMatches py rawRelease profile.errorPatterns ∧
      (∀ row ∈ targetEntries py ip rawAfter profile.parserRules,
        row.IsDynamic py profile.parserRules) ∧
      ((∃ row ∈ targetEntries py ip rawAfter profile.parserRules,
          row.IsDynamic py profile.parserRules) ∨
        targetEntries py ip rawAfter profile.parserRules = [] ∧
          MissingMatches py rawAfter profile.parserRules)) ∧
    (∀ observation, parseArpObservation py ip rawAfter profile.parserRules = .ok observation →
      (∃ row ∈ targetEntries py ip rawAfter profile.parserRules,
        row.IsStatic py profile.parserRules) →
      observation.entryType = .static) ∧
    (∀ rawAfter', Option.Rel List.Perm (entryMatches py rawAfter profile.parserRules)
        (entryMatches py rawAfter' profile.parserRules) →
      targetEntries py ip rawAfter profile.parserRules ≠ [] →
      (parseArpObservation py ip rawAfter profile.parserRules).toOption.map (·.entryType) =
        (parseArpObservation py ip rawAfter' profile.parserRules).toOption.map
          (·.entryType)) ∧
    (∀ found, (∀ pattern text, Option.Rel List.Perm (py.finditer pattern text)
        (found pattern text)) →
      (parseArpObservation py ip rawAfter profile.parserRules).toOption.map (·.entryType) =
        (parseArpObservation { py with finditer := found } ip rawAfter
          profile.parserRules).toOption.map (·.entryType)) := by
  refine ⟨?_, fun _ => parseArpObservation_static, ?_, ?_⟩
  · intro r h hsucceeded
    obtain ⟨hnone, after, hafter, hgone⟩ := releaseVerdict_ok h hsucceeded
    obtain ⟨hdynamic, hempty⟩ := parseArpObservation_gone hafter hgone
    refine ⟨hnone, hdynamic, ?_⟩
    by_cases hentries : targetEntries py ip rawAfter profile.parserRules = []
    · exact .inr ⟨hentries, hempty hentries⟩
    · obtain ⟨row, hrow⟩ := List.exists_mem_of_ne_nil _ hentries
      exact .inl ⟨row, hrow, hdynamic row hrow⟩
  · intro rawAfter' hrows hne
    have hne' : targetEntries py ip rawAfter' profile.parserRules ≠ [] :=
      fun hempty => hne (hempty ▸ targetEntries_perm hrows).eq_nil
    refine Option.ext fun t => ⟨?_, ?_⟩
    · exact parseArpObservation_perm py.finditer rfl hrows (.inl hne)
    · exact parseArpObservation_perm py.finditer rfl (rel_symm hrows) (.inl hne')
  · intro found hfound
    have hrows : Option.Rel List.Perm (entryMatches py rawAfter profile.parserRules)
        (entryMatches { py with finditer := found } rawAfter profile.parserRules) :=
      entryMatches_perm hfound
    refine Option.ext fun t => ⟨?_, ?_⟩
    · exact parseArpObservation_perm found rfl hrows (.inr rfl)
    · exact parseArpObservation_perm py.finditer rfl (rel_symm hrows) (.inr rfl)

namespace Demo

/-- A library that finds the entries of two outputs. -/
def rowsPython : Python where
  loads _ := .error { name := "JSONDecodeError" }
  search pattern output := some (pattern = output)
  finditer _ output :=
    some (if output = "gone" then [[("ip", some "10.2.1.7"), ("type", some "D")]]
      else if output = "kept" then
        [[("ip", some "10.2.1.7"), ("type", some "D")], [("ip", some "10.2.1.7"), ("type", some "S")]]
      else [])
  lower s := s
  strip s := s
  int _ := .error { name := "TypeError" }
  float _ := .error { name := "TypeError" }
  str _ := ""
  nonzero _ := true
  decrypt _ := .error { name := "ValueError" }

/-- The library that finds the same matches from the end. -/
def reversedPython : Python :=
  { rowsPython with finditer := fun p text => (rowsPython.finditer p text).map List.reverse }

/-- A profile with a static and a dynamic type. -/
def rowsProfile : Profile where
  loginPromptPatterns := .null
  commandTemplates := .null
  promptPatterns := .null
  paginationRules := .null
  successPatterns := .arr []
  errorPatterns := .arr [.str "Error"]
  parserRules := .obj [("arp_entry_regex", .str "row"),
    ("static_type_values", .arr [.str "S"]), ("dynamic_type_values", .arr [.str "D"])]

end Demo

/-- A release whose only entry is dynamic behind it, and one with a static entry behind a
dynamic one, in both orders. -/
theorem releaseVerdict_spec_rows :
    NoneMatches Demo.rowsPython "done" Demo.rowsProfile.errorPatterns ∧
      (∀ observation, parseArpObservation Demo.rowsPython 0x0A020107#32 "kept"
        Demo.rowsProfile.parserRules = .ok observation → observation.entryType = .static) ∧
      (parseArpObservation Demo.reversedPython 0x0A020107#32 "kept"
        Demo.rowsProfile.parserRules).toOption.map (·.entryType) = some .static := by
  have hgone := releaseVerdict_spec Demo.rowsPython 0x0A020107#32 "done" "gone" Demo.rowsProfile
  obtain ⟨-, hstatic, -, horder⟩ :=
    releaseVerdict_spec Demo.rowsPython 0x0A020107#32 "done" "kept" Demo.rowsProfile
  refine ⟨?_, fun observation h => ?_, ?_⟩
  · exact (hgone.1 ⟨.succeeded, "Static binding is not present after release",
      ⟨0x0A020107#32, .dynamic, none⟩, none, by decide⟩ (by rfl) rfl).1
  · refine hstatic observation h ⟨[("ip", some "10.2.1.7"), ("type", some "S")], ?_, ["S"], ?_, ?_⟩
    · decide
    · rfl
    · decide
  · have hreversed : ∀ p text, Option.Rel List.Perm (Demo.rowsPython.finditer p text)
        (Demo.reversedPython.finditer p text) := fun _ _ => .some (List.reverse_perm _).symm
    exact (horder _ hreversed).symm

end BindPlane
