import BindPlane.Auth.Permissions

/-!
# What the catalog of permissions accepts, and what its keys depend on

The search for the dependencies of a key is a descent of the relation that the definitions state
(`permissionDependencies_settles`): it returns if the descent is clear, and what it returns is what
is reachable.  A path never holds more keys than there are definitions, which bounds the calls that
a search nests.

**The catalog.**  `newPermissionCatalog_spec` says what the three loops accept, and `dependencies_spec`
what a catalog answers.  Neither depends on the order in which the maps are taken.
-/

namespace BindPlane.Permissions

open Relation RegularExpression Descent

/-- The one permission needs the other directly. -/
def Requires (definitions : List PermissionDefinition) (key dependency : PermissionKey) : Prop :=
  ∃ definition ∈ definitions, definition.key = key ∧ dependency ∈ definition.dependencies

/-! ## Maps -/

namespace Items

variable {items : Items} {key : PermissionKey} {definition : PermissionDefinition}

theorem mem_keys : key ∈ items.keys ↔ key ∈ items.definitions.map (·.key) := List.mem_toFinset

theorem mem_keys_of (h : definition ∈ items.definitions) : definition.key ∈ items.keys :=
  mem_keys.mpr (List.mem_map_of_mem h)

theorem card_keys (items : Items) : items.keys.card = items.definitions.length := by
  unfold keys
  rw [List.toFinset_card_of_nodup items.distinct, List.length_map]

theorem get?_eq_some :
    items.get? key = some definition ↔ definition ∈ items.definitions ∧ definition.key = key := by
  unfold get?
  constructor
  · intro h
    have hkey := List.find?_some h
    exact ⟨List.mem_of_find?_eq_some h, of_decide_eq_true hkey⟩
  · rintro ⟨hmem, hkey⟩
    have hfound : (items.definitions.find? fun d => d.key = key).isSome := by
      rw [List.find?_isSome]
      exact ⟨definition, hmem, decide_eq_true hkey⟩
    obtain ⟨other, hother⟩ := Option.isSome_iff_exists.mp hfound
    have hsome := List.find?_some hother
    have hsame : other = definition :=
      List.inj_on_of_nodup_map items.distinct (List.mem_of_find?_eq_some hother) hmem
        ((of_decide_eq_true hsome).trans hkey.symm)
    rw [hother, hsame]

theorem mem_keys_of_get? (h : items.get? key = some definition) : key ∈ items.keys := by
  obtain ⟨hmem, rfl⟩ := get?_eq_some.mp h
  exact mem_keys_of hmem

theorem get?_eq_none : items.get? key = none ↔ key ∉ items.keys := by
  rw [mem_keys]
  unfold get?
  rw [List.find?_eq_none, List.mem_map]
  constructor
  · rintro h ⟨definition, hmem, hkey⟩
    exact h definition hmem (decide_eq_true hkey)
  · intro h definition hmem hkey
    exact h ⟨definition, hmem, of_decide_eq_true hkey⟩

theorem hasPermission_eq_false : hasPermission items key = false ↔ key ∉ items.keys := by
  unfold hasPermission
  rw [Option.isSome_eq_false_iff, Option.isNone_iff_eq_none, get?_eq_none]

/-- An iteration takes each definition. -/
theorem mem_range {order : MapOrder} {n : ℕ} :
    definition ∈ items.range order n ↔ definition ∈ items.definitions := by
  unfold range
  rw [List.mem_filterMap]
  constructor
  · rintro ⟨key, -, hkey⟩
    exact (get?_eq_some.mp hkey).1
  · intro h
    exact ⟨definition.key, (order.mem_visit ..).mpr (mem_keys_of h), get?_eq_some.mpr ⟨h, rfl⟩⟩

theorem requires_iff (h : items.get? key = some definition) {dependency : PermissionKey} :
    Requires items.definitions key dependency ↔ dependency ∈ definition.dependencies := by
  constructor
  · rintro ⟨other, hmem, hkey, hdependency⟩
    have hother := get?_eq_some.mpr ⟨hmem, hkey⟩
    rw [h] at hother
    rwa [Option.some.inj hother]
  · intro hdependency
    obtain ⟨hmem, hkey⟩ := get?_eq_some.mp h
    exact ⟨definition, hmem, hkey, hdependency⟩

theorem mem_keys_of_requires {dependency : PermissionKey}
    (h : Requires items.definitions key dependency) : key ∈ items.keys := by
  obtain ⟨definition, hmem, rfl, -⟩ := h
  exact mem_keys_of hmem

end Items

theorem mem_addAll {items : List PermissionKey} {result : Finset PermissionKey}
    {key : PermissionKey} : key ∈ addAll result items ↔ key ∈ result ∨ key ∈ items := by
  induction items generalizing result with
  | nil => simp [addAll]
  | cons item rest ih =>
      show key ∈ addAll (insert item result) rest ↔ _
      rw [ih, Finset.mem_insert, List.mem_cons]
      tauto

/-! ## The search is a descent -/

section Search

variable {order : MapOrder} {items : Items} {depth : ℕ} {path : Finset PermissionKey}

/-- Something reachable from the key is not defined. -/
def Dangling (items : Items) (key : PermissionKey) : Prop :=
  ∃ other, ReflTransGen (Requires items.definitions) key other ∧ other ∉ items.keys

/-- What a search from a key comes to, with the keys of `path` on the way to it. -/
def Settles (items : Items) (depth : ℕ) (path : Finset PermissionKey) (key : PermissionKey) :
    Except Stop (Finset PermissionKey × Search) → Prop
  | .ok (result, search) =>
      search.visiting = path ∧ Clear (Requires items.definitions) path key ∧
        ∀ other, other ∈ result ↔ ReflTransGen (Requires items.definitions) key other
  | .error .tooDeep => depth ≤ (items.keys \ path).card
  | .error (.failed _) => ¬ Clear (Requires items.definitions) path key ∨ Dangling items key

/-- What the loop over some dependencies comes to, with `start` found before it. -/
def Collects (items : Items) (depth : ℕ) (path : Finset PermissionKey)
    (dependencies : List PermissionKey) (start : Finset PermissionKey) :
    Except Stop (Finset PermissionKey × Search) → Prop
  | .ok (result, search) =>
      search.visiting = path ∧
        (∀ dependency ∈ dependencies, Clear (Requires items.definitions) path dependency) ∧
        ∀ other, other ∈ result ↔ other ∈ start ∨ ∃ dependency ∈ dependencies,
          ReflTransGen (Requires items.definitions) dependency other
  | .error .tooDeep => depth ≤ (items.keys \ path).card
  | .error (.failed _) => ∃ dependency ∈ dependencies,
      ¬ Clear (Requires items.definitions) path dependency ∨ Dangling items dependency

theorem collectDependencies_collects
    {find : PermissionKey → Search → Except Stop (Finset PermissionKey × Search)}
    (hfind : ∀ key search, search.visiting = path → Settles items depth path key (find key search))
    (dependencies : List PermissionKey) (start : Finset PermissionKey) (search : Search)
    (hpath : search.visiting = path) :
    Collects items depth path dependencies start
      (collectDependencies order find dependencies start search) := by
  induction dependencies generalizing start search with
  | nil => exact ⟨hpath, by simp, by simp⟩
  | cons dependency rest ih =>
      have hfirst := hfind dependency search hpath
      unfold collectDependencies
      generalize find dependency search = found at hfirst
      match found, hfirst with
      | .error .tooDeep, hfirst => exact hfirst
      | .error (.failed _), hfirst => exact ⟨dependency, List.mem_cons_self, hfirst⟩
      | .ok (below, after), ⟨hafter, hclear, hbelow⟩ =>
          dsimp only
          have hrest := ih (addAll start (order.visit after.ranges below))
            { after with ranges := after.ranges + 1 } hafter
          generalize collectDependencies order find rest _ _ = collected at hrest
          match collected, hrest with
          | .error .tooDeep, hrest => exact hrest
          | .error (.failed _), ⟨other, hmem, hother⟩ =>
              exact ⟨other, List.mem_cons_of_mem _ hmem, hother⟩
          | .ok (result, last), ⟨hlast, hall, hresult⟩ =>
              refine ⟨hlast, List.forall_mem_cons.mpr ⟨hclear, hall⟩, fun other => ?_⟩
              rw [hresult, mem_addAll, order.mem_visit, hbelow, List.exists_mem_cons_iff, or_assoc]

/-- **The search is a descent** along the keys on the way.

The statement covers both ends of a search.  It returns all that is reachable if the descent is
clear, and it fails if not; with enough calls to nest there is no third case. -/
theorem permissionDependencies_settles (depth : ℕ) (key : PermissionKey) (search : Search)
    (hpath : search.visiting = path) :
    Settles items depth path key (permissionDependencies order items depth key search) := by
  induction depth generalizing path key search with
  | zero => exact Nat.zero_le _
  | succ depth ih =>
      unfold permissionDependencies
      match hget : items.get? key with
      | none => exact .inr ⟨key, .refl, Items.get?_eq_none.mp hget⟩
      | some definition =>
          dsimp only
          by_cases hmem : key ∈ search.visiting
          · rw [if_pos hmem]
            exact .inl fun hclear => hclear.off (hpath ▸ hmem)
          · rw [if_neg hmem]
            have hstep : ∀ other, Requires items.definitions key other ↔
                other ∈ definition.dependencies := fun other => Items.requires_iff hget
            have hless := card_off_insert (Items.mem_keys_of_get? hget) (hpath ▸ hmem)
            have hloop := @collectDependencies_collects order items depth (insert key path) _
              (fun other search => ih other search) definition.dependencies {key}
              { search with visiting := insert key search.visiting } (congrArg (insert key) hpath)
            generalize collectDependencies order _ _ _ _ = collected at hloop
            match collected, hloop with
            | .error .tooDeep, hdeep =>
                show depth + 1 ≤ _
                have hbelow : depth ≤ (items.keys \ insert key path).card := hdeep
                omega
            | .error (.failed _), ⟨other, hother, hcase⟩ =>
                have hreach := (hstep other).mpr hother
                rcases hcase with hmeets | ⟨last, hlast, hundefined⟩
                · exact .inl fun hclear => hmeets (hclear.step hreach)
                · exact .inr ⟨last, hlast.head hreach, hundefined⟩
            | .ok (result, after), ⟨hafter, hclear, hresult⟩ =>
                refine ⟨?_, .intro (hpath ▸ hmem) fun other h => hclear other ((hstep other).mp h),
                  fun other => ?_⟩
                · show after.visiting.erase key = path
                  rw [hafter]
                  exact Finset.erase_insert (hpath ▸ hmem)
                · rw [hresult, Finset.mem_singleton, ReflTransGen.cases_head_iff, eq_comm]
                  simp only [hstep]

/-- It is never too deep where more calls may be nested than there are keys off the path. -/
theorem permissionDependencies_ne_tooDeep {key : PermissionKey} {search : Search}
    (hdepth : items.definitions.length < depth) :
    permissionDependencies order items depth key search ≠ .error .tooDeep := by
  intro heq
  have hsettles := @permissionDependencies_settles order items _ depth key search rfl
  rw [heq] at hsettles
  have hbound : depth ≤ (items.keys \ search.visiting).card := hsettles
  have hsubset : items.keys \ search.visiting ⊆ items.keys := Finset.sdiff_subset
  have hcard := Finset.card_le_card hsubset
  rw [items.card_keys] at hcard
  omega

/-! ## More calls than needed -/

theorem collectDependencies_deeper
    {find more : PermissionKey → Search → Except Stop (Finset PermissionKey × Search)}
    (hmore : ∀ key search, find key search ≠ .error .tooDeep → more key search = find key search)
    {dependencies : List PermissionKey} {start : Finset PermissionKey} {search : Search}
    (h : collectDependencies order find dependencies start search ≠ .error .tooDeep) :
    collectDependencies order more dependencies start search =
      collectDependencies order find dependencies start search := by
  induction dependencies generalizing start search with
  | nil => rfl
  | cons dependency rest ih =>
      unfold collectDependencies at h ⊢
      have hfound : find dependency search ≠ .error .tooDeep := by
        intro heq
        rw [heq] at h
        exact h rfl
      rw [hmore dependency search hfound]
      generalize find dependency search = found at h
      match found, h with
      | .error _, _ => rfl
      | .ok _, h => exact ih h

/-- A search that may nest more calls than it needs comes to the same. -/
theorem permissionDependencies_deeper {key : PermissionKey} {search : Search}
    (h : permissionDependencies order items depth key search ≠ .error .tooDeep) :
    permissionDependencies order items (depth + 1) key search =
      permissionDependencies order items depth key search := by
  induction depth generalizing key search with
  | zero => exact absurd rfl h
  | succ depth ih =>
      unfold permissionDependencies at h ⊢
      match hget : items.get? key with
      | none => rfl
      | some definition =>
          rw [hget] at h
          dsimp only at h ⊢
          by_cases hmem : key ∈ search.visiting
          · rw [if_pos hmem, if_pos hmem]
          · rw [if_neg hmem] at h ⊢
            rw [if_neg hmem, collectDependencies_deeper fun other search => ih]
            intro heq
            rw [heq] at h
            exact h rfl

end Search

/-! ## The three loops -/

/-- A definition that the first loop takes. -/
structure WellFormed (definition : PermissionDefinition) : Prop where
  key : definition.key.toList ∈ permissionKeyPattern.matches'
  resource : definition.resource ≠ ""
  action : definition.action ≠ ""
  labelKey : definition.labelKey ≠ ""

theorem wellFormed_iff (definition : PermissionDefinition) :
    WellFormed definition ↔ ¬ (permissionKeyPattern.rmatch definition.key.toList = false ∨
      definition.resource = "" ∨ definition.action = "" ∨ definition.labelKey = "") := by
  rw [← Bool.not_eq_true, rmatch_iff_matches']
  constructor
  · rintro ⟨hkey, hresource, haction, hlabel⟩
    tauto
  · intro h
    constructor <;> tauto

theorem addDefinitions_ok {items added : Items} {definitions : List PermissionDefinition}
    (h : addDefinitions items definitions = .ok added) :
    added.definitions = items.definitions ++ definitions ∧
      ∀ definition ∈ definitions, WellFormed definition := by
  induction definitions generalizing items with
  | nil =>
      cases h
      simp
  | cons definition rest ih =>
      unfold addDefinitions at h
      split_ifs at h with hform hkey
      obtain ⟨hadded, hrest⟩ := ih h
      refine ⟨?_, List.forall_mem_cons.mpr ⟨(wellFormed_iff definition).mpr hform, hrest⟩⟩
      rw [hadded]
      exact List.append_assoc items.definitions [definition] rest

theorem addDefinitions_of {items : Items} {definitions : List PermissionDefinition}
    (hform : ∀ definition ∈ definitions, WellFormed definition)
    (hdistinct : ((items.definitions ++ definitions).map (·.key)).Nodup) :
    ∃ added, addDefinitions items definitions = .ok added := by
  induction definitions generalizing items with
  | nil => exact ⟨items, rfl⟩
  | cons definition rest ih =>
      obtain ⟨hfirst, hrest⟩ := List.forall_mem_cons.mp hform
      have hkey : definition.key ∉ items.definitions.map (·.key) := by
        rw [List.map_append, List.map_cons] at hdistinct
        intro hmem
        exact (List.nodup_append.mp hdistinct).2.2 _ hmem _ List.mem_cons_self rfl
      unfold addDefinitions
      rw [if_neg ((wellFormed_iff definition).mp hfirst), dif_neg hkey]
      refine ih hrest ?_
      show ((items.definitions ++ [definition] ++ rest).map (·.key)).Nodup
      rwa [List.append_assoc]

theorem checkDependencies_iff {items : Items} {definition : PermissionDefinition}
    {seen : Finset PermissionKey} {dependencies : List PermissionKey} :
    checkDependencies items definition seen dependencies = .ok () ↔
      (∀ dependency ∈ dependencies, dependency ∈ items.keys ∧ dependency ≠ definition.key) ∧
        dependencies.Nodup ∧ ∀ dependency ∈ dependencies, dependency ∉ seen := by
  induction dependencies generalizing seen with
  | nil => simp [checkDependencies]
  | cons dependency rest ih =>
      unfold checkDependencies
      split_ifs with hinvalid hseen
      · rw [Items.hasPermission_eq_false] at hinvalid
        refine iff_of_false (fun h => ?_) fun h => ?_
        · cases h
        · have hfirst := h.1 dependency List.mem_cons_self
          tauto
      · refine iff_of_false (fun h => ?_) fun h => h.2.2 dependency List.mem_cons_self hseen
        cases h
      · rw [Items.hasPermission_eq_false] at hinvalid
        rw [ih]
        simp only [List.forall_mem_cons, List.nodup_cons, Finset.mem_insert, not_or]
        constructor
        · rintro ⟨hrest, hnodup, hnew⟩
          refine ⟨⟨by tauto, hrest⟩, ⟨?_, hnodup⟩, hseen, fun other h => (hnew other h).2⟩
          intro hmem
          exact (hnew dependency hmem).1 rfl
        · rintro ⟨⟨-, hrest⟩, ⟨hfirst, hnodup⟩, -, hnew⟩
          refine ⟨hrest, hnodup, fun other h => ⟨?_, hnew other h⟩⟩
          rintro rfl
          exact hfirst h

theorem checkDefinitions_iff {items : Items} {definitions : List PermissionDefinition} :
    checkDefinitions items definitions = .ok () ↔ ∀ definition ∈ definitions,
      checkDependencies items definition ∅ definition.dependencies = .ok () := by
  induction definitions with
  | nil => simp [checkDefinitions]
  | cons definition rest ih =>
      rw [List.forall_mem_cons, checkDefinitions]
      cases checkDependencies items definition ∅ definition.dependencies with
      | error error => simp
      | ok => simp [ih]

/-- Every dependency is defined. -/
def Closed (items : Items) : Prop :=
  ∀ key dependency, Requires items.definitions key dependency → dependency ∈ items.keys

section Cycles

variable {order : MapOrder} {items : Items} {depth : ℕ}

theorem Closed.not_dangling (h : Closed items) {key : PermissionKey} (hkey : key ∈ items.keys) :
    ¬ Dangling items key := by
  rintro ⟨other, hreach, hundefined⟩
  rcases (ReflTransGen.cases_tail_iff _ _ _).mp hreach with rfl | ⟨last, -, hlast⟩
  · exact hundefined hkey
  · exact hundefined (h last other hlast)

/-- Where every dependency is defined, a search fails for nothing but a cycle. -/
theorem permissionDependencies_closed (hclosed : Closed items)
    (hdepth : items.definitions.length < depth) {key : PermissionKey} (hkey : key ∈ items.keys)
    (search : Search) :
    (∃ result after, permissionDependencies order items depth key search = .ok (result, after) ∧
      Clear (Requires items.definitions) search.visiting key ∧
      ∀ other, other ∈ result ↔ ReflTransGen (Requires items.definitions) key other) ∨
    ∃ error, permissionDependencies order items depth key search = .error (.failed error) ∧
      ¬ Clear (Requires items.definitions) search.visiting key := by
  have hsettles := @permissionDependencies_settles order items _ depth key search rfl
  have hends := @permissionDependencies_ne_tooDeep order items depth key search hdepth
  generalize permissionDependencies order items depth key search = found at hsettles hends
  match found, hsettles, hends with
  | .error .tooDeep, _, hends => exact absurd rfl hends
  | .error (.failed error), hfails, _ =>
      exact .inr ⟨error, rfl, hfails.resolve_right (hclosed.not_dangling hkey)⟩
  | .ok (result, after), ⟨_, hclear, hresult⟩, _ => exact .inl ⟨result, after, rfl, hclear, hresult⟩

theorem checkCycles_iff (hclosed : Closed items) (hdepth : items.definitions.length < depth)
    {keys : List PermissionKey} (hkeys : ∀ key ∈ keys, key ∈ items.keys) (ranges : ℕ) :
    checkCycles order items depth keys ranges = .ok () ↔
      ∀ key ∈ keys, Clear (Requires items.definitions) ∅ key := by
  induction keys generalizing ranges with
  | nil => simp [checkCycles]
  | cons key rest ih =>
      obtain ⟨hkey, hrest⟩ := List.forall_mem_cons.mp hkeys
      unfold checkCycles
      rw [List.forall_mem_cons]
      rcases @permissionDependencies_closed order items depth hclosed hdepth key hkey ⟨∅, ranges⟩
        with ⟨result, after, hfound, hclear, -⟩ | ⟨error, hfound, hmeets⟩
      · rw [hfound]
        dsimp only
        rw [ih hrest]
        exact (and_iff_right hclear).symm
      · rw [hfound]
        refine iff_of_false (fun h => ?_) fun h => hmeets h.1
        cases h

theorem checkCycles_ne_tooDeep (hdepth : items.definitions.length < depth)
    (keys : List PermissionKey) (ranges : ℕ) :
    checkCycles order items depth keys ranges ≠ .error .tooDeep := by
  induction keys generalizing ranges with
  | nil =>
      intro heq
      cases heq
  | cons key rest ih =>
      unfold checkCycles
      have hends := @permissionDependencies_ne_tooDeep order items depth key ⟨∅, ranges⟩ hdepth
      generalize permissionDependencies order items depth key ⟨∅, ranges⟩ = found at hends
      match found, hends with
      | .error stop, hends =>
          intro heq
          cases heq
          exact hends rfl
      | .ok (_, after), _ => exact ih after.ranges

theorem checkCycles_deeper (hdepth : items.definitions.length < depth)
    (keys : List PermissionKey) (ranges : ℕ) :
    checkCycles order items (depth + 1) keys ranges = checkCycles order items depth keys ranges := by
  induction keys generalizing ranges with
  | nil => rfl
  | cons key rest ih =>
      unfold checkCycles
      rw [permissionDependencies_deeper (permissionDependencies_ne_tooDeep hdepth)]
      simp only [ih]

end Cycles

/-! ## The catalog -/

/-- What the definitions of a catalog are.

This says in the terms of relations what the three loops of `newPermissionCatalog` check one after
the other, with a search by depth for the last part. -/
structure Sound (definitions : List PermissionDefinition) : Prop where
  wellFormed : ∀ definition ∈ definitions, WellFormed definition
  distinct : (definitions.map (·.key)).Nodup
  defined : ∀ definition ∈ definitions, ∀ dependency ∈ definition.dependencies,
    dependency ∈ definitions.map (·.key) ∧ dependency ≠ definition.key
  unrepeated : ∀ definition ∈ definitions, definition.dependencies.Nodup
  acyclic : Acyclic (Requires definitions)

section Catalog

variable {order : MapOrder} {depth : ℕ} {definitions : List PermissionDefinition}

/-- The last two loops accept what the first has put in the map. -/
theorem checks_iff {items : Items} (hdepth : items.definitions.length < depth) :
    checkDefinitions items (items.range order 0) = .ok () ∧
        checkCycles order items depth (order.visit 1 items.keys) 2 = .ok () ↔
      (∀ definition ∈ items.definitions, ∀ dependency ∈ definition.dependencies,
        dependency ∈ items.keys ∧ dependency ≠ definition.key) ∧
      (∀ definition ∈ items.definitions, definition.dependencies.Nodup) ∧
      Acyclic (Requires items.definitions) := by
  have hsecond : checkDefinitions items (items.range order 0) = .ok () ↔
      (∀ definition ∈ items.definitions, ∀ dependency ∈ definition.dependencies,
        dependency ∈ items.keys ∧ dependency ≠ definition.key) ∧
      ∀ definition ∈ items.definitions, definition.dependencies.Nodup := by
    rw [checkDefinitions_iff]
    simp only [checkDependencies_iff, Items.mem_range, Finset.notMem_empty, not_false_eq_true,
      implies_true, and_true]
    exact forall₂_and
  rw [hsecond, and_assoc]
  refine and_congr_right fun hdefined => and_congr_right fun _ => ?_
  have hclosed : Closed items := by
    rintro _ dependency ⟨definition, hmem, -, hdependency⟩
    exact (hdefined definition hmem dependency hdependency).1
  rw [checkCycles_iff hclosed hdepth fun key hkey => (order.mem_visit ..).mp hkey,
    acyclic_iff fun key dependency => Items.mem_keys_of_requires]
  simp only [order.mem_visit]

theorem newPermissionCatalog_eq_ok {catalog : PermissionCatalog} :
    newPermissionCatalog order depth definitions = .ok catalog ↔
      addDefinitions .empty definitions = .ok catalog.items ∧
        checkDefinitions catalog.items (catalog.items.range order 0) = .ok () ∧
        checkCycles order catalog.items depth (order.visit 1 catalog.items.keys) 2 = .ok () := by
  unfold newPermissionCatalog
  constructor
  · intro h
    split at h
    · cases h
    next items hadd =>
      split at h
      · cases h
      next hchecked =>
        split at h
        · cases h
        next hcycles =>
          cases h
          exact ⟨hadd, hchecked, hcycles⟩
  · rintro ⟨hadd, hchecked, hcycles⟩
    rw [hadd]
    dsimp only
    rw [hchecked]
    dsimp only
    rw [hcycles]

/-- **What the catalog accepts**, in any order of its maps. -/
theorem newPermissionCatalog_ok_iff (hdepth : definitions.length < depth) :
    (∃ catalog, newPermissionCatalog order depth definitions = .ok catalog) ↔
      Sound definitions := by
  simp only [newPermissionCatalog_eq_ok]
  constructor
  · rintro ⟨⟨items⟩, hadd, hchecks⟩
    obtain ⟨rfl, hform⟩ : items.definitions = definitions ∧ _ := addDefinitions_ok hadd
    obtain ⟨hdefined, hunrepeated, hacyclic⟩ := (checks_iff hdepth).mp hchecks
    exact ⟨hform, items.distinct, fun definition hmem dependency hdependency =>
      (hdefined definition hmem dependency hdependency).imp_left Items.mem_keys.mp,
      hunrepeated, hacyclic⟩
  · intro h
    obtain ⟨items, hadd⟩ := @addDefinitions_of .empty definitions h.wellFormed h.distinct
    obtain ⟨rfl, -⟩ : items.definitions = definitions ∧ _ := addDefinitions_ok hadd
    refine ⟨⟨items⟩, hadd, (checks_iff hdepth).mpr ⟨?_, h.unrepeated, h.acyclic⟩⟩
    intro definition hmem dependency hdependency
    exact (h.defined definition hmem dependency hdependency).imp_left Items.mem_keys.mpr

theorem newPermissionCatalog_ne_tooDeep (hdepth : definitions.length < depth) :
    newPermissionCatalog order depth definitions ≠ .error .tooDeep := by
  intro heq
  unfold newPermissionCatalog at heq
  split at heq
  · cases heq
  next items hadd =>
    have hitems : items.definitions = definitions := (addDefinitions_ok hadd).1
    split at heq
    · cases heq
    · split at heq
      next stop hcycles =>
        cases heq
        exact checkCycles_ne_tooDeep (hitems ▸ hdepth) _ _ hcycles
      · cases heq

theorem newPermissionCatalog_deeper (hdepth : definitions.length < depth) :
    newPermissionCatalog order (depth + 1) definitions =
      newPermissionCatalog order depth definitions := by
  unfold newPermissionCatalog
  cases hadd : addDefinitions .empty definitions with
  | error error => rfl
  | ok items =>
      have hitems : items.definitions = definitions := (addDefinitions_ok hadd).1
      dsimp only
      rw [checkCycles_deeper (hitems ▸ hdepth)]

/-- Any number of nested calls above that of the definitions will do. -/
theorem newPermissionCatalog_eq (hdepth : definitions.length < depth) :
    newPermissionCatalog order depth definitions =
      newPermissionCatalog order (definitions.length + 1) definitions := by
  induction depth, hdepth using Nat.le_induction with
  | base => rfl
  | succ depth hdepth ih => rw [newPermissionCatalog_deeper hdepth, ih]

/-- **What a key depends on** is what is reachable from it, sorted. -/
theorem dependencies_spec {catalog : PermissionCatalog} (hsound : Sound catalog.items.definitions)
    (hdepth : catalog.items.definitions.length < depth) {key : PermissionKey}
    (hkey : key ∈ catalog.items.keys) :
    ∃ dependencies, catalog.dependencies order depth key = .ok dependencies ∧
      dependencies.SortedLT ∧ ∀ other, other ∈ dependencies ↔
        TransGen (Requires catalog.items.definitions) key other := by
  have hclosed : Closed catalog.items := by
    rintro _ dependency ⟨definition, hmem, -, hdependency⟩
    exact Items.mem_keys.mpr (hsound.defined definition hmem dependency hdependency).1
  have hclear : Clear (Requires catalog.items.definitions) ∅ key :=
    (acyclic_iff fun _ _ => Items.mem_keys_of_requires).mp hsound.acyclic key hkey
  have hhas : ¬ catalog.has key = false := by
    unfold PermissionCatalog.has
    rw [Items.hasPermission_eq_false, not_not]
    exact hkey
  unfold PermissionCatalog.dependencies
  rw [if_neg hhas]
  rcases @permissionDependencies_closed order _ _ hclosed hdepth key hkey ⟨∅, 0⟩
    with ⟨result, after, hfound, -, hresult⟩ | ⟨error, -, hmeets⟩
  · rw [hfound]
    dsimp only
    refine ⟨_, rfl, ?_, fun other => ?_⟩
    · have hnodup := (List.perm_insertionSort (· ≤ ·) _).nodup_iff.mpr
        (order.nodup after.ranges (result.erase key))
      exact List.sortedLE_insertionSort.sortedLT_of_nodup hnodup
    · rw [List.mem_insertionSort, order.mem_visit, Finset.mem_erase, hresult,
        reflTransGen_iff_eq_or_transGen]
      constructor
      · rintro ⟨hne, heq | hreach⟩
        · exact absurd heq hne
        · exact hreach
      · intro hreach
        refine ⟨?_, .inr hreach⟩
        rintro rfl
        exact hsound.acyclic other hreach
  · exact absurd hclear hmeets

/-- A run without a limit on the calls it nests comes to a catalog or to an error.  There is a
catalog exactly if the definitions are sound, and it answers for each of its keys with the sorted
list of what is reachable by one step or more, in any order of the maps.

A map of Go is taken in any order, another one each time, and the search for dependencies is
recursive.  `order` and `depth` stand for the two.  The outcome does not depend on the order, nor on
the depth once it exceeds the number of definitions: a path that repeats no key cannot be longer,
and the search stops where one does.  A catalog that was built has no such path (`Sound`). -/
theorem catalog_exact (order : MapOrder) (definitions : List PermissionDefinition) :
    ∃ outcome : Except PermissionError PermissionCatalog,
      (∀ depth, definitions.length < depth →
        newPermissionCatalog order depth definitions = outcome.mapError .failed) ∧
      ((∃ catalog, outcome = .ok catalog) ↔ Sound definitions) ∧
      ∀ catalog, outcome = .ok catalog → ∀ key ∈ definitions.map (·.key),
        ∃ dependencies : List PermissionKey,
          (∀ (order' : MapOrder) (depth : ℕ), definitions.length < depth →
            catalog.dependencies order' depth key = .ok dependencies) ∧
          dependencies.SortedLT ∧
          ∀ other, other ∈ dependencies ↔ TransGen (Requires definitions) key other := by
  have hiff := @newPermissionCatalog_ok_iff order _ definitions (Nat.lt_succ_self _)
  have hends := @newPermissionCatalog_ne_tooDeep order _ definitions (Nat.lt_succ_self _)
  have heq := fun depth => @newPermissionCatalog_eq order depth definitions
  generalize hrun : newPermissionCatalog order (definitions.length + 1) definitions = run
    at hiff hends heq
  match run, hends with
  | .error .tooDeep, hends => exact absurd rfl hends
  | .error (.failed error), _ =>
      refine ⟨.error error, heq, ?_, fun catalog h => ?_⟩
      · rw [← hiff]
        simp
      · cases h
  | .ok catalog, _ =>
      have hsound := hiff.mp ⟨catalog, rfl⟩
      obtain ⟨hitems, -⟩ : catalog.items.definitions = definitions ∧ _ :=
        addDefinitions_ok (newPermissionCatalog_eq_ok.mp hrun).1
      refine ⟨.ok catalog, heq, ?_, fun same h key hkey => ?_⟩
      · exact iff_of_true ⟨catalog, rfl⟩ hsound
      · cases h
        subst hitems
        have hspec := fun (order' : MapOrder) depth hdepth =>
          @dependencies_spec order' depth catalog hsound hdepth key (Items.mem_keys.mpr hkey)
        obtain ⟨dependencies, -, hsorted, hmem⟩ := hspec order _ (Nat.lt_succ_self _)
        refine ⟨dependencies, fun order' depth hdepth => ?_, hsorted, hmem⟩
        obtain ⟨others, hothers, hsorted', hmem'⟩ := hspec order' depth hdepth
        have hsame : others = dependencies :=
          hsorted'.eq_of_mem_iff hsorted fun other => (hmem' other).trans (hmem other).symm
        rw [hothers, hsame]

end Catalog

/-- A definition whose labels are of no account. -/
def permission (key : PermissionKey) (dependencies : List PermissionKey) : PermissionDefinition :=
  ⟨key, "resource", "action", "label", "", dependencies⟩

/-- Two ways from `a.write` to `d.read`. -/
def diamond : List PermissionDefinition :=
  [permission "a.write" ["c.read", "b.read"], permission "b.read" ["d.read"],
    permission "c.read" ["d.read"], permission "d.read" []]

example : (newPermissionCatalog .ascending 5 diamond).toOption.bind
    (fun catalog => (catalog.dependencies .ascending 5 "a.write").toOption) =
      some ["b.read", "c.read", "d.read"] := by
  decide +kernel

example : (newPermissionCatalog .ascending 3
    [permission "a.read" ["b.read"], permission "b.read" ["a.read"]]).toOption.isSome = false := by
  decide +kernel

end BindPlane.Permissions
