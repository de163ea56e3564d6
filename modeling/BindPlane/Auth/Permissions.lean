import Mathlib.Computability.RegularExpressions
import Mathlib.Data.Finset.Card
import Mathlib.Data.Finset.SDiff
import Mathlib.Data.List.Sort
import Mathlib.Data.String.Basic
import BindPlane.Graph.Descent

/-!
# The catalog of permissions

`NewPermissionCatalog` checks a list of permission definitions and `Dependencies` follows the
permissions that one of them depends on (`internal/auth/domain/access.go`).

**The recursion.**  `permissionDependencies` calls itself for each dependency and remembers only the
keys on the way to it.  Here it is given the number of calls it may nest; a run that needs more stops
as `tooDeep`, which is no outcome of the code.

**The maps.**  Go takes the keys of a map in another order at each iteration.  The orders of a run
are a parameter (`MapOrder`).
-/

namespace BindPlane.Permissions

open Relation RegularExpression

abbrev PermissionKey := String

structure PermissionDefinition where
  key : PermissionKey
  resource : String
  action : String
  labelKey : String
  description : String
  dependencies : List PermissionKey

/-! ## Keys -/

/-- A class of characters, `[…]`. -/
def oneOf (members : List Char) : RegularExpression Char :=
  members.foldr (fun member rest => char member + rest) 0

/-- `[a-z]` -/
def letters : List Char := "abcdefghijklmnopqrstuvwxyz".toList

/-- `[a-z][a-z0-9_-]*` -/
def keyWord : RegularExpression Char :=
  oneOf letters * (oneOf (letters ++ "0123456789_-".toList)).star

/-- `^[a-z][a-z0-9_-]*\.[a-z][a-z0-9_-]*$` -/
def permissionKeyPattern : RegularExpression Char := keyWord * char '.' * keyWord

/-! ## Maps -/

/-- The orders in which a run iterates over its maps: the `n`-th iteration takes the keys of its map
as they come in `visit n`.

An order may depend on how often a map has been iterated before, and on what it holds.  All that is
asked of it is that every key comes once. -/
structure MapOrder where
  visit : ℕ → Finset PermissionKey → List PermissionKey
  nodup : ∀ n keys, (visit n keys).Nodup
  mem_visit : ∀ n keys key, key ∈ visit n keys ↔ key ∈ keys

/-- The order of the keys themselves, at each iteration. -/
def MapOrder.ascending : MapOrder where
  visit _ keys := Quotient.liftOn keys.val (fun l => l.insertionSort (· ≤ ·)) fun l l' h =>
    List.Perm.eq_of_sortedLE List.sortedLE_insertionSort List.sortedLE_insertionSort
      ((List.perm_insertionSort _ l).trans (h.trans (List.perm_insertionSort _ l').symm))
  nodup _ keys := by
    obtain ⟨⟨l⟩, hl⟩ := keys
    exact (List.perm_insertionSort _ l).nodup_iff.mpr hl
  mem_visit _ keys key := by
    obtain ⟨⟨l⟩, hl⟩ := keys
    exact List.mem_insertionSort _

/-- The map of the definitions, each under its own key. -/
structure Items where
  definitions : List PermissionDefinition
  distinct : (definitions.map (·.key)).Nodup

namespace Items

def empty : Items := ⟨[], List.nodup_nil⟩

def get? (items : Items) (key : PermissionKey) : Option PermissionDefinition :=
  items.definitions.find? fun definition => definition.key = key

def keys (items : Items) : Finset PermissionKey := (items.definitions.map (·.key)).toFinset

/-- A definition under a key that the map does not have. -/
def insert (items : Items) (definition : PermissionDefinition)
    (h : definition.key ∉ items.definitions.map (·.key)) : Items where
  definitions := items.definitions ++ [definition]
  distinct := by
    rw [List.map_append, List.map_singleton]
    refine List.nodup_append'.mpr ⟨items.distinct, List.nodup_singleton _, ?_⟩
    rwa [List.disjoint_singleton]

/-- The definitions as the `n`-th iteration takes them. -/
def range (items : Items) (order : MapOrder) (n : ℕ) : List PermissionDefinition :=
  (order.visit n items.keys).filterMap items.get?

end Items

def hasPermission (items : Items) (key : PermissionKey) : Bool := (items.get? key).isSome

/-! ## The errors -/

inductive PermissionError where
  | invalidDefinition (key : PermissionKey)
  | duplicateDefinition (key : PermissionKey)
  | invalidDependency (dependency key : PermissionKey)
  | duplicateDependency (dependency key : PermissionKey)
  | unknownDependency (key : PermissionKey)
  | cyclicDependency (key : PermissionKey)

/-- The text of an error, with `quote` for the verb `%q`. -/
def PermissionError.text (quote : String → String) : PermissionError → String
  | invalidDefinition key => "invalid permission definition " ++ quote key
  | duplicateDefinition key => "duplicate permission definition " ++ quote key
  | invalidDependency dependency key =>
      "invalid dependency " ++ quote dependency ++ " for permission " ++ quote key
  | duplicateDependency dependency key =>
      "duplicate dependency " ++ quote dependency ++ " for permission " ++ quote key
  | unknownDependency key => "unknown permission dependency " ++ quote key
  | cyclicDependency key => "cyclic permission dependency " ++ quote key

/-- Why a run has no value: it nests more calls than it was given, or it returns an error. -/
inductive Stop where
  | tooDeep
  | failed (error : PermissionError)

/-! ## The search -/

/-- What the calls of a search share: the keys on the way to the current call, and how many
iterations over maps the run has made. -/
structure Search where
  visiting : Finset PermissionKey
  ranges : ℕ

/-- `for item := range dependencies { result[item] = struct{}{} }` -/
def addAll (result : Finset PermissionKey) (items : List PermissionKey) : Finset PermissionKey :=
  items.foldl (fun result item => insert item result) result

/-- The loop of `permissionDependencies` over the dependencies of a definition, with `search` for
its recursive calls. -/
def collectDependencies (order : MapOrder)
    (find : PermissionKey → Search → Except Stop (Finset PermissionKey × Search)) :
    List PermissionKey → Finset PermissionKey → Search →
      Except Stop (Finset PermissionKey × Search)
  | [], result, search => .ok (result, search)
  | dependency :: rest, result, search =>
      match find dependency search with
      | .error stop => .error stop
      | .ok (dependencies, search) =>
          collectDependencies order find rest
            (addAll result (order.visit search.ranges dependencies))
            { search with ranges := search.ranges + 1 }

def permissionDependencies (order : MapOrder) (items : Items) :
    ℕ → PermissionKey → Search → Except Stop (Finset PermissionKey × Search)
  | 0, _, _ => .error .tooDeep
  | depth + 1, key, search =>
      match items.get? key with
      | none => .error (.failed (.unknownDependency key))
      | some definition =>
          if key ∈ search.visiting then .error (.failed (.cyclicDependency key))
          else
            match collectDependencies order (permissionDependencies order items depth)
                definition.dependencies {key}
                { search with visiting := insert key search.visiting } with
            | .error stop => .error stop
            | .ok (result, search) =>
                .ok (result, { search with visiting := search.visiting.erase key })

/-! ## The catalog -/

structure PermissionCatalog where
  items : Items

def PermissionCatalog.has (catalog : PermissionCatalog) (key : PermissionKey) : Bool :=
  hasPermission catalog.items key

/-- The first loop of `NewPermissionCatalog`. -/
def addDefinitions (items : Items) : List PermissionDefinition → Except PermissionError Items
  | [] => .ok items
  | definition :: rest =>
      if permissionKeyPattern.rmatch definition.key.toList = false ∨ definition.resource = "" ∨
          definition.action = "" ∨ definition.labelKey = "" then
        .error (.invalidDefinition definition.key)
      else if h : definition.key ∈ items.definitions.map (·.key) then
        .error (.duplicateDefinition definition.key)
      else addDefinitions (items.insert definition h) rest

/-- The dependencies of one definition, in the second loop. -/
def checkDependencies (items : Items) (definition : PermissionDefinition) :
    Finset PermissionKey → List PermissionKey → Except PermissionError Unit
  | _, [] => .ok ()
  | seen, dependency :: rest =>
      if hasPermission items dependency = false ∨ dependency = definition.key then
        .error (.invalidDependency dependency definition.key)
      else if dependency ∈ seen then .error (.duplicateDependency dependency definition.key)
      else checkDependencies items definition (insert dependency seen) rest

/-- The second loop. -/
def checkDefinitions (items : Items) : List PermissionDefinition → Except PermissionError Unit
  | [] => .ok ()
  | definition :: rest =>
      match checkDependencies items definition ∅ definition.dependencies with
      | .error error => .error error
      | .ok () => checkDefinitions items rest

/-- The third loop.  Each key is searched from anew. -/
def checkCycles (order : MapOrder) (items : Items) (depth : ℕ) :
    List PermissionKey → ℕ → Except Stop Unit
  | [], _ => .ok ()
  | key :: rest, ranges =>
      match permissionDependencies order items depth key ⟨∅, ranges⟩ with
      | .error stop => .error stop
      | .ok (_, search) => checkCycles order items depth rest search.ranges

def newPermissionCatalog (order : MapOrder) (depth : ℕ) (definitions : List PermissionDefinition) :
    Except Stop PermissionCatalog :=
  match addDefinitions .empty definitions with
  | .error error => .error (.failed error)
  | .ok items =>
      match checkDefinitions items (items.range order 0) with
      | .error error => .error (.failed error)
      | .ok () =>
          match checkCycles order items depth (order.visit 1 items.keys) 2 with
          | .error stop => .error stop
          | .ok () => .ok ⟨items⟩

/-- The list is empty where the code returns `nil`. -/
def PermissionCatalog.dependencies (order : MapOrder) (depth : ℕ) (catalog : PermissionCatalog)
    (key : PermissionKey) : Except Stop (List PermissionKey) :=
  if catalog.has key = false then .ok []
  else
    match permissionDependencies order catalog.items depth key ⟨∅, 0⟩ with
    | .error .tooDeep => .error .tooDeep
    | .error (.failed _) => .ok []
    | .ok (dependencies, search) =>
        .ok ((order.visit search.ranges (dependencies.erase key)).insertionSort (· ≤ ·))

end BindPlane.Permissions
