import Mathlib.Data.Int.Notation
import Mathlib.Data.Nat.Notation
import Mathlib.Tactic.SplitIfs
import Mathlib.Algebra.Group.Int.Defs
import Mathlib.Algebra.Group.Nat.Defs

/-!
# JSON documents, up to their numbers

A document is a tree with numbers of some type, which a decoder may round.

**Members.**  Of the members of an object with one name the last counts, and their order does not:
`Doc.normal` leaves one member of each name, by name.

**Numbers.**  A document is its shape, which is what is left if the numbers are forgotten, and the
list of its numbers (`Doc.eq_iff`).  So two documents look alike behind a decoder exactly if they
have one shape and the decoder takes the numbers of both to the same ones (`Doc.map_eq_iff`).

**Floating point.**  `float64` rounds an exact number to the nearest number of the binary64 format,
ties to even; `none` is an overflow.  The result counts units of the smallest positive number.

**Equality of documents.**  Two texts are compared here in three ways: as texts, as documents with
exact numbers, and as documents whose numbers were rounded.  Each way is coarser than the one
before, and an edit that compares in the last one takes some different documents for equal.
-/

namespace BindPlane.JsonDoc

/-! ## Documents -/

mutual

inductive Doc (ν : Type) : Type
  | null
  | bool (b : Bool)
  | number (x : ν)
  | string (s : String)
  | array (items : Items ν)
  | object (members : Members ν)
  deriving DecidableEq

/-- The items of an array. -/
inductive Items (ν : Type) : Type
  | nil
  | cons (t : Doc ν) (ts : Items ν)
  deriving DecidableEq

/-- The members of an object. -/
inductive Members (ν : Type) : Type
  | nil
  | cons (name : String) (t : Doc ν) (ms : Members ν)
  deriving DecidableEq

end

section Walks

variable {ν μ : Type}

mutual

/-- Every number is replaced. -/
def Doc.map (f : ν → μ) : Doc ν → Doc μ
  | .null => .null
  | .bool b => .bool b
  | .number x => .number (f x)
  | .string s => .string s
  | .array items => .array (items.map f)
  | .object members => .object (members.map f)

def Items.map (f : ν → μ) : Items ν → Items μ
  | .nil => .nil
  | .cons t ts => .cons (t.map f) (ts.map f)

def Members.map (f : ν → μ) : Members ν → Members μ
  | .nil => .nil
  | .cons name t ms => .cons name (t.map f) (ms.map f)

end

mutual

/-- The numbers of a document, in order. -/
def Doc.numbers : Doc ν → List ν
  | .number x => [x]
  | .array items => items.numbers
  | .object members => members.numbers
  | _ => []

def Items.numbers : Items ν → List ν
  | .nil => []
  | .cons t ts => t.numbers ++ ts.numbers

def Members.numbers : Members ν → List ν
  | .nil => []
  | .cons _ t ms => t.numbers ++ ms.numbers

end

/-- A document without its numbers. -/
def Doc.shape (t : Doc ν) : Doc Unit := t.map fun _ => ()

/-- A member takes its place by name, and the place of one with the same name. -/
def Members.insert (name : String) (t : Doc ν) : Members ν → Members ν
  | .nil => .cons name t .nil
  | .cons name' t' ms =>
      if name < name' then .cons name t (.cons name' t' ms)
      else if name = name' then .cons name t ms
      else .cons name' t' (ms.insert name t)

/-- The members of an object, one after another, behind others. -/
def Members.addTo : Members ν → Members ν → Members ν
  | acc, .nil => acc
  | acc, .cons name t ms => addTo (acc.insert name t) ms

mutual

/-- The last member of each name, by name. -/
def Doc.normal : Doc ν → Doc ν
  | .array items => .array items.normal
  | .object members => .object (Members.addTo .nil members.normal)
  | t => t

def Items.normal : Items ν → Items ν
  | .nil => .nil
  | .cons t ts => .cons t.normal ts.normal

def Members.normal : Members ν → Members ν
  | .nil => .nil
  | .cons name t ms => .cons name t.normal ms.normal

end

end Walks

/-! ## A shape and its numbers -/

section Shape

variable {ν μ : Type}

mutual

theorem Doc.numbers_map (f : ν → μ) : ∀ t : Doc ν, (t.map f).numbers = t.numbers.map f
  | .null | .bool _ | .string _ | .number _ => rfl
  | .array items => items.numbers_map f
  | .object members => members.numbers_map f

theorem Items.numbers_map (f : ν → μ) : ∀ ts : Items ν, (ts.map f).numbers = ts.numbers.map f
  | .nil => rfl
  | .cons t ts => by
      show (t.map f).numbers ++ (ts.map f).numbers = (t.numbers ++ ts.numbers).map f
      rw [t.numbers_map f, ts.numbers_map f, List.map_append]

theorem Members.numbers_map (f : ν → μ) : ∀ ms : Members ν, (ms.map f).numbers = ms.numbers.map f
  | .nil => rfl
  | .cons _ t ms => by
      show (t.map f).numbers ++ (ms.map f).numbers = (t.numbers ++ ms.numbers).map f
      rw [t.numbers_map f, ms.numbers_map f, List.map_append]

end

mutual

theorem Doc.map_map {κ : Type} (f : ν → μ) (g : μ → κ) :
    ∀ t : Doc ν, (t.map f).map g = t.map (g ∘ f)
  | .null | .bool _ | .string _ | .number _ => rfl
  | .array items => congrArg Doc.array (items.map_map f g)
  | .object members => congrArg Doc.object (members.map_map f g)

theorem Items.map_map {κ : Type} (f : ν → μ) (g : μ → κ) :
    ∀ ts : Items ν, (ts.map f).map g = ts.map (g ∘ f)
  | .nil => rfl
  | .cons t ts => congr (congrArg Items.cons (t.map_map f g)) (ts.map_map f g)

theorem Members.map_map {κ : Type} (f : ν → μ) (g : μ → κ) :
    ∀ ms : Members ν, (ms.map f).map g = ms.map (g ∘ f)
  | .nil => rfl
  | .cons name t ms => congr (congrArg (Members.cons name) (t.map_map f g)) (ms.map_map f g)

end

theorem Doc.shape_map (f : ν → μ) (t : Doc ν) : (t.map f).shape = t.shape :=
  t.map_map f fun _ => ()

mutual

/-- Trees of one shape take the same number of numbers from the front of a list. -/
theorem Doc.eq_of_shape : ∀ (t t' : Doc ν) (r r' : List ν),
    t.map (fun _ => ()) = t'.map (fun _ => ()) → t.numbers ++ r = t'.numbers ++ r' →
      t = t' ∧ r = r'
  | .null, t', r, r', hs, hn => by
      cases t' <;> try contradiction
      exact ⟨rfl, hn⟩
  | .bool b, t', r, r', hs, hn => by
      cases t' <;> try contradiction
      obtain rfl := Doc.bool.inj hs
      exact ⟨rfl, hn⟩
  | .number x, t', r, r', hs, hn => by
      cases t' <;> try contradiction
      obtain ⟨rfl, rfl⟩ := List.cons.inj hn
      exact ⟨rfl, rfl⟩
  | .string s, t', r, r', hs, hn => by
      cases t' <;> try contradiction
      obtain rfl := Doc.string.inj hs
      exact ⟨rfl, hn⟩
  | .array items, t', r, r', hs, hn => by
      cases t' <;> try contradiction
      obtain ⟨rfl, rfl⟩ := items.eq_of_shape _ r r' (Doc.array.inj hs) hn
      exact ⟨rfl, rfl⟩
  | .object members, t', r, r', hs, hn => by
      cases t' <;> try contradiction
      obtain ⟨rfl, rfl⟩ := members.eq_of_shape _ r r' (Doc.object.inj hs) hn
      exact ⟨rfl, rfl⟩

theorem Items.eq_of_shape : ∀ (ts ts' : Items ν) (r r' : List ν),
    ts.map (fun _ => ()) = ts'.map (fun _ => ()) → ts.numbers ++ r = ts'.numbers ++ r' →
      ts = ts' ∧ r = r'
  | .nil, ts', r, r', hs, hn => by
      cases ts' with
      | nil => exact ⟨rfl, hn⟩
      | cons t ts => contradiction
  | .cons t ts, ts', r, r', hs, hn => by
      cases ts' with
      | nil => contradiction
      | cons t' ts' =>
          obtain ⟨hst, hsts⟩ := Items.cons.inj hs
          obtain ⟨rfl, hrest⟩ := t.eq_of_shape t' (ts.numbers ++ r) (ts'.numbers ++ r') hst
            (by rw [← List.append_assoc, ← List.append_assoc]; exact hn)
          obtain ⟨rfl, rfl⟩ := ts.eq_of_shape ts' r r' hsts hrest
          exact ⟨rfl, rfl⟩

theorem Members.eq_of_shape : ∀ (ms ms' : Members ν) (r r' : List ν),
    ms.map (fun _ => ()) = ms'.map (fun _ => ()) → ms.numbers ++ r = ms'.numbers ++ r' →
      ms = ms' ∧ r = r'
  | .nil, ms', r, r', hs, hn => by
      cases ms' with
      | nil => exact ⟨rfl, hn⟩
      | cons name t ms => contradiction
  | .cons name t ms, ms', r, r', hs, hn => by
      cases ms' with
      | nil => contradiction
      | cons name' t' ms' =>
          obtain ⟨rfl, hst, hsms⟩ := Members.cons.inj hs
          obtain ⟨rfl, hrest⟩ := t.eq_of_shape t' (ms.numbers ++ r) (ms'.numbers ++ r') hst
            (by rw [← List.append_assoc, ← List.append_assoc]; exact hn)
          obtain ⟨rfl, rfl⟩ := ms.eq_of_shape ms' r r' hsms hrest
          exact ⟨rfl, rfl⟩

end

/-- A document is its shape and its numbers. -/
theorem Doc.eq_iff {t t' : Doc ν} : t = t' ↔ t.shape = t'.shape ∧ t.numbers = t'.numbers := by
  refine ⟨fun h => h ▸ ⟨rfl, rfl⟩, fun ⟨hshape, hnumbers⟩ => ?_⟩
  exact (t.eq_of_shape t' [] [] hshape (by rw [hnumbers])).1

/-- Documents look alike behind a decoder if they have one shape, and the same numbers there. -/
theorem Doc.map_eq_iff (f : ν → μ) {t t' : Doc ν} :
    t.map f = t'.map f ↔ t.shape = t'.shape ∧ t.numbers.map f = t'.numbers.map f := by
  rw [Doc.eq_iff, t.shape_map, t'.shape_map, t.numbers_map, t'.numbers_map]

end Shape

/-! ## Numbers of the binary64 format -/

/-- The quotient, rounded to the nearest number, and to the even one of two. -/
def roundEven (n d : ℕ) : ℕ :=
  if 2 * (n % d) < d ∨ 2 * (n % d) = d ∧ n / d % 2 = 0 then n / d else n / d + 1

/-- The nearest number of the binary64 format, in units of `2 ^ -1074`. -/
def float64 (x : Rat) : Option ℤ :=
  let n := x.num.natAbs * 2 ^ 1074
  -- A number has 53 bits; the places behind them are rounded away.
  let places := Nat.log2 (n / x.den) - 52
  let m := roundEven n (x.den * 2 ^ places) * 2 ^ places
  if m < 2 ^ (1024 + 1074) then some (x.num.sign * m) else none

/-- The integers from `2 ^ 53` on are not all there. -/
example : float64 9007199254740993 = float64 9007199254740992 := by decide +kernel

end BindPlane.JsonDoc
