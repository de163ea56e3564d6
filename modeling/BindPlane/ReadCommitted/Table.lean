import Mathlib.Data.List.Nodup
import Mathlib.Tactic.Common

/-!
# Tables

A table is the list of its rows under a numeric primary key, in the order they were
inserted.  The key is unique by construction (`Table.nodup`), so that a row can be
read by its key (`Table.get?`) and every statement is described by what it does to that
reading: `get?_insert`, `get?_updateWhere`, `get?_deleteWhere`.
-/

namespace ReadCommitted

universe u v

/-- Rows `ρ` under a unique numeric key.

The order of the rows is that of their insertion.  It is not observable through `get?`, but a query
without an order, or with ties in its order, returns rows in some order, and the model takes this
one. -/
structure Table (ρ : Type u) : Type u where
  rows : List (ℕ × ρ)
  nodup : (rows.map Prod.fst).Nodup

namespace Table

variable {ρ : Type u} {σ : Type v}

/-- No rows. -/
def empty : Table ρ := ⟨[], List.nodup_nil⟩

instance : EmptyCollection (Table ρ) := ⟨empty⟩

/-- The row with a key. -/
def get? (t : Table ρ) (id : ℕ) : Option ρ := t.rows.lookup id

/-- `INSERT`, behind the other rows; a row with the same key is replaced. -/
def insert (t : Table ρ) (id : ℕ) (r : ρ) : Table ρ where
  rows := t.rows.filter (·.1 ≠ id) ++ [(id, r)]
  nodup := by
    rw [List.map_append, List.nodup_append]
    refine ⟨t.nodup.sublist (List.filter_sublist.map _), by simp, fun a ha b hb => ?_⟩
    simp only [List.map_cons, List.map_nil, List.mem_singleton] at hb
    obtain ⟨r, hr, rfl⟩ := List.mem_map.mp ha
    rw [hb]
    simpa using (List.mem_filter.mp hr).2

/-- Any number of `INSERT`s. -/
def insertAll (t : Table ρ) (new : List (ℕ × ρ)) : Table ρ :=
  new.foldl (fun t r => t.insert r.1 r.2) t

/-- `UPDATE … SET f WHERE p`. -/
def updateWhere (t : Table ρ) (p : ℕ → ρ → Bool) (f : ρ → ρ) : Table ρ where
  rows := t.rows.map fun r => (r.1, if p r.1 r.2 then f r.2 else r.2)
  nodup := by
    rw [List.map_map]
    exact t.nodup

/-- `UPDATE … SET f WHERE id=$1`. -/
def modify (t : Table ρ) (id : ℕ) (f : ρ → ρ) : Table ρ := t.updateWhere (fun i _ => i = id) f

/-- One `UPDATE … SET f WHERE id=$1` after the other. -/
def modifyAll {α : Type v} (t : Table ρ) (key : α → ℕ) (f : α → ρ → ρ) (xs : List α) : Table ρ :=
  xs.foldl (fun t x => t.modify (key x) (f x)) t

/-- `DELETE … WHERE p`. -/
def deleteWhere (t : Table ρ) (p : ℕ → ρ → Bool) : Table ρ where
  rows := t.rows.filter fun r => !p r.1 r.2
  nodup := t.nodup.sublist (List.filter_sublist.map _)

/-- Some row satisfies a condition. -/
def any (t : Table ρ) (p : ℕ → ρ → Bool) : Bool := t.rows.any fun r => p r.1 r.2

/-- The first row that satisfies a condition. -/
def find? (t : Table ρ) (p : ℕ → ρ → Bool) : Option (ℕ × ρ) :=
  t.rows.find? fun r => p r.1 r.2

/-- The keys of the rows that satisfy a condition. -/
def keysWhere (t : Table ρ) (p : ℕ → ρ → Bool) : List ℕ :=
  (t.rows.filter fun r => p r.1 r.2).map Prod.fst

/-! ## Reading back what was written -/

private theorem lookup_eq_some {rows : List (ℕ × ρ)} (h : (rows.map Prod.fst).Nodup)
    {id : ℕ} {r : ρ} : rows.lookup id = some r ↔ (id, r) ∈ rows := by
  induction rows with
  | nil => simp
  | cons x rows ih =>
      obtain ⟨i, a⟩ := x
      obtain ⟨hi, hrows⟩ := List.nodup_cons.mp h
      by_cases hid : id = i
      · subst hid
        have hno : ∀ r, (id, r) ∉ rows := fun r hm =>
          hi (List.mem_map.mpr ⟨(id, r), hm, rfl⟩)
        simp [hno, eq_comm]
      · simp [List.lookup_cons, hid, ih hrows, beq_eq_false_iff_ne.mpr hid]

theorem mem_rows {t : Table ρ} {id : ℕ} {r : ρ} : (id, r) ∈ t.rows ↔ t.get? id = some r :=
  (lookup_eq_some t.nodup).symm

@[simp] theorem get?_empty (id : ℕ) : (∅ : Table ρ).get? id = none := rfl

/-- Two readings agree when they agree row by row. -/
private theorem get?_eq {t : Table ρ} {id : ℕ} {o : Option ρ}
    (h : ∀ r, (id, r) ∈ t.rows ↔ o = some r) : t.get? id = o := by
  ext r
  rw [← mem_rows, h]

theorem get?_insert (t : Table ρ) (id id' : ℕ) (r : ρ) :
    (t.insert id r).get? id' = if id' = id then some r else t.get? id' := by
  refine get?_eq fun r' => ?_
  by_cases h : id' = id
  · simp [insert, h, eq_comm]
  · simp [insert, h, mem_rows]

@[simp] theorem get?_insert_self (t : Table ρ) (id : ℕ) (r : ρ) :
    (t.insert id r).get? id = some r := by simp [get?_insert]

theorem get?_insert_of_ne (t : Table ρ) {id id' : ℕ} (h : id' ≠ id) (r : ρ) :
    (t.insert id r).get? id' = t.get? id' := by simp [get?_insert, h]

theorem get?_updateWhere (t : Table ρ) (p : ℕ → ρ → Bool) (f : ρ → ρ) (id : ℕ) :
    (t.updateWhere p f).get? id = (t.get? id).map fun r => if p id r then f r else r := by
  refine get?_eq fun r' => ?_
  simp only [updateWhere, List.mem_map, Prod.mk.injEq, Prod.exists, mem_rows,
    Option.map_eq_some_iff]
  constructor
  · rintro ⟨i, r, hr, rfl, h⟩
    exact ⟨r, hr, h⟩
  · rintro ⟨r, hr, h⟩
    exact ⟨id, r, hr, rfl, h⟩

theorem get?_modify (t : Table ρ) (id id' : ℕ) (f : ρ → ρ) :
    (t.modify id f).get? id' = if id' = id then (t.get? id').map f else t.get? id' := by
  rw [modify, get?_updateWhere]
  by_cases h : id' = id
  · simp [h]
  · simp [h]

@[simp] theorem get?_modify_self (t : Table ρ) (id : ℕ) (f : ρ → ρ) :
    (t.modify id f).get? id = (t.get? id).map f := by simp [get?_modify]

theorem get?_modify_of_ne (t : Table ρ) {id id' : ℕ} (h : id' ≠ id) (f : ρ → ρ) :
    (t.modify id f).get? id' = t.get? id' := by simp [get?_modify, h]

theorem modify_modify (t : Table ρ) (id : ℕ) (f g : ρ → ρ) :
    (t.modify id f).modify id g = t.modify id (g ∘ f) := by
  simp only [modify, updateWhere, List.map_map, mk.injEq]
  refine List.map_congr_left fun r _ => ?_
  by_cases h : r.1 = id <;> simp [h]

section ModifyAll

variable {α : Type v} {k : α → ℕ} {f : α → ρ → ρ}

@[simp] theorem modifyAll_nil (t : Table ρ) : t.modifyAll k f [] = t := rfl

theorem modifyAll_append (t : Table ρ) (xs ys : List α) :
    t.modifyAll k f (xs ++ ys) = (t.modifyAll k f xs).modifyAll k f ys :=
  List.foldl_append ..

theorem modifyAll_concat (t : Table ρ) (xs : List α) (x : α) :
    t.modifyAll k f (xs ++ [x]) = (t.modifyAll k f xs).modify (k x) (f x) := by
  rw [modifyAll_append]
  rfl

theorem get?_modifyAll_of_notMem (t : Table ρ) {xs : List α} {id : ℕ}
    (h : id ∉ xs.map k) : (t.modifyAll k f xs).get? id = t.get? id := by
  induction xs generalizing t with
  | nil => rfl
  | cons x xs ih =>
      obtain ⟨hx, hxs⟩ := not_or.mp (mt List.mem_cons.mpr h)
      rw [modifyAll, List.foldl_cons, ← modifyAll, ih _ hxs, get?_modify_of_ne t hx]

theorem get?_modifyAll (t : Table ρ) {xs : List α} (hxs : (xs.map k).Nodup) {x : α}
    (hx : x ∈ xs) : (t.modifyAll k f xs).get? (k x) = (t.get? (k x)).map (f x) := by
  induction xs generalizing t with
  | nil => cases hx
  | cons y xs ih =>
      obtain ⟨hy, hxs⟩ := List.nodup_cons.mp hxs
      rw [modifyAll, List.foldl_cons, ← modifyAll]
      rcases List.mem_cons.mp hx with rfl | hx
      · rw [get?_modifyAll_of_notMem _ hy, get?_modify_self]
      · have hne : k x ≠ k y := fun heq => hy (heq ▸ List.mem_map_of_mem hx)
        rw [ih _ hxs hx, get?_modify_of_ne t hne]

end ModifyAll

theorem get?_deleteWhere (t : Table ρ) (p : ℕ → ρ → Bool) (id : ℕ) :
    (t.deleteWhere p).get? id = (t.get? id).filter fun r => !p id r := by
  refine get?_eq fun r' => ?_
  simp only [deleteWhere, List.mem_filter, mem_rows, Option.filter_eq_some_iff]

theorem any_eq_true {t : Table ρ} {p : ℕ → ρ → Bool} :
    t.any p = true ↔ ∃ id r, t.get? id = some r ∧ p id r = true := by
  simp only [any, List.any_eq_true, Prod.exists, mem_rows]

theorem any_eq_false {t : Table ρ} {p : ℕ → ρ → Bool} :
    t.any p = false ↔ ∀ id r, t.get? id = some r → p id r = false := by
  rw [Bool.eq_false_iff, Ne, any_eq_true]
  push Not
  simp only [Bool.not_eq_true, ne_eq]

theorem find?_eq_some {t : Table ρ} {p : ℕ → ρ → Bool} {id : ℕ} {r : ρ}
    (h : t.find? p = some (id, r)) : t.get? id = some r ∧ p id r = true := by
  have hp := List.find?_some h
  exact ⟨mem_rows.mp (List.mem_of_find?_eq_some h), hp⟩

theorem find?_eq_none {t : Table ρ} {p : ℕ → ρ → Bool} :
    t.find? p = none ↔ ∀ id r, t.get? id = some r → p id r = false := by
  simp only [find?, List.find?_eq_none, Prod.forall, mem_rows, Bool.not_eq_true]

/-- An update of no row. -/
theorem updateWhere_false (t : Table ρ) (f : ρ → ρ) : t.updateWhere (fun _ _ => false) f = t := by
  simp only [updateWhere, Bool.false_eq_true, if_false, List.map_id']

theorem mem_keysWhere {t : Table ρ} {p : ℕ → ρ → Bool} {id : ℕ} :
    id ∈ t.keysWhere p ↔ ∃ r, t.get? id = some r ∧ p id r = true := by
  simp only [keysWhere, List.mem_map, List.mem_filter, Prod.exists, mem_rows, exists_and_right,
    exists_eq_right]

theorem nodup_keysWhere (t : Table ρ) (p : ℕ → ρ → Bool) : (t.keysWhere p).Nodup :=
  t.nodup.sublist (List.filter_sublist.map _)

/-- Where more than one row satisfies a condition, one of them is not that of a given key. -/
theorem exists_ne_of_one_lt {t : Table ρ} {p : ℕ → ρ → Bool} (h : 1 < (t.keysWhere p).length)
    (id : ℕ) : ∃ i r, i ≠ id ∧ t.get? i = some r ∧ p i r = true := by
  by_contra hnone
  have hall : ∀ i ∈ t.keysWhere p, i = id := by
    intro i hi
    by_contra hne
    obtain ⟨r, hr, hp⟩ := mem_keysWhere.mp hi
    exact hnone ⟨i, r, hne, hr, hp⟩
  have hnodup := t.nodup_keysWhere p
  rw [List.eq_replicate_of_mem hall, List.nodup_replicate] at hnodup
  omega

@[simp] theorem insertAll_nil (t : Table ρ) : t.insertAll [] = t := rfl

theorem insertAll_append (t : Table ρ) (new more : List (ℕ × ρ)) :
    t.insertAll (new ++ more) = (t.insertAll new).insertAll more := List.foldl_append ..

theorem insertAll_concat (t : Table ρ) (new : List (ℕ × ρ)) (id : ℕ) (r : ρ) :
    t.insertAll (new ++ [(id, r)]) = (t.insertAll new).insert id r := by
  rw [insertAll_append]
  rfl

/-- New rows under distinct new keys join the old ones. -/
theorem get?_insertAll (t : Table ρ) {new : List (ℕ × ρ)} (hnew : (new.map Prod.fst).Nodup)
    (id : ℕ) : (t.insertAll new).get? id = (new.lookup id <|> t.get? id) := by
  induction new generalizing t with
  | nil => rfl
  | cons x new ih =>
      obtain ⟨i, a⟩ := x
      obtain ⟨hi, hnew⟩ := List.nodup_cons.mp hnew
      rw [insertAll, List.foldl_cons, ← insertAll, ih _ hnew, get?_insert]
      by_cases h : id = i
      · subst h
        have hno : new.lookup id = none := by
          refine List.lookup_eq_none_iff.mpr fun x hx => ?_
          have hne : id ≠ x.1 := fun heq => hi (List.mem_map.mpr ⟨x, hx, heq.symm⟩)
          simpa using hne
        simp [hno]
      · simp [List.lookup_cons, h, beq_eq_false_iff_ne.mpr h]

theorem get?_insertAll_eq_some (t : Table ρ) {new : List (ℕ × ρ)}
    (hnew : (new.map Prod.fst).Nodup) (hfresh : ∀ x ∈ new, t.get? x.1 = none) {id : ℕ}
    {r : ρ} : (t.insertAll new).get? id = some r ↔ (id, r) ∈ new ∨ t.get? id = some r := by
  rw [get?_insertAll t hnew, ← lookup_eq_some hnew]
  cases hl : new.lookup id with
  | some a =>
      have hnone : t.get? id = none := hfresh _ ((lookup_eq_some hnew).mp hl)
      simp [hnone]
  | none => simp

end Table

end ReadCommitted
