import BindPlane.Diff.EditGraph
import BindPlane.Devices.Cron

/-!
# Differences of two configurations

`DiffLines` aligns two configurations and shows what changed as hunks.

**Panics.**  `none` is a run-time panic: `goIndex`, `goStore` and `goSlice` are the accesses of the
source, on indices that may be negative.

**Loops.**  The loops over the common ends and over a diagonal advance while two lines agree, which
is what `agree` and `run` count.  The loop of `myers` over `d` has as much fuel as it may run, and
the loop of `backtrack` goes down with `d`.

**Integers.**  An `int` has 64 bits.  The bounds of a hunk are computed from the number of context
lines, and wrap.

**Two layers.**  The functions here are the algorithm as it is written, with its arrays, its offsets
and its limit on the number of edits.  What a shortest edit script is, is stated in
`BindPlane.Diff.EditGraph` of lists over any type; that the algorithm finds one is shown in
`BindPlane.Release.Alignment`, and that the hunks are a patch in `BindPlane.Release.Hunks`.

**Source.**  What is modelled here is in `internal/release/diff.go`.
-/

namespace BindPlane.ConfigDiff

open Diff

/-! ## Slices -/

/-- `l[i]`. -/
def goIndex {α : Type} (l : List α) (i : ℤ) : Option α := if i < 0 then none else l[i.toNat]?

/-- `l[i] = v`. -/
def goStore {α : Type} (l : List α) (i : ℤ) (v : α) : Option (List α) :=
  if 0 ≤ i ∧ i < l.length then some (l.set i.toNat v) else none

/-- `l[lo:hi]`. -/
def goSlice {α : Type} (l : List α) (lo hi : ℤ) : Option (List α) :=
  if 0 ≤ lo ∧ lo ≤ hi ∧ hi ≤ l.length then some ((l.take hi.toNat).drop lo.toNat) else none

/-! ## Reports -/

/-- `diffOp`: `=` keeps, `-` deletes and `+` inserts a line. -/
abbrev DiffOp := Edit String

inductive LineKind
  | context | add | remove
  deriving DecidableEq

structure DiffLine where
  kind : LineKind
  text : String
  deriving DecidableEq

structure DiffHunk where
  oldStart : ℕ
  oldLines : ℕ
  newStart : ℕ
  newLines : ℕ
  lines : List DiffLine
  deriving DecidableEq

structure LineDiff where
  added : ℕ
  removed : ℕ
  hunks : List DiffHunk
  replaced : Bool
  deriving DecidableEq

/-! ## Myers -/

/-- `maxDiffEdits`. -/
def maxDiffEdits : ℕ := 2000

/-- The furthest point of diagonal `k` comes from the diagonal above: the condition that `myers`
and `backtrack` share. -/
def fromAbove (prev : List ℤ) (d k : ℤ) : Option Bool :=
  if k = -d then some true
  else if k = d then some false
  else do
    let left ← goIndex prev (k - 1 + d - 1)
    let right ← goIndex prev (k + 1 + d - 1)
    some (left < right)

/-- The `switch` of `myers`. -/
def startOf (prev : List ℤ) (d k : ℤ) : Option ℤ :=
  if d = 0 then some 0
  else do
    if ← fromAbove prev d k then goIndex prev (k + 1 + d - 1)
    else return (← goIndex prev (k - 1 + d - 1)) + 1

/-- The loop along a diagonal. -/
def slide (a b : List String) (x y : ℤ) : Option (ℤ × ℤ) :=
  if x < a.length ∧ y < b.length then
    if x < 0 ∨ y < 0 then none
    else some (x + run a b x.toNat y.toNat, y + run a b x.toNat y.toNat)
  else some (x, y)

/-- The diagonals of `d` edits: `for k := -d; k <= d; k += 2`. -/
def diagonals (d : ℕ) : List ℤ := (List.range' 0 (d + 1)).map fun j : ℕ => 2 * (j : ℤ) - d

/-- The loop over the diagonals: the row, and whether the end of both lists was reached. -/
def sweep (a b : List String) (prev : List ℤ) (d : ℕ) : List ℤ → List ℤ → Option (List ℤ × Bool)
  | [], cur => some (cur, false)
  | k :: ks, cur => do
      let x₀ ← startOf prev d k
      let (x, y) ← slide a b x₀ (x₀ - k)
      let cur ← goStore cur (k + d) x
      if a.length ≤ x ∧ b.length ≤ y then some (cur, true) else sweep a b prev d ks cur

/-- A loop that emits an unchanged line in each round.  Each is put in front of the others: the
source appends, and reverses at the end. -/
def unwind (a : List String) : ℕ → ℤ → ℤ → List DiffOp → Option (ℤ × ℤ × List DiffOp)
  | 0, x, y, ops => some (x, y, ops)
  | n + 1, x, y, ops => do
      let line ← goIndex a (x - 1)
      unwind a n (x - 1) (y - 1) (⟨.keep, line⟩ :: ops)

/-- The loop of `backtrack`, and its last part.

The trace is walked from its last round to its first.  An index beyond a slice would be a panic of
the source, and is `none` here. -/
def backtrackFrom (a b : List String) (trace : List (List ℤ)) :
    ℕ → ℤ → ℤ → List DiffOp → Option (List DiffOp)
  | 0, x, y, ops => do
      let (_, _, ops) ← unwind a (min x y).toNat x y ops
      some ops
  | d + 1, x, y, ops => do
      let prev ← goIndex trace d
      let k := x - y
      let prevK := if ← fromAbove prev (d + 1) k then k + 1 else k - 1
      let prevX ← goIndex prev (prevK + (d + 1) - 1)
      let prevY := prevX - prevK
      let (x, y, ops) ← unwind a (min (x - prevX) (y - prevY)).toNat x y ops
      if x = prevX then
        let line ← goIndex b (y - 1)
        backtrackFrom a b trace d x (y - 1) (⟨.insert, line⟩ :: ops)
      else
        let line ← goIndex a (x - 1)
        backtrackFrom a b trace d (x - 1) y (⟨.delete, line⟩ :: ops)

/-- `backtrack`. -/
def backtrack (a b : List String) (trace : List (List ℤ)) : Option (List DiffOp) :=
  backtrackFrom a b trace (trace.length - 1) a.length b.length []

/-- The loop of `myers` over `d`, with the rows so far: `none` inside if it gives up. -/
def search (a b : List String) : ℕ → ℕ → List (List ℤ) → List ℤ → Option (Option (List DiffOp))
  | 0, _, _, _ => some none
  | fuel + 1, d, trace, prev => do
      let (cur, found) ← sweep a b prev d (diagonals d) (List.replicate (2 * d + 1) 0)
      if found then
        let ops ← backtrack a b (trace ++ [cur])
        some (some ops)
      else search a b fuel (d + 1) (trace ++ [cur]) cur

/-- `myers`. -/
def myers (a b : List String) (maxD : ℕ) : Option (Option (List DiffOp)) :=
  if a.length = 0 ∧ b.length = 0 then some (some []) else search a b (maxD + 1) 0 [] []

/-! ## Hunks -/

/-- `oldNo` -/
def oldNo : ℕ → List DiffOp → List ℕ
  | _, [] => []
  | o, op :: ops => o :: oldNo (if op.change ≠ .insert then o + 1 else o) ops

/-- `newNo` -/
def newNo : ℕ → List DiffOp → List ℕ
  | _, [] => []
  | n, op :: ops => n :: newNo (if op.change ≠ .delete then n + 1 else n) ops

/-- `changes`: the places of the lines that are not unchanged. -/
def changes : ℕ → List DiffOp → List ℕ
  | _, [] => []
  | i, op :: ops => if op.change ≠ .keep then i :: changes (i + 1) ops else changes (i + 1) ops

/-- The loops over `changes`: the first and the last change of each hunk. -/
def groupFrom (limit : ℤ) (first last : ℕ) : List ℕ → List (ℕ × ℕ)
  | [] => [(first, last)]
  | change :: rest =>
      if (change : ℤ) - last ≤ limit then groupFrom limit first change rest
      else (first, last) :: groupFrom limit change change rest

def groups (limit : ℤ) : List ℕ → List (ℕ × ℕ)
  | [] => []
  | change :: rest => groupFrom limit change change rest

/-- A line of a hunk. -/
def lineOf (op : DiffOp) : DiffLine :=
  match op.change with
  | .keep => ⟨.context, op.item⟩
  | .delete => ⟨.remove, op.item⟩
  | .insert => ⟨.add, op.item⟩

/-- The hunk around some changes. -/
def hunkOf (ops : List DiffOp) (context : ℤ) (group : ℕ × ℕ) : Option DiffHunk := do
  let start := max 0 (wrapInt (group.1 - context))
  let stop := min ((ops.length : ℤ) - 1) (wrapInt (group.2 + context))
  let oldStart ← goIndex (oldNo 1 ops) start
  let newStart ← goIndex (newNo 1 ops) start
  let part ← goSlice ops start (stop + 1)
  some {
    oldStart := oldStart
    oldLines := part.countP (·.change ≠ .insert)
    newStart := newStart
    newLines := part.countP (·.change ≠ .delete)
    lines := part.map lineOf }

/-- `buildHunks`. -/
def buildHunks (ops : List DiffOp) (context : ℤ) : Option (List DiffHunk) :=
  (groups (wrapInt (2 * context + 1)) (changes 0 ops)).mapM (hunkOf ops context)

/-! ## The two configurations -/

/-- The operations of `DiffLines`, and whether the lines were aligned. -/
def alignLines (a b : List String) : Option (List DiffOp × Bool) := do
  let front := agree a b
  let back := agree (a.drop front).reverse (b.drop front).reverse
  let middleA ← goSlice a front (a.length - back)
  let middleB ← goSlice b front (b.length - back)
  let found ← myers middleA middleB maxDiffEdits
  let middle := found.getD (each .delete middleA ++ each .insert middleB)
  let head ← goSlice a 0 front
  let tail ← goSlice a (a.length - back) a.length
  some (each .keep head ++ middle ++ each .keep tail, found.isSome)

/-- `DiffLines`. -/
def diffLines (a b : List String) (context : ℤ) : Option LineDiff := do
  let (ops, ok) ← alignLines a b
  let hunks ← buildHunks ops context
  some {
    added := ops.countP (·.change = .insert)
    removed := ops.countP (·.change = .delete)
    hunks := hunks
    replaced := !ok }

end BindPlane.ConfigDiff
