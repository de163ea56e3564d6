import BindPlane.Cron.Fields
import BindPlane.Release.Alignment

/-!
# The hunks of `DiffLines`

**Cuts.**  `Cut o n ops hunks` says that the operations are unchanged lines and hunks in turn, with
the line numbers of both lists counted along.  That the hunks are a patch follows from it by
induction (`Cut.old_lines`, `Cut.new_lines`, `Cut.patch`, `Cut.chain`, `Cut.changed`).

**Groups.**  Changes with at most `2 * context + 1` between them share a hunk.  Two groups are
further apart, so the context lines of one end before those of the other begin, and one unchanged
line is left between them: `groupFrom_cut` builds the cut group by group.

**Wrapping.**  From `2 ^ 62` context lines on, `2 * context + 1` is not that number any more, and
every change gets a hunk of its own (`diffLines_overlap`).
-/

namespace BindPlane.ConfigDiff

open Diff

/-! ## Patches -/

/-- The lines of the old list that a hunk shows. -/
def DiffHunk.old (h : DiffHunk) : List String := (h.lines.filter (·.kind ≠ .add)).map (·.text)

/-- The lines of the new list that a hunk shows. -/
def DiffHunk.new (h : DiffHunk) : List String := (h.lines.filter (·.kind ≠ .remove)).map (·.text)

/-- The old lines of each hunk are replaced by its new lines, in lines numbered from `o` on. -/
def patch : ℕ → List String → List DiffHunk → List String
  | _, lines, [] => lines
  | o, lines, h :: hunks =>
      lines.take (h.oldStart - o) ++ h.new ++
        patch (h.oldStart + h.oldLines) (lines.drop (h.oldStart - o + h.oldLines)) hunks

/-- One hunk follows another, with unchanged lines between them. -/
def Follows (a b : List String) (h h' : DiffHunk) : Prop :=
  ∃ lines, lines ≠ [] ∧ h'.oldStart = h.oldStart + h.oldLines + lines.length ∧
    h'.newStart = h.newStart + h.newLines + lines.length ∧
    (a.drop (h.oldStart + h.oldLines - 1)).take lines.length = lines ∧
    (b.drop (h.newStart + h.newLines - 1)).take lines.length = lines

/-- A report is a patch from one list of lines to another.

The last field says what a patch is for: applied to the old lines it gives the new ones.  The others
are what a reader of the page relies on, that the numbers in the headings are those of the lines
below them and that two hunks do not share a line. -/
structure IsPatch (a b : List String) (d : LineDiff) : Prop where
  /-- The hunks are in order and apart. -/
  chain : d.hunks.IsChain (Follows a b)
  old_lines : ∀ h ∈ d.hunks, 1 ≤ h.oldStart ∧ h.old.length = h.oldLines ∧
    h.old = (a.drop (h.oldStart - 1)).take h.oldLines
  new_lines : ∀ h ∈ d.hunks, 1 ≤ h.newStart ∧ h.new.length = h.newLines ∧
    h.new = (b.drop (h.newStart - 1)).take h.newLines
  patch : patch 1 a d.hunks = b
  /-- The changed lines of a script are the changed lines of the hunks, one after another. -/
  changed : ∃ ops, source ops = a ∧ target ops = b ∧
    (ops.filter (·.change ≠ .keep)).map lineOf =
      d.hunks.flatMap fun h => h.lines.filter (·.kind ≠ .context)
  added : d.added = (d.hunks.map fun h => h.lines.countP (·.kind = .add)).sum
  removed : d.removed = (d.hunks.map fun h => h.lines.countP (·.kind = .remove)).sum

/-! ## Cuts -/

/-- Unchanged lines and hunks in turn; the first line has number `o` in the old list and `n` in the
new one, and no hunk begins where another ends.

Adjoining hunks would be one hunk of a unified diff, which is why there is a line at least between
any two. -/
inductive Cut : ℕ → ℕ → List DiffOp → List DiffHunk → Prop
  | rest {o n : ℕ} {ops : List DiffOp} : (∀ op ∈ ops, op.change = .keep) → Cut o n ops []
  | hunk {o n : ℕ} {gap part ops : List DiffOp} {hunks : List DiffHunk} :
      (∀ op ∈ gap, op.change = .keep) →
      (∀ h ∈ hunks.head?, o + gap.length + (source part).length < h.oldStart) →
      Cut (o + gap.length + (source part).length) (n + gap.length + (target part).length) ops
        hunks →
      Cut o n (gap ++ (part ++ ops))
        (⟨o + gap.length, (source part).length, n + gap.length, (target part).length,
          part.map lineOf⟩ :: hunks)

section Lines

theorem source_keeps {ops : List DiffOp} (h : ∀ op ∈ ops, op.change = .keep) :
    source ops = ops.map (·.item) := by
  unfold source
  rw [List.filter_eq_self.mpr fun op hop => by rw [h op hop]; rfl]

theorem target_keeps {ops : List DiffOp} (h : ∀ op ∈ ops, op.change = .keep) :
    target ops = ops.map (·.item) := by
  unfold target
  rw [List.filter_eq_self.mpr fun op hop => by rw [h op hop]; rfl]

theorem old_lineOf (ops : List DiffOp) :
    ((ops.map lineOf).filter (·.kind ≠ .add)).map (·.text) = source ops := by
  induction ops with
  | nil => rfl
  | cons op ops ih =>
      obtain ⟨change, line⟩ := op
      cases change with
      | keep | delete => exact congrArg (line :: ·) ih
      | insert => exact ih

theorem new_lineOf (ops : List DiffOp) :
    ((ops.map lineOf).filter (·.kind ≠ .remove)).map (·.text) = target ops := by
  induction ops with
  | nil => rfl
  | cons op ops ih =>
      obtain ⟨change, line⟩ := op
      cases change with
      | keep | insert => exact congrArg (line :: ·) ih
      | delete => exact ih

theorem changed_lineOf (ops : List DiffOp) :
    (ops.map lineOf).filter (·.kind ≠ .context) = (ops.filter (·.change ≠ .keep)).map lineOf := by
  induction ops with
  | nil => rfl
  | cons op ops ih =>
      obtain ⟨change, line⟩ := op
      cases change with
      | keep => exact ih
      | delete => exact congrArg (⟨.remove, line⟩ :: ·) ih
      | insert => exact congrArg (⟨.add, line⟩ :: ·) ih

end Lines

namespace Cut

variable {o n : ℕ} {ops : List DiffOp} {hunks : List DiffHunk} {a b : List String}

/-- Behind a gap and a hunk, the lists go on. -/
theorem drop_rest {l gap part rest : List String} {i j k : ℕ} (h : gap ++ (part ++ rest) = l.drop i)
    (hj : gap.length = j) (hk : part.length = k) :
    l.drop (i + j) = part ++ rest ∧ l.drop (i + j + k) = rest := by
  subst hj hk
  have hpart : l.drop (i + gap.length) = part ++ rest := by
    rw [← List.drop_drop, ← h, List.drop_left]
  refine ⟨hpart, ?_⟩
  rw [← List.drop_drop, hpart, List.drop_left]

theorem old_lines (h : Cut o n ops hunks) (ho : 1 ≤ o) (ha : source ops = a.drop (o - 1)) :
    ∀ h ∈ hunks, 1 ≤ h.oldStart ∧ h.old.length = h.oldLines ∧
      h.old = (a.drop (h.oldStart - 1)).take h.oldLines := by
  induction h with
  | rest => exact fun _ hmem => absurd hmem List.not_mem_nil
  | @hunk o n gap part ops hunks hgap hapart hcut ih =>
      rw [source_append, source_append] at ha
      have hlength : (source gap).length = gap.length := by rw [source_keeps hgap, List.length_map]
      obtain ⟨hpart, hrest⟩ := drop_rest ha hlength rfl
      intro h hmem
      obtain rfl | hmem := List.mem_cons.mp hmem
      · refine ⟨Nat.le_add_right_of_le ho, ?_, ?_⟩
        · exact congrArg List.length (old_lineOf part)
        · refine (old_lineOf part).trans ?_
          dsimp only
          rw [show o + gap.length - 1 = o - 1 + gap.length by omega, hpart, List.take_left]
      · refine ih (by omega) ?_ h hmem
        rw [← hrest, show o + gap.length + (source part).length - 1 =
          o - 1 + gap.length + (source part).length by omega]

theorem new_lines (h : Cut o n ops hunks) (hn : 1 ≤ n) (hb : target ops = b.drop (n - 1)) :
    ∀ h ∈ hunks, 1 ≤ h.newStart ∧ h.new.length = h.newLines ∧
      h.new = (b.drop (h.newStart - 1)).take h.newLines := by
  induction h with
  | rest => exact fun _ hmem => absurd hmem List.not_mem_nil
  | @hunk o n gap part ops hunks hgap hapart hcut ih =>
      rw [target_append, target_append] at hb
      have hlength : (target gap).length = gap.length := by rw [target_keeps hgap, List.length_map]
      obtain ⟨hpart, hrest⟩ := drop_rest hb hlength rfl
      intro h hmem
      obtain rfl | hmem := List.mem_cons.mp hmem
      · refine ⟨Nat.le_add_right_of_le hn, ?_, ?_⟩
        · exact congrArg List.length (new_lineOf part)
        · refine (new_lineOf part).trans ?_
          dsimp only
          rw [show n + gap.length - 1 = n - 1 + gap.length by omega, hpart, List.take_left]
      · refine ih (by omega) ?_ h hmem
        rw [← hrest, show n + gap.length + (target part).length - 1 =
          n - 1 + gap.length + (target part).length by omega]

theorem patch (h : Cut o n ops hunks) : patch o (source ops) hunks = target ops := by
  induction h with
  | rest hkeep => exact (source_keeps hkeep).trans (target_keeps hkeep).symm
  | @hunk o n gap part ops hunks hgap hapart hcut ih =>
      have hlength : (source gap).length = gap.length := by rw [source_keeps hgap, List.length_map]
      have hsame : source gap = target gap := (source_keeps hgap).trans (target_keeps hgap).symm
      obtain ⟨hpart, hrest⟩ := drop_rest (l := source (gap ++ (part ++ ops))) (i := 0)
        (by rw [source_append, source_append]; rfl) hlength rfl
      rw [Nat.zero_add] at hrest
      unfold ConfigDiff.patch
      dsimp only
      rw [Nat.add_sub_cancel_left, hrest, ih]
      have htake : (source (gap ++ (part ++ ops))).take gap.length = target gap := by
        rw [source_append, ← hlength, List.take_left, hsame]
      have hnew : (DiffHunk.mk (o + gap.length) (source part).length (n + gap.length)
          (target part).length (part.map lineOf)).new = target part := new_lineOf part
      rw [htake, hnew, target_append, target_append, List.append_assoc]

theorem chain (h : Cut o n ops hunks) (ho : 1 ≤ o) (hn : 1 ≤ n) (ha : source ops = a.drop (o - 1))
    (hb : target ops = b.drop (n - 1)) : hunks.IsChain (Follows a b) := by
  induction h with
  | rest => exact .nil
  | @hunk o n gap part ops hunks hgap hapart hcut ih =>
      rw [source_append, source_append] at ha
      rw [target_append, target_append] at hb
      have hlengthA : (source gap).length = gap.length := by rw [source_keeps hgap, List.length_map]
      have hlengthB : (target gap).length = gap.length := by rw [target_keeps hgap, List.length_map]
      obtain ⟨-, hrestA⟩ := drop_rest ha hlengthA rfl
      obtain ⟨-, hrestB⟩ := drop_rest hb hlengthB rfl
      rw [show o - 1 + gap.length + (source part).length =
        o + gap.length + (source part).length - 1 by omega] at hrestA
      rw [show n - 1 + gap.length + (target part).length =
        n + gap.length + (target part).length - 1 by omega] at hrestB
      have hrest := ih (by omega) (by omega) hrestA.symm hrestB.symm
      cases hcut with
      | rest => exact .singleton _
      | @hunk _ _ gap' part' ops' hunks' hgap' hapart' hcut' =>
          refine .cons_cons ⟨gap'.map (·.item), ?_, ?_, ?_, ?_, ?_⟩ hrest
          · have hlt := hapart _ rfl
            dsimp only at hlt
            rintro hnil
            rw [List.map_eq_nil_iff.mp hnil] at hlt
            exact absurd hlt (Nat.lt_irrefl _)
          · rw [List.length_map]
          · rw [List.length_map]
          · dsimp only
            rw [hrestA, source_append, source_keeps hgap', List.take_left]
          · dsimp only
            rw [hrestB, target_append, target_keeps hgap', List.take_left]

theorem changed (h : Cut o n ops hunks) :
    (ops.filter (·.change ≠ .keep)).map lineOf =
      hunks.flatMap fun h => h.lines.filter (·.kind ≠ .context) := by
  have hnone {l : List DiffOp} (h : ∀ op ∈ l, op.change = .keep) :
      l.filter (·.change ≠ .keep) = [] :=
    List.filter_eq_nil_iff.mpr fun op hop hne => of_decide_eq_true hne (h op hop)
  induction h with
  | rest hkeep => rw [hnone hkeep]; rfl
  | hunk hgap hapart hcut ih =>
      rw [List.filter_append, List.filter_append, hnone hgap, List.nil_append, List.map_append, ih,
        List.flatMap_cons, changed_lineOf]

/-- The changed lines of one kind are counted hunk by hunk. -/
theorem count (h : Cut o n ops hunks) {change : Change} {kind : LineKind} (hne : change ≠ .keep)
    (hkind : ∀ op, (lineOf op).kind = kind ↔ op.change = change) :
    ops.countP (·.change = change) =
      (hunks.map fun h => h.lines.countP (·.kind = kind)).sum := by
  have hnone {l : List DiffOp} (h : ∀ op ∈ l, op.change = .keep) :
      l.countP (·.change = change) = 0 :=
    List.countP_eq_zero.mpr fun op hop heq => hne ((of_decide_eq_true heq).symm.trans (h op hop))
  induction h with
  | rest hkeep => exact hnone hkeep
  | @hunk o n gap part ops hunks hgap hapart hcut ih =>
      rw [List.countP_append, List.countP_append, hnone hgap, Nat.zero_add, ih, List.map_cons,
        List.sum_cons, List.countP_map]
      congr 2
      funext op
      exact decide_eq_decide.mpr (hkind op).symm

end Cut

/-! ## Numbers of lines -/

section Numbers

variable {ops : List DiffOp} {p q : ℕ}

/-- The number of the next line of the old list, behind `p` operations. -/
def oldAt (ops : List DiffOp) (p : ℕ) : ℕ := 1 + (source (ops.take p)).length

/-- The number of the next line of the new list, behind `p` operations. -/
def newAt (ops : List DiffOp) (p : ℕ) : ℕ := 1 + (target (ops.take p)).length

theorem getElem?_oldNo (o : ℕ) (h : p < ops.length) :
    (oldNo o ops)[p]? = some (o + (source (ops.take p)).length) := by
  induction ops generalizing o p with
  | nil => exact absurd h (Nat.not_lt_zero p)
  | cons op ops ih =>
      cases p with
      | zero => rfl
      | succ p =>
          refine (ih _ (Nat.lt_of_succ_lt_succ h)).trans ?_
          obtain ⟨change, line⟩ := op
          rw [List.take_succ_cons]
          cases change with
          | keep | delete =>
              show some (o + 1 + _) = some (o + ((source (ops.take p)).length + 1))
              rw [Nat.add_assoc, Nat.add_comm 1]
          | insert => rfl

theorem getElem?_newNo (n : ℕ) (h : p < ops.length) :
    (newNo n ops)[p]? = some (n + (target (ops.take p)).length) := by
  induction ops generalizing n p with
  | nil => exact absurd h (Nat.not_lt_zero p)
  | cons op ops ih =>
      cases p with
      | zero => rfl
      | succ p =>
          refine (ih _ (Nat.lt_of_succ_lt_succ h)).trans ?_
          obtain ⟨change, line⟩ := op
          rw [List.take_succ_cons]
          cases change with
          | keep | insert =>
              show some (n + 1 + _) = some (n + ((target (ops.take p)).length + 1))
              rw [Nat.add_assoc, Nat.add_comm 1]
          | delete => rfl

/-- The operations from `p` to `q`. -/
def between (ops : List DiffOp) (p q : ℕ) : List DiffOp := (ops.take q).drop p

theorem drop_between (h : p ≤ q) (hq : q ≤ ops.length) :
    ops.drop p = between ops p q ++ ops.drop q := by
  have hlength : (ops.take q).length = q := by rw [List.length_take, Nat.min_eq_left hq]
  conv_lhs => rw [← List.take_append_drop q ops, List.drop_append, hlength,
    Nat.sub_eq_zero_of_le h, List.drop_zero]
  rfl

theorem oldAt_add (h : p ≤ q) : oldAt ops q = oldAt ops p + (source (between ops p q)).length := by
  have htake : ops.take q = ops.take p ++ between ops p q := by
    have h := List.take_append_drop p (ops.take q)
    rw [List.take_take, Nat.min_eq_left ‹p ≤ q›] at h
    exact h.symm
  unfold oldAt
  rw [htake, source_append, List.length_append, Nat.add_assoc]

theorem newAt_add (h : p ≤ q) : newAt ops q = newAt ops p + (target (between ops p q)).length := by
  have htake : ops.take q = ops.take p ++ between ops p q := by
    have h := List.take_append_drop p (ops.take q)
    rw [List.take_take, Nat.min_eq_left ‹p ≤ q›] at h
    exact h.symm
  unfold newAt
  rw [htake, target_append, List.length_append, Nat.add_assoc]

/-- No line changes from `p` to `q`. -/
def Quiet (ops : List DiffOp) (p q : ℕ) : Prop := ∀ op ∈ between ops p q, op.change = .keep

theorem mem_between {op : DiffOp} :
    op ∈ between ops p q ↔ ∃ i, p ≤ i ∧ i < q ∧ ops[i]? = some op := by
  unfold between
  rw [List.mem_iff_getElem?]
  constructor
  · rintro ⟨i, hi⟩
    rw [List.getElem?_drop, List.getElem?_take] at hi
    split_ifs at hi with hlt
    exact ⟨p + i, Nat.le_add_right p i, hlt, hi⟩
  · rintro ⟨i, hp, hq, hi⟩
    refine ⟨i - p, ?_⟩
    rw [List.getElem?_drop, Nat.add_sub_cancel' hp, List.getElem?_take, if_pos hq, hi]

theorem Quiet.mono {p' q' : ℕ} (h : Quiet ops p q) (hp : p ≤ p') (hq : q' ≤ q) :
    Quiet ops p' q' := by
  intro op hop
  obtain ⟨i, hi, hi', hget⟩ := mem_between.mp hop
  exact h op (mem_between.mpr ⟨i, Nat.le_trans hp hi, Nat.lt_of_lt_of_le hi' hq, hget⟩)

theorem Quiet.oldAt (h : Quiet ops p q) (hpq : p ≤ q) (hq : q ≤ ops.length) :
    oldAt ops q = oldAt ops p + (q - p) ∧ (between ops p q).length = q - p := by
  have hlength : (between ops p q).length = q - p := by
    unfold between
    rw [List.length_drop, List.length_take, Nat.min_eq_left hq]
  rw [oldAt_add hpq, source_keeps h, List.length_map, hlength]
  exact ⟨rfl, rfl⟩

theorem Quiet.newAt (h : Quiet ops p q) (hpq : p ≤ q) (hq : q ≤ ops.length) :
    newAt ops q = newAt ops p + (q - p) := by
  rw [newAt_add hpq, target_keeps h, List.length_map, (h.oldAt hpq hq).2]

/-- The changes of a list, one after another. -/
theorem changes_cons {i c : ℕ} {cs : List ℕ} (h : changes i ops = c :: cs) :
    i ≤ c ∧ c - i < ops.length ∧ Quiet ops 0 (c - i) ∧
      cs = changes (c + 1) (ops.drop (c - i + 1)) := by
  induction ops generalizing i with
  | nil => contradiction
  | cons op ops ih =>
      unfold changes at h
      split_ifs at h with hop
      · obtain ⟨rfl, rfl⟩ := List.cons.inj h
        rw [Nat.sub_self]
        exact ⟨Nat.le_refl _, Nat.zero_lt_succ _, fun _ hmem => absurd hmem List.not_mem_nil, rfl⟩
      · obtain ⟨hle, hlt, hquiet, hcs⟩ := ih h
        have hsub : c - i = c - (i + 1) + 1 := by omega
        refine ⟨by omega, ?_, ?_, ?_⟩
        · rw [List.length_cons]
          omega
        · rw [hsub]
          intro op' hmem
          obtain rfl | hmem := List.mem_cons.mp (show op' ∈ op :: between ops 0 _ from hmem)
          · exact not_not.mp hop
          · exact hquiet op' hmem
        · rw [hsub]
          exact hcs

theorem changes_nil {i : ℕ} (h : changes i ops = []) : ∀ op ∈ ops, op.change = .keep := by
  induction ops generalizing i with
  | nil => exact fun _ hmem => absurd hmem List.not_mem_nil
  | cons op ops ih =>
      unfold changes at h
      split_ifs at h with hop
      intro op' hmem
      obtain rfl | hmem := List.mem_cons.mp hmem
      · exact not_not.mp hop
      · exact ih h op' hmem

end Numbers

/-! ## Building the hunks -/

section Build

variable {ops : List DiffOp} {context : ℕ}

/-- The hunk of the operations from `p` to `q`. -/
def hunkBetween (ops : List DiffOp) (p q : ℕ) : DiffHunk where
  oldStart := oldAt ops p
  oldLines := (source (between ops p q)).length
  newStart := newAt ops p
  newLines := (target (between ops p q)).length
  lines := (between ops p q).map lineOf

/-- Where nothing wraps, a group's hunk begins and ends `context` lines away from its changes, or
with the lists. -/
theorem hunkOf_spec (hcontext : context < 2 ^ 62) (hops : ops.length ≤ 2 ^ 62) {first last : ℕ}
    (hle : first ≤ last) (hlast : last < ops.length) :
    hunkOf ops context (first, last) =
      some (hunkBetween ops (first - context) (min ops.length (last + context + 1))) := by
  have hstart : max 0 (wrapInt ((first : ℤ) - context)) = ((first - context : ℕ) : ℤ) := by
    rw [Cron.wrapInt_of_fits (by omega) (by omega)]
    omega
  have hstop : min ((ops.length : ℤ) - 1) (wrapInt ((last : ℤ) + context)) + 1 =
      ((min ops.length (last + context + 1) : ℕ) : ℤ) := by
    rw [Cron.wrapInt_of_fits (by omega) (by omega)]
    omega
  have hold : goIndex (oldNo 1 ops) ((first - context : ℕ) : ℤ) =
      some (oldAt ops (first - context)) := by
    rw [goIndex_ofNat]
    exact getElem?_oldNo 1 (by omega)
  have hnew : goIndex (newNo 1 ops) ((first - context : ℕ) : ℤ) =
      some (newAt ops (first - context)) := by
    rw [goIndex_ofNat]
    exact getElem?_newNo 1 (by omega)
  have hpart : goSlice ops ((first - context : ℕ) : ℤ)
      ((min ops.length (last + context + 1) : ℕ) : ℤ) =
        some (between ops (first - context) (min ops.length (last + context + 1))) :=
    goSlice_ofNat (by omega) (Nat.min_le_left _ _)
  unfold hunkOf
  dsimp only
  rw [hstart, hstop, hold, hnew, hpart]
  simp only [Option.bind_eq_bind, Option.bind_some, hunkBetween, source, target,
    List.length_map, List.countP_eq_length_filter]

/-- A hunk with the unchanged lines in front of it, and a cut of the operations behind it. -/
theorem Cut.hunkBetween {p s e : ℕ} {hunks : List DiffHunk} (hps : p ≤ s) (hse : s ≤ e)
    (he : e ≤ ops.length) (hquiet : Quiet ops p s)
    (hapart : ∀ h ∈ hunks.head?, oldAt ops e < h.oldStart)
    (h : Cut (oldAt ops e) (newAt ops e) (ops.drop e) hunks) :
    Cut (oldAt ops p) (newAt ops p) (ops.drop p) (hunkBetween ops s e :: hunks) := by
  obtain ⟨hold, hlength⟩ := hquiet.oldAt hps (Nat.le_trans hse he)
  have hnew := hquiet.newAt hps (Nat.le_trans hse he)
  have hnext : oldAt ops e = oldAt ops s + _ := oldAt_add hse
  have hnext' : newAt ops e = newAt ops s + _ := newAt_add hse
  rw [drop_between hps (Nat.le_trans hse he), drop_between hse he]
  have hcut := @Cut.hunk (oldAt ops p) (newAt ops p) (between ops p s) (between ops s e)
    (ops.drop e) hunks hquiet
  rw [hlength, ← hold, ← hnew, ← hnext, ← hnext'] at hcut
  exact hcut hapart h

/-- The groups that are left, from a first and a last change on: `p` is where the hunk before has
ended. -/
theorem groupFrom_cut (hcontext : context < 2 ^ 62) (hops : ops.length ≤ 2 ^ 62) (rest : List ℕ)
    {p first last : ℕ} (hrest : rest = changes (last + 1) (ops.drop (last + 1)))
    (hp : p ≤ first - context) (hquiet : Quiet ops p first) (hle : first ≤ last)
    (hlast : last < ops.length) :
    ∃ hunks, (groupFrom (2 * context + 1) first last rest).mapM (hunkOf ops context) = some hunks ∧
      Cut (oldAt ops p) (newAt ops p) (ops.drop p) hunks ∧
      ∀ h ∈ hunks.head?, h.oldStart = oldAt ops (first - context) := by
  induction rest generalizing p first last with
  -- no change is left, so the hunk goes to the end of its context
  | nil =>
      have hkeep := changes_nil hrest.symm
      refine ⟨[ConfigDiff.hunkBetween ops (first - context) (min ops.length (last + context + 1))],
        ?_, ?_, ?_⟩
      · unfold groupFrom
        rw [List.mapM_cons, hunkOf_spec hcontext hops hle hlast]
        rfl
      · refine Cut.hunkBetween hp (by omega) (Nat.min_le_left _ _)
          (hquiet.mono (Nat.le_refl p) (Nat.sub_le _ _)) (fun h hmem => nomatch hmem) ?_
        refine .rest fun op hop => hkeep op ?_
        exact List.drop_subset_drop_left _ (by omega) hop
      · rintro h ⟨⟩
        rfl
  | cons change rest ih =>
      obtain ⟨hge, hlt, hbetween, hafter⟩ := changes_cons hrest.symm
      rw [List.length_drop] at hlt
      rw [List.drop_drop, show last + 1 + (change - (last + 1) + 1) = change + 1 by omega] at hafter
      have hquiet' : Quiet ops (last + 1) change := by
        intro op hop
        obtain ⟨i, hi, hi', hget⟩ := mem_between.mp hop
        refine hbetween op (mem_between.mpr ⟨i - (last + 1), Nat.zero_le _, by omega, ?_⟩)
        rw [List.getElem?_drop, Nat.add_sub_cancel' hi, hget]
      unfold groupFrom
      by_cases hnear : (change : ℤ) - last ≤ 2 * context + 1
      · -- the change is near enough to belong to this hunk
        rw [if_pos hnear]
        exact ih hafter hp hquiet (by omega) (by omega)
      · -- The change is so far away that its context begins behind the end of this hunk.
        rw [if_neg hnear]
        have hmin : min ops.length (last + context + 1) = last + context + 1 := by omega
        have hnext : Quiet ops (last + context + 1) change :=
          hquiet'.mono (by omega) (Nat.le_refl _)
        obtain ⟨hunks, hmap, hcut, hhead⟩ := ih (p := last + context + 1) hafter (by omega) hnext
          (Nat.le_refl change) (by omega)
        refine ⟨ConfigDiff.hunkBetween ops (first - context) (last + context + 1) :: hunks,
          ?_, ?_, ?_⟩
        · rw [List.mapM_cons, hunkOf_spec hcontext hops hle hlast, hmin, hmap]
          rfl
        · refine Cut.hunkBetween hp (by omega) (by omega)
            (hquiet.mono (Nat.le_refl p) (Nat.sub_le _ _)) (fun h hmem => ?_) hcut
          rw [hhead h hmem]
          have hstep := (hnext.mono (Nat.le_refl _) (Nat.sub_le change context)).oldAt (by omega)
            (by omega)
          omega
        · rintro h ⟨⟩
          rfl

/-- `buildHunks` cuts the operations into unchanged lines and hunks. -/
theorem buildHunks_spec (hcontext : context < 2 ^ 62) (hops : ops.length ≤ 2 ^ 62) :
    ∃ hunks, buildHunks ops context = some hunks ∧ Cut 1 1 ops hunks := by
  have hlimit : wrapInt (2 * (context : ℤ) + 1) = 2 * context + 1 :=
    Cron.wrapInt_of_fits (by omega) (by omega)
  unfold buildHunks groups
  rw [hlimit]
  cases hchanges : changes 0 ops with
  | nil => exact ⟨[], rfl, .rest (changes_nil hchanges)⟩
  | cons change rest =>
      obtain ⟨-, hlt, hquiet, hafter⟩ := changes_cons hchanges
      rw [Nat.sub_zero] at hlt hquiet hafter
      obtain ⟨hunks, hmap, hcut, -⟩ := groupFrom_cut hcontext hops rest (p := 0) hafter
        (Nat.zero_le _) hquiet (Nat.le_refl change) hlt
      exact ⟨hunks, hmap, hcut⟩

end Build

/-! ## Patches of `DiffLines` -/

section Claims

/-- The report, where nothing wraps: the operations are a script between the lists, and the hunks a
cut of them. -/
theorem diffLines_cut (a b : List String) {context : ℕ} (hcontext : context < 2 ^ 62)
    (hlength : a.length + b.length ≤ 2 ^ 62) :
    ∃ ops ok hunks, diffLines a b context = some {
        added := ops.countP (·.change = .insert)
        removed := ops.countP (·.change = .delete)
        hunks := hunks
        replaced := !ok } ∧
      source ops = a ∧ target ops = b ∧ Cut 1 1 ops hunks := by
  obtain ⟨ops, ok, halign, hsource, htarget, -⟩ := alignLines_spec a b
  have hops : ops.length ≤ 2 ^ 62 := by
    refine Nat.le_trans (length_le ops) ?_
    rw [hsource, htarget]
    exact hlength
  obtain ⟨hunks, hbuild, hcut⟩ := buildHunks_spec hcontext hops
  refine ⟨ops, ok, hunks, ?_, hsource, htarget, hcut⟩
  unfold diffLines
  rw [halign]
  simp only [Option.bind_eq_bind, Option.bind_some]
  rw [hbuild]
  rfl

/-- `DiffLines` returns a patch from one list of lines to the other, whether the lines were aligned
or replaced, as long as `2 * context + 1` is an `int`.

`IsPatch` has everything that a reader of a diff relies on: the hunks are in order and do not
overlap, the line numbers are those of the two lists, applying the hunks to the one list gives the
other, and the counts are those of the changed lines.  All of it is read off one cut of the list of
operations into unchanged stretches and hunks, so that the grouping of changes is proved once and
the laws of a patch follow by induction over the cut. -/
theorem diffLines_patch (a b : List String) {context : ℕ} (hcontext : context < 2 ^ 62)
    (hlength : a.length + b.length ≤ 2 ^ 62) :
    ∃ d, diffLines a b context = some d ∧ IsPatch a b d := by
  obtain ⟨ops, ok, hunks, hdiff, hsource, htarget, hcut⟩ := diffLines_cut a b hcontext hlength
  have hadd : ∀ op, (lineOf op).kind = .add ↔ op.change = .insert := by
    rintro ⟨change, line⟩
    cases change <;> simp [lineOf]
  have hremove : ∀ op, (lineOf op).kind = .remove ↔ op.change = .delete := by
    rintro ⟨change, line⟩
    cases change <;> simp [lineOf]
  refine ⟨_, hdiff, ?_, ?_, ?_, ?_, ⟨ops, hsource, htarget, hcut.changed⟩, ?_, ?_⟩
  · exact hcut.chain (Nat.le_refl 1) (Nat.le_refl 1) hsource htarget
  · exact hcut.old_lines (Nat.le_refl 1) hsource
  · exact hcut.new_lines (Nat.le_refl 1) htarget
  · rw [← htarget, ← hsource]
    exact hcut.patch
  · exact hcut.count (by decide) hadd
  · exact hcut.count (by decide) hremove

/-- One line replaced by another, as the callers of `DiffLines` ask for it. -/
theorem diffLines_patch_line :
    ∃ d, diffLines ["vlan 10", "vlan 20"] ["vlan 10", "vlan 30"] (3 : ℕ) = some d ∧
      IsPatch ["vlan 10", "vlan 20"] ["vlan 10", "vlan 30"] d :=
  diffLines_patch _ _ (by decide) (by decide)

/-- With `2 ^ 62` lines of context, the deletion and the insertion of one replaced line are shown
twice, in hunks that overlap. -/
theorem diffLines_overlap :
    ¬∀ (a b : List String) (context : ℤ), 0 ≤ context → context < 2 ^ 63 →
      ∃ d, diffLines a b context = some d ∧ IsPatch a b d := by
  intro hall
  obtain ⟨d, hd, hpatch⟩ := hall ["x"] ["y"] (2 ^ 62) (by decide) (by decide)
  have hchain := hpatch.chain
  have hhunk : diffLines ["x"] ["y"] (2 ^ 62) = some {
      added := 1
      removed := 1
      hunks := [⟨1, 1, 1, 1, [⟨.remove, "x"⟩, ⟨.add, "y"⟩]⟩,
        ⟨1, 1, 1, 1, [⟨.remove, "x"⟩, ⟨.add, "y"⟩]⟩]
      replaced := false } := by decide +kernel
  obtain rfl := Option.some.inj (hhunk.symm.trans hd)
  obtain ⟨hfollows, -⟩ := List.isChain_cons_cons.mp hchain
  obtain ⟨lines, -, hstart, -⟩ := hfollows
  dsimp only at hstart
  omega

/-- If the lines were aligned, then the added and the removed lines are as few as any insertions and
deletions of single lines that turn one list into the other, and the lines are replaced exactly if
that takes more than `maxDiffEdits`.  Common ends do not change the least number.

The greedy search for a shortest edit script keeps the furthest point on every diagonal, and stops
at `maxDiffEdits`.  That the cost of its answer is the least one is a fact about the edit graph,
proved in `Diff.EditGraph` for arbitrary lists.  `DiffLines` does not run it on the whole lists: it
first takes their common ends off, and the last part of the theorem is why it may. -/
theorem diffLines_least (a b : List String) :
    ∃ least, IsLeast {n | Edits n a b} least ∧
      (∀ p q u v, a = p ++ u ++ q → b = p ++ v ++ q → IsLeast {n | Edits n u v} least) ∧
      (∀ context d, diffLines a b context = some d →
        (d.replaced = true ↔ maxDiffEdits < least) ∧
          (d.replaced = false → d.added + d.removed = least)) ∧
      ∀ context : ℕ, context < 2 ^ 62 → a.length + b.length ≤ 2 ^ 62 →
        (diffLines a b context).isSome = true := by
  obtain ⟨ops, ok, halign, hsource, htarget, hok, hno⟩ := alignLines_spec a b
  have hedits : Edits (cost ops) a b := by
    have h := Edits.of_script ops
    rwa [hsource, htarget] at h
  obtain ⟨least, hleast⟩ := exists_isLeast_edits a b
  refine ⟨least, hleast, ?_, ?_, ?_⟩
  · rintro p q u v rfl rfl
    exact isLeast_strip hleast
  · intro context d hd
    unfold diffLines at hd
    rw [halign] at hd
    simp only [Option.bind_eq_bind, Option.bind_some] at hd
    obtain ⟨hunks, -, hd⟩ := Option.bind_eq_some_iff.mp hd
    obtain rfl := Option.some.inj hd
    cases ok with
    | true =>
        obtain ⟨hle, hmin⟩ := hok rfl
        have hcost : cost ops = least := Nat.le_antisymm (hmin least hleast.1) (hleast.2 hedits)
        refine ⟨iff_of_false Bool.false_ne_true ?_, fun _ => (cost_eq ops).symm.trans hcost⟩
        rw [← hcost]
        exact Nat.not_lt.mpr hle
    | false => exact ⟨iff_of_true rfl (hno rfl least hleast.1), fun h => nomatch h⟩
  · intro context hcontext hlength
    obtain ⟨_, _, _, hdiff, -⟩ := diffLines_cut a b hcontext hlength
    rw [hdiff]
    rfl

end Claims

end BindPlane.ConfigDiff
