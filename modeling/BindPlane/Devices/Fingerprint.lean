import BindPlane.Codec.Trim

/-!
# The fingerprint of a configuration

`normalize_config` trims the blank lines at both ends of an output, and `config_fingerprint`
then drops the volatile lines and hashes the rest.  The two steps do not commute: a blank line
behind a volatile line at the top of the output stays, and is hashed.

`signature` is what should count: the lines without the volatile and ignored ones, trimmed
last.  `configFingerprint_iff` is the exact relation.  Equal fingerprints are equal signatures,
and equal signatures are equal fingerprints where the volatile lines leave as many blank lines
in front, and behind, in the one output as in the other.

A text is its characters.  A pattern is a predicate on lines, and `sha256` is an injective
function where a result needs it.

**Source.**  What is modelled here is in `worker/devices.py`.
-/

namespace BindPlane

open Trim

/-- A text, or a line of it. -/
abbrev Chars := List Char

/-- What `str.rstrip` strips. -/
def isSpace (c : Char) : Bool :=
  let n := c.toNat
  (9 ≤ n && n ≤ 13) || (28 ≤ n && n ≤ 32) || n = 0x85 || n = 0xa0 || n = 0x1680 ||
    (0x2000 ≤ n && n ≤ 0x200a) || n = 0x2028 || n = 0x2029 || n = 0x202f || n = 0x205f ||
    n = 0x3000

/-- `raw.replace("\r\n", "\n")`. -/
def replaceCrLf : Chars → Chars
  | '\r' :: '\n' :: cs => '\n' :: replaceCrLf cs
  | c :: cs => c :: replaceCrLf cs
  | [] => []

/-- `raw.replace("\r", "\n")`. -/
def replaceCr (cs : Chars) : Chars := cs.map fun c => if c = '\r' then '\n' else c

/-- The lines of an output, without trailing whitespace. -/
def linesOf (raw : Chars) : List Chars :=
  ((replaceCr (replaceCrLf raw)).splitOn '\n').map (List.rdropWhile isSpace)

/-- `"\n".join`. -/
def joinLines (ls : List Chars) : Chars := ['\n'].intercalate ls

/-- `normalize_config`. -/
def normalizeConfig (raw : Chars) : Chars := joinLines (trim List.isEmpty (linesOf raw))

/-- `VOLATILE_LINES`. -/
def volatileLines : List (Chars → Bool) :=
  ["! Last configuration change at", "! NVRAM config last updated at", "ntp clock-period"].map
    fun start line => start.toList.isPrefixOf line

/-- No pattern matches the line. -/
def significant (ignore : List (Chars → Bool)) (line : Chars) : Bool :=
  !(volatileLines ++ ignore).any fun p => p line

/-- `config_fingerprint`. -/
def configFingerprint {δ : Type} (sha256 : Chars → δ) (ignore : List (Chars → Bool))
    (text : Chars) : δ :=
  sha256 (joinLines ((text.splitOn '\n').filter (significant ignore)))

/-- The significant lines of an output, trimmed. -/
def signature (ignore : List (Chars → Bool)) (raw : Chars) : List Chars :=
  trim List.isEmpty ((linesOf raw).filter (significant ignore))

/-! ## Lines and texts -/

theorem not_mem_of_mem_splitOn {c : Char} {cs line : Chars} (h : line ∈ cs.splitOn c) :
    c ∉ line := by
  induction cs generalizing line with
  | nil =>
      rw [List.splitOn_nil, List.mem_singleton] at h
      rw [h]
      exact List.not_mem_nil
  | cons d cs ih =>
      rw [List.splitOn_cons_eq_if_modifyHead] at h
      obtain ⟨first, rest, hsplit⟩ := List.exists_cons_of_ne_nil (List.splitOn_ne_nil c cs)
      rw [hsplit] at h ih
      split_ifs at h with hd
      · obtain rfl | h := List.mem_cons.mp h
        · exact List.not_mem_nil
        · exact ih h
      · rw [List.modifyHead_cons] at h
        obtain rfl | h := List.mem_cons.mp h
        · intro hc
          obtain rfl | hc := List.mem_cons.mp hc
          · exact hd (beq_self_eq_true c)
          · exact ih List.mem_cons_self hc
        · exact ih (List.mem_cons_of_mem _ h)

/-- A line of an output has no line break. -/
theorem noBreak_linesOf {raw line : Chars} (h : line ∈ linesOf raw) : '\n' ∉ line := by
  obtain ⟨full, hfull, rfl⟩ := List.mem_map.mp h
  exact fun hmem => not_mem_of_mem_splitOn hfull ((List.rdropWhile_prefix _ _).subset hmem)

/-- No lines, or one blank one: the texts that are empty. -/
def Small (ls : List Chars) : Prop := ls = [] ∨ ls = [[]]

theorem joinLines_small {ls : List Chars} (h : Small ls) : joinLines ls = [] := by
  obtain rfl | rfl := h <;> rfl

theorem splitOn_joinLines {ls : List Chars} (h : ∀ line ∈ ls, '\n' ∉ line) (hne : ls ≠ []) :
    (joinLines ls).splitOn '\n' = ls :=
  List.splitOn_intercalate '\n' h hne

/-- Joining keeps lines apart, except that no lines and one blank one are the same text. -/
theorem joinLines_inj {ls ls' : List Chars} (h : ∀ line ∈ ls, '\n' ∉ line)
    (h' : ∀ line ∈ ls', '\n' ∉ line) :
    joinLines ls = joinLines ls' ↔ ls = ls' ∨ Small ls ∧ Small ls' := by
  have hnil : ∀ {ls : List Chars}, (∀ line ∈ ls, '\n' ∉ line) → joinLines ls = [] →
      Small ls := by
    intro ls h hjoin
    by_cases hne : ls = []
    · exact .inl hne
    · have hsplit := splitOn_joinLines h hne
      rw [hjoin, List.splitOn_nil] at hsplit
      exact .inr hsplit.symm
  constructor
  · intro hjoin
    by_cases hne : ls = []
    · refine .inr ⟨.inl hne, hnil h' ?_⟩
      rw [← hjoin, hne]
      rfl
    · by_cases hne' : ls' = []
      · refine .inr ⟨hnil h ?_, .inl hne'⟩
        rw [hjoin, hne']
        rfl
      · left
        rw [← splitOn_joinLines h hne, hjoin, splitOn_joinLines h' hne']
  · rintro (rfl | ⟨hs, hs'⟩)
    · rfl
    · rw [joinLines_small hs, joinLines_small hs']

/-! ## What is hashed -/

variable {δ : Type} {sha256 : Chars → δ} {ignore : List (Chars → Bool)} {raw raw₁ raw₂ : Chars}

/-- The significant lines that are hashed: of the trimmed output. -/
def hashedLines (ignore : List (Chars → Bool)) (raw : Chars) : List Chars :=
  (trim List.isEmpty (linesOf raw)).filter (significant ignore)

theorem trim_sublist {l : List Chars} {line : Chars} (h : line ∈ trim List.isEmpty l) :
    line ∈ l :=
  (List.dropWhile_suffix _).subset ((List.rdropWhile_prefix _ _).subset h)

theorem noBreak_hashedLines : ∀ line ∈ hashedLines ignore raw, '\n' ∉ line :=
  fun _ h => noBreak_linesOf (trim_sublist (List.mem_of_mem_filter h))

theorem configFingerprint_normalizeConfig :
    configFingerprint sha256 ignore (normalizeConfig raw) =
      sha256 (joinLines (hashedLines ignore raw)) := by
  unfold configFingerprint normalizeConfig hashedLines
  by_cases hne : trim List.isEmpty (linesOf raw) = []
  · -- an output of blank lines is one blank line when it is split again
    rw [hne]
    refine congrArg sha256 ((joinLines_small ?_).trans (joinLines_small (.inl rfl)).symm)
    show Small (List.filter _ [[]])
    rw [List.filter_cons]
    split_ifs
    · exact .inr rfl
    · exact .inl rfl
  · rw [splitOn_joinLines (fun _ h => noBreak_linesOf (trim_sublist h)) hne]

/-- The blank lines that the volatile lines leave in front of the first significant line. -/
def blanksBefore (ignore : List (Chars → Bool)) (raw : Chars) : ℕ :=
  ((trim List.isEmpty (linesOf raw)).takeWhile
    fun line => line.isEmpty || !significant ignore line).countP (significant ignore)

/-- The blank lines that they leave behind the last one. -/
def blanksAfter (ignore : List (Chars → Bool)) (raw : Chars) : ℕ :=
  ((trim List.isEmpty (linesOf raw)).rtakeWhile
    fun line => line.isEmpty || !significant ignore line).countP (significant ignore)

/-- The volatile lines leave as many blank lines at either end of the two outputs; without a
significant line, one blank line is as good as none. -/
def SameEnds (ignore : List (Chars → Bool)) (raw₁ raw₂ : Chars) : Prop :=
  blanksBefore ignore raw₁ = blanksBefore ignore raw₂ ∧
      blanksAfter ignore raw₁ = blanksAfter ignore raw₂ ∨
    signature ignore raw₁ = [] ∧ blanksBefore ignore raw₁ ≤ 1 ∧ blanksBefore ignore raw₂ ≤ 1

theorem trim_hashedLines : trim List.isEmpty (hashedLines ignore raw) = signature ignore raw :=
  trim_filter _ _ _

theorem length_takeWhile_hashedLines :
    ((hashedLines ignore raw).takeWhile List.isEmpty).length = blanksBefore ignore raw := by
  unfold hashedLines blanksBefore
  rw [takeWhile_filter, List.countP_eq_length_filter]

theorem length_rtakeWhile_hashedLines :
    ((hashedLines ignore raw).rtakeWhile List.isEmpty).length = blanksAfter ignore raw := by
  unfold hashedLines blanksAfter
  rw [rtakeWhile_filter, List.countP_eq_length_filter]

theorem hashedLines_inj :
    hashedLines ignore raw₁ = hashedLines ignore raw₂ ↔
      signature ignore raw₁ = signature ignore raw₂ ∧
        blanksBefore ignore raw₁ = blanksBefore ignore raw₂ ∧
        blanksAfter ignore raw₁ = blanksAfter ignore raw₂ := by
  constructor
  · intro h
    rw [← trim_hashedLines, ← trim_hashedLines, ← length_takeWhile_hashedLines,
      ← length_takeWhile_hashedLines, ← length_rtakeWhile_hashedLines,
      ← length_rtakeWhile_hashedLines, h]
    exact ⟨rfl, rfl, rfl⟩
  · rintro ⟨hsig, hbefore, hafter⟩
    refine eq_of_ends (b := []) (fun _ => List.isEmpty_iff.mp) ?_ ?_ ?_
    · rw [trim_hashedLines, trim_hashedLines, hsig]
    · rw [length_takeWhile_hashedLines, length_takeWhile_hashedLines, hbefore]
    · rw [length_rtakeWhile_hashedLines, length_rtakeWhile_hashedLines, hafter]

/-- What is hashed is the empty text exactly if nothing significant is there and at most one
blank line is left. -/
theorem small_hashedLines :
    Small (hashedLines ignore raw) ↔ signature ignore raw = [] ∧ blanksBefore ignore raw ≤ 1 := by
  rw [← trim_hashedLines, ← length_takeWhile_hashedLines]
  generalize hashedLines ignore raw = ls
  constructor
  · rintro (rfl | rfl)
    · exact ⟨rfl, Nat.zero_le 1⟩
    · exact ⟨rfl, le_refl 1⟩
  · rintro ⟨hnil, hle⟩
    have hdrop := dropWhile_eq_nil_of_trim hnil
    have hself : ls.takeWhile List.isEmpty = ls := by
      conv_rhs => rw [← List.takeWhile_append_dropWhile (p := List.isEmpty) (l := ls), hdrop,
        List.append_nil]
    rw [hself] at hle
    match ls, hle with
    | [], _ => exact .inl rfl
    | [line], _ =>
        have hblank : line.isEmpty := List.dropWhile_eq_nil_iff.mp hdrop line List.mem_cons_self
        rw [List.isEmpty_iff.mp hblank]
        exact .inr rfl

/-- The fingerprints of two outputs agree exactly if the signatures do and the ends do. -/
theorem configFingerprint_eq_iff (hsha : Function.Injective sha256) :
    configFingerprint sha256 ignore (normalizeConfig raw₁) =
        configFingerprint sha256 ignore (normalizeConfig raw₂) ↔
      signature ignore raw₁ = signature ignore raw₂ ∧ SameEnds ignore raw₁ raw₂ := by
  rw [configFingerprint_normalizeConfig, configFingerprint_normalizeConfig, hsha.eq_iff,
    joinLines_inj noBreak_hashedLines noBreak_hashedLines, hashedLines_inj, small_hashedLines,
    small_hashedLines]
  unfold SameEnds
  constructor
  · rintro (⟨hsig, hends⟩ | ⟨⟨hnil₁, hle₁⟩, hnil₂, hle₂⟩)
    · exact ⟨hsig, .inl hends⟩
    · exact ⟨hnil₁.trans hnil₂.symm, .inr ⟨hnil₁, hle₁, hle₂⟩⟩
  · rintro ⟨hsig, hends | ⟨hnil, hle₁, hle₂⟩⟩
    · exact .inl ⟨hsig, hends⟩
    · exact .inr ⟨⟨hnil, hle₁⟩, hsig ▸ hnil, hle₂⟩

/-- Fingerprints say what signatures say exactly where the signatures differ or the volatile
lines leave as many blank lines at the ends; that equal fingerprints are equal signatures needs
no condition.

The second half needs no condition: what has the same fingerprint has the same signature.  The first
half is an equivalence between two sentences, and says that the other direction is right exactly
where the trimmed texts begin and end alike.  The text is trimmed before its volatile lines are
dropped, so that blank lines next to such a line at an end are kept in the one and not in the other.
-/
theorem configFingerprint_iff (hsha : Function.Injective sha256)
    (ignore : List (Chars → Bool)) (raw₁ raw₂ : Chars) :
    ((configFingerprint sha256 ignore (normalizeConfig raw₁) =
          configFingerprint sha256 ignore (normalizeConfig raw₂) ↔
        signature ignore raw₁ = signature ignore raw₂) ↔
      (signature ignore raw₁ = signature ignore raw₂ → SameEnds ignore raw₁ raw₂)) ∧
    (configFingerprint sha256 ignore (normalizeConfig raw₁) =
        configFingerprint sha256 ignore (normalizeConfig raw₂) →
      signature ignore raw₁ = signature ignore raw₂) := by
  rw [configFingerprint_eq_iff hsha]
  exact ⟨⟨fun h hsig => (h.mpr hsig).2, fun h => ⟨And.left, fun hsig => ⟨hsig, h hsig⟩⟩⟩, And.left⟩

/-- The outputs of the counterexample: a timestamp over a blank line, and without it. -/
def stampedOutput : Chars := "! Last configuration change at 10:00\n\nhostname A".toList

def plainOutput : Chars := "hostname A".toList

/-- With a collision-free hash the two outputs have one signature and two fingerprints. -/
theorem configFingerprint_stamped :
    ¬ (configFingerprint (fun text => text) [] (normalizeConfig stampedOutput) =
        configFingerprint (fun text => text) [] (normalizeConfig plainOutput) ↔
      signature [] stampedOutput = signature [] plainOutput) := by
  have hsig : signature [] stampedOutput = signature [] plainOutput := by decide +kernel
  have hne : configFingerprint (fun text => text) [] (normalizeConfig stampedOutput) ≠
      configFingerprint (fun text => text) [] (normalizeConfig plainOutput) := by decide +kernel
  exact fun h => hne (h.mpr hsig)

/-- A timestamp right over the first line makes no difference. -/
theorem configFingerprint_iff_stamp :
    configFingerprint (fun text => text) [] (normalizeConfig
        "! Last configuration change at 10:00\nhostname A  \r\n".toList) =
      configFingerprint (fun text => text) [] (normalizeConfig plainOutput) := by
  have h := configFingerprint_iff (fun _ _ h => h : Function.Injective fun text : Chars => text) []
    "! Last configuration change at 10:00\nhostname A  \r\n".toList plainOutput
  refine (h.1.mpr fun _ => .inl ?_).mpr ?_ <;> decide +kernel

end BindPlane
