import Mathlib.Data.List.Induction
import Mathlib.Data.Nat.Notation

/-!
# Canonical decimal numerals

A numeral is canonical if it is a run of digits without a leading zero, `0` itself apart.
`toDigits_ofDigitChars` and `ofDigitChars_ten_toDigits` make the canonical numerals the texts
of the natural numbers, one each.

Lengths of prefixes, ports and numbers in templates are all read so, and a leading zero is refused
in each of them: with it a number would have more than one text.
-/

namespace BindPlane.Decimal

/-- A run of digits without a leading zero. -/
structure Canonical (cs : List Char) : Prop where
  ne_nil : cs ≠ []
  digits : ∀ c ∈ cs, c.isDigit
  lead : cs.head? = some '0' → cs = ['0']

/-- A digit is the digit of its value. -/
theorem digitChar_of_isDigit {c : Char} (h : c.isDigit) :
    c.toNat - '0'.toNat < 10 ∧ Nat.digitChar (c.toNat - '0'.toNat) = c := by
  obtain ⟨hlo, hhi⟩ := Char.isDigit_iff_toNat.mp h
  have hchar : ∀ k < 10, Nat.digitChar k = Char.ofNat ('0'.toNat + k) := by decide
  have hlt : c.toNat - '0'.toNat < 10 := by
    have : '9'.toNat = '0'.toNat + 9 := by decide
    omega
  refine ⟨hlt, ?_⟩
  rw [hchar _ hlt, Nat.add_sub_cancel' hlo, Char.ofNat_toNat]

/-- Dropping the last digit leaves a canonical numeral that is not `0`. -/
theorem Canonical.dropLast {cs : List Char} {c : Char} (h : Canonical (cs ++ [c]))
    (hne : cs ≠ []) : Canonical cs ∧ cs ≠ ['0'] := by
  have hlead : cs.head? ≠ some '0' := by
    intro hzero
    have := h.lead (by rw [List.head?_append, hzero]; rfl)
    have := congrArg List.length this
    rw [List.length_append, List.length_singleton, List.length_singleton] at this
    exact hne (List.length_eq_zero_iff.mp (Nat.succ.inj this))
  refine ⟨⟨hne, fun d hd => h.digits d (List.mem_append_left _ hd), fun hz => absurd hz hlead⟩, ?_⟩
  rintro rfl
  exact hlead rfl

/-- A canonical numeral is the text of its value. -/
theorem toDigits_ofDigitChars {cs : List Char} (h : Canonical cs) :
    Nat.toDigits 10 (Nat.ofDigitChars 10 cs 0) = cs := by
  induction cs using List.reverseRecOn with
  | nil => exact absurd rfl h.ne_nil
  | append_singleton cs c ih =>
      obtain ⟨hlt, hchar⟩ :=
        digitChar_of_isDigit (h.digits c (List.mem_append_right _ (List.mem_singleton_self c)))
      rw [Nat.ofDigitChars_append, Nat.ofDigitChars_cons, Nat.ofDigitChars_nil]
      by_cases hne : cs = []
      · subst hne
        rw [Nat.ofDigitChars_nil, Nat.mul_zero, Nat.zero_add, Nat.toDigits_of_lt_base hlt, hchar]
        rfl
      · obtain ⟨hcs, hzero⟩ := h.dropLast hne
        have hpos : 0 < Nat.ofDigitChars 10 cs 0 := by
          apply Nat.pos_of_ne_zero
          intro hz
          have := ih hcs
          rw [hz] at this
          exact hzero this.symm
        rw [← Nat.toDigits_append_toDigits (by decide) hpos hlt, ih hcs,
          Nat.toDigits_of_lt_base hlt, hchar]

/-- The text of a number is canonical. -/
theorem canonical_toDigits (n : ℕ) : Canonical (Nat.toDigits 10 n) where
  ne_nil := Nat.toDigits_ne_nil
  digits _ hc := Nat.isDigit_of_mem_toDigits (by decide) (by decide) hc
  lead := by
    induction n using Nat.base_induction 10 (by decide) with
    | single m hm =>
        rw [Nat.toDigits_of_lt_base hm]
        intro h
        rw [Option.some.inj h]
    | digit m k hk hm ih =>
        obtain ⟨d, ds, hds⟩ := List.exists_cons_of_ne_nil (Nat.toDigits_ne_nil (b := 10) (n := m))
        rw [← Nat.toDigits_append_toDigits (by decide) hm hk]
        intro h
        rw [hds, List.cons_append, List.head?_cons, ← List.head?_cons (a := d) (l := ds), ← hds] at h
        have hzero := congrArg (Nat.ofDigitChars 10 · 0) (ih h)
        simp only [Nat.ofDigitChars_ten_toDigits] at hzero
        exact absurd hzero (Nat.pos_iff_ne_zero.mp hm)

/-- A numeral has digits only. -/
theorem not_mem_toDigits {c : Char} (hc : c.isDigit = false) (n : ℕ) :
    c ∉ Nat.toDigits 10 n := by
  intro h
  have := (canonical_toDigits n).digits c h
  rw [hc] at this
  cases this

/-- The canonical numerals are the texts of the numbers. -/
theorem canonical_iff {cs : List Char} {n : ℕ} :
    Canonical cs ∧ Nat.ofDigitChars 10 cs 0 = n ↔ cs = Nat.toDigits 10 n := by
  constructor
  · rintro ⟨h, rfl⟩
    exact (toDigits_ofDigitChars h).symm
  · rintro rfl
    exact ⟨canonical_toDigits n, Nat.ofDigitChars_ten_toDigits⟩

end BindPlane.Decimal
