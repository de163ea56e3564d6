import Mathlib.Data.List.DropRight

/-!
# Base64

The encoding of bytes in digits of six bits, and two decoders for it.  Without padding a text
has two or three digits behind its groups of four, or none.

**A strict decoder**, of texts without padding: it skips line ends and refuses every other
character that is no digit (`Base64.decodeRaw`).

**A lenient decoder**, of padded texts: a machine that skips whatever is no digit and stops at
the padding that completes a group (`Base64.a2b`).

Both undo the encoding, for every number of bytes: `Base64.decodeRaw_encode` and
`Base64.a2b_encode`.

**What the two accept.**  A decoder is more than the inverse of its encoding, since it has an answer
for every text.  On a text that is no encoding the two differ: the strict one refuses what the
lenient one skips.
-/

namespace Base64

/-! ## Groups of three bytes -/

/-- The digits of some bytes: four for three bytes, and one more than there are bytes for the
one or two that are left over. -/
def sextets : List UInt8 → List ℕ
  | a :: b :: c :: rest =>
      a.toNat / 4 :: (a.toNat % 4 * 16 + b.toNat / 16) ::
        (b.toNat % 16 * 4 + c.toNat / 64) :: c.toNat % 64 :: sextets rest
  | [a, b] => [a.toNat / 4, a.toNat % 4 * 16 + b.toNat / 16, b.toNat % 16 * 4]
  | [a] => [a.toNat / 4, a.toNat % 4 * 16]
  | [] => []

/-- The byte that two digits end and begin, by the position of the first in its group. -/
def first (p q : ℕ) : UInt8 := UInt8.ofNat (p * 4 + q / 16)

@[inherit_doc first]
def second (q r : ℕ) : UInt8 := UInt8.ofNat (q % 16 * 16 + r / 4)

@[inherit_doc first]
def third (r s : ℕ) : UInt8 := UInt8.ofNat (r % 4 * 64 + s)

/-- The bytes of some digits; the bits left over behind the last byte are dropped. -/
def octets : List ℕ → Option (List UInt8)
  | p :: q :: r :: s :: rest =>
      (octets rest).map fun bs => first p q :: second q r :: third r s :: bs
  | [p, q, r] => some [first p q, second q r]
  | [p, q] => some [first p q]
  | [_] => none
  | [] => some []

theorem sextets_lt (bs : List UInt8) : ∀ n ∈ sextets bs, n < 64 := by
  induction bs using sextets.induct with
  | case1 a b c rest ih =>
      have ha := a.toNat_lt
      have hb := b.toNat_lt
      have hc := c.toNat_lt
      intro n hn
      simp only [sextets, List.mem_cons] at hn
      rcases hn with rfl | rfl | rfl | rfl | hn
      · omega
      · omega
      · omega
      · omega
      · exact ih n hn
  | case2 a b =>
      have ha := a.toNat_lt
      have hb := b.toNat_lt
      intro n hn
      simp only [sextets, List.mem_cons, List.not_mem_nil, or_false] at hn
      omega
  | case3 a =>
      have ha := a.toNat_lt
      intro n hn
      simp only [sextets, List.mem_cons, List.not_mem_nil, or_false] at hn
      omega
  | case4 => simp [sextets]

theorem length_sextets (bs : List UInt8) : (sextets bs).length = (bs.length * 8 + 5) / 6 := by
  induction bs using sextets.induct with
  | case1 a b c rest ih =>
      simp only [sextets, List.length_cons, ih]
      omega
  | case2 a b => simp [sextets]
  | case3 a => simp [sextets]
  | case4 => simp [sextets]

private theorem ofNat_eq {a : UInt8} {n : ℕ} (h : n = a.toNat) : UInt8.ofNat n = a := by
  rw [h, UInt8.ofNat_toNat]

@[simp] theorem first_sextets (a : UInt8) {n : ℕ} (hn : n < 16) :
    first (a.toNat / 4) (a.toNat % 4 * 16 + n) = a := ofNat_eq (by omega)

@[simp] theorem first_sextets_last (a : UInt8) :
    first (a.toNat / 4) (a.toNat % 4 * 16) = a := ofNat_eq (by omega)

@[simp] theorem second_sextets (b : UInt8) {m n : ℕ} (hn : n < 4) :
    second (m * 16 + b.toNat / 16) (b.toNat % 16 * 4 + n) = b := by
  have hb := b.toNat_lt
  exact ofNat_eq (by omega)

@[simp] theorem second_sextets_last (b : UInt8) {m : ℕ} :
    second (m * 16 + b.toNat / 16) (b.toNat % 16 * 4) = b := by
  have hb := b.toNat_lt
  exact ofNat_eq (by omega)

@[simp] theorem third_sextets (c : UInt8) {m : ℕ} :
    third (m * 4 + c.toNat / 64) (c.toNat % 64) = c := by
  have hc := c.toNat_lt
  exact ofNat_eq (by omega)

theorem div_lt_of_byte (b : UInt8) : b.toNat / 16 < 16 ∧ b.toNat / 64 < 4 := by
  have hb := b.toNat_lt
  omega

/-- **The digits give the bytes back.** -/
theorem octets_sextets (bs : List UInt8) : octets (sextets bs) = some bs := by
  induction bs using sextets.induct with
  | case1 a b c rest ih =>
      simp [sextets, octets, ih, (div_lt_of_byte b).1, (div_lt_of_byte c).2]
  | case2 a b => simp [sextets, octets, (div_lt_of_byte b).1]
  | case3 a => simp [sextets, octets]
  | case4 => rfl

/-! ## Alphabets -/

/-- The standard alphabet. -/
def stdAlphabet : List Char :=
  "ABCDEFGHIJKLMNOPQRSTUVWXYZabcdefghijklmnopqrstuvwxyz0123456789+/".toList

/-- The alphabet for addresses. -/
def urlAlphabet : List Char :=
  "ABCDEFGHIJKLMNOPQRSTUVWXYZabcdefghijklmnopqrstuvwxyz0123456789-_".toList

/-- The character of a digit. -/
def digit (alphabet : List Char) (n : ℕ) : Char := alphabet.getD n 'A'

/-- The digit of a character. -/
def value (alphabet : List Char) (c : Char) : Option ℕ := alphabet.idxOf? c

/-- What is needed of an alphabet: its digits can be told from each other, from the line ends,
and from the padding. -/
structure Alphabet (alphabet : List Char) : Prop where
  value : ∀ n < 64, value alphabet (digit alphabet n) = some n
  plain : ∀ n < 64, digit alphabet n ∉ ['\r', '\n', '=']

theorem url : Alphabet urlAlphabet := ⟨by decide, by decide⟩

theorem std : Alphabet stdAlphabet := ⟨by decide, by decide⟩

/-! ## Texts without padding -/

/-- The text of some bytes, without padding. -/
def encode (alphabet : List Char) (bs : List UInt8) : List Char :=
  (sextets bs).map (digit alphabet)

/-- The strict decoder. -/
def decodeRaw (alphabet : List Char) (s : List Char) : Option (List UInt8) :=
  ((s.filter (· ∉ ['\r', '\n'])).mapM (value alphabet)).bind octets

variable {alphabet : List Char}

theorem mapM_value (h : Alphabet alphabet) :
    ∀ {ns : List ℕ}, (∀ n ∈ ns, n < 64) →
      (ns.map (digit alphabet)).mapM (value alphabet) = some ns := by
  intro ns
  induction ns with
  | nil => intro _; rfl
  | cons n ns ih =>
      intro hns
      have hn := h.value n (hns n (by simp))
      have hrest := ih fun m hm => hns m (by simp [hm])
      simp [hn, hrest]

/-- **The strict decoder undoes the encoding.** -/
theorem decodeRaw_encode (h : Alphabet alphabet) (bs : List UInt8) :
    decodeRaw alphabet (encode alphabet bs) = some bs := by
  have hplain : ∀ c ∈ encode alphabet bs, c ∉ ['\r', '\n'] := by
    intro c hc
    obtain ⟨n, hn, rfl⟩ := List.mem_map.mp hc
    have hno := h.plain n (sextets_lt bs n hn)
    simp only [List.mem_cons, not_or] at hno ⊢
    exact ⟨hno.1, hno.2.1, nofun⟩
  have hfilter : (encode alphabet bs).filter (· ∉ ['\r', '\n']) = encode alphabet bs :=
    List.filter_eq_self.mpr fun c hc => by simpa using hplain c hc
  rw [decodeRaw, hfilter, encode, mapM_value h (sextets_lt bs), Option.bind_some,
    octets_sextets]

/-! ## Padded texts -/

/-- The padding that fills a text of `n` digits to groups of four. -/
def padding (n : ℕ) : List Char := List.replicate ((4 - n % 4) % 4) '='

/-- The text of some bytes, padded. -/
def encodePadded (alphabet : List Char) (bs : List UInt8) : List Char :=
  encode alphabet bs ++ List.replicate ((3 - bs.length % 3) % 3) '='

/-- A text without the padding at its end. -/
def stripPadding (s : List Char) : List Char := s.rdropWhile (· = '=')

theorem stripPadding_encodePadded (h : Alphabet alphabet) (bs : List UInt8) :
    stripPadding (encodePadded alphabet bs) = encode alphabet bs := by
  have hpad : ∀ n, stripPadding (encode alphabet bs ++ List.replicate n '=') =
      encode alphabet bs := by
    intro n
    induction n with
    | zero =>
        rw [List.replicate_zero, List.append_nil, stripPadding, List.rdropWhile_eq_self_iff]
        intro hne
        obtain ⟨m, hm, hlast⟩ := List.mem_map.mp (List.getLast_mem hne)
        have hno := h.plain m (sextets_lt bs m hm)
        rw [← hlast]
        simp only [List.mem_cons, not_or] at hno
        simpa using hno.2.2.1
    | succ n ih =>
        rw [List.replicate_succ', ← List.append_assoc, stripPadding,
          List.rdropWhile_concat_pos _ _ _ (by simp)]
        exact ih
  exact hpad _

/-- The lenient decoder: a machine with the position in its group, the bits left over, and the
padding seen since the last digit.

Characters outside the alphabet are passed over and padding ends the text where it completes a
group, so more texts are accepted than any encoder writes. -/
def a2b (alphabet : List Char) : ℕ → ℕ → ℕ → List Char → Option (List UInt8)
  | quad, _, _, [] => if quad = 0 then some [] else none
  | quad, left, pads, c :: cs =>
      if c = '=' then
        if 2 ≤ quad then
          -- the padding completes the group
          if 4 ≤ quad + (pads + 1) then some [] else a2b alphabet quad left (pads + 1) cs
        else a2b alphabet quad left pads cs
      else
        match value alphabet c with
        | none => a2b alphabet quad left pads cs
        | some v =>
            match quad with
            | 0 => a2b alphabet 1 v 0 cs
            | 1 => (a2b alphabet 2 v 0 cs).map (first left v :: ·)
            | 2 => (a2b alphabet 3 v 0 cs).map (second left v :: ·)
            | _ => (a2b alphabet 0 v 0 cs).map (third left v :: ·)

/-- What the machine does with a digit. -/
theorem a2b_digit (h : Alphabet alphabet) {n : ℕ} (hn : n < 64) (quad left pads : ℕ)
    (cs : List Char) : a2b alphabet quad left pads (digit alphabet n :: cs) =
      match quad with
      | 0 => a2b alphabet 1 n 0 cs
      | 1 => (a2b alphabet 2 n 0 cs).map (first left n :: ·)
      | 2 => (a2b alphabet 3 n 0 cs).map (second left n :: ·)
      | _ => (a2b alphabet 0 n 0 cs).map (third left n :: ·) := by
  have hno := h.plain n hn
  simp only [List.mem_cons, not_or] at hno
  rw [a2b, if_neg hno.2.2.1, h.value n hn]

/-- **The lenient decoder undoes the encoding**, once the padding is back. -/
theorem a2b_encode (h : Alphabet alphabet) (bs : List UInt8) :
    ∀ left pads, a2b alphabet 0 left pads
      (encode alphabet bs ++ padding (encode alphabet bs).length) = some bs := by
  have hlt := sextets_lt bs
  induction bs using sextets.induct with
  | case1 a b c rest ih =>
      intro left pads
      simp only [sextets, List.mem_cons, forall_eq_or_imp] at hlt
      obtain ⟨h₁, h₂, h₃, h₄, hrest⟩ := hlt
      have hpad : padding (encode alphabet (a :: b :: c :: rest)).length =
          padding (encode alphabet rest).length := by
        simp [encode, sextets, padding, Nat.add_assoc]
      rw [hpad]
      simp only [encode, sextets, List.map_cons, List.cons_append]
      simp only [a2b_digit h h₁, a2b_digit h h₂, a2b_digit h h₃, a2b_digit h h₄]
      have hih := ih hrest (c.toNat % 64) 0
      rw [encode] at hih
      rw [hih]
      simp [(div_lt_of_byte b).1, (div_lt_of_byte c).2]
  | case2 a b =>
      intro left pads
      simp only [sextets, List.mem_cons, forall_eq_or_imp] at hlt
      obtain ⟨h₁, h₂, h₃, -⟩ := hlt
      simp only [encode, sextets, List.map_cons, List.cons_append]
      simp only [a2b_digit h h₁, a2b_digit h h₂, a2b_digit h h₃]
      simp [padding, a2b, (div_lt_of_byte b).1]
  | case3 a =>
      intro left pads
      simp only [sextets, List.mem_cons, forall_eq_or_imp] at hlt
      obtain ⟨h₁, h₂, -⟩ := hlt
      simp only [encode, sextets, List.map_cons, List.cons_append]
      simp only [a2b_digit h h₁, a2b_digit h h₂]
      simp [padding, a2b, List.replicate]
  | case4 =>
      intro left pads
      simp [encode, sextets, padding, a2b]

end Base64
