import BindPlane.Codec.Decimal
import BindPlane.Net.Address

/-!
# The canonical text of an address

`IP.string` writes an IPv4 address in four decimal numbers, and any other in eight words of which
the first of the longest runs of zeros is left out.  Reading undoes it (`parseIP_string`), so an
address has one canonical text and no two addresses share one.

**Why it matters.**  The canonical text is what limits and audits are kept under.  A client that
could be written in two ways would have two buckets, and two clients with one text would share one.
-/

namespace Net

open BindPlane

/-! ## Four numbers -/

theorem octet_number (b : UInt8) : octet (number 10 b.toNat) = some b := by
  have hcanonical := Decimal.canonical_toDigits b.toNat
  have hlt := b.toNat_lt
  unfold octet number
  rw [Nat.ofDigitChars_ten_toDigits, if_pos ⟨hcanonical.ne_nil,
    List.all_eq_true.mpr hcanonical.digits, hcanonical.lead, by omega⟩, UInt8.ofNat_toNat]

theorem string4_eq (a b c d : UInt8) : string4 [a, b, c, d] =
    ['.'].intercalate
      [number 10 a.toNat, number 10 b.toNat, number 10 c.toNat, number 10 d.toNat] := rfl

/-- The four numbers are read back. -/
theorem parseIPv4Fields_string4 (a b c d : UInt8) :
    parseIPv4Fields (string4 [a, b, c, d]) = some (a, b, c, d) := by
  have hdot : ∀ n, '.' ∉ number 10 n := Decimal.not_mem_toDigits rfl
  have hsplit : (string4 [a, b, c, d]).splitOn '.' =
      [number 10 a.toNat, number 10 b.toNat, number 10 c.toNat, number 10 d.toNat] := by
    rw [string4_eq]
    refine List.splitOn_intercalate '.' ?_ (List.cons_ne_nil _ _)
    intro l hl
    simp only [List.mem_cons, List.not_mem_nil, or_false] at hl
    rcases hl with rfl | rfl | rfl | rfl <;> exact hdot _
  rw [parseIPv4Fields, hsplit]
  simp only [octet_number]

/-- The first character that decides how a text is read. -/
theorem find_first {p : Char → Bool} {pre post : List Char} {x : Char}
    (hpre : ∀ c ∈ pre, p c = false) (hx : p x = true) :
    (pre ++ x :: post).find? p = some x := by
  have hnone : pre.find? p = none := List.find?_eq_none.mpr fun c hc => by
    rw [hpre c hc]
    exact Bool.false_ne_true
  rw [List.find?_append, hnone, Option.none_or, List.find?_cons_of_pos hx]

theorem parseAddr_string4 (a b c d : UInt8) :
    parseAddr (string4 [a, b, c, d]) = some (.v4 a b c d) := by
  have hshape : string4 [a, b, c, d] = number 10 a.toNat ++ '.' :: ['.'].intercalate
      [number 10 b.toNat, number 10 c.toNat, number 10 d.toNat] := by
    rw [string4_eq, List.intercalate_cons_cons, List.append_assoc, List.singleton_append]
  have hfind : (string4 [a, b, c, d]).find? (· ∈ ['.', ':', '%']) = some '.' := by
    rw [hshape]
    refine find_first (fun x hx => ?_) rfl
    have hdigit := (Decimal.canonical_toDigits a.toNat).digits x hx
    rw [decide_eq_false_iff_not]
    intro hmem
    simp only [List.mem_cons, List.not_mem_nil, or_false] at hmem
    rcases hmem with rfl | rfl | rfl <;> exact absurd hdigit (by decide)
  unfold parseAddr
  rw [hfind]
  dsimp only
  rw [parseIPv4Fields_string4]
  rfl

/-! ## Words -/

/-- The bytes of words. -/
def wordBytes (ws : List ℕ) : List UInt8 :=
  ws.flatMap fun w => [UInt8.ofNat (w / 256), UInt8.ofNat (w % 256)]

theorem hexNumber_append (s : List Char) (c : Char) :
    hexNumber (s ++ [c]) = hexNumber s * 16 + hexValue c := by
  unfold hexNumber
  rw [List.foldl_append, List.foldl_cons, List.foldl_nil]

/-- A word is read back from its digits. -/
theorem hexNumber_number (n : ℕ) : hexNumber (number 16 n) = n := by
  have hvalue : ∀ m < 16, hexValue (Nat.digitChar m) = m := by decide
  unfold number
  induction n using Nat.base_induction 16 (by decide) with
  | single m hm =>
      rw [Nat.toDigits_of_lt_base hm]
      show 0 * 16 + hexValue (Nat.digitChar m) = m
      rw [Nat.zero_mul, Nat.zero_add, hvalue m hm]
  | digit m k hk hm ih =>
      rw [← Nat.toDigits_append_toDigits (by decide) hm hk, Nat.toDigits_of_lt_base hk,
        hexNumber_append, ih, hvalue k hk, Nat.mul_comm]

theorem number_hex (n : ℕ) : ∀ c ∈ number 16 n, isHexDigit c = true := by
  have hdigit : ∀ m < 16, isHexDigit (Nat.digitChar m) = true := by decide
  unfold number
  induction n using Nat.base_induction 16 (by decide) with
  | single m hm =>
      rw [Nat.toDigits_of_lt_base hm]
      intro c hc
      rw [List.mem_singleton.mp hc]
      exact hdigit m hm
  | digit m k hk hm ih =>
      rw [← Nat.toDigits_append_toDigits (by decide) hm hk, Nat.toDigits_of_lt_base hk]
      intro c hc
      rcases List.mem_append.mp hc with hc | hc
      · exact ih c hc
      · rw [List.mem_singleton.mp hc]
        exact hdigit k hk

/-- A word has four digits at most. -/
theorem number_length {n : ℕ} (h : n < 65536) : (number 16 n).length ≤ 4 :=
  (Nat.length_toDigits_le_iff (by decide) (by decide)).mpr h

section Groups

variable {n w : ℕ} {bytes : List UInt8} {ellipsis : Option ℕ} {ws pre post : List ℕ}
  {rest : List Char}

theorem takeWhile_number (w : ℕ) (rest : List Char) :
    (number 16 w ++ ':' :: rest).takeWhile isHexDigit = number 16 w ∧
    (number 16 w ++ ':' :: rest).dropWhile isHexDigit = ':' :: rest := by
  rw [List.takeWhile_append_of_pos (number_hex w), List.dropWhile_append_of_pos (number_hex w)]
  rw [List.takeWhile_cons_of_neg (by decide), List.dropWhile_cons_of_neg (by decide)]
  exact ⟨List.append_nil _, rfl⟩

theorem number_read (bytes : List UInt8) (hw : w < 65536) :
    ¬ (number 16 w = [] ∨ 4 < (number 16 w).length) ∧
      bytes ++ [UInt8.ofNat (hexNumber (number 16 w) / 256),
        UInt8.ofNat (hexNumber (number 16 w) % 256)] = bytes ++ wordBytes [w] := by
  have hlength := number_length hw
  refine ⟨?_, by rw [hexNumber_number]; rfl⟩
  rintro (hnil | hlt)
  · exact Nat.toDigits_ne_nil hnil
  · omega

/-- The last word. -/
theorem groups_last (hw : w < 65536) :
    groups (n + 1) bytes ellipsis (number 16 w) =
      some (bytes ++ wordBytes [w], ellipsis, []) := by
  obtain ⟨hcond, hbytes⟩ := number_read bytes hw
  have htake : (number 16 w).takeWhile isHexDigit = number 16 w :=
    List.takeWhile_eq_self_iff.mpr (number_hex w)
  have hdrop : (number 16 w).dropWhile isHexDigit = [] :=
    List.dropWhile_eq_nil_iff.mpr (number_hex w)
  rw [groups, htake, hdrop]
  dsimp only
  rw [if_neg hcond, hbytes]

/-- A word in front of another. -/
theorem groups_colon (hw : w < 65536) (hrest : rest ≠ [] ∧ rest.head? ≠ some ':') :
    groups (n + 1) bytes ellipsis (number 16 w ++ ':' :: rest) =
      groups n (bytes ++ wordBytes [w]) ellipsis rest := by
  obtain ⟨hcond, hbytes⟩ := number_read bytes hw
  obtain ⟨htake, hdrop⟩ := takeWhile_number w rest
  obtain ⟨hne, hhead⟩ := hrest
  obtain ⟨x, rest, rfl⟩ := List.exists_cons_of_ne_nil hne
  rw [groups, htake, hdrop, if_neg hcond, hbytes]
  split
  · next heq => cases heq
  · next heq => cases heq
  · next heq => cases heq
  · next heq =>
      cases heq
      exact absurd rfl hhead
  · next heq =>
      cases heq
      rfl
  · next hno => exact absurd rfl (hno (x :: rest))

/-- A word in front of the words that are left out. -/
theorem groups_ellipsis (hw : w < 65536) :
    groups (n + 1) bytes none (number 16 w ++ ':' :: ':' :: rest) =
      if rest = [] then some (bytes ++ wordBytes [w], some (bytes ++ wordBytes [w]).length, [])
      else groups n (bytes ++ wordBytes [w]) (some (bytes ++ wordBytes [w]).length) rest := by
  obtain ⟨hcond, hbytes⟩ := number_read bytes hw
  obtain ⟨htake, hdrop⟩ := takeWhile_number w (':' :: rest)
  rw [groups, htake, hdrop, if_neg hcond, hbytes]
  exact if_neg (by simp)

theorem wordBytes_append : wordBytes (pre ++ post) = wordBytes pre ++ wordBytes post :=
  List.flatMap_append

theorem wordBytes_cons : wordBytes (w :: ws) = wordBytes [w] ++ wordBytes ws := rfl

theorem joinWords_cons {w' : ℕ} :
    joinWords (w :: w' :: ws) = number 16 w ++ ':' :: joinWords (w' :: ws) := by
  unfold joinWords
  rw [List.map_cons, List.map_cons, List.intercalate_cons_cons, List.append_assoc,
    List.singleton_append, ← List.map_cons]

theorem joinWords_singleton : joinWords [w] = number 16 w := by
  unfold joinWords
  rw [List.map_singleton, List.intercalate_singleton]

/-- Words begin with a digit. -/
theorem joinWords_head (hne : ws ≠ []) (rest : List Char) :
    joinWords ws ++ rest ≠ [] ∧ (joinWords ws ++ rest).head? ≠ some ':' := by
  have hnumber : ∀ (w : ℕ) (rest : List Char), number 16 w ++ rest ≠ [] ∧
      (number 16 w ++ rest).head? ≠ some ':' := by
    intro w rest
    obtain ⟨x, digits, hdigits⟩ := List.exists_cons_of_ne_nil
      (Nat.toDigits_ne_nil (b := 16) (n := w))
    have hx := number_hex w x (by unfold number; rw [hdigits]; exact List.mem_cons_self)
    unfold number
    rw [hdigits]
    refine ⟨List.cons_ne_nil _ _, fun hcolon => ?_⟩
    rw [Option.some.inj hcolon] at hx
    exact absurd hx (by decide)
  obtain ⟨w, ws, rfl⟩ := List.exists_cons_of_ne_nil hne
  cases ws with
  | nil =>
      rw [joinWords_singleton]
      exact hnumber w rest
  | cons w' ws =>
      rw [joinWords_cons, List.append_assoc]
      exact hnumber w _

/-- Words are read back. -/
theorem groups_joinWords (hne : ws ≠ []) (hws : ∀ w ∈ ws, w < 65536) (hn : ws.length ≤ n) :
    groups n bytes ellipsis (joinWords ws) = some (bytes ++ wordBytes ws, ellipsis, []) := by
  induction ws generalizing n bytes with
  | nil => exact absurd rfl hne
  | cons w ws ih =>
      obtain ⟨n, rfl⟩ : ∃ n', n = n' + 1 := ⟨n - 1, by rw [List.length_cons] at hn; omega⟩
      have hw := hws w List.mem_cons_self
      cases ws with
      | nil =>
          rw [joinWords_singleton]
          exact groups_last hw
      | cons w' ws =>
          have hhead := joinWords_head (List.cons_ne_nil w' ws) []
          rw [List.append_nil] at hhead
          rw [joinWords_cons, groups_colon hw hhead,
            ih (List.cons_ne_nil _ _) (fun v hv => hws v (List.mem_cons_of_mem _ hv))
              (Nat.le_of_succ_le_succ hn), List.append_assoc, ← wordBytes_cons]

/-- Words are read back where some are left out between them. -/
theorem groups_ellipsis_joinWords (hne : pre ≠ []) (hpre : ∀ w ∈ pre, w < 65536)
    (hpost : ∀ w ∈ post, w < 65536) (hn : pre.length + post.length ≤ n) :
    groups n bytes none (joinWords pre ++ [':', ':'] ++ joinWords post) =
      some (bytes ++ wordBytes (pre ++ post), some (bytes ++ wordBytes pre).length, []) := by
  induction pre generalizing n bytes with
  | nil => exact absurd rfl hne
  | cons w pre ih =>
      rw [List.length_cons] at hn
      obtain ⟨n, rfl⟩ : ∃ n', n = n' + 1 := ⟨n - 1, by omega⟩
      have hw := hpre w List.mem_cons_self
      cases pre with
      | nil =>
          rw [joinWords_singleton, List.append_assoc]
          show groups (n + 1) bytes none (number 16 w ++ ':' :: ':' :: joinWords post) = _
          rw [groups_ellipsis hw]
          by_cases hnil : post = []
          · rw [hnil]
            rfl
          · have hhead := (joinWords_head hnil []).1
            rw [List.append_nil] at hhead
            rw [if_neg hhead, groups_joinWords hnil hpost (by omega), List.append_assoc,
              ← wordBytes_append]
      | cons w' pre =>
          have hhead := joinWords_head (List.cons_ne_nil w' pre) ([':', ':'] ++ joinWords post)
          rw [joinWords_cons, List.append_assoc, List.append_assoc, List.cons_append,
            groups_colon hw hhead, ← List.append_assoc,
            ih (List.cons_ne_nil _ _) (fun v hv => hpre v (List.mem_cons_of_mem _ hv))
              (by rw [List.length_cons] at hn ⊢; omega)]
          rw [List.append_assoc, ← wordBytes_append, List.append_assoc, ← wordBytes_append]
          rfl

end Groups

/-! ## Eight words -/

section Words

variable {ws : List ℕ} {bytes : List UInt8}

/-- What `zeroRun` finds are zeros. -/
theorem zeroRun_spec (ws : List ℕ) :
    (zeroRun ws).2 = 0 ∨ (zeroRun ws).2 = zeros ws (zeroRun ws).1 := by
  unfold zeroRun
  generalize List.range ws.length = positions
  have hfold : ∀ best : ℕ × ℕ, (best.2 = 0 ∨ best.2 = zeros ws best.1) →
      (positions.foldl (fun best i =>
        if 2 ≤ zeros ws i ∧ best.2 < zeros ws i then (i, zeros ws i) else best) best).2 = 0 ∨
      (positions.foldl (fun best i =>
        if 2 ≤ zeros ws i ∧ best.2 < zeros ws i then (i, zeros ws i) else best) best).2 =
          zeros ws (positions.foldl (fun best i =>
            if 2 ≤ zeros ws i ∧ best.2 < zeros ws i then (i, zeros ws i) else best) best).1 := by
    induction positions with
    | nil => exact fun best hbest => hbest
    | cons i positions ih =>
        intro best hbest
        rw [List.foldl_cons]
        refine ih _ ?_
        split
        · exact Or.inr rfl
        · exact hbest
  exact hfold (0, 0) (Or.inl rfl)

/-- The words are what is written, with zeros where some are left out. -/
theorem words_split (ws : List ℕ) (i : ℕ) :
    ws = ws.take i ++ List.replicate (zeros ws i) 0 ++ ws.drop (i + zeros ws i) := by
  have hzero : (ws.drop i).takeWhile (· = 0) = List.replicate (zeros ws i) 0 := by
    refine List.eq_replicate_iff.mpr ⟨rfl, fun w hw => ?_⟩
    simpa using List.mem_takeWhile_imp hw
  have hrest : ws.drop (i + zeros ws i) = (ws.drop i).dropWhile (· = 0) := by
    rw [← List.drop_drop]
    conv_lhs => rw [← List.takeWhile_append_dropWhile (p := (· = 0)) (l := ws.drop i)]
    exact List.drop_left
  rw [hrest, ← hzero, List.append_assoc, List.takeWhile_append_dropWhile, List.take_append_drop]

theorem words_lt : ∀ w ∈ words bytes, w < 65536 := by
  fun_induction words bytes with
  | case1 a b rest ih =>
      have ha := a.toNat_lt
      have hb := b.toNat_lt
      intro w hw
      rcases List.mem_cons.mp hw with rfl | hw
      · omega
      · exact ih w hw
  | case2 => nofun

theorem words_length : (words bytes).length = bytes.length / 2 := by
  fun_induction words bytes with
  | case1 a b rest ih =>
      rw [List.length_cons, List.length_cons, List.length_cons, ih]
      omega
  | case2 bytes hno =>
      obtain _ | ⟨a, _ | ⟨b, rest⟩⟩ := bytes
      · rfl
      · show 0 = 1 / 2
        decide
      · exact absurd rfl (hno a b rest)

theorem wordBytes_words (h : bytes.length % 2 = 0) : wordBytes (words bytes) = bytes := by
  fun_induction words bytes with
  | case1 a b rest ih =>
      have ha := a.toNat_lt
      have hb := b.toNat_lt
      rw [List.length_cons, List.length_cons] at h
      rw [wordBytes_cons, ih (by omega)]
      have hhigh : (a.toNat * 256 + b.toNat) / 256 = a.toNat := by omega
      have hlow : (a.toNat * 256 + b.toNat) % 256 = b.toNat := by omega
      show [UInt8.ofNat ((a.toNat * 256 + b.toNat) / 256),
        UInt8.ofNat ((a.toNat * 256 + b.toNat) % 256)] ++ rest = _
      rw [hhigh, hlow, UInt8.ofNat_toNat, UInt8.ofNat_toNat]
      rfl
  | case2 bytes hno =>
      obtain _ | ⟨a, _ | ⟨b, rest⟩⟩ := bytes
      · rfl
      · exact absurd h (by rw [List.length_singleton]; decide)
      · exact absurd rfl (hno a b rest)

theorem wordBytes_length : (wordBytes ws).length = 2 * ws.length := by
  induction ws with
  | nil => rfl
  | cons w ws ih =>
      rw [wordBytes_cons, List.length_append, ih, List.length_cons]
      show 2 + 2 * ws.length = _
      omega

theorem wordBytes_zeros (k : ℕ) :
    wordBytes (List.replicate k 0) = List.replicate (2 * k) 0 := by
  induction k with
  | zero => rfl
  | succ k ih =>
      rw [List.replicate_succ, wordBytes_cons, ih, Nat.mul_succ, Nat.add_comm (2 * k) 2,
        ← List.replicate_append_replicate]
      rfl

end Words

/-! ## Reading undoes writing -/

section RoundTrip

variable {ws pre post : List ℕ} {bytes : List UInt8}

/-- A text of words has no zone, and a colon first. -/
theorem parseAddr_words {s : List Char} {ip : IP} (hcolon : ':' ∈ s)
    (hs : ∀ c ∈ s, isHexDigit c = true ∨ c = ':') (hread : parseIPv6Fields s = some ip) :
    parseAddr s = some (.v6 ip []) := by
  have hne : ∀ c ∈ s, c ≠ '.' ∧ c ≠ '%' := by
    intro c hc
    rcases hs c hc with h | rfl
    · exact ⟨by rintro rfl; exact absurd h (by decide), by rintro rfl; exact absurd h (by decide)⟩
    · decide
  have hfind : s.find? (· ∈ ['.', ':', '%']) = some ':' := by
    obtain ⟨c, hc⟩ : ∃ c, s.find? (· ∈ ['.', ':', '%']) = some c :=
      Option.isSome_iff_exists.mp (List.find?_isSome.mpr ⟨':', hcolon, rfl⟩)
    have hmem := List.mem_of_find?_eq_some hc
    have hin := List.find?_some hc
    rw [decide_eq_true_eq] at hin
    simp only [List.mem_cons, List.not_mem_nil, or_false] at hin
    rcases hin with rfl | rfl | rfl
    · exact absurd rfl (hne _ hmem).1
    · exact hc
    · exact absurd rfl (hne _ hmem).2
  have hzone : ∀ c ∈ s, decide (c ≠ '%') = true := fun c hc => decide_eq_true (hne c hc).2
  unfold parseAddr
  rw [hfind]
  dsimp only
  rw [List.dropWhile_eq_nil_iff.mpr hzone, List.takeWhile_eq_self_iff.mpr hzone, hread]
  rfl

theorem joinWords_chars : ∀ c ∈ joinWords ws, isHexDigit c = true ∨ c = ':' := by
  induction ws with
  | nil => nofun
  | cons w ws ih =>
      intro c hc
      cases ws with
      | nil =>
          rw [joinWords_singleton] at hc
          exact Or.inl (number_hex w c hc)
      | cons w' ws =>
          rw [joinWords_cons] at hc
          rcases List.mem_append.mp hc with hc | hc
          · exact Or.inl (number_hex w c hc)
          · rcases List.mem_cons.mp hc with rfl | hc
            · exact Or.inr rfl
            · exact ih c hc

/-- The missing bytes are zeros again. -/
theorem expand_words {k : ℕ} (hlength : pre.length + k + post.length = 8) (hk : 0 < k)
    (h : (wordBytes (pre ++ List.replicate k 0 ++ post)).length = 16) :
    expand (wordBytes (pre ++ post), some (wordBytes pre).length, []) =
      some ⟨wordBytes (pre ++ List.replicate k 0 ++ post), h⟩ := by
  have hshort : (wordBytes (pre ++ post)).length < 16 := by
    rw [wordBytes_length, List.length_append]
    omega
  have hmissing : 16 - (wordBytes pre ++ wordBytes post).length = 2 * k := by
    rw [List.length_append, wordBytes_length, wordBytes_length]
    omega
  unfold expand
  dsimp only
  rw [if_neg (by simp), dif_pos hshort]
  refine congrArg some ?_
  rw [IP.mk.injEq, wordBytes_append, wordBytes_append, wordBytes_append, wordBytes_zeros, hmissing,
    List.take_left, List.drop_left]

theorem parseIPv6Fields_gap (hpre : ∀ w ∈ pre, w < 65536) (hpost : ∀ w ∈ post, w < 65536)
    (hn : pre.length + post.length ≤ 8) :
    parseIPv6Fields (joinWords pre ++ [':', ':'] ++ joinWords post) =
      expand (wordBytes (pre ++ post), some (wordBytes pre).length, []) := by
  by_cases hnil : pre = []
  · rw [hnil]
    show (if joinWords post = [] then some (⟨List.replicate 16 0, List.length_replicate⟩ : IP)
      else (groups 8 [] (some 0) (joinWords post)).bind expand) = _
    by_cases hnil' : post = []
    · rw [hnil']
      rfl
    · have hhead := (joinWords_head hnil' []).1
      rw [List.append_nil] at hhead
      rw [if_neg hhead, groups_joinWords hnil' hpost (by omega)]
      rfl
  · have hhead := (joinWords_head hnil ([':', ':'] ++ joinWords post)).2
    rw [← List.append_assoc] at hhead
    unfold parseIPv6Fields
    split
    · next rest heq =>
        rw [heq] at hhead
        exact absurd rfl hhead
    · rw [groups_ellipsis_joinWords hnil hpre hpost hn]
      rfl

/-- Sixteen bytes are read back from their words. -/
theorem parseAddr_string6 (ip : IP) : parseAddr (string6 ip.bytes) = some (.v6 ip []) := by
  -- an address is eight words, and a run of zeros among them may be left out
  have hlength : (words ip.bytes).length = 8 := by rw [words_length, ip.size]
  have hlt : ∀ w ∈ words ip.bytes, w < 65536 := words_lt
  have hbytes : wordBytes (words ip.bytes) = ip.bytes := wordBytes_words (by rw [ip.size])
  have hspec := zeroRun_spec (words ip.bytes)
  have hsplit := words_split (words ip.bytes) (zeroRun (words ip.bytes)).1
  unfold string6
  dsimp only
  generalize zeroRun (words ip.bytes) = run at *
  by_cases hrun : run.2 = 0
  · -- all eight words are written
    rw [if_pos hrun]
    have hne : words ip.bytes ≠ [] := List.ne_nil_of_length_pos (by omega)
    have hhead := (joinWords_head hne []).2
    rw [List.append_nil] at hhead
    refine parseAddr_words ?_ joinWords_chars ?_
    · obtain ⟨w, rest, hrest⟩ := List.exists_cons_of_ne_nil hne
      have hne' : rest ≠ [] := by
        rintro rfl
        rw [hrest, List.length_singleton] at hlength
        exact absurd hlength (by decide)
      obtain ⟨w', ws, rfl⟩ := List.exists_cons_of_ne_nil hne'
      rw [hrest, joinWords_cons]
      exact List.mem_append_right _ List.mem_cons_self
    · unfold parseIPv6Fields
      split
      · next rest heq =>
          rw [heq] at hhead
          exact absurd rfl hhead
      · rw [groups_joinWords hne hlt (by omega)]
        show expand (wordBytes (words ip.bytes), none, []) = some ip
        rw [hbytes]
        unfold expand
        dsimp only
        rw [if_neg (by simp), dif_neg (by rw [ip.size]; decide), dif_pos ⟨ip.size, rfl⟩]
  · -- some are left out between the others
    rw [if_neg hrun]
    replace hspec := hspec.resolve_left hrun
    rw [← hspec] at hsplit
    -- the words in front of the gap and behind it are written as they are
    generalize hpre : (words ip.bytes).take run.1 = pre at *
    generalize hpost : (words ip.bytes).drop (run.1 + run.2) = post at *
    have hcount : pre.length + run.2 + post.length = 8 := by
      have hcongr := congrArg List.length hsplit
      rw [hlength, List.length_append, List.length_append, List.length_replicate] at hcongr
      exact hcongr.symm
    have hpre' : ∀ w ∈ pre, w < 65536 := fun w hw => hlt w (by
      rw [hsplit]
      exact List.mem_append_left _ (List.mem_append_left _ hw))
    have hpost' : ∀ w ∈ post, w < 65536 := fun w hw => hlt w (by
      rw [hsplit]
      exact List.mem_append_right _ hw)
    have hsize : (wordBytes (pre ++ List.replicate run.2 0 ++ post)).length = 16 := by
      rw [← hsplit, hbytes, ip.size]
    -- with the gap filled they are the address
    have hip : (⟨wordBytes (pre ++ List.replicate run.2 0 ++ post), hsize⟩ : IP) = ip := by
      apply IP.ext
      show wordBytes (pre ++ List.replicate run.2 0 ++ post) = ip.bytes
      rw [← hsplit, hbytes]
    refine parseAddr_words ?_ (fun c hc => ?_) ?_
    · exact List.mem_append_left _ (List.mem_append_right _ List.mem_cons_self)
    · rcases List.mem_append.mp hc with hc | hc
      · rcases List.mem_append.mp hc with hc | hc
        · exact joinWords_chars c hc
        · refine Or.inr ?_
          simpa using hc
      · exact joinWords_chars c hc
    · rw [parseIPv6Fields_gap hpre' hpost' (by omega),
        expand_words hcount (Nat.pos_of_ne_zero hrun) hsize, hip]

/-- **Reading undoes writing.** -/
theorem parseIP_string (ip : IP) : parseIP ip.string = some ip := by
  unfold parseIP IP.string to4
  rw [if_neg (by rw [ip.size]; decide)]
  by_cases hmapped : ip.bytes.length = 16 ∧ ip.bytes.take 12 = v4InV6Prefix
  · rw [if_pos hmapped]
    have hsplit := List.take_append_drop 12 ip.bytes
    rw [hmapped.2] at hsplit
    have hlength : (ip.bytes.drop 12).length = 4 := by rw [List.length_drop, ip.size]
    generalize hdrop : ip.bytes.drop 12 = last at hsplit hlength
    obtain ⟨a, b, c, d, rfl⟩ : ∃ a b c d, last = [a, b, c, d] := List.length_eq_four.mp hlength
    dsimp only
    rw [parseAddr_string4]
    refine congrArg some (IP.ext ?_)
    exact hsplit
  · rw [if_neg hmapped]
    dsimp only
    rw [parseAddr_string6]
    rfl

/-- No two addresses share a text. -/
theorem string_injective : Function.Injective IP.string := by
  intro ip ip' h
  have hread := parseIP_string ip
  rw [h, parseIP_string] at hread
  exact (Option.some.inj hread).symm

end RoundTrip

end Net
