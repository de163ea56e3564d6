import BindPlane.Codec.Decimal
import BindPlane.Release.Resolution
import BindPlane.Selection.Best
import Mathlib.Algebra.Group.Nat.Defs

/-!
# Addresses and prefixes as text

`ResolveNetwork` reads the address and every prefix from text.  `addrText` is the dotted form
of an address, and `parseAddr_iff` and `parsePrefix_iff` say that the readers accept exactly
the canonical texts: an address is read from its own dotted form and from nothing else, and a
prefix from an address, a slash and a length of at most 32 in plain decimal.

`resolveText` is the function over such rows.  Its pass is the pass of `Selection.Best`, ranked
by the length of the prefix and owned by the switch, so what it returns and what it does not
depend on are read off `Selection.Outcome`.
-/

namespace BindPlane

open Decimal

/-! ## Addresses -/

/-- A number of at most three digits in base ten, and of exactly as many as needed. -/
theorem length_toDigits_octet {n : ℕ} (h : n < 256) : (Nat.toDigits 10 n).length ≤ 3 :=
  (Nat.length_toDigits_le_iff (by decide) (by decide)).mpr (by omega)

/-- An octet is read from its canonical numeral and from nothing else. -/
theorem parseOctet_iff {cs : List Char} {n : ℕ} :
    parseOctet cs = some n ↔ n < 256 ∧ cs = Nat.toDigits 10 n := by
  unfold parseOctet
  split
  · refine ⟨nofun, fun ⟨_, h⟩ => absurd h.symm Nat.toDigits_ne_nil⟩
  · constructor
    · intro h
      obtain rfl := Option.some.inj h
      exact ⟨by decide, rfl⟩
    · rintro ⟨-, h⟩
      rw [← Nat.ofDigitChars_ten_toDigits (n := n), ← h]
      rfl
  · rename_i tail htail
    refine ⟨nofun, fun ⟨_, h⟩ => ?_⟩
    have hlead := (h ▸ canonical_toDigits n : Canonical ('0' :: tail)).lead rfl
    exact absurd (List.cons.inj hlead).2 (by simpa using htail)
  · rename_i hnil hzero hlead
    have hcanonical : Canonical cs ↔ cs.all Char.isDigit := by
      refine ⟨fun h => List.all_eq_true.mpr h.digits, fun h => ⟨hnil, List.all_eq_true.mp h, ?_⟩⟩
      intro hhead
      obtain ⟨tail, rfl⟩ : ∃ tail, cs = '0' :: tail := by
        cases cs with
        | nil => cases hhead
        | cons c tail => exact ⟨tail, by rw [Option.some.inj hhead]⟩
      exact absurd rfl (hlead tail)
    show (if _ then (if Nat.ofDigitChars 10 cs 0 ≤ 255 then some (Nat.ofDigitChars 10 cs 0)
      else none) else none) = some n ↔ _
    rw [← canonical_iff, hcanonical]
    constructor
    · intro h
      split_ifs at h with hdigits hle
      obtain rfl := Option.some.inj h
      rw [Bool.and_eq_true] at hdigits
      exact ⟨Nat.lt_succ_of_le hle, hdigits.1, rfl⟩
    · rintro ⟨hlt, hdigits, rfl⟩
      have hlength : cs.length ≤ 3 := by
        have := length_toDigits_octet hlt
        rwa [toDigits_ofDigitChars (hcanonical.mpr hdigits)] at this
      rw [if_pos (by rw [hdigits, Bool.true_and]; exact decide_eq_true hlength),
        if_pos (Nat.le_of_lt_succ hlt)]

theorem splitDots_ne_nil (cs : List Char) : splitDots cs ≠ [] := by
  cases cs with
  | nil => exact List.cons_ne_nil _ _
  | cons c cs =>
      rw [splitDots]
      split <;> exact List.cons_ne_nil _ _

/-- A part without a dot is one part. -/
theorem splitDots_append {part : List Char} (h : '.' ∉ part) (rest : List Char) :
    splitDots (part ++ '.' :: rest) = part :: splitDots rest := by
  induction part with
  | nil => rfl
  | cons c part ih =>
      have hc : (c == '.') = false :=
        beq_false_of_ne fun hdot => h (by rw [hdot]; exact List.mem_cons_self)
      rw [List.cons_append, splitDots, hc, ih fun hmem => h (List.mem_cons_of_mem _ hmem)]

theorem splitDots_self {part : List Char} (h : '.' ∉ part) : splitDots part = [part] := by
  induction part with
  | nil => rfl
  | cons c part ih =>
      have hc : (c == '.') = false :=
        beq_false_of_ne fun hdot => h (by rw [hdot]; exact List.mem_cons_self)
      rw [splitDots, hc, ih fun hmem => h (List.mem_cons_of_mem _ hmem)]

/-- The parts make up the text. -/
theorem intercalate_splitDots (cs : List Char) : ['.'].intercalate (splitDots cs) = cs := by
  induction cs with
  | nil => rfl
  | cons c cs ih =>
      obtain ⟨part, parts, hparts⟩ := List.exists_cons_of_ne_nil (splitDots_ne_nil cs)
      rw [hparts] at ih
      rw [splitDots, hparts]
      cases hc : c == '.' with
      | true =>
          obtain rfl : c = '.' := by simpa using hc
          show [] ++ ['.'] ++ ['.'].intercalate (part :: parts) = _
          rw [ih]
          rfl
      | false =>
          show ['.'].intercalate ((c :: part) :: parts) = _
          rw [← ih]
          cases parts <;> rfl

/-- `netip.Addr.String` of an IPv4 address. -/
def addrText (ip : IPv4) : String :=
  let n := ip.toNat
  s!"{n / 2 ^ 24}.{n / 2 ^ 16 % 256}.{n / 2 ^ 8 % 256}.{n % 256}"

/-- Four octets as one address, dotted. -/
def dotted (a b c d : ℕ) : List Char :=
  Nat.toDigits 10 a ++ '.' :: (Nat.toDigits 10 b ++ '.' ::
    (Nat.toDigits 10 c ++ '.' :: Nat.toDigits 10 d))

theorem toList_toString (n : ℕ) : (toString n).toList = Nat.toDigits 10 n := Nat.toList_repr

theorem toList_addrText (ip : IPv4) :
    (addrText ip).toList = dotted (ip.toNat / 2 ^ 24) (ip.toNat / 2 ^ 16 % 256)
      (ip.toNat / 2 ^ 8 % 256) (ip.toNat % 256) := by
  show (toString (ip.toNat / 2 ^ 24) ++ "." ++ toString (ip.toNat / 2 ^ 16 % 256) ++ "." ++
    toString (ip.toNat / 2 ^ 8 % 256) ++ "." ++ toString (ip.toNat % 256)).toList = _
  simp only [String.toList_append, toList_toString, dotted, List.append_assoc]
  rfl

theorem splitDots_dotted (a b c d : ℕ) :
    splitDots (dotted a b c d) = [Nat.toDigits 10 a, Nat.toDigits 10 b, Nat.toDigits 10 c,
      Nat.toDigits 10 d] := by
  have hdot : ∀ n, '.' ∉ Nat.toDigits 10 n := not_mem_toDigits (by decide)
  unfold dotted
  rw [splitDots_append (hdot a), splitDots_append (hdot b), splitDots_append (hdot c),
    splitDots_self (hdot d)]

/-- The octets of an address. -/
theorem octets_eq {a b c d : ℕ} (ha : a < 256) (hb : b < 256) (hc : c < 256) (hd : d < 256)
    {ip : IPv4} (h : BitVec.ofNat 32 (((a * 256 + b) * 256 + c) * 256 + d) = ip) :
    a = ip.toNat / 2 ^ 24 ∧ b = ip.toNat / 2 ^ 16 % 256 ∧ c = ip.toNat / 2 ^ 8 % 256 ∧
      d = ip.toNat % 256 := by
  have hn : ip.toNat = ((a * 256 + b) * 256 + c) * 256 + d := by
    rw [← h, BitVec.toNat_ofNat]
    exact Nat.mod_eq_of_lt (by omega)
  omega

/-- An address is read from its dotted form and from nothing else. -/
theorem parseAddr_iff {address : String} {ip : IPv4} :
    parseAddr address = some ip ↔ address = addrText ip := by
  rw [← String.toList_inj, toList_addrText]
  constructor
  · intro h
    unfold parseAddr at h
    split at h
    · rename_i a b c d hparts
      simp only [List.map_eq_cons_iff, List.map_eq_nil_iff] at hparts
      obtain ⟨p, _, hsplit, hp, q, _, rfl, hq, r, _, rfl, hr, t, _, rfl, ht, rfl⟩ := hparts
      rw [parseOctet_iff] at hp hq hr ht
      obtain ⟨rfl, rfl, rfl, rfl⟩ := octets_eq hp.1 hq.1 hr.1 ht.1 (Option.some.inj h)
      rw [← intercalate_splitDots address.toList, hsplit, hp.2, hq.2, hr.2, ht.2]
      simp [List.intercalate, dotted]
    · cases h
  · intro h
    have hlt := ip.isLt
    have hread : ∀ n < 256, parseOctet (Nat.toDigits 10 n) = some n :=
      fun n hn => parseOctet_iff.mpr ⟨hn, rfl⟩
    unfold parseAddr
    rw [h, splitDots_dotted]
    simp only [List.map_cons, List.map_nil]
    rw [hread _ (by omega), hread _ (by omega), hread _ (by omega), hread _ (by omega)]
    refine congrArg some (BitVec.eq_of_toNat_eq ?_)
    rw [BitVec.toNat_ofNat]
    omega

/-! ## Prefixes -/

/-- The text cut at its last slash. -/
def cutLastSlash : List Char → Option (List Char × List Char)
  | [] => none
  | c :: cs =>
      match cutLastSlash cs with
      | some (before, after) => some (c :: before, after)
      | none => if c = '/' then some ([], cs) else none

/-- `strconv.Atoi` of a text that does not start with a sign. -/
def atoi (cs : List Char) : Option ℕ :=
  if cs ≠ [] ∧ cs.all Char.isDigit then some (Nat.ofDigitChars 10 cs 0) else none

/-- The length of an IPv4 prefix: no sign and no leading zero. -/
def parseBits (cs : List Char) : Option (Fin 33) :=
  if 1 < cs.length ∧ ¬ (cs.head?.any fun c => decide ('1' ≤ c ∧ c ≤ '9')) then none
  else (atoi cs).bind fun bits => if h : bits ≤ 32 then some ⟨bits, Nat.lt_succ_of_le h⟩ else none

/-- `netip.ParsePrefix`, where the prefix is of an IPv4 address. -/
def parsePrefix (cidr : String) : Option (IPv4 × Fin 33) := do
  let (address, bitsText) ← cutLastSlash cidr.toList
  let ip ← parseAddr (String.ofList address)
  let bits ← parseBits bitsText
  return (ip, bits)

theorem cutLastSlash_none {cs : List Char} : cutLastSlash cs = none ↔ '/' ∉ cs := by
  induction cs with
  | nil => exact ⟨fun _ => List.not_mem_nil, fun _ => rfl⟩
  | cons c cs ih =>
      rw [cutLastSlash]
      match hcut : cutLastSlash cs with
      | some (before, after) =>
          refine ⟨nofun, fun h => absurd (ih.mpr fun hmem => h (List.mem_cons_of_mem _ hmem)) ?_⟩
          rw [hcut]
          exact nofun
      | none =>
          dsimp only
          split_ifs with hc
          · exact ⟨nofun, fun h => absurd (hc ▸ List.mem_cons_self) h⟩
          · refine ⟨fun _ h => ?_, fun _ => rfl⟩
            obtain h | h := List.mem_cons.mp h
            · exact hc h.symm
            · exact ih.mp hcut h

/-- What is cut at the last slash is put together with it. -/
theorem cutLastSlash_eq_some {cs before after : List Char}
    (h : cutLastSlash cs = some (before, after)) :
    cs = before ++ '/' :: after ∧ '/' ∉ after := by
  induction cs generalizing before with
  | nil => cases h
  | cons c cs ih =>
      rw [cutLastSlash] at h
      match hcut : cutLastSlash cs with
      | some (b, a) =>
          rw [hcut] at h
          obtain ⟨rfl, rfl⟩ := Prod.mk.inj (Option.some.inj h)
          obtain ⟨rfl, hno⟩ := ih hcut
          exact ⟨rfl, hno⟩
      | none =>
          rw [hcut] at h
          dsimp only at h
          split_ifs at h with hc
          obtain ⟨rfl, rfl⟩ := Prod.mk.inj (Option.some.inj h)
          exact ⟨by rw [hc]; rfl, cutLastSlash_none.mp hcut⟩

theorem cutLastSlash_append (before : List Char) {after : List Char} (h : '/' ∉ after) :
    cutLastSlash (before ++ '/' :: after) = some (before, after) := by
  induction before with
  | nil =>
      show cutLastSlash ('/' :: after) = _
      rw [cutLastSlash, cutLastSlash_none.mpr h]
      rfl
  | cons c before ih => rw [List.cons_append, cutLastSlash, ih]

/-- The digits without `0`. -/
theorem isDigit_ne_zero_iff {c : Char} : c.isDigit ∧ c ≠ '0' ↔ '1' ≤ c ∧ c ≤ '9' := by
  have hval : c = '0' ↔ c.toNat = 48 := by
    constructor
    · rintro rfl
      rfl
    · intro h
      rw [← Char.ofNat_toNat c, h]
  have hone : '1' ≤ c ↔ 49 ≤ c.toNat := by
    rw [Char.le_def, UInt32.le_iff_toNat_le]
    rfl
  have hnine : c ≤ '9' ↔ c.toNat ≤ 57 := by
    rw [Char.le_def, UInt32.le_iff_toNat_le]
    rfl
  have hdigit : c.isDigit ↔ 48 ≤ c.toNat ∧ c.toNat ≤ 57 := Char.isDigit_iff_toNat
  rw [Ne, hval, hone, hnine, hdigit]
  omega

/-- The check of the first character leaves the canonical numerals. -/
theorem canonical_iff_first {cs : List Char} (hne : cs ≠ []) (hdigits : cs.all Char.isDigit) :
    Canonical cs ↔
      ¬ (1 < cs.length ∧ ¬ (cs.head?.any fun c => decide ('1' ≤ c ∧ c ≤ '9'))) := by
  obtain ⟨c, cs, rfl⟩ := List.exists_cons_of_ne_nil hne
  have hall := List.all_eq_true.mp hdigits
  have hfirst : ((c :: cs).head?.any fun c => decide ('1' ≤ c ∧ c ≤ '9')) ↔ c ≠ '0' := by
    rw [List.head?_cons, Option.any_some, decide_eq_true_iff, ← isDigit_ne_zero_iff]
    exact ⟨And.right, fun h => ⟨hall c List.mem_cons_self, h⟩⟩
  rw [hfirst, not_not, List.length_cons]
  constructor
  · rintro h ⟨hlong, rfl⟩
    have := congrArg List.length (h.lead rfl)
    rw [List.length_cons, List.length_singleton] at this
    omega
  · intro h
    refine ⟨hne, hall, fun hzero => ?_⟩
    obtain rfl : c = '0' := Option.some.inj hzero
    have hshort : cs.length = 0 := by
      by_contra hlong
      exact h ⟨by omega, rfl⟩
    rw [List.length_eq_zero_iff.mp hshort]

/-- A length is read from its canonical numeral and from nothing else. -/
theorem parseBits_iff {cs : List Char} {bits : Fin 33} :
    parseBits cs = some bits ↔ cs = Nat.toDigits 10 bits.val := by
  rw [← canonical_iff]
  constructor
  · intro h
    unfold parseBits atoi at h
    split_ifs at h with hfirst hdigits
    · rw [Option.bind_some] at h
      split_ifs at h with hle
      refine ⟨(canonical_iff_first hdigits.1 hdigits.2).mpr hfirst, ?_⟩
      rw [← Option.some.inj h]
    · cases h
  · rintro ⟨hcanonical, hvalue⟩
    have hdigits := List.all_eq_true.mpr hcanonical.digits
    have hle : Nat.ofDigitChars 10 cs 0 ≤ 32 := hvalue ▸ Nat.le_of_lt_succ bits.isLt
    unfold parseBits atoi
    rw [if_neg ((canonical_iff_first hcanonical.ne_nil hdigits).mp hcanonical),
      if_pos ⟨hcanonical.ne_nil, hdigits⟩, Option.bind_some, dif_pos hle]
    exact congrArg some (Fin.ext hvalue)

/-- A prefix is read from an address, a slash and a length, and from nothing else. -/
theorem parsePrefix_iff {cidr : String} {ip : IPv4} {bits : Fin 33} :
    parsePrefix cidr = some (ip, bits) ↔ cidr = addrText ip ++ "/" ++ toString bits.val := by
  have htext : cidr = addrText ip ++ "/" ++ toString bits.val ↔
      cidr.toList = (addrText ip).toList ++ '/' :: Nat.toDigits 10 bits.val := by
    rw [← String.toList_inj, String.toList_append, String.toList_append, toList_toString,
      List.append_assoc]
    rfl
  rw [htext]
  constructor
  · intro h
    unfold parsePrefix at h
    match hcut : cutLastSlash cidr.toList with
    | none => rw [hcut] at h; cases h
    | some (address, bitsText) =>
        rw [hcut] at h
        match haddr : parseAddr (String.ofList address), hbits : parseBits bitsText with
        | none, _ => simp [haddr] at h
        | some _, none => simp [haddr, hbits] at h
        | some ip', some bits' =>
            obtain ⟨rfl, rfl⟩ : ip' = ip ∧ bits' = bits := by simpa [haddr, hbits] using h
            rw [(cutLastSlash_eq_some hcut).1, parseBits_iff.mp hbits, ← parseAddr_iff.mp haddr,
              String.toList_ofList]
  · intro h
    have hslash := not_mem_toDigits (c := '/') (by decide) bits.val
    unfold parsePrefix
    rw [h, cutLastSlash_append _ hslash]
    have haddr : parseAddr (addrText ip) = some ip := parseAddr_iff.mpr rfl
    simp [haddr, parseBits_iff.mpr rfl]

/-- The address and the prefix agree on the first `bits` bits. -/
theorem contains_iff {ip addr : IPv4} {bits : Fin 33} :
    ((Cidr.v4 addr bits).contains ip).isSome ↔ ∀ i < bits.val, ip.getMsbD i = addr.getMsbD i := by
  have hsome : ((Cidr.v4 addr bits).contains ip).isSome ↔
      ip >>> (32 - bits.val) = addr >>> (32 - bits.val) := by
    unfold Cidr.contains
    dsimp only
    split_ifs with h <;> simp [h]
  rw [hsome]
  have hbits := bits.isLt
  constructor
  · intro h i hi
    have := congrArg (BitVec.getMsbD · (i + (32 - bits.val))) h
    simp only [BitVec.getMsbD_ushiftRight] at this
    rw [Nat.add_sub_cancel] at this
    simpa [show ¬ i + (32 - bits.val) < 32 - bits.val by omega,
      show i + (32 - bits.val) < 32 by omega] using this
  · intro h
    apply BitVec.eq_of_getMsbD_eq
    intro i hi
    simp only [BitVec.getMsbD_ushiftRight]
    by_cases hlt : i < 32 - bits.val
    · simp [hlt]
    · rw [h (i - (32 - bits.val)) (by omega)]

/-! ## The longest prefix -/

/-- A row as `ResolveNetwork` gets it: the prefix is text. -/
structure NetworkText (κ : Type) where
  id : κ
  switchId : κ
  cidr : String
  enabled : Bool
  validated : Bool
  switchEnabled : Bool
  deriving DecidableEq

variable {κ : Type} [DecidableEq κ]

/-- One iteration of the loop over text. -/
def considerText (ip : IPv4) (acc : Option (Selection.Best (NetworkText κ)))
    (network : NetworkText κ) : Option (Selection.Best (NetworkText κ)) :=
  if !network.enabled || !network.validated || !network.switchEnabled then acc
  else
    match parsePrefix network.cidr with
    | none => acc
    | some (addr, bits) =>
        match (Cidr.v4 addr bits).contains ip with
        | none => acc
        | some bits =>
            match acc with
            | none => some ⟨bits, network, false⟩
            | some b =>
                if b.rank < bits then some ⟨bits, network, false⟩
                else if bits = b.rank ∧ network.switchId ≠ b.chosen.switchId then
                  some { b with tied := true }
                else acc

/-- `ResolveNetwork`. -/
def resolveText (address : String) (networks : List (NetworkText κ)) :
    Except Failure (NetworkText κ) :=
  match parseAddr address with
  | none => .error .invalidIp
  | some ip =>
      match networks.foldl (considerText ip) none with
      | none => .error .noSwitch
      | some b => if b.tied then .error .ambiguous else .ok b.chosen

namespace NetworkText

/-- The length of the row's prefix, where the row is in use and owns the address. -/
def rank (ip : IPv4) (network : NetworkText κ) : Option ℕ :=
  if !network.enabled || !network.validated || !network.switchEnabled then none
  else (parsePrefix network.cidr).bind fun p => (Cidr.v4 p.1 p.2).contains ip

/-- The row is in use, and its prefix, of this length, contains the address.

This is what owning an address should mean, without parsing: the text of the network is an address
and a length, and the address begins with the same bits.  Networks with host bits set own what their
masked form owns, as `netip` has it. -/
def Owns (ip : IPv4) (network : NetworkText κ) (bits : ℕ) : Prop :=
  network.enabled ∧ network.validated ∧ network.switchEnabled ∧ bits ≤ 32 ∧
    ∃ addr : IPv4, network.cidr = addrText addr ++ "/" ++ toString bits ∧
      ∀ i < bits, ip.getMsbD i = addr.getMsbD i

omit [DecidableEq κ] in
theorem rank_eq_some {ip : IPv4} {network : NetworkText κ} {bits : ℕ} :
    network.rank ip = some bits ↔ network.Owns ip bits := by
  have hcontains : ∀ addr (b : Fin 33), (Cidr.v4 addr b).contains ip = some bits ↔
      b.val = bits ∧ ((Cidr.v4 addr b).contains ip).isSome := by
    intro addr b
    unfold Cidr.contains
    dsimp only
    split_ifs <;> simp
  unfold rank Owns
  cases network.enabled <;> cases network.validated <;> cases network.switchEnabled <;>
    simp only [Bool.not_true, Bool.not_false, Bool.or_true, Bool.or_false, Bool.false_eq_true,
      if_true, if_false, false_and, true_and, reduceCtorEq]
  constructor
  · intro h
    obtain ⟨⟨addr, b⟩, hparse, hin⟩ := Option.bind_eq_some_iff.mp h
    obtain ⟨rfl, hsome⟩ := (hcontains addr b).mp hin
    exact ⟨Nat.le_of_lt_succ b.isLt, addr, parsePrefix_iff.mp hparse, contains_iff.mp hsome⟩
  · rintro ⟨hle, addr, hcidr, hagree⟩
    let b : Fin 33 := ⟨bits, Nat.lt_succ_of_le hle⟩
    refine Option.bind_eq_some_iff.mpr ⟨(addr, b), parsePrefix_iff.mpr hcidr, ?_⟩
    exact (hcontains addr b).mpr ⟨rfl, contains_iff.mpr hagree⟩

/-- The loop is the pass ranked by the prefix and owned by the switch. -/
theorem considerText_eq (ip : IPv4) :
    considerText (κ := κ) ip = Selection.Best.consider (rank ip) NetworkText.switchId := by
  funext acc network
  unfold considerText Selection.Best.consider rank
  split_ifs
  · rfl
  · match parsePrefix network.cidr with
    | none => rfl
    | some (addr, bits) =>
        show (match (Cidr.v4 addr bits).contains ip with | none => _ | some bits => _) = _
        rw [Option.bind_some]
        match (Cidr.v4 addr bits).contains ip, acc with
        | none, _ => rfl
        | some _, none => rfl
        | some _, some _ => rfl

/-- The row is in use, owns the address and no row of the list has a longer prefix. -/
def IsLongest (ip : IPv4) (networks : List (NetworkText κ)) (network : NetworkText κ)
    (bits : ℕ) : Prop :=
  network ∈ networks ∧ network.Owns ip bits ∧
    ∀ other ∈ networks, ∀ bits', other.Owns ip bits' → bits' ≤ bits

omit [DecidableEq κ] in
theorem isBest_iff {ip : IPv4} {networks : List (NetworkText κ)} {network : NetworkText κ}
    {bits : ℕ} : Selection.IsBest (rank ip) networks network bits ↔
      network.IsLongest ip networks bits := by
  simp only [Selection.IsBest, IsLongest, rank_eq_some]

/-- What the loop holds at its end. -/
theorem foldl_considerText (ip : IPv4) (networks : List (NetworkText κ)) :
    Selection.Outcome (rank ip) NetworkText.switchId networks
      (networks.foldl (considerText ip) none) := by
  rw [considerText_eq]
  exact .foldl _ _ _

end NetworkText

open NetworkText

/-- What `ResolveNetwork` makes of the loop's result. -/
def resolved (x : Option (Selection.Best (NetworkText κ))) : Except Failure (NetworkText κ) :=
  match x with
  | none => .error .noSwitch
  | some b => if b.tied then .error .ambiguous else .ok b.chosen

theorem resolveText_addr {address : String} {ip : IPv4} (hip : address = addrText ip)
    (networks : List (NetworkText κ)) :
    resolveText address networks = resolved (networks.foldl (considerText ip) none) := by
  unfold resolveText
  rw [parseAddr_iff.mpr hip]
  rfl

/-- Exactly the dotted forms of addresses are read. -/
theorem resolveText_invalidIp {address : String} {networks : List (NetworkText κ)} :
    resolveText address networks = .error .invalidIp ↔ ¬ ∃ ip, address = addrText ip := by
  constructor
  · rintro h ⟨ip, hip⟩
    rw [resolveText_addr hip] at h
    unfold resolved at h
    split at h
    · cases h
    · split_ifs at h
      cases h
  · intro h
    unfold resolveText
    match haddr : parseAddr address with
    | none => rfl
    | some ip => exact absurd ⟨ip, parseAddr_iff.mp haddr⟩ h

section Resolved

variable {ip : IPv4} {networks networks' : List (NetworkText κ)}
  {x y : Option (Selection.Best (NetworkText κ))}

omit [DecidableEq κ] in
theorem resolved_noSwitch (h : Selection.Outcome (rank ip) NetworkText.switchId networks x) :
    resolved x = .error .noSwitch ↔ ∀ n ∈ networks, ∀ bits, ¬ n.Owns ip bits := by
  match x, h with
  | none, h =>
      refine ⟨fun _ n hn bits howns => ?_, fun _ => rfl⟩
      have hrank := rank_eq_some.mpr howns
      rw [h n hn] at hrank
      cases hrank
  | some b, ⟨⟨hmem, hrank, _⟩, _⟩ =>
      refine ⟨fun hno => ?_, fun hno => absurd (rank_eq_some.mp hrank) (hno _ hmem _)⟩
      unfold resolved at hno
      dsimp only at hno
      split_ifs at hno
      cases hno

omit [DecidableEq κ] in
theorem resolved_ambiguous (h : Selection.Outcome (rank ip) NetworkText.switchId networks x) :
    resolved x = .error .ambiguous ↔
      ∃ (n n' : NetworkText κ) (bits : ℕ), n.IsLongest ip networks bits ∧
        n'.IsLongest ip networks bits ∧ n.switchId ≠ n'.switchId := by
  match x, h with
  | none, h =>
      refine ⟨nofun, fun ⟨n, _, bits, hn, _⟩ => ?_⟩
      have hrank := rank_eq_some.mpr hn.2.1
      rw [h n hn.1] at hrank
      cases hrank
  | some b, h =>
      have htie : resolved (some b) = .error .ambiguous ↔ b.tied = true := by
        unfold resolved
        dsimp only
        split_ifs with ht <;> simp [ht]
      rw [htie]
      constructor
      · intro ht
        obtain ⟨a, ha, hrank, hother⟩ := h.2.mp ht
        have hmax := (isBest_iff.mp h.1).2.2
        exact ⟨a, b.chosen, b.rank, ⟨ha, rank_eq_some.mp hrank, hmax⟩, isBest_iff.mp h.1, hother⟩
      · rintro ⟨n, n', bits, hn, hn', hother⟩
        -- one of the two is of another switch than the kept row
        obtain rfl : bits = b.rank :=
          le_antisymm (h.1.2.2 n hn.1 bits (rank_eq_some.mpr hn.2.1))
            (hn.2.2 _ h.1.1 _ (rank_eq_some.mp h.1.2.1))
        by_contra ht
        have hno : b.tied = false := by simpa using ht
        exact hother ((h.owner_eq hno hn.1 (rank_eq_some.mpr hn.2.1)).trans
          (h.owner_eq hno hn'.1 (rank_eq_some.mpr hn'.2.1)).symm)

omit [DecidableEq κ] in
theorem resolved_ok (h : Selection.Outcome (rank ip) NetworkText.switchId networks x)
    {n : NetworkText κ} (hn : resolved x = .ok n) : ∃ bits, n.IsLongest ip networks bits := by
  match x, h with
  | none, _ => cases hn
  | some b, h =>
      unfold resolved at hn
      dsimp only at hn
      split_ifs at hn
      obtain rfl := Except.ok.inj hn
      exact ⟨b.rank, isBest_iff.mp h.1⟩

omit [DecidableEq κ] in
theorem resolved_error {e : Failure} (he : resolved x = .error e) :
    e = .noSwitch ∨ e = .ambiguous := by
  unfold resolved at he
  split at he
  · exact .inl (Except.error.inj he).symm
  · split_ifs at he
    exact .inr (Except.error.inj he).symm

omit [DecidableEq κ] in
theorem resolved_same (h : Selection.Outcome (rank ip) NetworkText.switchId networks x)
    (h' : Selection.Outcome (rank ip) NetworkText.switchId networks' y)
    (hmem : ∀ n, n ∈ networks ↔ n ∈ networks') :
    (resolved x).map (fun n => (n.switchId, n.rank ip)) =
      (resolved y).map (fun n => (n.switchId, n.rank ip)) := by
  have hrel := h.same h' hmem
  cases hrel with
  | none => rfl
  | @some b b' hb =>
      obtain ⟨hrank, htied, howner⟩ := hb
      unfold resolved
      dsimp only
      rw [← htied]
      cases ht : b.tied with
      | true => rfl
      | false =>
          show Except.ok (b.chosen.switchId, b.chosen.rank ip) =
            Except.ok (b'.chosen.switchId, b'.chosen.rank ip)
          rw [howner ht, h.1.2.1, h'.1.2.1, hrank]

end Resolved

/-- `ResolveNetwork` returns the owner of the longest prefix.  It rejects exactly the texts that
are not the dotted form of an address; among the rows that are in use and own the address it
finds none, a tie of the longest prefix between two switches, or a row of the longest prefix;
and lists with the same members give the same error, switch and length.

The pass over the rows keeps the best one so far and whether it is tied, in an order that the
database does not fix.  What the result may depend on is therefore the set of rows, and the
specification of the pass is one (`Selection.Outcome`): no candidate, a greatest rank that two
owners share, or one owner's.  The errors about the address come before the pass and are decided by
its text alone. -/
theorem resolveText_spec (address : String) (networks : List (NetworkText κ)) :
    (resolveText address networks = .error .invalidIp ↔ ¬ ∃ ip, address = addrText ip) ∧
    ∀ ip, address = addrText ip →
      (resolveText address networks = .error .noSwitch ↔
        ∀ n ∈ networks, ∀ bits, ¬ n.Owns ip bits) ∧
      (resolveText address networks = .error .ambiguous ↔
        ∃ (n n' : NetworkText κ) (bits : ℕ), n.IsLongest ip networks bits ∧
          n'.IsLongest ip networks bits ∧ n.switchId ≠ n'.switchId) ∧
      (∀ n, resolveText address networks = .ok n → ∃ bits, n.IsLongest ip networks bits) ∧
      (∀ e, resolveText address networks = .error e → e = .noSwitch ∨ e = .ambiguous) ∧
      ∀ networks', (∀ n, n ∈ networks ↔ n ∈ networks') →
        (resolveText address networks).map (fun n => (n.switchId, n.rank ip)) =
          (resolveText address networks').map (fun n => (n.switchId, n.rank ip)) := by
  refine ⟨resolveText_invalidIp, fun ip hip => ?_⟩
  have hout := foldl_considerText ip networks
  rw [resolveText_addr hip]
  refine ⟨resolved_noSwitch hout, resolved_ambiguous hout, fun n => resolved_ok hout,
    fun e => resolved_error, fun networks' hmem => ?_⟩
  rw [resolveText_addr hip]
  exact resolved_same hout (foldl_considerText ip networks') hmem

namespace Demo

/-- A wide network of one switch, a narrow one of another, and one that is not in use. -/
def networkRows : List (NetworkText ℕ) :=
  [⟨0, 7, "10.0.0.0/8", true, true, true⟩, ⟨1, 8, "10.2.1.0/24", true, true, true⟩,
    ⟨2, 9, "10.2.1.7/32", true, false, true⟩, ⟨3, 9, "10.2.01.7/32", true, true, true⟩]

end Demo

/-- The narrow network is chosen, from either end and with every row twice. -/
theorem resolveText_spec_rows :
    resolveText "10.2.1.7" Demo.networkRows ≠ .error .noSwitch ∧
      (resolveText "10.2.1.7" (Demo.networkRows.reverse ++ Demo.networkRows)).map
        (fun n => (n.switchId, n.rank 0x0A020107#32)) = .ok (8, some 24) := by
  obtain ⟨-, h⟩ := resolveText_spec "10.2.1.7" Demo.networkRows
  obtain ⟨hnone, -, -, -, hsame⟩ := h 0x0A020107#32 (by decide +kernel)
  refine ⟨fun hno => ?_, ?_⟩
  · exact hnone.mp hno ⟨1, 8, "10.2.1.0/24", true, true, true⟩ (by decide) 24
      (rank_eq_some.mp (by decide +kernel))
  · rw [← hsame _ fun n => by simp]
    decide +kernel

/-! ## Rows that have been read -/

/-- The row as text. -/
def Network.row (n : Network) : NetworkText Id :=
  ⟨n.id, n.switchId, n.cidr.text, n.enabled, n.validated, n.switchEnabled⟩

/-- The loop variables as text. -/
def BestNetwork.row (b : BestNetwork) : Selection.Best (NetworkText Id) :=
  ⟨b.best, b.selected.row, b.ambiguous⟩

theorem considerNetwork_row {ip : IPv4} {n : Network}
    (hv6 : ∀ t, n.cidr = .v6 t → parsePrefix t = none) (acc : Option BestNetwork) :
    considerText ip (acc.map BestNetwork.row) n.row =
      (considerNetwork ip acc n).map BestNetwork.row := by
  have hused : (!n.row.enabled || !n.row.validated || !n.row.switchEnabled) =
      (!n.enabled || !n.validated || !n.switchEnabled) := rfl
  unfold considerText considerNetwork
  rw [hused]
  split_ifs
  · rfl
  · match hc : n.cidr with
    | .v6 t =>
        have hparse : parsePrefix n.row.cidr = none := by
          show parsePrefix n.cidr.text = none
          rw [hc]
          exact hv6 t hc
        rw [hparse]
        cases acc <;> rfl
    | .v4 addr bits =>
        have hparse : parsePrefix n.row.cidr = some (addr, bits) := by
          show parsePrefix n.cidr.text = _
          rw [hc]
          exact parsePrefix_iff.mpr rfl
        rw [hparse]
        dsimp only
        match (Cidr.v4 addr bits).contains ip, acc with
        | none, _ => cases acc <;> rfl
        | some _, none => rfl
        | some r, some b =>
            show (if b.best < r then _ else
                if r = b.best ∧ n.switchId ≠ b.selected.switchId then _ else _) =
              Option.map _ (if b.best < r then _ else _)
            simp only [Bool.and_eq_true, decide_eq_true_eq]
            split_ifs <;> rfl

/-- **The store resolves as `ResolveNetwork` does.**  `networkOf`, which the transactions of a
release run on the address and the prefixes they have read, is `resolveText` on the texts of
both: what is said of the one by its text holds of the other. -/
theorem networkOf_row {address : String} {ip : IPv4} (hip : parseAddr address = some ip)
    (networks : List Network)
    (hv6 : ∀ n ∈ networks, ∀ t, n.cidr = .v6 t → parsePrefix t = none) :
    (networkOf ip networks).map Network.row = resolveText address (networks.map Network.row) := by
  have hfold : ∀ (l : List Network) (acc : Option BestNetwork),
      (∀ n ∈ l, ∀ t, n.cidr = .v6 t → parsePrefix t = none) →
      (l.map Network.row).foldl (considerText ip) (acc.map BestNetwork.row) =
        (l.foldl (considerNetwork ip) acc).map BestNetwork.row := by
    intro l
    induction l with
    | nil => exact fun _ _ => rfl
    | cons n l ih =>
        intro acc h
        rw [List.map_cons, List.foldl_cons, considerNetwork_row (h n List.mem_cons_self)]
        exact ih _ fun m hm => h m (List.mem_cons_of_mem _ hm)
  have hrow := hfold networks none hv6
  rw [Option.map_none] at hrow
  unfold resolveText networkOf
  rw [hip]
  dsimp only
  rw [hrow]
  match networks.foldl (considerNetwork ip) none with
  | none => rfl
  | some b =>
      show Except.map Network.row (if b.ambiguous then _ else _) = if b.ambiguous then _ else _
      split_ifs <;> rfl

end BindPlane
