import Mathlib.Algebra.Group.Nat.Defs
import Mathlib.Data.List.TakeWhile
import BindPlane.Codec.Pieces

/-!
# Internet addresses

The texts of IPv4 and IPv6 addresses and of networks, as Go's `net` and `net/netip` read and write
them.  An address is held in 16 bytes, an IPv4 address behind the prefix that maps it, so that the
two texts of one address are read as the same.

**Reading.**  A text with a dot first is four decimal numbers, one with a colon first up to eight
groups of hexadecimal digits, of which `::` stands for as many as are missing, and the last two may
be an IPv4 address.  A text that is read consists of digits, dots and colons (`parseIP_chars`).

**Two packages.**  `net` and `net/netip` read the same texts by different rules: the one takes an
address for its bytes, the other keeps the family and a zone.  Where the code mixes the two, as it
does for a peer and for the networks of the trusted proxies, what counts is what both make of one
text.
-/

namespace Net

/-! ## Addresses -/

/-- An address. -/
@[ext]
structure IP where
  bytes : List UInt8
  size : bytes.length = 16
  deriving DecidableEq

/-- `v4InV6Prefix`. -/
def v4InV6Prefix : List UInt8 := [0, 0, 0, 0, 0, 0, 0, 0, 0, 0, 0xff, 0xff]

/-- `net.IPv4`. -/
def IP.ofV4 (a b c d : UInt8) : IP := ⟨v4InV6Prefix ++ [a, b, c, d], rfl⟩

/-- `To4`, of 4 or 16 bytes. -/
def to4 (bytes : List UInt8) : Option (List UInt8) :=
  if bytes.length = 4 then some bytes
  else if bytes.length = 16 ∧ bytes.take 12 = v4InV6Prefix then some (bytes.drop 12)
  else none

/-- `netip.Addr`. -/
inductive Addr
  | v4 (a b c d : UInt8)
  | v6 (ip : IP) (zone : List Char)
  deriving DecidableEq

/-- `As16`. -/
def Addr.as16 : Addr → IP
  | .v4 a b c d => .ofV4 a b c d
  | .v6 ip _ => ip

/-- `BitLen`. -/
def Addr.bitLen : Addr → ℕ
  | .v4 .. => 32
  | .v6 .. => 128

/-- `Zone`. -/
def Addr.zone : Addr → List Char
  | .v4 .. => []
  | .v6 _ zone => zone

/-! ## Reading an address -/

/-- One of the four numbers: without a leading zero, and no more than a byte. -/
def octet (s : List Char) : Option UInt8 :=
  if s ≠ [] ∧ s.all Char.isDigit ∧ (s.head? = some '0' → s = ['0']) ∧
      Nat.ofDigitChars 10 s 0 ≤ 255 then
    some (UInt8.ofNat (Nat.ofDigitChars 10 s 0))
  else none

/-- `parseIPv4Fields`. -/
def parseIPv4Fields (s : List Char) : Option (UInt8 × UInt8 × UInt8 × UInt8) :=
  match s.splitOn '.' with
  | [a, b, c, d] =>
      match octet a, octet b, octet c, octet d with
      | some a, some b, some c, some d => some (a, b, c, d)
      | _, _, _, _ => none
  | _ => none

/-- A hexadecimal digit. -/
def isHexDigit (c : Char) : Bool :=
  c.isDigit || ('a' ≤ c && c ≤ 'f') || ('A' ≤ c && c ≤ 'F')

/-- Its value. -/
def hexValue (c : Char) : ℕ :=
  if c.isDigit then c.toNat - '0'.toNat
  else if 'a' ≤ c then c.toNat - 'a'.toNat + 10
  else c.toNat - 'A'.toNat + 10

/-- The value of a group. -/
def hexNumber (s : List Char) : ℕ := s.foldl (fun acc c => acc * 16 + hexValue c) 0

/-- The loop of `parseIPv6`, for the groups there is room for: the bytes that are read, the
position of `::` among them, and what is left. -/
def groups : ℕ → List UInt8 → Option ℕ → List Char →
    Option (List UInt8 × Option ℕ × List Char)
  | 0, bytes, ellipsis, s => some (bytes, ellipsis, s)
  | n + 1, bytes, ellipsis, s =>
      let digits := s.takeWhile isHexDigit
      let bytes' := bytes ++
        [UInt8.ofNat (hexNumber digits / 256), UInt8.ofNat (hexNumber digits % 256)]
      if digits = [] ∨ 4 < digits.length then none
      else
        match s.dropWhile isHexDigit with
        | '.' :: _ =>
            -- an embedded IPv4 address, which takes the room of two groups
            if ellipsis = none ∧ bytes.length ≠ 12 then none
            else if 16 < bytes.length + 4 then none
            else
              match parseIPv4Fields s with
              | some (a, b, c, d) => some (bytes ++ [a, b, c, d], ellipsis, [])
              | none => none
        | [] => some (bytes', ellipsis, [])
        | [':'] => none
        | ':' :: ':' :: rest =>
            if ellipsis ≠ none then none
            else if rest = [] then some (bytes', some bytes'.length, [])
            else groups n bytes' (some bytes'.length) rest
        | ':' :: rest => groups n bytes' ellipsis rest
        | _ => none

/-- The end of `parseIPv6`: nothing is left over, and `::` stands for the bytes that are missing. -/
def expand : List UInt8 × Option ℕ × List Char → Option IP
  | (bytes, ellipsis, s) =>
      if s ≠ [] then none
      else if h : bytes.length < 16 then
        match ellipsis with
        | none => none
        | some at_ => some ⟨bytes.take at_ ++ List.replicate (16 - bytes.length) 0 ++
            bytes.drop at_, by
              rw [List.length_append, List.length_append, List.length_take,
                List.length_replicate, List.length_drop]
              omega⟩
      else if h : bytes.length = 16 ∧ ellipsis = none then some ⟨bytes, h.1⟩
      else none

/-- `parseIPv6`, without the zone. -/
def parseIPv6Fields : List Char → Option IP
  | ':' :: ':' :: rest =>
      if rest = [] then some ⟨List.replicate 16 0, List.length_replicate⟩
      else (groups 8 [] (some 0) rest).bind expand
  | s => (groups 8 [] none s).bind expand

/-- `netip.ParseAddr`. -/
def parseAddr (s : List Char) : Option Addr :=
  match s.find? (· ∈ ['.', ':', '%']) with
  | some '.' => (parseIPv4Fields s).map fun (a, b, c, d) => .v4 a b c d
  | some ':' =>
      match s.dropWhile (· ≠ '%') with
      | ['%'] => none
      | zone => (parseIPv6Fields (s.takeWhile (· ≠ '%'))).map fun ip => .v6 ip zone.tail
  | _ => none

/-- `net.ParseIP`. -/
def parseIP (s : List Char) : Option IP :=
  match parseAddr s with
  | some addr => if addr.zone = [] then some addr.as16 else none
  | none => none

/-- A character of the text of an address. -/
def isAddrChar (c : Char) : Bool := isHexDigit c || c = '.' || c = ':'

section Chars

variable {s : List Char} {c : Char}

theorem octet_chars {x : UInt8} (h : octet s = some x) (hc : c ∈ s) : isAddrChar c = true := by
  unfold octet at h
  split at h
  · next hcond =>
      have hdigit := List.all_eq_true.mp hcond.2.1 c hc
      unfold isAddrChar isHexDigit
      rw [hdigit]
      rfl
  · cases h

theorem parseIPv4Fields_chars {x : UInt8 × UInt8 × UInt8 × UInt8}
    (h : parseIPv4Fields s = some x) (hc : c ∈ s) : isAddrChar c = true := by
  by_cases hdot : c = '.'
  · rw [hdot]
    rfl
  · obtain ⟨piece, hpiece, hmem⟩ := Pieces.mem_piece (p := (· == '.')) hc (by simpa using hdot)
    replace hpiece : piece ∈ s.splitOn '.' := hpiece
    unfold parseIPv4Fields at h
    split at h
    · next hsplit =>
        rw [hsplit] at hpiece
        split at h
        · next ha hb hc hd =>
            simp only [List.mem_cons, List.not_mem_nil, or_false] at hpiece
            rcases hpiece with rfl | rfl | rfl | rfl
            · exact octet_chars ha hmem
            · exact octet_chars hb hmem
            · exact octet_chars hc hmem
            · exact octet_chars hd hmem
        · cases h
    · cases h

theorem groups_chars {n : ℕ} : ∀ {bytes ellipsis s bytes' ellipsis'},
    groups n bytes ellipsis s = some (bytes', ellipsis', []) → ∀ c ∈ s, isAddrChar c = true := by
  induction n with
  | zero =>
      intro bytes ellipsis s bytes' ellipsis' h c hc
      cases h
      cases hc
  | succ n ih =>
      intro bytes ellipsis s bytes' ellipsis' h c hc
      -- a digit of the group, or behind it
      have hsplit : c ∈ s.takeWhile isHexDigit ∨ c ∈ s.dropWhile isHexDigit := by
        rw [← List.mem_append, List.takeWhile_append_dropWhile]
        exact hc
      rcases hsplit with hmem | hmem
      · unfold isAddrChar
        rw [List.mem_takeWhile_imp hmem]
        rfl
      · unfold groups at h
        dsimp only at h
        split at h
        · cases h
        · split at h
          · split at h
            · cases h
            · split at h
              · cases h
              · split at h
                · next hread => exact parseIPv4Fields_chars hread hc
                · cases h
          · next hrest =>
              rw [hrest] at hmem
              cases hmem
          · cases h
          · next rest hrest =>
              rw [hrest, List.mem_cons, List.mem_cons] at hmem
              split at h
              · cases h
              · rcases hmem with rfl | rfl | hmem
                · rfl
                · rfl
                · split at h
                  · next hnil =>
                      rw [hnil] at hmem
                      cases hmem
                  · exact ih h c hmem
          · next rest _ _ hrest =>
              rw [hrest, List.mem_cons] at hmem
              rcases hmem with rfl | hmem
              · rfl
              · exact ih h c hmem
          · cases h

theorem parseIPv6Fields_chars {ip : IP} (h : parseIPv6Fields s = some ip) (hc : c ∈ s) :
    isAddrChar c = true := by
  have hgroups : ∀ {n bytes ellipsis t}, (groups n bytes ellipsis t).bind expand = some ip →
      ∀ c ∈ t, isAddrChar c = true := by
    intro n bytes ellipsis t hbind
    obtain ⟨⟨bytes', ellipsis', rest⟩, hread, hexpand⟩ := Option.bind_eq_some_iff.mp hbind
    unfold expand at hexpand
    dsimp only at hexpand
    split at hexpand
    · cases hexpand
    · next hnil =>
        rw [not_not.mp hnil] at hread
        exact groups_chars hread
  unfold parseIPv6Fields at h
  split at h
  · next rest =>
      rw [List.mem_cons, List.mem_cons] at hc
      rcases hc with rfl | rfl | hc
      · rfl
      · rfl
      · split at h
        · next hnil =>
            rw [hnil] at hc
            cases hc
        · exact hgroups h c hc
  · exact hgroups h c hc

/-- **The text of an address** consists of digits, dots and colons. -/
theorem parseIP_chars {ip : IP} (h : parseIP s = some ip) (hc : c ∈ s) : isAddrChar c = true := by
  unfold parseIP at h
  split at h
  · next addr haddr =>
      split at h
      · next hzone =>
          unfold parseAddr at haddr
          split at haddr
          · obtain ⟨x, hread, -⟩ := Option.map_eq_some_iff.mp haddr
            exact parseIPv4Fields_chars hread hc
          · split at haddr
            · cases haddr
            · next hlone =>
                obtain ⟨ip', hread, rfl⟩ := Option.map_eq_some_iff.mp haddr
                -- there is no zone, so the text is read whole
                have hnone : s.dropWhile (· ≠ '%') = [] := by
                  cases hdrop : s.dropWhile (· ≠ '%') with
                  | nil => rfl
                  | cons x zone =>
                      have hx : x = '%' := by
                        have hhead := List.head?_dropWhile_not (· ≠ '%') s
                        rw [hdrop] at hhead
                        simpa using hhead
                      have htail : zone = [] := by
                        rw [hdrop] at hzone
                        exact hzone
                      rw [hdrop, hx, htail] at hlone
                      exact absurd rfl hlone
                have hwhole : s.takeWhile (· ≠ '%') = s := by
                  conv_rhs => rw [← List.takeWhile_append_dropWhile (p := (· ≠ '%')) (l := s)]
                  rw [hnone, List.append_nil]
                rw [hwhole] at hread
                exact parseIPv6Fields_chars hread hc
          · cases haddr
      · cases h
  · cases h

end Chars

/-! ## Writing an address -/

/-- A byte in decimal, or a word in hexadecimal digits. -/
def number (base n : ℕ) : List Char := Nat.toDigits base n

/-- The 16-bit words. -/
def words : List UInt8 → List ℕ
  | a :: b :: rest => (a.toNat * 256 + b.toNat) :: words rest
  | _ => []

/-- The words from `i` on that are zero. -/
def zeros (ws : List ℕ) (i : ℕ) : ℕ := ((ws.drop i).takeWhile (· = 0)).length

/-- The first of the longest runs of two zero words or more: where it begins, and its length. -/
def zeroRun (ws : List ℕ) : ℕ × ℕ :=
  (List.range ws.length).foldl
    (fun best i => if 2 ≤ zeros ws i ∧ best.2 < zeros ws i then (i, zeros ws i) else best) (0, 0)

/-- Words between colons. -/
def joinWords (ws : List ℕ) : List Char := [':'].intercalate (ws.map (number 16))

/-- The text of 16 bytes. -/
def string6 (bytes : List UInt8) : List Char :=
  let ws := words bytes
  let run := zeroRun ws
  if run.2 = 0 then joinWords ws
  else joinWords (ws.take run.1) ++ [':', ':'] ++ joinWords (ws.drop (run.1 + run.2))

/-- The text of 4 bytes. -/
def string4 (bytes : List UInt8) : List Char :=
  ['.'].intercalate (bytes.map fun b => number 10 b.toNat)

/-- `IP.String`. -/
def IP.string (ip : IP) : List Char :=
  match to4 ip.bytes with
  | some bytes => string4 bytes
  | none => string6 ip.bytes

/-! ## Networks -/

/-- `net.IPNet`. -/
structure IPNet where
  ip : List UInt8
  mask : List UInt8
  deriving DecidableEq

/-- `net.CIDRMask`, of a number of bytes. -/
def cidrMask : ℕ → ℕ → List UInt8
  | 0, _ => []
  | k + 1, n =>
      if 8 ≤ n then 0xff :: cidrMask k (n - 8)
      else UInt8.ofNat (256 - 2 ^ (8 - n)) :: cidrMask k 0

/-- `IP.Mask`. -/
def maskBytes (bytes mask : List UInt8) : List UInt8 := List.zipWith (· &&& ·) bytes mask

/-- `net.ParseCIDR`.

Leading zeros of the prefix length are accepted, as the length is read digit by digit. -/
def parseCIDR (s : List Char) : Option IPNet :=
  match s.dropWhile (· ≠ '/') with
  | '/' :: bits =>
      match parseAddr (s.takeWhile (· ≠ '/')) with
      | some addr =>
          if addr.zone ≠ [] ∨ bits = [] ∨ ¬ bits.all Char.isDigit ∨
              addr.bitLen < Nat.ofDigitChars 10 bits 0 then none
          else
            let mask := cidrMask (addr.bitLen / 8) (Nat.ofDigitChars 10 bits 0)
            match addr with
            | .v4 a b c d => some ⟨maskBytes [a, b, c, d] mask, mask⟩
            | .v6 ip _ => some ⟨maskBytes ip.bytes mask, mask⟩
      | none => none
  | _ => none

/-- `networkNumberAndMask`. -/
def IPNet.numberAndMask (n : IPNet) : List UInt8 × List UInt8 :=
  match to4 n.ip with
  | some bytes => (bytes, if n.mask.length = 16 then n.mask.drop 12 else n.mask)
  | none => (n.ip, n.mask)

/-- `Contains`. -/
def IPNet.contains (n : IPNet) (ip : IP) : Bool :=
  let bytes := (to4 ip.bytes).getD ip.bytes
  let (number, mask) := n.numberAndMask
  bytes.length = number.length && maskBytes number mask = maskBytes bytes mask

/-! ## A host and a port -/

/-- `net.SplitHostPort`; the error is not kept. -/
def splitHostPort (s : List Char) : Option (List Char × List Char) :=
  if ':' ∉ s then none
  else
    -- the port begins behind the last colon
    let i := s.length - 1 - s.reverse.idxOf ':'
    if s.head? = some '[' then
      let stop := s.idxOf ']'
      if ']' ∉ s ∨ stop + 1 ≠ i then none
      else if '[' ∈ s.drop 1 ∨ ']' ∈ s.drop (stop + 1) then none
      else some ((s.take stop).drop 1, s.drop (i + 1))
    else if ':' ∈ s.take i ∨ '[' ∈ s ∨ ']' ∈ s then none
    else some (s.take i, s.drop (i + 1))

end Net
