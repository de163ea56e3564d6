import BindPlane.Release.Prefixes

/-!
# The resolver before the cutover

`resolve_switch_for_ip` of the old application, beside `ResolveNetwork` of the new one.  The old
resolver filters the rows whose network contains the address, takes the greatest of their prefix
columns and counts the rows that have it; more than one is ambiguous, whosever they are.

**Agreement.**  Over rows that both applications hold, `matching_iff` says that the rows which
the filter keeps are those that the new resolver ranks, with the same length.  `cutover` is the
comparison: the two find nothing together, what the old one finds the new one finds, and where
the old one finds too many the new one still answers if they are of one switch.

**Source.**  What is modelled here is in `backend/bind_plane/db/models.py` and
`backend/bind_plane/services/switch_resolution.py`.
-/

namespace BindPlane.Legacy

open Decimal

/-! ## `ip_network` -/

/-- `_ip_int_from_prefix`: `ALL_ONES ^ (ALL_ONES >> prefixlen)`. -/
def netmask (prefixlen : ℕ) : IPv4 :=
  BitVec.allOnes 32 ^^^ (BitVec.allOnes 32 >>> prefixlen)

/-- `_prefix_from_prefix_string`. -/
def prefixFromPrefixString (text : List Char) : Option ℕ :=
  (atoi text).filter (· ≤ 32)

/-- `_prefix_from_ip_int`: the number of ones that only zeros follow. -/
def prefixFromIpInt (ip : IPv4) : Option ℕ :=
  (List.range 33).find? (netmask · = ip)

/-- `_prefix_from_ip_string`: a netmask, or else a host mask. -/
def prefixFromIpString (text : List Char) : Option ℕ :=
  (parseAddr (String.ofList text)).bind fun ip => prefixFromIpInt ip <|> prefixFromIpInt (~~~ip)

/-- `_make_netmask`, where the mask is text. -/
def makeNetmask (text : List Char) : Option ℕ :=
  prefixFromPrefixString text <|> prefixFromIpString text

inductive IpNetwork
  | v4 (networkAddress netmask : IPv4)
  | v6

/-- `IPv4Network(cidr, strict=False)`; `none` is an `AddressValueError` or a
`NetmaskValueError`. -/
def ipv4Network (cidr : String) : Option IpNetwork :=
  match cidr.toList.splitOn '/' with
  | [address] => (parseAddr (String.ofList address)).map fun ip => .v4 ip (netmask 32)
  | [address, mask] => do
      let ip ← parseAddr (String.ofList address)
      let prefixlen ← makeNetmask mask
      return .v4 (ip &&& netmask prefixlen) (netmask prefixlen)
  | _ => none

/-- `ip_network(cidr, strict=False)`; `v6` says which texts `IPv6Network` accepts, and `none` is
a `ValueError`. -/
def ipNetwork (v6 : String → Bool) (cidr : String) : Option IpNetwork :=
  match ipv4Network cidr with
  | some network => some network
  | none => if v6 cidr then some .v6 else none

/-- `ip in network`, for an IPv4 address. -/
def IpNetwork.contains (ip : IPv4) : IpNetwork → Bool
  | .v4 networkAddress mask => ip &&& mask = networkAddress
  | .v6 => false

/-! ## The resolver -/

structure Network (κ : Type) where
  id : κ
  cidr : String
  prefixLength : ℤ
  isEnabled : Bool
  isValidated : Bool

structure Switch (κ : Type) where
  id : κ
  commandProfileId : κ
  managementIp : String
  name : String
  isEnabled : Bool

structure ResolvedSwitch (κ : Type) where
  switchId : κ
  networkId : κ
  commandProfileId : κ
  managementIp : String
  name : String
  cidr : String
  prefixLength : ℤ

inductive SwitchResolutionError
  | noSwitchMatch
  | ambiguousSwitchMatch
  /-- The `ValueError` of `ip_network`. -/
  | valueError
  deriving DecidableEq

variable {κ : Type}

/-- The `where` clause of the query. -/
def selected (r : Network κ × Switch κ) : Bool :=
  r.1.isEnabled && r.1.isValidated && r.2.isEnabled

/-- The loop that collects `matches`. -/
def matching (v6 : String → Bool) (ip : IPv4) :
    List (Network κ × Switch κ) → Option (List (Network κ × Switch κ))
  | [] => some []
  | r :: rs => do
      let parsed ← ipNetwork v6 r.1.cidr
      let rest ← matching v6 ip rs
      return if parsed.contains ip then r :: rest else rest

/-- `max` of the prefix lengths. -/
def bestPrefix (r : Network κ × Switch κ) (rs : List (Network κ × Switch κ)) : ℤ :=
  rs.foldl (fun best r => max best r.1.prefixLength) r.1.prefixLength

/-- `resolve_switch_for_ip` over the rows of the join. -/
def resolveSwitchForIp (v6 : String → Bool) (ip : IPv4) (rows : List (Network κ × Switch κ)) :
    Except SwitchResolutionError (ResolvedSwitch κ) :=
  match matching v6 ip (rows.filter selected) with
  | none => .error .valueError
  | some [] => .error .noSwitchMatch
  | some (r :: rs) =>
      match (r :: rs).filter (·.1.prefixLength = bestPrefix r rs) with
      | [(network, switch)] =>
          .ok ⟨switch.id, network.id, switch.commandProfileId, switch.managementIp, switch.name,
            network.cidr, network.prefixLength⟩
      | _ => .error .ambiguousSwitchMatch

/-! ## Rows that both applications hold -/

/-- The row as the new application has it. -/
def text (r : Network κ × Switch κ) : NetworkText κ :=
  ⟨r.1.id, r.2.id, r.1.cidr, r.1.isEnabled, r.1.isValidated, r.2.isEnabled⟩

/-- The prefix is in normalised form, and the column has its length.  An IPv6 prefix is a text
with a colon that `IPv6Network` accepts.

The old application stores a network together with its length and its family, and the new one only
its text.  This is the part of the import on which the comparison of the two rests. -/
def Normalised (v6 : String → Bool) (network : Network κ) : Prop :=
  (∃ (addr : IPv4) (bits : Fin 33), addr &&& netmask bits = addr ∧
    network.cidr = addrText addr ++ "/" ++ toString bits.val ∧
      network.prefixLength = bits.val) ∨
  ':' ∈ network.cidr.toList ∧ v6 network.cidr = true

/-! ## The same networks -/

theorem getMsbD_netmask {len i : ℕ} (hi : i < 32) : (netmask len).getMsbD i = decide (i < len) := by
  unfold netmask
  rw [BitVec.getMsbD_xor, BitVec.getMsbD_ushiftRight, BitVec.getMsbD_allOnes,
    BitVec.getMsbD_allOnes]
  by_cases h : i < len <;> simp [h, hi]
  omega

/-- Two addresses are in one network if they agree on its first bits. -/
theorem and_netmask_eq {ip addr : IPv4} {bits : Fin 33} :
    ip &&& netmask bits = addr &&& netmask bits ↔ ∀ i < bits.val, ip.getMsbD i = addr.getMsbD i := by
  have hbits := bits.isLt
  constructor
  · intro h i hi
    have hmsb := congrArg (BitVec.getMsbD · i) h
    simpa [BitVec.getMsbD_and, getMsbD_netmask (show i < 32 by omega), hi] using hmsb
  · intro h
    refine BitVec.eq_of_getMsbD_eq fun i hi => ?_
    rw [BitVec.getMsbD_and, BitVec.getMsbD_and, getMsbD_netmask hi]
    by_cases hin : i < bits.val
    · rw [h i hin]
    · rw [decide_eq_false hin, Bool.and_false, Bool.and_false]

theorem not_mem_addrText {c : Char} (hc : c.isDigit = false) (hdot : c ≠ '.') (ip : IPv4) :
    c ∉ (addrText ip).toList := by
  have hno : ∀ n, c ∉ Nat.toDigits 10 n := not_mem_toDigits hc
  rw [toList_addrText, dotted]
  simp [hno, hdot]

theorem makeNetmask_toDigits (bits : Fin 33) :
    makeNetmask (Nat.toDigits 10 bits.val) = some bits.val := by
  have hcanonical := canonical_toDigits bits.val
  have hatoi : atoi (Nat.toDigits 10 bits.val) = some bits.val := by
    unfold atoi
    rw [if_pos ⟨hcanonical.ne_nil, List.all_eq_true.mpr hcanonical.digits⟩,
      Nat.ofDigitChars_ten_toDigits]
  unfold makeNetmask prefixFromPrefixString
  rw [hatoi, Option.filter_some, if_pos (decide_eq_true (Nat.le_of_lt_succ bits.isLt))]
  rfl

/-- A normalised IPv4 prefix is read. -/
theorem ipv4Network_text {cidr : String} {addr : IPv4} {bits : Fin 33}
    (h : cidr = addrText addr ++ "/" ++ toString bits.val) :
    ipv4Network cidr = some (.v4 (addr &&& netmask bits) (netmask bits)) := by
  have htext : cidr.toList = (addrText addr).toList ++ '/' :: Nat.toDigits 10 bits.val := by
    rw [h, String.toList_append, String.toList_append, toList_toString, List.append_assoc]
    rfl
  have haddr : parseAddr (addrText addr) = some addr := parseAddr_iff.mpr rfl
  unfold ipv4Network
  rw [htext, List.splitOn_append_cons_self_of_not_mem (not_mem_addrText rfl (by decide) addr),
    List.splitOn_eq_singleton (not_mem_toDigits rfl bits.val)]
  simp [haddr, makeNetmask_toDigits]

/-- No text with a colon is read as an IPv4 network. -/
theorem ipv4Network_colon {cidr : String} (h : ':' ∈ cidr.toList) : ipv4Network cidr = none := by
  have haddress : ∀ {text : List Char}, ':' ∈ text → parseAddr (String.ofList text) = none := by
    intro text hcolon
    refine Option.eq_none_iff_forall_ne_some.mpr fun ip hip => ?_
    have htext := parseAddr_iff.mp hip
    refine not_mem_addrText (c := ':') rfl (by decide) ip ?_
    rw [← htext, String.toList_ofList]
    exact hcolon
  have hmask : ∀ {text : List Char}, ':' ∈ text → makeNetmask text = none := by
    intro text hcolon
    unfold makeNetmask prefixFromPrefixString prefixFromIpString atoi
    rw [haddress hcolon, if_neg fun hdigits => ?_]
    · rfl
    · exact Bool.false_ne_true (List.all_eq_true.mp hdigits.2 ':' hcolon)
  unfold ipv4Network
  have hjoined : ['/'].intercalate (cidr.toList.splitOn '/') = cidr.toList :=
    List.intercalate_splitOn '/'
  split
  · rename_i address hparts
    rw [hparts] at hjoined
    rw [haddress (by simpa [← hjoined] using h)]
    rfl
  · rename_i address mask hparts
    rw [hparts] at hjoined
    have hin : ':' ∈ address ∨ ':' ∈ mask := by simpa [← hjoined, List.intercalate] using h
    rcases hin with hin | hin
    · rw [haddress hin]
      rfl
    · rw [hmask hin]
      cases parseAddr (String.ofList address) <;> rfl
  · rfl

section Rows

variable {v6 : String → Bool} {ip : IPv4} {r : Network κ × Switch κ}
  {rows : List (Network κ × Switch κ)}

/-- A row that the query selects is read, and contains the address where the new resolver ranks
it; the rank is the prefix column. -/
theorem Normalised.read (h : Normalised v6 r.1) (hsel : selected r = true) (ip : IPv4) :
    ∃ parsed, ipNetwork v6 r.1.cidr = some parsed ∧
      parsed.contains ip = ((text r).rank ip).isSome ∧
        ∀ bits, (text r).rank ip = some bits → r.1.prefixLength = bits := by
  have hrank : (text r).rank ip =
      (parsePrefix r.1.cidr).bind fun p => (Cidr.v4 p.1 p.2).contains ip := by
    have hused : (!r.1.isEnabled || !r.1.isValidated || !r.2.isEnabled) = false := by
      unfold selected at hsel
      cases hn : r.1.isEnabled <;> cases hv : r.1.isValidated <;> cases hs : r.2.isEnabled <;>
        simp_all
    show (if (!r.1.isEnabled || !r.1.isValidated || !r.2.isEnabled) = true then _ else _) = _
    rw [hused]
    rfl
  rw [hrank]
  obtain ⟨addr, bits, -, hcidr, hlength⟩ | ⟨hcolon, hv6⟩ := h
  · refine ⟨.v4 (addr &&& netmask bits) (netmask bits), ?_, ?_, ?_⟩
    · unfold ipNetwork
      rw [ipv4Network_text hcidr]
    · rw [parsePrefix_iff.mpr hcidr, Option.bind_some, Bool.eq_iff_iff, contains_iff,
        ← and_netmask_eq]
      exact decide_eq_true_iff
    · intro n hn
      rw [parsePrefix_iff.mpr hcidr, Option.bind_some] at hn
      unfold Cidr.contains at hn
      dsimp only at hn
      split_ifs at hn
      rw [hlength, Option.some.inj hn]
  · have hnone : parsePrefix r.1.cidr = none := by
      refine Option.eq_none_iff_forall_ne_some.mpr fun p hp => ?_
      rw [parsePrefix_iff.mp (show parsePrefix r.1.cidr = some (p.1, p.2) from hp),
        String.toList_append, String.toList_append, toList_toString] at hcolon
      simp [not_mem_addrText (c := ':') rfl (by decide) p.1,
        not_mem_toDigits (c := ':') rfl p.2.val] at hcolon
    refine ⟨.v6, ?_, ?_, ?_⟩
    · unfold ipNetwork
      rw [ipv4Network_colon hcolon]
      exact if_pos hv6
    · rw [hnone]
      rfl
    · rw [hnone]
      rintro bits ⟨⟩

/-- A row that the query leaves out has no rank. -/
theorem rank_of_not_selected (h : selected r = false) : (text r).rank ip = none := by
  show (if (!r.1.isEnabled || !r.1.isValidated || !r.2.isEnabled) = true then _ else _) = _
  refine if_pos ?_
  unfold selected at h
  cases hn : r.1.isEnabled <;> cases hv : r.1.isValidated <;> cases hs : r.2.isEnabled <;>
    simp_all

/-- The old filter keeps the rows that the new resolver ranks. -/
theorem matching_eq (h : ∀ r ∈ rows, Normalised v6 r.1) :
    matching v6 ip (rows.filter selected) =
      some (rows.filter fun r => ((text r).rank ip).isSome) := by
  induction rows with
  | nil => rfl
  | cons r rows ih =>
      have ih := ih fun r hr => h r (List.mem_cons_of_mem _ hr)
      cases hsel : selected r with
      | false =>
          rw [List.filter_cons_of_neg (by simp [hsel]), ih, List.filter_cons_of_neg]
          rw [rank_of_not_selected hsel]
          simp
      | true =>
          obtain ⟨parsed, hread, hcontains, -⟩ := (h r List.mem_cons_self).read hsel ip
          rw [List.filter_cons_of_pos hsel, matching, hread, ih, List.filter_cons, ← hcontains]
          rfl

/-- The greatest prefix is a prefix of a row, and none is greater. -/
theorem bestPrefix_spec (r : Network κ × Switch κ) (rs : List (Network κ × Switch κ)) :
    (∀ x ∈ r :: rs, x.1.prefixLength ≤ bestPrefix r rs) ∧
      ∃ x ∈ r :: rs, x.1.prefixLength = bestPrefix r rs := by
  have hfold : ∀ (rs : List (Network κ × Switch κ)) (best : ℤ),
      let most := rs.foldl (fun best r => max best r.1.prefixLength) best
      best ≤ most ∧ (∀ x ∈ rs, x.1.prefixLength ≤ most) ∧
        (most = best ∨ ∃ x ∈ rs, x.1.prefixLength = most) := by
    intro rs
    induction rs with
    | nil => exact fun best => ⟨le_rfl, nofun, .inl rfl⟩
    | cons y rs ih =>
        intro best
        obtain ⟨hbest, hall, hsome⟩ := ih (max best y.1.prefixLength)
        refine ⟨(le_max_left _ _).trans hbest, fun x hx => ?_, ?_⟩
        · obtain rfl | hx := List.mem_cons.mp hx
          · exact (le_max_right _ _).trans hbest
          · exact hall x hx
        · obtain hsame | ⟨x, hx, hmost⟩ := hsome
          · show List.foldl _ (max best y.1.prefixLength) rs = best ∨ _
            rw [hsame]
            obtain hmax | hmax := max_choice best y.1.prefixLength
            · exact .inl hmax
            · exact .inr ⟨y, List.mem_cons_self, by rw [List.foldl_cons, hsame, hmax]⟩
          · exact .inr ⟨x, List.mem_cons_of_mem y hx, hmost⟩
  obtain ⟨hfirst, hall, hsome⟩ := hfold rs r.1.prefixLength
  refine ⟨fun x hx => ?_, ?_⟩
  · obtain rfl | hx := List.mem_cons.mp hx
    · exact hfirst
    · exact hall x hx
  · obtain hsame | ⟨x, hx, hmost⟩ := hsome
    · exact ⟨r, List.mem_cons_self, hsame.symm⟩
    · exact ⟨x, List.mem_cons_of_mem r hx, hmost⟩

/-- The ranked rows with the greatest prefix are the longest of the new resolver. -/
theorem mem_best_iff {r₀ : Network κ × Switch κ} {rs : List (Network κ × Switch κ)}
    {networks : List (NetworkText κ)} (h : ∀ r ∈ rows, Normalised v6 r.1)
    (hsame : networks.Perm (rows.map text))
    (hranked : rows.filter (fun r => ((text r).rank ip).isSome) = r₀ :: rs) :
    (∀ r ∈ (r₀ :: rs).filter (·.1.prefixLength = bestPrefix r₀ rs),
      ∃ bits, (text r).IsLongest ip networks bits) ∧
    ∀ n bits, n.IsLongest ip networks bits →
      ∃ r ∈ (r₀ :: rs).filter (·.1.prefixLength = bestPrefix r₀ rs), text r = n := by
  -- a row has a rank exactly if it was kept, and then the rank is its prefix
  have hmem : ∀ r, r ∈ r₀ :: rs ↔ r ∈ rows ∧ ((text r).rank ip).isSome = true := by
    intro r
    rw [← hranked]
    exact List.mem_filter
  have hprefix : ∀ r ∈ rows, ∀ bits, (text r).rank ip = some bits →
      r.1.prefixLength = bits := by
    intro r hr bits hbits
    cases hsel : selected r with
    | false =>
        rw [rank_of_not_selected hsel] at hbits
        cases hbits
    | true =>
        obtain ⟨_, _, _, hlength⟩ := (h r hr).read hsel ip
        exact hlength bits hbits
  have hnetworks : ∀ n, n ∈ networks ↔ ∃ r ∈ rows, text r = n := fun n =>
    hsame.mem_iff.trans List.mem_map
  obtain ⟨hmost, x, hx, hbest⟩ := bestPrefix_spec r₀ rs
  constructor
  · intro r hr
    obtain ⟨hkept, hlength⟩ := List.mem_filter.mp hr
    obtain ⟨hrow, hsome⟩ := (hmem r).mp hkept
    obtain ⟨bits, hbits⟩ := Option.isSome_iff_exists.mp hsome
    refine ⟨bits, (hnetworks _).mpr ⟨r, hrow, rfl⟩, NetworkText.rank_eq_some.mp hbits, ?_⟩
    intro n hn bits' howns
    obtain ⟨r', hrow', rfl⟩ := (hnetworks n).mp hn
    have hbits' := NetworkText.rank_eq_some.mpr howns
    have hle := hmost r' ((hmem r').mpr ⟨hrow', Option.isSome_iff_exists.mpr ⟨bits', hbits'⟩⟩)
    rw [← of_decide_eq_true hlength, hprefix r' hrow' bits' hbits',
      hprefix r hrow bits hbits] at hle
    exact_mod_cast hle
  · intro n bits hn
    obtain ⟨r, hrow, rfl⟩ := (hnetworks n).mp hn.1
    have hbits := NetworkText.rank_eq_some.mpr hn.2.1
    have hkept := (hmem r).mpr ⟨hrow, Option.isSome_iff_exists.mpr ⟨bits, hbits⟩⟩
    obtain ⟨hrow', hsome'⟩ := (hmem x).mp hx
    obtain ⟨bits', hbits'⟩ := Option.isSome_iff_exists.mp hsome'
    have hle : bits' ≤ bits :=
      hn.2.2 _ ((hnetworks _).mpr ⟨x, hrow', rfl⟩) bits' (NetworkText.rank_eq_some.mp hbits')
    refine ⟨r, List.mem_filter.mpr ⟨hkept, decide_eq_true (le_antisymm (hmost r hkept) ?_)⟩, rfl⟩
    rw [← hbest, hprefix x hrow' bits' hbits', hprefix r hrow bits hbits]
    exact_mod_cast hle

end Rows

/-- **The cutover moves no address.**  Over the same networks, in whatever order, the new
resolver finds no switch exactly where the old one finds none; it finds the network that the old
one found; and where the old one found several, it returns their switch if they are all of one,
and is ambiguous otherwise.

The rows of the two applications are compared as they stand in their tables: the old one has the
prefix length and the family in columns of their own, and the new one parses the text of the
network.  `Normalised` says that the columns are what the import has made of the text.  The old
resolver refuses as soon as two rows are longest, and the new one only if they belong to two
switches; that is the one difference, and the third part says on which side each case falls. -/
theorem cutover [DecidableEq κ] (v6 : String → Bool) (ip : IPv4)
    (rows : List (Network κ × Switch κ)) (networks : List (NetworkText κ))
    (hrows : ∀ r ∈ rows, Normalised v6 r.1) (hsame : networks.Perm (rows.map text)) :
    (resolveText (addrText ip) networks = .error .noSwitch ↔
      resolveSwitchForIp v6 ip rows = .error .noSwitchMatch) ∧
    (∀ found, resolveSwitchForIp v6 ip rows = .ok found →
      ∃ n, resolveText (addrText ip) networks = .ok n ∧ n.switchId = found.switchId ∧
        n.id = found.networkId) ∧
    (resolveSwitchForIp v6 ip rows = .error .ambiguousSwitchMatch →
      (∀ switchId, (∀ (n : NetworkText κ) bits, n.IsLongest ip networks bits →
          n.switchId = switchId) →
        ∃ n, resolveText (addrText ip) networks = .ok n ∧ n.switchId = switchId) ∧
      ((¬∃ switchId, ∀ (n : NetworkText κ) bits, n.IsLongest ip networks bits →
          n.switchId = switchId) →
        resolveText (addrText ip) networks = .error .ambiguous)) := by
  obtain ⟨hnone, hambiguous, hok, herror, -⟩ := (resolveText_spec (addrText ip) networks).2 ip rfl
  unfold resolveSwitchForIp
  rw [matching_eq hrows]
  cases hranked : rows.filter fun r => ((text r).rank ip).isSome with
  | nil =>
      refine ⟨⟨fun _ => rfl, fun _ => hnone.mpr fun n hn bits howns => ?_⟩, nofun, nofun⟩
      obtain ⟨r, hrow, rfl⟩ := List.mem_map.mp (hsame.mem_iff.mp hn)
      refine List.filter_eq_nil_iff.mp hranked r hrow ?_
      exact Option.isSome_iff_exists.mpr ⟨bits, NetworkText.rank_eq_some.mpr howns⟩
  | cons r₀ rs =>
      obtain ⟨hlongest, hall⟩ := mem_best_iff hrows hsame hranked
      obtain ⟨x, hx, hbest⟩ := (bestPrefix_spec r₀ rs).2
      have hmem : x ∈ (r₀ :: rs).filter (·.1.prefixLength = bestPrefix r₀ rs) :=
        List.mem_filter.mpr ⟨hx, decide_eq_true hbest⟩
      dsimp only
      generalize (r₀ :: rs).filter (·.1.prefixLength = bestPrefix r₀ rs) = best at *
      -- some row is longest, so the new resolver does find a switch
      have hsome : resolveText (addrText ip) networks ≠ .error .noSwitch := by
        intro hno
        obtain ⟨bits, hin, howns, -⟩ := hlongest x hmem
        exact hnone.mp hno _ hin bits howns
      have hone : ∀ switchId, (∀ (n : NetworkText κ) bits, n.IsLongest ip networks bits →
            n.switchId = switchId) →
          ∃ n, resolveText (addrText ip) networks = .ok n ∧ ∃ r ∈ best, text r = n := by
        intro switchId hswitch
        cases hresult : resolveText (addrText ip) networks with
        | error e =>
            obtain rfl | rfl := herror e hresult
            · exact absurd hresult hsome
            · obtain ⟨n, n', bits, hn, hn', hother⟩ := hambiguous.mp hresult
              exact absurd ((hswitch n bits hn).trans (hswitch n' bits hn').symm) hother
        | ok n =>
            obtain ⟨bits, hn⟩ := hok n hresult
            exact ⟨n, rfl, hall n bits hn⟩
      split
      · rename_i network switch
        refine ⟨⟨fun hno => absurd hno hsome, nofun⟩, ?_, nofun⟩
        rintro found ⟨⟩
        have hrow : ∀ r ∈ [(network, switch)], r = (network, switch) :=
          fun r hr => List.mem_singleton.mp hr
        obtain ⟨n, hresult, r, hr, rfl⟩ := hone switch.id fun n bits hn => by
          obtain ⟨r, hr, rfl⟩ := hall n bits hn
          rw [hrow r hr]
          rfl
        obtain rfl := hrow r hr
        exact ⟨_, hresult, rfl, rfl⟩
      · refine ⟨⟨fun hno => absurd hno hsome, nofun⟩, nofun, fun _ => ⟨?_, fun hmany => ?_⟩⟩
        · intro switchId hswitch
          obtain ⟨n, hresult, -⟩ := hone switchId hswitch
          obtain ⟨bits, hn⟩ := hok n hresult
          exact ⟨n, hresult, hswitch n bits hn⟩
        · refine hambiguous.mpr ?_
          by_contra hno
          obtain ⟨bits, hlong⟩ := hlongest x hmem
          refine hmany ⟨(text x).switchId, fun n bits' hn => ?_⟩
          have hbits : bits' = bits :=
            le_antisymm (hlong.2.2 n hn.1 bits' hn.2.1) (hn.2.2 _ hlong.1 bits hlong.2.1)
          by_contra hother
          exact hno ⟨n, text x, bits, hbits ▸ hn, hlong, hother⟩

namespace Demo

/-- A wide network of the switch `7`, a narrow one of the switch `8`, and an IPv6 network. -/
def rows : List (Network ℕ × Switch ℕ) :=
  [(⟨0, "10.0.0.0/8", 8, true, true⟩, ⟨7, 1, "10.9.0.7", "wide", true⟩),
    (⟨1, "10.2.1.0/24", 24, true, true⟩, ⟨8, 1, "10.9.0.8", "narrow", true⟩),
    (⟨2, "2001:db8::/32", 32, true, true⟩, ⟨7, 1, "10.9.0.7", "wide", true⟩)]

def acceptsV6 (cidr : String) : Bool := cidr = "2001:db8::/32"

theorem rows_normalised : ∀ r ∈ rows, Normalised acceptsV6 r.1 := by
  intro r hr
  simp only [rows, List.mem_cons, List.not_mem_nil, or_false] at hr
  rcases hr with rfl | rfl | rfl
  · exact .inl ⟨0x0A000000#32, 8, by decide +kernel, by decide +kernel, rfl⟩
  · exact .inl ⟨0x0A020100#32, 24, by decide +kernel, by decide +kernel, rfl⟩
  · exact .inr ⟨by decide +kernel, by decide +kernel⟩

end Demo

/-- Both find the narrow network. -/
theorem cutover_rows : ∃ n,
    resolveText (addrText 0x0A020107#32) (Demo.rows.map text).reverse = .ok n ∧
      n.switchId = 8 ∧ n.id = 1 := by
  obtain ⟨-, hfound, -⟩ := cutover Demo.acceptsV6 0x0A020107#32 Demo.rows
    (Demo.rows.map text).reverse Demo.rows_normalised (List.reverse_perm _)
  exact hfound ⟨8, 1, 1, "10.9.0.8", "narrow", "10.2.1.0/24", 24⟩ rfl

end BindPlane.Legacy
