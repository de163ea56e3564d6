import BindPlane.Codec.Trim
import BindPlane.Devices.Cron
import BindPlane.Net.Text

/-!
# The source address of a request

`requestSourceIP` names the client that limits and audits count a request for.  Behind a trusted
peer it reads `X-Forwarded-For` from right to left, up to the first address that is no trusted
proxy.

**A chain of proxies.**  Every proxy appends the address of its own peer to what it received, as an
element of the last header line or as a line of its own (`Appends`).  So the elements that the
trusted proxies in front of the application have written are the last ones, and in front of them
stands what the first of them wrote: the client (`Chain.elements`).  What the client sent is
further left, and is not read (`requestSourceIP_spec`).

A Go string is the list of its runes, where a byte that is not part of one reads as U+FFFD; commas
and the characters of an address are never part of another rune.

**Who writes what.**  A header is written by everybody on the way, the client first.  The function
may only believe what its own proxies have written, and it knows them by their addresses; so it
reads backwards, and the first address that is none of theirs was written by one of theirs.

**Source.**  What is modelled here is in `internal/auth/adapter/httpapi/operation_logs.go`.
-/

namespace BindPlane.SourceIP

open Net

/-- `strings.TrimSpace`. -/
def trimSpace (s : List Char) : List Char := Trim.trim isGoSpace s

/-- What is read of a request. -/
structure Request where
  remoteAddr : List Char
  /-- `r.Header.Values("X-Forwarded-For")`. -/
  forwardedFor : List (List Char)
  /-- `r.Header.Values("X-Real-IP")`. -/
  realIP : List (List Char)

/-- `canonicalIP`. -/
def canonicalIP (ip : IP) : List Char :=
  match to4 ip.bytes with
  | some bytes => string4 bytes
  | none => ip.string

/-- `remoteHost`. -/
def remoteHost (remoteAddr : List Char) : List Char :=
  match splitHostPort (trimSpace remoteAddr) with
  | some (host, _) => host
  | none => trimSpace remoteAddr

/-- The text of an address that is not known. -/
def unknown : List Char := "unknown".toList

/-- `parseSourceAddress`. -/
def parseSourceAddress (value : List Char) : List Char × Option IP :=
  match parseIP (trimSpace (remoteHost value)) with
  | some ip => (canonicalIP ip, some ip)
  | none => (unknown, none)

/-- `trustedProxy`. -/
def trustedProxy (trustedProxyCIDRs : List (List Char)) (ip : IP) : Bool :=
  trustedProxyCIDRs.any fun raw =>
    match parseCIDR (trimSpace raw) with
    | some network => network.contains ip
    | none => false

/-- The inner loop of `forwardedClientIP`, over the parts of one value from the right; `none` where
it ends without a return. -/
def scanParts (trusted : IP → Bool) : List (List Char) → Option (Option IP × Bool)
  | [] => none
  | part :: parts =>
      let candidate := trimSpace part
      match parseIP candidate with
      | none => some (none, false)
      | some parsed =>
          if candidate = [] then some (none, false)
          else if trusted parsed then scanParts trusted parts
          else some (some parsed, true)

/-- The outer loop, over the values from the last. -/
def scanValues (trusted : IP → Bool) : List (List Char) → Option IP × Bool
  | [] => (none, true)
  | value :: values =>
      match scanParts trusted (value.splitOn ',').reverse with
      | some returned => returned
      | none => scanValues trusted values

/-- `forwardedClientIP`. -/
def forwardedClientIP (values : List (List Char)) (trusted : IP → Bool) : Option IP × Bool :=
  scanValues trusted values.reverse

/-- `requestSourceIP`. -/
def requestSourceIP (trustedProxyCIDRs : List (List Char)) (r : Request) : List Char :=
  match parseSourceAddress r.remoteAddr with
  | (_, none) => unknown
  | (peer, some peerIP) =>
      if !trustedProxy trustedProxyCIDRs peerIP then peer
      else if r.forwardedFor ≠ [] then
        match forwardedClientIP r.forwardedFor (trustedProxy trustedProxyCIDRs) with
        | (_, false) => peer
        | (some client, true) => canonicalIP client
        | (none, true) => peer
      else
        match r.realIP with
        | [] => peer
        | [value] =>
            let candidate := trimSpace value
            match parseIP candidate with
            | none => peer
            | some parsed =>
                if candidate = [] ∨ trustedProxy trustedProxyCIDRs parsed then peer
                else canonicalIP parsed
        | _ :: _ :: _ => peer

example : requestSourceIP ["10.0.0.0/8".toList, "2001:db8:100::/48".toList]
      ⟨"2001:db8:100::2:1234".toList, ["2001:db8:200::9, 2001:db8:100::3".toList], []⟩ =
        "2001:db8:200::9".toList ∧
    requestSourceIP ["10.0.0.0/8".toList]
      ⟨"[::ffff:10.0.0.2]:1234".toList, ["not-an-ip".toList, "198.51.100.9, 10.0.0.3".toList],
        []⟩ = "198.51.100.9".toList ∧
    requestSourceIP ["10.0.0.0/8".toList]
      ⟨"10.0.0.2:1234".toList, [], ["::ffff:198.51.100.11".toList]⟩ = "198.51.100.11".toList := by
  decide +kernel

/-! ## A chain of proxies -/

/-- A text that an address is read from, with white space around it or none. -/
def Written (ip : IP) (text : List Char) : Prop := parseIP (trimSpace text) = some ip

/-- **A proxy appends the address of its peer** to the header lines that it received. -/
inductive Appends (peer : IP) : List (List Char) → List (List Char) → Prop
  | line (values : List (List Char)) (text : List Char) (htext : Written peer text) :
      Appends peer values (values ++ [text])
  | element (values : List (List Char)) (last text : List Char) (htext : Written peer text) :
      Appends peer (values ++ [last]) (values ++ [last ++ ',' :: text])

/-- **A chain of proxies** of one or more, all trusted: the last of them, and the header lines that
it sends, for a request of the client with whatever lines. -/
inductive Chain (trusted : IP → Bool) (client : IP) : IP → List (List Char) → Prop
  | first (sent values : List (List Char)) (proxy : IP) (htrusted : trusted proxy = true)
      (happends : Appends client sent values) : Chain trusted client proxy values
  | next (received values : List (List Char)) (peer proxy : IP)
      (hchain : Chain trusted client peer received) (htrusted : trusted proxy = true)
      (happends : Appends peer received values) : Chain trusted client proxy values

/-- An address that a request names. -/
def Request.Names (r : Request) (ip : IP) : Prop :=
  (∃ value ∈ r.forwardedFor, ∃ part ∈ value.splitOn ',', Written ip part) ∨
    ∃ value ∈ r.realIP, Written ip value

/-- The elements of all lines. -/
def elements (values : List (List Char)) : List (List Char) := values.flatMap (·.splitOn ',')

section Elements

variable {trusted : IP → Bool} {client ip : IP} {values values' : List (List Char)}
  {text : List Char} {c : Char}

theorem isAddrChar_code (h : isAddrChar c = true) : 46 ≤ c.toNat ∧ c.toNat ≤ 102 := by
  have hdigit : c.isDigit = true → 48 ≤ c.toNat ∧ c.toNat ≤ 57 := Char.isDigit_iff_toNat.mp
  unfold isAddrChar isHexDigit at h
  simp only [Bool.or_eq_true, Bool.and_eq_true, decide_eq_true_eq, Char.le_def,
    UInt32.le_iff_toNat_le] at h
  rcases h with (((h | h) | h) | rfl) | rfl
  · have hcode := hdigit h
    exact ⟨by omega, by omega⟩
  · exact ⟨le_trans (by decide) h.1, h.2⟩
  · exact ⟨le_trans (by decide) h.1, le_trans h.2 (by decide)⟩
  · decide
  · decide

/-- White space is no comma. -/
theorem isGoSpace_comma : isGoSpace ',' = false := by decide

/-- A text that an address is read from is one element. -/
theorem Written.no_comma (h : Written ip text) : ',' ∉ text := by
  intro hmem
  have hparts : ',' ∈ text.takeWhile isGoSpace ∨ ',' ∈ trimSpace text ∨
      ',' ∈ (text.dropWhile isGoSpace).rtakeWhile isGoSpace := by
    rw [Trim.trim_split isGoSpace text, List.mem_append, List.mem_append, or_assoc] at hmem
    exact hmem
  have hspace := isGoSpace_comma
  rcases hparts with hmem | hmem | hmem
  · rw [List.mem_takeWhile_imp hmem] at hspace
    cases hspace
  · have hcode := isAddrChar_code (parseIP_chars h hmem)
    exact absurd hcode.1 (by decide)
  · rw [List.mem_rtakeWhile_imp hmem] at hspace
    cases hspace

theorem elements_append : elements (values ++ values') = elements values ++ elements values' :=
  List.flatMap_append

theorem elements_singleton (value : List Char) : elements [value] = value.splitOn ',' := by
  unfold elements
  rw [List.flatMap_cons, List.flatMap_nil, List.append_nil]

theorem canonicalIP_eq (ip : IP) : canonicalIP ip = ip.string := by
  unfold canonicalIP IP.string
  cases to4 ip.bytes with
  | some bytes => rfl
  | none => rfl

/-- A proxy may write the canonical text, so every address can be appended. -/
theorem written_canonicalIP (ip : IP) : Written ip (canonicalIP ip) := by
  have hread := parseIP_string ip
  have hspace : ∀ c ∈ ip.string, isGoSpace c = false := by
    intro c hc
    have hcode := isAddrChar_code (parseIP_chars hread hc)
    have hval : c.val.toNat = c.toNat := rfl
    unfold isGoSpace
    rw [Bool.eq_false_iff]
    simp only [List.mem_cons, List.not_mem_nil, or_false, Bool.or_eq_true, decide_eq_true_eq,
      Bool.and_eq_true, UInt32.le_iff_toNat_le, ← UInt32.toNat_inj, ne_eq]
    simp only [UInt32.reduceToNat]
    omega
  have htrim : trimSpace ip.string = ip.string := Trim.trim_eq_self hspace
  unfold Written
  rw [canonicalIP_eq, htrim, hread]

/-- Different clients have different source addresses. -/
theorem canonicalIP_injective : Function.Injective canonicalIP := by
  intro ip ip' h
  rw [canonicalIP_eq, canonicalIP_eq] at h
  exact string_injective h

/-- Either way of appending adds one element. -/
theorem Appends.elements (h : Appends ip values values') :
    ∃ text, Written ip text ∧ elements values' = elements values ++ [text] := by
  cases h with
  | line values text htext =>
      refine ⟨text, htext, ?_⟩
      rw [elements_append, elements_singleton, List.splitOn_eq_singleton htext.no_comma]
  | element values last text htext =>
      refine ⟨text, htext, ?_⟩
      rw [elements_append, elements_append, elements_singleton, elements_singleton,
        Pieces.splitOn_append, List.splitOn_eq_singleton htext.no_comma, List.append_assoc]

/-- **The elements behind a chain**: what the client sent, the client, and trusted proxies. -/
theorem Chain.elements {proxy : IP} (h : Chain trusted client proxy values) :
    trusted proxy = true ∧ ∃ sent text behind, elements values = sent ++ text :: behind ∧
      Written client text ∧
      ∀ part ∈ behind, ∃ peer, Written peer part ∧ trusted peer = true := by
  induction h with
  | first sent values proxy htrusted happends =>
      obtain ⟨text, htext, heq⟩ := happends.elements
      exact ⟨htrusted, SourceIP.elements sent, text, [], heq, htext, nofun⟩
  | next received values peer proxy _ htrusted happends ih =>
      obtain ⟨hpeer, sent, text, behind, hreceived, htext, hbehind⟩ := ih
      obtain ⟨last, hlast, heq⟩ := happends.elements
      refine ⟨htrusted, sent, text, behind ++ [last], ?_, htext, fun part hpart => ?_⟩
      · rw [heq, hreceived, List.append_assoc, List.cons_append]
      · rcases List.mem_append.mp hpart with hpart | hpart
        · exact hbehind part hpart
        · rw [List.mem_singleton.mp hpart]
          exact ⟨peer, hlast, hpeer⟩

end Elements

/-! ## The scan -/

section Scan

variable {trusted : IP → Bool} {ip : IP} {values : List (List Char)} {part : List Char}
  {parts parts' : List (List Char)}

theorem scanParts_append : scanParts trusted (parts ++ parts') =
    (scanParts trusted parts).or (scanParts trusted parts') := by
  induction parts with
  | nil => rfl
  | cons part parts ih =>
      rw [List.cons_append, scanParts, scanParts]
      split
      · rfl
      · split
        · rfl
        · split
          · exact ih
          · rfl

/-- An address is not read from the empty text. -/
theorem Written.ne_nil (h : Written ip part) : trimSpace part ≠ [] := by
  intro hnil
  unfold Written at h
  rw [hnil] at h
  cases h

/-- The loops scan the elements of all lines from the right. -/
theorem forwardedClientIP_eq (values : List (List Char)) (trusted : IP → Bool) :
    forwardedClientIP values trusted =
      (scanParts trusted (elements values).reverse).getD (none, true) := by
  unfold forwardedClientIP
  induction values using List.reverseRecOn with
  | nil => rfl
  | append_singleton values value ih =>
      rw [List.reverse_append, List.reverse_singleton, List.singleton_append, scanValues,
        elements_append, elements_singleton, List.reverse_append, scanParts_append]
      cases scanParts trusted (value.splitOn ',').reverse with
      | some returned => rfl
      | none => exact ih

/-- Trusted proxies are passed over. -/
theorem scanParts_trusted (h : ∀ part ∈ parts, ∃ peer, Written peer part ∧ trusted peer = true) :
    scanParts trusted parts = none := by
  induction parts with
  | nil => rfl
  | cons part parts ih =>
      obtain ⟨peer, hread, htrusted⟩ := h part List.mem_cons_self
      have hrest := ih fun part hpart => h part (List.mem_cons_of_mem _ hpart)
      rw [scanParts]
      show (match parseIP (trimSpace part) with
        | none => some (none, false)
        | some parsed =>
            if trimSpace part = [] then some (none, false)
            else if trusted parsed then scanParts trusted parts
            else some (some parsed, true)) = none
      rw [hread]
      dsimp only
      rw [if_neg hread.ne_nil, if_pos htrusted, hrest]

/-- The scan ends at an untrusted address. -/
theorem scanParts_client (h : Written ip part) (huntrusted : trusted ip = false) :
    scanParts trusted (part :: parts) = some (some ip, true) := by
  rw [scanParts]
  show (match parseIP (trimSpace part) with
    | none => some (none, false)
    | some parsed =>
        if trimSpace part = [] then some (none, false)
        else if trusted parsed then scanParts trusted parts
        else some (some parsed, true)) = some (some ip, true)
  have hread : parseIP (trimSpace part) = some ip := h
  rw [hread]
  dsimp only
  rw [if_neg h.ne_nil, if_neg (by rw [huntrusted]; exact Bool.false_ne_true)]

/-- What the scan finds is an untrusted address of one of the parts. -/
theorem scanParts_found {valid : Bool} (h : scanParts trusted parts = some (some ip, valid)) :
    trusted ip = false ∧ ∃ part ∈ parts, Written ip part := by
  induction parts with
  | nil => cases h
  | cons part parts ih =>
      rw [scanParts] at h
      split at h
      · cases h
      · next parsed hread =>
          split at h
          · cases h
          · split at h
            · obtain ⟨huntrusted, part', hmem, hwritten⟩ := ih h
              exact ⟨huntrusted, part', List.mem_cons_of_mem _ hmem, hwritten⟩
            · next huntrusted =>
                cases h
                exact ⟨Bool.eq_false_iff.mpr huntrusted, part, List.mem_cons_self, hread⟩

end Scan

/-! ## The source address -/

section Source

variable {trustedProxyCIDRs : List (List Char)}

/-- No header of an untrusted peer is read. -/
theorem requestSourceIP_untrusted {r : Request}
    (h : ∀ ip, (parseSourceAddress r.remoteAddr).2 = some ip →
      trustedProxy trustedProxyCIDRs ip = false) :
    requestSourceIP trustedProxyCIDRs r = (parseSourceAddress r.remoteAddr).1 := by
  unfold requestSourceIP
  unfold parseSourceAddress at h ⊢
  cases hread : parseIP (trimSpace (remoteHost r.remoteAddr)) with
  | none => rfl
  | some ip =>
      rw [hread] at h
      dsimp only
      rw [h ip rfl]
      rfl

/-- Behind a chain of trusted proxies the client is named. -/
theorem requestSourceIP_chain {client proxy : IP} {r : Request}
    (hclient : trustedProxy trustedProxyCIDRs client = false)
    (hchain : Chain (trustedProxy trustedProxyCIDRs) client proxy r.forwardedFor)
    (hpeer : (parseSourceAddress r.remoteAddr).2 = some proxy) :
    requestSourceIP trustedProxyCIDRs r = canonicalIP client := by
  obtain ⟨htrusted, sent, text, behind, helements, htext, hbehind⟩ := hchain.elements
  have hnonempty : r.forwardedFor ≠ [] := by
    intro hnil
    rw [hnil] at helements
    cases sent <;> cases helements
  have hscan : forwardedClientIP r.forwardedFor (trustedProxy trustedProxyCIDRs) =
      (some client, true) := by
    rw [forwardedClientIP_eq, helements, List.reverse_append, List.reverse_cons,
      List.append_assoc, scanParts_append,
      scanParts_trusted fun part hpart => hbehind part (List.mem_reverse.mp hpart),
      List.singleton_append, scanParts_client htext hclient]
    rfl
  unfold requestSourceIP
  split
  · next hnone =>
      rw [hnone] at hpeer
      cases hpeer
  · next peer peerIP hsome =>
      rw [hsome] at hpeer
      cases hpeer
      rw [htrusted, if_neg (by decide), if_pos hnonempty, hscan]

/-- The source address is unknown, the peer, or an untrusted address that a header names. -/
theorem requestSourceIP_mem (r : Request) :
    requestSourceIP trustedProxyCIDRs r = unknown ∨
      requestSourceIP trustedProxyCIDRs r = (parseSourceAddress r.remoteAddr).1 ∨
      ∃ ip, r.Names ip ∧ trustedProxy trustedProxyCIDRs ip = false ∧
        requestSourceIP trustedProxyCIDRs r = canonicalIP ip := by
  unfold requestSourceIP
  split
  · exact Or.inl rfl
  · next peer peerIP hpeer =>
      rw [hpeer]
      by_cases htrusted : (!trustedProxy trustedProxyCIDRs peerIP) = true
      · rw [if_pos htrusted]
        exact Or.inr (Or.inl rfl)
      · rw [if_neg htrusted]
        by_cases hforwarded : r.forwardedFor ≠ []
        · -- `X-Forwarded-For` is there: the address comes from it, or nothing does
          rw [if_pos hforwarded]
          split
          · exact Or.inr (Or.inl rfl)
          · next client hscan =>
              rw [forwardedClientIP_eq] at hscan
              cases hparts : scanParts (trustedProxy trustedProxyCIDRs)
                (elements r.forwardedFor).reverse with
              | none =>
                  rw [hparts] at hscan
                  cases hscan
              | some returned =>
                  rw [hparts] at hscan
                  replace hscan : returned = (some client, true) := hscan
                  rw [hscan] at hparts
                  obtain ⟨huntrusted, part, hmem, hwritten⟩ := scanParts_found hparts
                  obtain ⟨value, hvalue, hpart⟩ :=
                    List.mem_flatMap.mp (List.mem_reverse.mp hmem)
                  exact Or.inr (Or.inr ⟨client, Or.inl ⟨value, hvalue, part, hpart, hwritten⟩,
                    huntrusted, rfl⟩)
          · exact Or.inr (Or.inl rfl)
        · -- otherwise from the one value of `X-Real-IP`
          rw [if_neg hforwarded]
          split
          · exact Or.inr (Or.inl rfl)
          · next value hvalue =>
              dsimp only
              split
              · exact Or.inr (Or.inl rfl)
              · next parsed hread =>
                  split
                  · exact Or.inr (Or.inl rfl)
                  · next hcond =>
                      rw [not_or] at hcond
                      exact Or.inr (Or.inr ⟨parsed,
                        Or.inr ⟨value, by rw [hvalue]; exact List.mem_cons_self, hread⟩,
                        Bool.eq_false_iff.mpr hcond.2, rfl⟩)
          · exact Or.inr (Or.inl rfl)

/-- **The source address of a request.**  It does not depend on the headers where the peer is not
trusted.  Where an untrusted client came through trusted proxies it is the client, whatever
`X-Real-IP` says and whatever the client sent.  It is always unknown, the peer, or an address out of
the trusted ranges that a header names.  And the text stands for the address: a proxy that appends
it names that address, and two addresses never share one. -/
theorem requestSourceIP_spec (trustedProxyCIDRs : List (List Char)) :
    (∀ remoteAddr forwardedFor forwardedFor' realIP realIP',
      (∀ ip, (parseSourceAddress remoteAddr).2 = some ip →
        trustedProxy trustedProxyCIDRs ip = false) →
      requestSourceIP trustedProxyCIDRs ⟨remoteAddr, forwardedFor, realIP⟩ =
        requestSourceIP trustedProxyCIDRs ⟨remoteAddr, forwardedFor', realIP'⟩) ∧
    (∀ remoteAddr client proxy forwardedFor realIP,
      trustedProxy trustedProxyCIDRs client = false →
      Chain (trustedProxy trustedProxyCIDRs) client proxy forwardedFor →
      (parseSourceAddress remoteAddr).2 = some proxy →
      requestSourceIP trustedProxyCIDRs ⟨remoteAddr, forwardedFor, realIP⟩ =
        canonicalIP client) ∧
    (∀ r, requestSourceIP trustedProxyCIDRs r = unknown ∨
      requestSourceIP trustedProxyCIDRs r = (parseSourceAddress r.remoteAddr).1 ∨
      ∃ ip, r.Names ip ∧ trustedProxy trustedProxyCIDRs ip = false ∧
        requestSourceIP trustedProxyCIDRs r = canonicalIP ip) ∧
    (∀ ip, Written ip (canonicalIP ip)) ∧
    ∀ ip ip', canonicalIP ip = canonicalIP ip' → ip = ip' := by
  refine ⟨?_, ?_, requestSourceIP_mem, written_canonicalIP, fun _ _ h => canonicalIP_injective h⟩
  · intro remoteAddr forwardedFor forwardedFor' realIP realIP' h
    rw [requestSourceIP_untrusted (r := ⟨remoteAddr, forwardedFor, realIP⟩) h,
      requestSourceIP_untrusted (r := ⟨remoteAddr, forwardedFor', realIP'⟩) h]
  · intro remoteAddr client proxy forwardedFor realIP hclient hchain hpeer
    exact requestSourceIP_chain (r := ⟨remoteAddr, forwardedFor, realIP⟩) hclient hchain hpeer

/-- A client that sent a chain of its own, and an address in `X-Real-IP`, through two proxies: the
first adds an element, the second a line. -/
theorem requestSourceIP_two_proxies :
    requestSourceIP ["10.0.0.0/8".toList] ⟨"10.0.0.2:443".toList,
      ["10.0.0.9, , x,198.51.100.9".toList, "10.0.0.3".toList], ["192.0.2.1".toList]⟩ =
        canonicalIP (.ofV4 198 51 100 9) :=
  (requestSourceIP_spec ["10.0.0.0/8".toList]).2.1 "10.0.0.2:443".toList (.ofV4 198 51 100 9)
    (.ofV4 10 0 0 2) _ ["192.0.2.1".toList] (by decide +kernel)
    (.next ["10.0.0.9, , x,198.51.100.9".toList] _ (.ofV4 10 0 0 3) _
      (.first ["10.0.0.9, , x".toList] _ _ (by decide +kernel)
        (.element [] "10.0.0.9, , x".toList "198.51.100.9".toList
          (show parseIP _ = _ by decide +kernel)))
      (by decide +kernel)
      (.line _ "10.0.0.3".toList (show parseIP _ = _ by decide +kernel)))
    (by decide +kernel)

end Source

end BindPlane.SourceIP
