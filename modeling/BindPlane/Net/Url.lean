import Mathlib.Data.List.Basic
import Mathlib.Data.List.TakeWhile
import Mathlib.Data.Nat.Notation

/-!
# Addresses of the web

The part of Go's `net/url` that an origin is read with.

* `parse` reads what stands before the first `#`, down to the authority.  Which hosts there are, and
  what is escaped in them, is a parameter (`parseHost`, `none` for an error of the package).
* What an origin may not have is only told apart from nothing: a user is not looked at any further,
  and a path stays as it is written, where it may have an error.
* `hostname` and `port` divide the host (`URL.Hostname`, `URL.Port`).

**How much is modelled.**  Of an address of the web an origin uses the scheme, the host and the
port, and it must not have anything else.  So of the rest of the address it is enough to know
whether it is there, and its inner syntax is left to the parameter.
-/

namespace BindPlane.Url

abbrev Text := List Char

structure URL where
  scheme : Text := []
  /-- `User != nil`. -/
  user : Bool := false
  host : Text := []
  path : Text := []
  rawQuery : Text := []
  forceQuery : Bool := false
  deriving DecidableEq

/-! ## Reading -/

/-- The bytes of `stringContainsCTLByte`. -/
def isControl (c : Char) : Bool := c.toNat < 0x20 || c.toNat = 0x7f

/-- `strings.ToLower` of ASCII letters. -/
def lowerASCII (s : Text) : Text := s.map Char.toLower

/-- The loop of `getScheme`, behind the characters `seen`; `none` for its error. -/
def schemeLoop (raw seen : Text) : Text → Option (Text × Text)
  | [] => some ([], raw)
  | c :: rest =>
      if c.isAlpha then schemeLoop raw (seen ++ [c]) rest
      else if c.isDigit ∨ c = '+' ∨ c = '-' ∨ c = '.' then
        if seen = [] then some ([], raw) else schemeLoop raw (seen ++ [c]) rest
      else if c = ':' then
        if seen = [] then none else some (seen, rest)
      else some ([], raw)

def getScheme (raw : Text) : Option (Text × Text) := schemeLoop raw [] raw

/-- The rest before the query, the query, and whether an empty one is written. -/
def cutQuery (rest : Text) : Text × Text × Bool :=
  if rest.getLast? = some '?' ∧ rest.count '?' = 1 then (rest.dropLast, [], true)
  else (rest.takeWhile (· ≠ '?'), (rest.dropWhile (· ≠ '?')).drop 1, false)

/-- A text before and behind the last `c`. -/
def cutLast (c : Char) : Text → Option (Text × Text)
  | [] => none
  | x :: rest =>
      match cutLast c rest with
      | some (before, behind) => some (x :: before, behind)
      | none => if x = c then some ([], rest) else none

section

variable (parseHost : Text → Option Text)

/-- Whether there is a user, and the host. -/
def parseAuthority (authority : Text) : Option (Bool × Text) :=
  match cutLast '@' authority with
  | none => (parseHost authority).map fun host => (false, host)
  | some (_, rest) => (parseHost rest).map fun host => (true, host)

/-- `parse` behind the scheme, without the query. -/
def parseRest (scheme rest rawQuery : Text) (forceQuery : Bool) : Option URL :=
  if rest.head? ≠ some '/' then
    if scheme ≠ [] then some { scheme, rawQuery, forceQuery }
    else if ':' ∈ rest.takeWhile (· ≠ '/') then none
    else some { path := rest, rawQuery, forceQuery }
  else if (scheme ≠ [] ∨ ¬ ['/', '/', '/'] <+: rest) ∧ ['/', '/'] <+: rest then
    match parseAuthority parseHost ((rest.drop 2).takeWhile (· ≠ '/')) with
    | none => none
    | some (user, host) =>
        let path := (rest.drop 2).dropWhile (· ≠ '/')
        some { scheme, user, host, path, rawQuery, forceQuery }
  else some { scheme, path := rest, rawQuery, forceQuery }

def parse (raw : Text) : Option URL :=
  if raw.any isControl then none
  else if raw = ['*'] then some { path := ['*'] }
  else
    match getScheme raw with
    | none => none
    | some (scheme, rest) =>
        match cutQuery rest with
        | (rest, rawQuery, forceQuery) =>
            parseRest parseHost (lowerASCII scheme) rest rawQuery forceQuery

end

/-! ## Hosts and ports -/

def validOptionalPort : Text → Bool
  | [] => true
  | c :: digits => c = ':' && digits.all Char.isDigit

/-- An address of version 6 without its brackets. -/
def unbracket (host : Text) : Text :=
  if host.head? = some '[' ∧ host.getLast? = some ']' then (host.drop 1).dropLast else host

def splitHostPort (hostPort : Text) : Text × Text :=
  match cutLast ':' hostPort with
  | some (host, port) =>
      if validOptionalPort (':' :: port) then (unbracket host, port) else (unbracket hostPort, [])
  | none => (unbracket hostPort, [])

def hostname (u : URL) : Text := (splitHostPort u.host).1

def port (u : URL) : Text := (splitHostPort u.host).2

/-! ## What is read -/

section Reading

variable {raw rest scheme authority : Text} {c : Char}

theorem cutLast_eq_none : ∀ {s : Text}, cutLast c s = none ↔ c ∉ s
  | [] => ⟨fun _ => List.not_mem_nil, fun _ => rfl⟩
  | x :: rest => by
      have ih : cutLast c rest = none ↔ c ∉ rest := cutLast_eq_none
      unfold cutLast
      cases hrest : cutLast c rest with
      | none =>
          rw [List.mem_cons, not_or]
          have hnot := ih.mp hrest
          by_cases hx : x = c
          · rw [if_pos hx]
            exact ⟨fun h => absurd h (Option.some_ne_none _), fun h => absurd hx.symm h.1⟩
          · rw [if_neg hx]
            exact ⟨fun _ => ⟨fun h => hx h.symm, hnot⟩, fun _ => rfl⟩
      | some cut =>
          refine ⟨fun h => absurd h (Option.some_ne_none _), fun h => ?_⟩
          have hnone := ih.mpr fun hmem => h (List.mem_cons_of_mem x hmem)
          cases hrest.symm.trans hnone

/-- A scheme that is read stands before the first colon. -/
theorem schemeLoop_eq {whole seen : Text} (hne : scheme ≠ []) : ∀ {raw : Text},
    schemeLoop whole seen raw = some (scheme, rest) → seen ++ raw = scheme ++ ':' :: rest
  | [], h => by
      cases h
      exact absurd rfl hne
  | c :: raw, h => by
      have hnext : schemeLoop whole (seen ++ [c]) raw = some (scheme, rest) →
          seen ++ c :: raw = scheme ++ ':' :: rest := by
        intro hrest
        have := schemeLoop_eq hne hrest
        rwa [List.append_assoc, List.singleton_append] at this
      unfold schemeLoop at h
      split at h
      · exact hnext h
      · split at h
        · split at h
          · cases h
            exact absurd rfl hne
          · exact hnext h
        · split at h
          next hcolon =>
            split at h
            · cases h
            · cases h
              rw [hcolon]
          next =>
            cases h
            exact absurd rfl hne

/-- Letters before a colon are a scheme. -/
theorem schemeLoop_letters {whole : Text} : ∀ {raw seen : Text}, (∀ c ∈ raw, c.isAlpha = true) →
    seen ++ raw ≠ [] → schemeLoop whole seen (raw ++ ':' :: rest) = some (seen ++ raw, rest)
  | [], seen, _, hne => by
      rw [List.append_nil] at hne ⊢
      show (if (':' : Char).isAlpha then _ else _) = _
      rw [if_neg (by decide), if_neg (by decide), if_pos rfl, if_neg hne]
  | c :: raw, seen, halpha, _ => by
      show (if c.isAlpha then _ else _) = _
      rw [if_pos (halpha c List.mem_cons_self)]
      have hnext : schemeLoop whole (seen ++ [c]) (raw ++ ':' :: rest) =
          some (seen ++ [c] ++ raw, rest) :=
        schemeLoop_letters (fun x hx => halpha x (List.mem_cons_of_mem c hx)) (by simp)
      rwa [List.append_assoc, List.singleton_append] at hnext

theorem cutQuery_eq {path : Text} (h : cutQuery rest = (path, [], false)) :
    path = rest ∧ '?' ∉ rest := by
  unfold cutQuery at h
  split at h
  · cases h
  next hlast =>
    obtain ⟨hpath, hquery⟩ := Prod.mk.inj h
    have hdrop : (rest.dropWhile (· ≠ '?')).drop 1 = [] := (Prod.mk.inj hquery).1
    have hsplit : rest.takeWhile (· ≠ '?') ++ rest.dropWhile (· ≠ '?') = rest :=
      List.takeWhile_append_dropWhile
    have hfree : '?' ∉ rest.takeWhile (· ≠ '?') := by
      intro hmem
      have hne := List.mem_takeWhile_imp hmem
      exact of_decide_eq_true hne rfl
    cases hcase : rest.dropWhile (· ≠ '?') with
    | nil =>
        rw [hcase, List.append_nil] at hsplit
        rw [hsplit] at hpath hfree
        exact ⟨hpath.symm, hfree⟩
    | cons c queries =>
        -- one question mark, at the end: that is the other case
        have hc : c = '?' := by
          have hhead := List.head?_dropWhile_not (fun x => decide (x ≠ '?')) rest
          rw [hcase] at hhead
          exact not_not.mp (of_decide_eq_false hhead)
        rw [hcase] at hdrop hsplit
        obtain rfl : queries = [] := hdrop
        refine absurd ⟨?_, ?_⟩ hlast
        · rw [← hsplit, hc]
          exact List.getLast?_concat
        · rw [← hsplit, hc, List.count_append, List.count_eq_zero_of_not_mem hfree]
          rfl

theorem cutQuery_of {rest : Text} (h : '?' ∉ rest) : cutQuery rest = (rest, [], false) := by
  have hplain : ∀ c ∈ rest, decide (c ≠ '?') = true := fun c hc =>
    decide_eq_true fun heq => h (heq ▸ hc)
  unfold cutQuery
  rw [if_neg fun hlast => h (List.mem_of_getLast? hlast.1), List.takeWhile_eq_self_iff.mpr hplain,
    List.dropWhile_eq_nil_iff.mpr hplain]
  rfl

/-- A character of an authority without a user. -/
def Plain (c : Char) : Prop := isControl c = false ∧ c ≠ '/' ∧ c ≠ '?' ∧ c ≠ '#' ∧ c ≠ '@'

/-- The address of a host, with a path that is nothing or one slash.

An origin has a scheme and a host and nothing else, except that its text may end with a slash. -/
structure Bare (u : URL) : Prop where
  scheme : u.scheme = "http".toList ∨ u.scheme = "https".toList
  user : u.user = false
  host : u.host ≠ []
  path : u.path = [] ∨ u.path = ['/']
  rawQuery : u.rawQuery = []
  forceQuery : u.forceQuery = false

theorem Bare.eq {u : URL} (hu : Bare u) : u = ⟨u.scheme, false, u.host, u.path, [], false⟩ := by
  obtain ⟨-, huser, -, -, hquery, hforce⟩ := hu
  cases u
  cases huser
  cases hquery
  cases hforce
  rfl

theorem Bare.plain_path {u : URL} (hu : Bare u) (hc : c ∈ u.path) : c = '/' := by
  rcases hu.path with h | h <;> rw [h] at hc
  · cases hc
  · exact List.mem_singleton.mp hc

theorem not_control_of_isAlpha (h : c.isAlpha = true) : isControl c = false := by
  have hrange : 65 ≤ c.toNat ∧ c.toNat ≤ 122 := by
    rcases (Bool.or_eq_true _ _).mp h with hupper | hlower
    · obtain ⟨hA, hZ⟩ := of_decide_eq_true hupper
      exact ⟨UInt32.le_iff_toNat_le.mp hA, (UInt32.le_iff_toNat_le.mp hZ).trans (by decide)⟩
    · obtain ⟨ha, hz⟩ := (Bool.and_eq_true _ _).mp hlower
      have hlow : 97 ≤ c.toNat := UInt32.le_iff_toNat_le.mp (of_decide_eq_true ha)
      exact ⟨by omega, UInt32.le_iff_toNat_le.mp (of_decide_eq_true hz)⟩
  unfold isControl
  rw [Bool.or_eq_false_iff]
  exact ⟨decide_eq_false (by omega), decide_eq_false (by omega)⟩

theorem isAlpha_of_toLower (h : c.toLower.isAlpha = true) : c.isAlpha = true := by
  unfold Char.toLower at h
  split at h
  next hupper =>
    show (c.isUpper || c.isLower) = true
    rw [show c.isUpper = true from decide_eq_true hupper]
    rfl
  next => exact h

theorem letters_of_lower {u : URL} (hu : Bare u) (hscheme : lowerASCII scheme = u.scheme) :
    scheme ≠ [] ∧ ∀ c ∈ scheme, c.isAlpha = true := by
  have hletters : ∀ c ∈ u.scheme, c.isAlpha = true := by
    rw [← List.all_eq_true]
    rcases hu.scheme with h | h <;> rw [h] <;> decide
  refine ⟨?_, fun c hc => isAlpha_of_toLower (hletters _ ?_)⟩
  · rintro rfl
    rcases hu.scheme with h | h <;> rw [h] at hscheme <;> cases hscheme
  · rw [← hscheme]
    exact List.mem_map_of_mem hc

theorem parseAuthority_eq {parseHost : Text → Option Text} {host : Text} :
    parseAuthority parseHost authority = some (false, host) ↔
      '@' ∉ authority ∧ parseHost authority = some host := by
  unfold parseAuthority
  cases hcut : cutLast '@' authority with
  | none =>
      have hat := cutLast_eq_none.mp hcut
      constructor
      · intro h
        obtain ⟨host', hhost, heq⟩ := Option.map_eq_some_iff.mp h
        cases heq
        exact ⟨hat, hhost⟩
      · rintro ⟨-, hhost⟩
        show (parseHost authority).map _ = _
        rw [hhost]
        rfl
  | some cut =>
      refine ⟨fun h => ?_, fun h => ?_⟩
      · obtain ⟨host', hhost, heq⟩ := Option.map_eq_some_iff.mp h
        cases heq
      · cases hcut.symm.trans (cutLast_eq_none.mpr h.1)

theorem takeWhile_slash {path : Text} (hfree : '/' ∉ authority) (hpath : path = [] ∨ path = ['/']) :
    (authority ++ path).takeWhile (· ≠ '/') = authority ∧
      (authority ++ path).dropWhile (· ≠ '/') = path := by
  have hplain : ∀ c ∈ authority, decide (c ≠ '/') = true := fun c hc =>
    decide_eq_true fun heq => hfree (heq ▸ hc)
  rw [List.takeWhile_append_of_pos hplain, List.dropWhile_append_of_pos hplain]
  rcases hpath with rfl | rfl
  · exact ⟨List.append_nil authority, rfl⟩
  · exact ⟨List.append_nil authority, rfl⟩

theorem parseRest_iff (parseHost : Text → Option Text) {u : URL} (hu : Bare u) {rawQuery : Text}
    {forceQuery : Bool} : parseRest parseHost scheme rest rawQuery forceQuery = some u ↔
      scheme = u.scheme ∧ rawQuery = [] ∧ forceQuery = false ∧ ∃ authority,
        rest = '/' :: '/' :: (authority ++ u.path) ∧ '/' ∉ authority ∧ '@' ∉ authority ∧
          parseHost authority = some u.host := by
  constructor
  · intro h
    unfold parseRest at h
    split at h
    · split at h
      · cases h
        exact absurd rfl hu.host
      · split at h
        · cases h
        · cases h
          exact absurd rfl hu.host
    next hslash =>
      split at h
      next hauthority =>
        obtain ⟨tail, htail⟩ := hauthority.2
        rw [← htail] at h
        split at h
        · cases h
        next user host hparse =>
          cases h
          -- a bare URL has no user, and so no `@`
          obtain rfl : user = false := hu.user
          obtain ⟨hat, hhost⟩ := parseAuthority_eq.mp hparse
          refine ⟨rfl, hu.rawQuery, hu.forceQuery, tail.takeWhile (· ≠ '/'), ?_, ?_, hat, hhost⟩
          · rw [← htail]
            exact congrArg ('/' :: '/' :: ·) List.takeWhile_append_dropWhile.symm
          · intro hmem
            have hne := List.mem_takeWhile_imp hmem
            exact of_decide_eq_true hne rfl
      next =>
        cases h
        exact absurd rfl hu.host
  · rintro ⟨rfl, rfl, rfl, authority, rfl, hslash, hat, hhost⟩
    have hscheme : u.scheme ≠ [] := by
      rcases hu.scheme with h | h <;> rw [h] <;> decide
    -- the authority ends where the path begins
    obtain ⟨htake, hdrop⟩ := takeWhile_slash hslash hu.path
    unfold parseRest
    rw [if_neg (by simp), if_pos ⟨.inl hscheme, ⟨authority ++ u.path, rfl⟩⟩]
    rw [show List.drop 2 ('/' :: '/' :: (authority ++ u.path)) = authority ++ u.path from rfl,
      htake, hdrop, parseAuthority_eq.mpr ⟨hat, hhost⟩]
    exact congrArg some hu.eq.symm

/-- **What is read as the address of a host**: scheme, authority and path, and nothing else. -/
theorem parse_iff (parseHost : Text → Option Text) {u : URL} (hu : Bare u) (hraw : '#' ∉ raw) :
    parse parseHost raw = some u ↔ ∃ scheme authority,
      raw = scheme ++ ':' :: '/' :: '/' :: (authority ++ u.path) ∧ lowerASCII scheme = u.scheme ∧
        (∀ c ∈ authority, Plain c) ∧ parseHost authority = some u.host := by
  constructor
  · intro h
    unfold parse at h
    split at h
    · cases h
    next hcontrol =>
      split at h
      · cases h
        exact absurd rfl hu.host
      · split at h
        · cases h
        next scheme rest hread =>
          split at h
          next path rawQuery forceQuery hcut =>
            obtain ⟨hscheme, rfl, rfl, authority, rfl, hslash, hat, hhost⟩ :=
              (parseRest_iff parseHost hu).mp h
            obtain ⟨rfl, hquestion⟩ := cutQuery_eq hcut
            have hne : scheme ≠ [] := by
              rintro rfl
              rcases hu.scheme with hu | hu <;> rw [hu] at hscheme <;> cases hscheme
            have heq : raw = scheme ++ ':' :: '/' :: '/' :: (authority ++ u.path) :=
              schemeLoop_eq hne hread
            refine ⟨scheme, authority, heq, hscheme, fun c hc => ?_, hhost⟩
            have hmem : c ∈ authority ++ u.path := List.mem_append_left _ hc
            have hmemRaw : c ∈ raw := by
              rw [heq]
              simp [hc]
            refine ⟨?_, ?_, ?_, ?_, ?_⟩
            · exact Bool.eq_false_iff.mpr fun hc' =>
                hcontrol (List.any_eq_true.mpr ⟨c, hmemRaw, hc'⟩)
            · exact fun hc' => hslash (hc' ▸ hc)
            · refine fun hc' => hquestion ?_
              rw [← hc']
              exact List.mem_cons_of_mem _ (List.mem_cons_of_mem _ hmem)
            · exact fun hc' => hraw (hc' ▸ hmemRaw)
            · exact fun hc' => hat (hc' ▸ hc)
  · rintro ⟨scheme, authority, rfl, hscheme, hplain, hhost⟩
    obtain ⟨hne, hletters⟩ := letters_of_lower hu hscheme
    -- none of the parts has a character that `parse` refuses
    have hcontrol :
        ¬ (scheme ++ ':' :: '/' :: '/' :: (authority ++ u.path)).any isControl = true := by
      rw [List.any_eq_true]
      rintro ⟨c, hc, hcontrol⟩
      simp only [List.mem_append, List.mem_cons] at hc
      rcases hc with hc | rfl | rfl | rfl | hc | hc
      · exact Bool.false_ne_true ((not_control_of_isAlpha (hletters c hc)).symm.trans hcontrol)
      · exact absurd hcontrol (by decide)
      · exact absurd hcontrol (by decide)
      · exact absurd hcontrol (by decide)
      · exact Bool.false_ne_true ((hplain c hc).1.symm.trans hcontrol)
      · rw [hu.plain_path hc] at hcontrol
        exact absurd hcontrol (by decide)
    -- and none of them has a query
    have hquestion : '?' ∉ '/' :: '/' :: (authority ++ u.path) := by
      intro hc
      simp only [List.mem_append, List.mem_cons] at hc
      rcases hc with hc | hc | hc | hc
      · exact absurd hc (by decide)
      · exact absurd hc (by decide)
      · exact (hplain _ hc).2.2.1 rfl
      · exact absurd (hu.plain_path hc) (by decide)
    have hstar : scheme ++ ':' :: '/' :: '/' :: (authority ++ u.path) ≠ ['*'] := by
      intro heq
      have hlength := congrArg List.length heq
      rw [List.length_append, List.length_cons, List.length_cons, List.length_cons,
        List.length_singleton] at hlength
      omega
    unfold parse
    rw [if_neg hcontrol, if_neg hstar]
    have hread : getScheme (scheme ++ ':' :: '/' :: '/' :: (authority ++ u.path)) =
        some (scheme, '/' :: '/' :: (authority ++ u.path)) := schemeLoop_letters hletters hne
    rw [hread]
    show (match cutQuery ('/' :: '/' :: (authority ++ u.path)) with
      | (rest, rawQuery, forceQuery) =>
          parseRest parseHost (lowerASCII scheme) rest rawQuery forceQuery) = some u
    rw [cutQuery_of hquestion]
    refine (parseRest_iff parseHost hu).mpr ⟨hscheme, rfl, rfl, authority, rfl, ?_, ?_, hhost⟩
    · exact fun hmem => (hplain _ hmem).2.1 rfl
    · exact fun hmem => (hplain _ hmem).2.2.2.2 rfl

end Reading

end BindPlane.Url
