import BindPlane.Codec.Decimal
import BindPlane.Net.Url

/-!
# The origin of a request

The configuration makes an origin of `APP_PUBLIC_URL` (`internal/config/config.go`), and a request
that changes something has to come from there.  Two handlers look at its `Origin` header:
`principal` of the release API, which the assets and the device operations share
(`internal/release/http.go`), and `validOrigin` of the auth API
(`internal/auth/adapter/httpapi/routes.go`).

* `Names` says which origin a text names: by its scheme and its host, in whatever case, and its
  port, written or not.
* `validOrigin` asks which origin the header names (`validOrigin_iff`), and `principal` asks for one
  of its spellings, with the port and in lower case.

What is lower case beyond ASCII (`strings.ToLower`) is a parameter.

**One rule, two checks.**  Both are meant to say that a request comes from the page of this
installation.  The one asks what the header means, the other how it is spelled; the canonical origin
has its port written out, and a browser leaves the port out where it is the usual one.
-/

namespace BindPlane.Origins

open Url

def http : Text := "http".toList

def https : Text := "https".toList

/-! ## The configuration -/

section

variable (parseHost : Text → Option Text) (toLower : Text → Text)

def parseOriginURL (raw : Text) (allowRootPath : Bool) : Except String URL :=
  match parse parseHost (raw.takeWhile (· ≠ '#')) with
  | none => .error "must be an absolute origin without credentials, query, fragment, or path"
  | some value =>
      if value.scheme = [] ∨ value.host = [] ∨ value.user = true ∨
          ¬ (value.path = [] ∨ (allowRootPath = true ∧ value.path = ['/'])) ∨
          value.rawQuery ≠ [] ∨ value.forceQuery = true ∨ '#' ∈ raw then
        .error "must be an absolute origin without credentials, query, fragment, or path"
      else if value.scheme ≠ http ∧ value.scheme ≠ https then .error "must use http or https"
      else .ok value

/-- The port of an address, or that of its scheme. -/
def portText (scheme port : Text) : Text :=
  if port = [] then if scheme = http then "80".toList else "443".toList else port

/-- A host in the place of one in an address. -/
def bracket (host : Text) : Text := if ':' ∈ host then '[' :: (host ++ [']']) else host

/-- `splitHostPort` has let nothing but digits into the port, so `strconv.Atoi` fails only on a
number that is out of range for it, and then it is no port either. -/
def canonicalOrigin (value : URL) : Except String Text :=
  let host := toLower (hostname value)
  let parsed := Nat.ofDigitChars 10 (portText value.scheme (port value)) 0
  if host = [] then .error "APP_PUBLIC_URL must include a host"
  else if parsed < 1 ∨ 65535 < parsed then .error "APP_PUBLIC_URL contains an invalid port"
  else .ok (value.scheme ++ "://".toList ++ (bracket host ++ ':' :: Nat.toDigits 10 parsed))

/-- `CanonicalOrigin`. -/
def canonicalOriginOf (raw : Text) : Except String Text :=
  match parseOriginURL parseHost raw false with
  | .error e => .error e
  | .ok value => canonicalOrigin toLower value

/-- What `validate` makes of `c.PublicURL` for `c.Origin`. -/
def loadOrigin (environment : String) (allowPlainHTTP : Bool) (publicURL : Text) :
    Except String Text :=
  if environment ≠ "development" ∧ environment ≠ "production" then
    .error "APP_ENV must be development or production"
  else
    match parseOriginURL parseHost publicURL true with
    | .error e => .error ("APP_PUBLIC_URL: " ++ e)
    | .ok value =>
        if value.scheme ≠ http ∧ value.scheme ≠ https then
          .error "APP_PUBLIC_URL must use http or https"
        else if environment = "production" ∧ value.scheme ≠ https ∧ allowPlainHTTP = false then
          .error ("APP_PUBLIC_URL must use https in production; " ++
            "set APP_ALLOW_PLAIN_HTTP=true to serve plain HTTP deliberately")
        else canonicalOrigin toLower value

/-! ## The handlers

A request has any number of `Origin` headers, `origins`. -/

/-- `r.Header.Get("Origin")`. -/
def get (origins : List Text) : Text := origins.headD []

/-- How `principal` fails before it looks at the cookie. -/
def principalFailure (origin : Text) (mutate : Bool) (origins : List Text) : Option (ℕ × String) :=
  if mutate = true ∧ get origins ≠ origin then some (403, "invalid origin") else none

def validOrigin (origin : Text) : List Text → Bool
  | [value] =>
      if value = [] ∨ lowerASCII value = "null".toList then false
      else
        match canonicalOriginOf parseHost toLower value with
        | .error _ => false
        | .ok canonical => decide (canonical = origin)
  | _ => false

end

/-! ## Origins -/

/-- A scheme, a host in lower case and a port. -/
structure Origin where
  scheme : Text
  host : Text
  port : ℕ
  deriving DecidableEq

/-- The spelling of the configuration. -/
def Origin.text (o : Origin) : Text :=
  o.scheme ++ "://".toList ++ (bracket o.host ++ ':' :: Nat.toDigits 10 o.port)

structure Origin.Valid (o : Origin) : Prop where
  scheme : o.scheme = http ∨ o.scheme = https
  host : o.host ≠ []
  port : 1 ≤ o.port ∧ o.port ≤ 65535

/-- The port that is meant. -/
def effectivePort (scheme port : Text) : ℕ :=
  if port = [] then if scheme = http then 80 else 443 else Nat.ofDigitChars 10 port 0

section

variable (parseHost : Text → Option Text) (toLower : Text → Text)

/-- **A text names an origin**: the scheme, `://`, and an authority with its host and its port, and
neither a user nor a path, a query or a fragment. -/
def Names (text : Text) (o : Origin) : Prop :=
  o.Valid ∧ ∃ scheme authority host, text = scheme ++ ':' :: '/' :: '/' :: authority ∧
    lowerASCII scheme = o.scheme ∧ (∀ c ∈ authority, Plain c) ∧
    parseHost authority = some host ∧ host ≠ [] ∧
    toLower (splitHostPort host).1 = o.host ∧ effectivePort o.scheme (splitHostPort host).2 = o.port

/-- And `APP_PUBLIC_URL` may end with a slash. -/
def PublicNames (publicURL : Text) (o : Origin) : Prop :=
  Names parseHost toLower publicURL o ∨
    ∃ text, publicURL = text ++ ['/'] ∧ Names parseHost toLower text o

end

/-! ## One spelling for each origin -/

/-- What stands around the last colon. -/
theorem eq_of_append_colon {d d' : Text} (hd : ':' ∉ d) (hd' : ':' ∉ d') : ∀ {x x' : Text},
    x ++ ':' :: d = x' ++ ':' :: d' → x = x' ∧ d = d'
  | [], [], h => ⟨rfl, (List.cons.inj h).2⟩
  | [], _ :: x', h => by
      have htail : d = x' ++ ':' :: d' := (List.cons.inj h).2
      exact absurd (htail ▸ List.mem_append_right x' List.mem_cons_self) hd
  | _ :: x, [], h => by
      have htail : x ++ ':' :: d = d' := (List.cons.inj h).2
      exact absurd (htail ▸ List.mem_append_right x List.mem_cons_self) hd'
  | c :: x, c' :: x', h => by
      obtain ⟨hc, htail⟩ := List.cons.inj h
      obtain ⟨hx, hdigits⟩ := eq_of_append_colon hd hd' htail
      exact ⟨by rw [hc, hx], hdigits⟩

theorem bracket_injective {host host' : Text} (h : bracket host = bracket host') :
    host = host' := by
  have hcolon : ∀ host : Text, ':' ∈ bracket host ↔ ':' ∈ host := by
    intro host
    unfold bracket
    split
    next hmem => simp [hmem]
    next => rfl
  have hiff : ':' ∈ host ↔ ':' ∈ host' := by rw [← hcolon host, h, hcolon host']
  unfold bracket at h
  by_cases hmem : ':' ∈ host
  · rw [if_pos hmem, if_pos (hiff.mp hmem)] at h
    exact List.append_cancel_right (List.cons.inj h).2
  · rwa [if_neg hmem, if_neg fun hmem' => hmem (hiff.mpr hmem')] at h

theorem Origin.text_injective {o o' : Origin} (ho : o.Valid) (ho' : o'.Valid)
    (h : o.text = o'.text) : o = o' := by
  have hdigits : ∀ n, ':' ∉ Nat.toDigits 10 n := fun n => Decimal.not_mem_toDigits (by decide) n
  have hscheme : o.scheme = o'.scheme := by
    unfold Origin.text at h
    rcases ho.scheme with hs | hs <;> rcases ho'.scheme with hs' | hs' <;> rw [hs, hs'] at h ⊢
    · simp [http, https] at h
    · simp [http, https] at h
  unfold Origin.text at h
  rw [hscheme] at h
  obtain ⟨hhost, hport⟩ := eq_of_append_colon (hdigits _) (hdigits _) (List.append_cancel_left h)
  have hvalue := congrArg (Nat.ofDigitChars 10 · 0) hport
  simp only [Nat.ofDigitChars_ten_toDigits] at hvalue
  cases o
  cases o'
  cases hscheme
  cases bracket_injective hhost
  cases hvalue
  rfl

/-! ## What the two checks ask -/

section Checks

variable {parseHost : Text → Option Text} {toLower : Text → Text} {raw text t origin : Text}
  {u : URL} {o : Origin}

theorem portText_value (scheme port : Text) :
    Nat.ofDigitChars 10 (portText scheme port) 0 = effectivePort scheme port := by
  unfold portText effectivePort
  split
  · split <;> rfl
  · rfl

/-- The origin of an address. -/
def originOf (toLower : Text → Text) (u : URL) : Origin :=
  ⟨u.scheme, toLower (hostname u), effectivePort u.scheme (port u)⟩

theorem canonicalOrigin_iff (hu : Bare u) :
    canonicalOrigin toLower u = .ok t ↔
      (originOf toLower u).Valid ∧ (originOf toLower u).text = t := by
  have hport : Nat.ofDigitChars 10 (portText u.scheme (port u)) 0 = (originOf toLower u).port :=
    portText_value _ _
  have heq : canonicalOrigin toLower u =
      if (originOf toLower u).host = [] then .error "APP_PUBLIC_URL must include a host"
      else if (originOf toLower u).port < 1 ∨ 65535 < (originOf toLower u).port then
        .error "APP_PUBLIC_URL contains an invalid port"
      else .ok (originOf toLower u).text := by
    unfold canonicalOrigin
    rw [hport]
    rfl
  rw [heq]
  constructor
  · intro h
    split at h
    · cases h
    next hhost =>
      split at h
      · cases h
      next hrange =>
        cases h
        rw [not_or, Nat.not_lt, Nat.not_lt] at hrange
        exact ⟨⟨hu.scheme, hhost, hrange⟩, rfl⟩
  · rintro ⟨hvalid, rfl⟩
    rw [if_neg hvalid.host, if_neg (by have := hvalid.port; omega)]

theorem parseOriginURL_iff (allowRootPath : Bool) :
    parseOriginURL parseHost raw allowRootPath = .ok u ↔
      Bare u ∧ (allowRootPath = false → u.path = []) ∧ '#' ∉ raw ∧
        parse parseHost raw = some u := by
  have hwhole : '#' ∉ raw → raw.takeWhile (· ≠ '#') = raw := fun h =>
    List.takeWhile_eq_self_iff.mpr fun c hc => decide_eq_true fun heq => h (heq ▸ hc)
  constructor
  · intro h
    unfold parseOriginURL at h
    split at h
    · cases h
    next value hparse =>
      split at h
      · cases h
      next hrefused =>
        split at h
        · cases h
        next hscheme =>
          cases h
          simp only [not_or, not_not, not_and_or, Bool.not_eq_true] at hrefused hscheme
          obtain ⟨-, hhost, huser, hpath, hquery, hforce, hhash⟩ := hrefused
          rw [hwhole hhash] at hparse
          refine ⟨⟨hscheme, huser, hhost, ?_, hquery, hforce⟩, fun hallow => ?_, hhash, hparse⟩
          · exact hpath.imp id fun hroot => hroot.2
          · exact hpath.resolve_right fun hroot => hroot.1 hallow
  · rintro ⟨hu, hpath, hhash, hparse⟩
    unfold parseOriginURL
    rw [hwhole hhash, hparse]
    have hne : u.scheme ≠ [] := by
      rcases hu.scheme with h | h <;> rw [h] <;> decide
    have hroot : u.path = [] ∨ (allowRootPath = true ∧ u.path = ['/']) := by
      cases allowRootPath with
      | false => exact .inl (hpath rfl)
      | true => exact hu.path.imp id fun h => ⟨rfl, h⟩
    have huser := hu.user
    have hforce := hu.forceQuery
    show (if _ then _ else _) = _
    rw [if_neg (by simp [hne, hu.host, huser, hroot, hu.rawQuery, hforce, hhash]),
      if_neg (by
        rintro ⟨hhttp, hhttps⟩
        exact hu.scheme.elim hhttp hhttps)]

/-- What an address that is read has in its origin is what its text names. -/
theorem names_of_parse {path : Text} (hu : Bare u) (hpath : u.path = path)
    (hhash : '#' ∉ raw) (hparse : parse parseHost raw = some u)
    (hvalid : (originOf toLower u).Valid) :
    ∃ text, raw = text ++ path ∧ Names parseHost toLower text (originOf toLower u) := by
  obtain ⟨scheme, authority, rfl, hscheme, hplain, hhost⟩ :=
    (parse_iff parseHost hu hhash).mp hparse
  refine ⟨scheme ++ ':' :: '/' :: '/' :: authority, ?_, hvalid, scheme, authority, u.host, rfl,
    hscheme, hplain, hhost, hu.host, rfl, rfl⟩
  rw [hpath, List.append_assoc]
  rfl

/-- A text that names an origin is read as an address that has it. -/
theorem parse_of_names (h : Names parseHost toLower text o) :
    ∃ u, Bare u ∧ u.path = [] ∧ '#' ∉ text ∧ parse parseHost text = some u ∧
      originOf toLower u = o := by
  obtain ⟨hvalid, scheme, authority, host, rfl, hscheme, hplain, hhost, hne, hname, hport⟩ := h
  have hu : Bare { scheme := o.scheme, host } := ⟨hvalid.scheme, rfl, hne, .inl rfl, rfl, rfl⟩
  have hhash : '#' ∉ scheme ++ ':' :: '/' :: '/' :: authority := by
    intro hmem
    simp only [List.mem_append, List.mem_cons] at hmem
    rcases hmem with hmem | hmem | hmem | hmem | hmem
    · exact absurd ((letters_of_lower hu hscheme).2 _ hmem) (by decide)
    · exact absurd hmem (by decide)
    · exact absurd hmem (by decide)
    · exact absurd hmem (by decide)
    · exact (hplain _ hmem).2.2.2.1 rfl
  refine ⟨_, hu, rfl, hhash, (parse_iff parseHost hu hhash).mpr ⟨scheme, authority, ?_, hscheme,
    hplain, hhost⟩, ?_⟩
  · rw [List.append_nil]
  · show (⟨o.scheme, toLower (splitHostPort host).1,
      effectivePort o.scheme (splitHostPort host).2⟩ : Origin) = o
    rw [hname, hport]

/-- **The canonical text** is that of the origin that is named. -/
theorem canonicalOriginOf_iff :
    canonicalOriginOf parseHost toLower text = .ok t ↔
      ∃ o, Names parseHost toLower text o ∧ o.text = t := by
  constructor
  · intro h
    unfold canonicalOriginOf at h
    split at h
    · cases h
    next u hparse =>
      obtain ⟨hu, hpath, hhash, hparse⟩ := (parseOriginURL_iff false).mp hparse
      obtain ⟨hvalid, htext⟩ := (canonicalOrigin_iff hu).mp h
      obtain ⟨text', heq, hnames⟩ := names_of_parse hu (hpath rfl) hhash hparse hvalid
      rw [List.append_nil] at heq
      rw [heq]
      exact ⟨_, hnames, htext⟩
  · rintro ⟨o, hnames, rfl⟩
    obtain ⟨u, hu, hpath, hhash, hparse, rfl⟩ := parse_of_names hnames
    unfold canonicalOriginOf
    rw [(parseOriginURL_iff false).mpr ⟨hu, fun _ => hpath, hhash, hparse⟩]
    exact (canonicalOrigin_iff hu).mpr ⟨hnames.1, rfl⟩

/-- The configuration has the origin that `APP_PUBLIC_URL` names. -/
theorem loadOrigin_names {environment : String} {allowPlainHTTP : Bool}
    (h : loadOrigin parseHost toLower environment allowPlainHTTP raw = .ok origin) :
    ∃ o, PublicNames parseHost toLower raw o ∧ o.text = origin := by
  unfold loadOrigin at h
  split at h
  · cases h
  · split at h
    · cases h
    next u hparse =>
      split at h
      · cases h
      · split at h
        · cases h
        · obtain ⟨hu, -, hhash, hparse⟩ := (parseOriginURL_iff true).mp hparse
          obtain ⟨hvalid, htext⟩ := (canonicalOrigin_iff hu).mp h
          refine ⟨_, ?_, htext⟩
          rcases hu.path with hpath | hpath
          · obtain ⟨text, heq, hnames⟩ := names_of_parse hu hpath hhash hparse hvalid
            rw [List.append_nil] at heq
            exact .inl (heq ▸ hnames)
          · exact .inr (names_of_parse hu hpath hhash hparse hvalid)

theorem Names.ne_null (h : Names parseHost toLower text o) :
    ¬ (text = [] ∨ lowerASCII text = "null".toList) := by
  obtain ⟨-, scheme, authority, host, rfl, -⟩ := h
  have hcolon : ':' ∈ lowerASCII (scheme ++ ':' :: '/' :: '/' :: authority) :=
    List.mem_map.mpr ⟨':', List.mem_append_right scheme List.mem_cons_self, rfl⟩
  rintro (h | h)
  · rw [h] at hcolon
    cases hcolon
  · rw [h] at hcolon
    exact absurd hcolon (by decide)

/-- **The auth API** asks for one header that names the origin. -/
theorem validOrigin_iff (ho : o.Valid) {origins : List Text} :
    validOrigin parseHost toLower o.text origins = true ↔
      ∃ text, origins = [text] ∧ Names parseHost toLower text o := by
  constructor
  · intro h
    unfold validOrigin at h
    split at h
    next value =>
      split at h
      · cases h
      · split at h
        · cases h
        next canonical hcanonical =>
          obtain ⟨o', hnames, htext⟩ := canonicalOriginOf_iff.mp hcanonical
          have hsame : o'.text = o.text := htext.trans (of_decide_eq_true h)
          rw [Origin.text_injective hnames.1 ho hsame] at hnames
          exact ⟨value, rfl, hnames⟩
    · cases h
  · rintro ⟨text, rfl, hnames⟩
    show (if _ then _ else _) = true
    rw [if_neg hnames.ne_null, canonicalOriginOf_iff.mpr ⟨o, hnames, rfl⟩]
    exact decide_eq_true rfl

/-- The release API asks for the canonical text, in the first header. -/
theorem principalFailure_iff (horigin : origin ≠ []) {origins : List Text} :
    principalFailure origin true origins = none ↔ origins.head? = some origin := by
  unfold principalFailure
  cases origins with
  | nil =>
      rw [if_pos ⟨rfl, horigin.symm⟩]
      exact iff_of_false (Option.some_ne_none _) (Option.some_ne_none _).symm
  | cons text rest =>
      by_cases htext : text = origin
      · rw [if_neg fun h => h.2 htext]
        exact iff_of_true rfl (congrArg some htext)
      · rw [if_pos ⟨rfl, htext⟩]
        exact iff_of_false (Option.some_ne_none _) fun h => htext (Option.some.inj h)

end Checks

/-! ## Where they agree -/

section Agreement

variable (parseHost : Text → Option Text) (toLower : Text → Text)

/-- The headers of a request spell an origin as the configuration does, if they name it at all.

This is a condition on the text of the header and on the configured origin alone.  Neither of the
two checks occurs in it. -/
structure Spelled (o : Origin) (origins : List Text) : Prop where
  /-- No other spelling of the origin, -/
  same : ∀ text, origins = [text] → Names parseHost toLower text o → text = o.text
  /-- no second header behind its spelling, -/
  once : ∀ text rest, origins ≠ o.text :: text :: rest
  /-- and its spelling names it. -/
  named : origins = [o.text] → Names parseHost toLower o.text o

/-- **Where the two checks agree**, and with what they are for.

The configuration has made a canonical origin of the public URL, with the port written out.  The
auth API asks which origin the header names, and the release API compares the header with the
canonical text.  They agree exactly where the header spells the origin the one way that the release
API knows, or does not name it at all: `Spelled` is a condition on the header, in which neither of
the two checks occurs. -/
theorem checks_agree_iff (environment : String) (allowPlainHTTP : Bool) (publicURL origin : Text)
    (hload : loadOrigin parseHost toLower environment allowPlainHTTP publicURL = .ok origin)
    (origins : List Text) :
    ∃ o, PublicNames parseHost toLower publicURL o ∧ o.text = origin ∧
      (((principalFailure origin true origins = none ↔
          validOrigin parseHost toLower origin origins = true) ∧
        (validOrigin parseHost toLower origin origins = true ↔
          ∃ text, origins = [text] ∧ Names parseHost toLower text o)) ↔
      Spelled parseHost toLower o origins) := by
  obtain ⟨o, hpublic, rfl⟩ := loadOrigin_names hload
  have hvalid : o.Valid := hpublic.elim (fun h => h.1) fun ⟨_, _, h⟩ => h.1
  have htext : o.text ≠ [] := by
    unfold Origin.text
    simp
  refine ⟨o, hpublic, rfl, ?_⟩
  rw [and_iff_left (validOrigin_iff hvalid), validOrigin_iff hvalid, principalFailure_iff htext]
  constructor
  · intro h
    refine ⟨?_, ?_, ?_⟩
    · rintro text rfl hnames
      exact Option.some.inj (h.mpr ⟨text, rfl, hnames⟩)
    · rintro text rest rfl
      obtain ⟨text', heq, -⟩ := h.mp rfl
      cases (List.cons.inj heq).2
    · rintro rfl
      obtain ⟨text, heq, hnames⟩ := h.mp rfl
      cases heq
      exact hnames
  · rintro ⟨hsame, honce, hnamed⟩
    constructor
    · intro hhead
      cases origins with
      | nil => cases hhead
      | cons text rest =>
          obtain rfl : text = o.text := Option.some.inj hhead
          cases rest with
          | nil => exact ⟨o.text, rfl, hnamed rfl⟩
          | cons second rest => exact absurd rfl (honce second rest)
    · rintro ⟨text, rfl, hnames⟩
      exact congrArg some (hsame text rfl hnames)

end Agreement

/-- The public address of an installation, and its origin. -/
def address : Text := "https://admin.example/".toList

def addressOrigin : Text := "https://admin.example:443".toList

theorem address_loads :
    loadOrigin some lowerASCII "production" false address = .ok addressOrigin := by
  decide +kernel

theorem checks_agree_address : ∃ o, PublicNames some lowerASCII address o ∧ o.text = addressOrigin ∧
    (((principalFailure addressOrigin true [addressOrigin] = none ↔
        validOrigin some lowerASCII addressOrigin [addressOrigin] = true) ∧
      (validOrigin some lowerASCII addressOrigin [addressOrigin] = true ↔
        ∃ text, [addressOrigin] = [text] ∧ Names some lowerASCII text o)) ↔
    Spelled some lowerASCII o [addressOrigin]) :=
  checks_agree_iff some lowerASCII "production" false address addressOrigin address_loads
    [addressOrigin]

/-- **The header of a browser** has no default port, so that the release API refuses it. -/
theorem checks_disagree : ¬ ∀ (parseHost : Text → Option Text) (toLower : Text → Text)
    (environment : String) (allowPlainHTTP : Bool) (publicURL origin : Text),
    loadOrigin parseHost toLower environment allowPlainHTTP publicURL = .ok origin →
    ∀ origins : List Text, ∃ o, PublicNames parseHost toLower publicURL o ∧ o.text = origin ∧
      (principalFailure origin true origins = none ↔
        validOrigin parseHost toLower origin origins = true) ∧
      (validOrigin parseHost toLower origin origins = true ↔
        ∃ text, origins = [text] ∧ Names parseHost toLower text o) := by
  intro h
  obtain ⟨o, -, -, hagree, -⟩ := h some lowerASCII "production" false address addressOrigin
    address_loads ["https://admin.example".toList]
  have hvalid :
      validOrigin some lowerASCII addressOrigin ["https://admin.example".toList] = true := by
    decide +kernel
  have hrefused : principalFailure addressOrigin true ["https://admin.example".toList] ≠ none := by
    decide +kernel
  exact hrefused (hagree.mpr hvalid)

end BindPlane.Origins
