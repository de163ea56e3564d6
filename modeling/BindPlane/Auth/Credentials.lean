import BindPlane.Codec.Base64

/-!
# Reset links

`domain/credentials.go`: the selector of a reset request, the verifier that is derived from it,
and the text that carries both.  A Go string is its list of bytes.

**One spelling.**  A token has three parts.  The version is fixed; the other two are read if they
have the length and the alphabet of the encoding and are the encoding of what they decode to
(`decodeCanonicalBase64URL_iff`).  So the accepted strings are the tokens and nothing else
(`parsePasswordResetToken_iff`), which `resetToken_unique` says of a whole link.

**What is stored.**  The table has the selector and a digest of the verifier, and the mail has the
verifier itself; who reads the table cannot make the link.  The verifier is derived from the
selector and a key of the application.
-/

namespace BindPlane.Credentials

open Base64

abbrev Bytes : Type := List UInt8

/-- The hashes, as functions of bytes; `hmac` has a key and a message. -/
structure Hashes where
  hmac : Bytes → Bytes → Bytes
  sha256 : Bytes → Bytes
  /-- An HMAC over SHA-256 has 32 bytes. -/
  hmac_length : ∀ key message, (hmac key message).length = 32

def passwordResetSelectorBytes : ℕ := 16

def passwordResetVerifierBytes : ℕ := 32

/-- A text of ASCII characters as a Go string. -/
def bytesOf (text : List Char) : Bytes := text.map fun c => UInt8.ofNat c.toNat

/-- The bytes of a Go string, each as a character. -/
def charsOf (value : Bytes) : List Char := value.map fun b => Char.ofNat b.toNat

def passwordResetTokenVersion : Bytes := bytesOf "v1".toList

def passwordResetContext : Bytes := bytesOf "temvia-password-reset-v1".toList

/-- The byte of `.`. -/
def dot : UInt8 := 46

/-- `base64.RawURLEncoding.EncodeToString`. -/
def encodeToString (bs : Bytes) : Bytes := bytesOf (encode urlAlphabet bs)

/-- `base64.RawURLEncoding.DecodeString`. -/
def decodeString (value : Bytes) : Option Bytes := decodeRaw urlAlphabet (charsOf value)

/-- The characters that `decodeCanonicalBase64URL` admits.  The loop is over runes; one that is
admitted is a single byte, and every byte of another one is at least `0x80`. -/
def admitted (b : UInt8) : Bool :=
  97 ≤ b && b ≤ 122 || 65 ≤ b && b ≤ 90 || 48 ≤ b && b ≤ 57 || b == 45 || b == 95

def decodeCanonicalBase64URL (value : Bytes) (decodedBytes : ℕ) : Option Bytes :=
  if value.length ≠ (decodedBytes * 8 + 5) / 6 then none
  else if !value.all admitted then none
  else
    match decodeString value with
    | none => none
    | some decoded =>
        if decoded.length ≠ decodedBytes ∨ encodeToString decoded ≠ value then none
        else some decoded

section Tokens

variable (H : Hashes)

def derivePasswordResetVerifier (key selector : Bytes) : Option Bytes :=
  if key.length ≠ passwordResetVerifierBytes ∨ selector.length ≠ passwordResetSelectorBytes then
    none
  else some (H.hmac key (passwordResetContext ++ selector))

structure PasswordResetMaterial where
  selector : Bytes
  verifierDigest : Bytes
  deriving DecidableEq

def newPasswordResetMaterial (key selector : Bytes) : Option PasswordResetMaterial :=
  (derivePasswordResetVerifier H key selector).map fun verifier => ⟨selector, H.sha256 verifier⟩

/-- The text of a selector and a verifier. -/
def spell (selector verifier : Bytes) : Bytes :=
  passwordResetTokenVersion ++ dot :: (encodeToString selector ++ dot :: encodeToString verifier)

def newPasswordResetToken (key selector : Bytes) : Option Bytes :=
  (derivePasswordResetVerifier H key selector).map (spell selector)

/-- `ParsePasswordResetToken`: the selector and the digest of the verifier. -/
def parsePasswordResetToken (value : Bytes) : Option (Bytes × Bytes) :=
  match value.splitOn dot with
  | [version, first, second] =>
      if version ≠ passwordResetTokenVersion then none
      else
        match decodeCanonicalBase64URL first passwordResetSelectorBytes with
        | none => none
        | some selector =>
            match decodeCanonicalBase64URL second passwordResetVerifierBytes with
            | none => none
            | some verifier => some (selector, H.sha256 verifier)
  | _ => none

end Tokens

/-- The selector and the verifier that a string carries: those of its second and third part. -/
def Presents (value selector verifier : Bytes) : Prop :=
  ∃ version first second, value.splitOn dot = [version, first, second] ∧
    decodeString first = some selector ∧ decodeString second = some verifier

/-! ## Encoding and decoding -/

theorem charsOf_bytesOf {text : List Char} (h : ∀ c ∈ text, c.toNat < 256) :
    charsOf (bytesOf text) = text := by
  unfold charsOf bytesOf
  rw [List.map_map]
  refine (List.map_congr_left fun c hc => ?_).trans (List.map_id text)
  show Char.ofNat (UInt8.ofNat c.toNat).toNat = c
  rw [UInt8.toNat_ofNat_of_lt' (h c hc), Char.ofNat_toNat]

/-- Every digit is one admitted byte, and no dot. -/
theorem digit_admitted : ∀ n < 64, (digit urlAlphabet n).toNat < 256 ∧
    admitted (UInt8.ofNat (digit urlAlphabet n).toNat) = true ∧
      UInt8.ofNat (digit urlAlphabet n).toNat ≠ dot := by
  decide +kernel

theorem decodeString_encodeToString (bs : Bytes) : decodeString (encodeToString bs) = some bs := by
  unfold decodeString encodeToString
  rw [charsOf_bytesOf, decodeRaw_encode url]
  intro c hc
  obtain ⟨n, hn, rfl⟩ := List.mem_map.mp hc
  exact (digit_admitted n (sextets_lt bs n hn)).1

theorem mem_encodeToString {bs : Bytes} {b : UInt8} (h : b ∈ encodeToString bs) :
    admitted b = true ∧ b ≠ dot := by
  obtain ⟨c, hc, rfl⟩ := List.mem_map.mp h
  obtain ⟨n, hn, rfl⟩ := List.mem_map.mp hc
  exact (digit_admitted n (sextets_lt bs n hn)).2

theorem length_encodeToString (bs : Bytes) :
    (encodeToString bs).length = (bs.length * 8 + 5) / 6 := by
  unfold encodeToString bytesOf
  rw [List.length_map, encode, List.length_map, length_sextets]

/-- Exactly the encodings of so many bytes are decoded. -/
theorem decodeCanonicalBase64URL_iff {value bs : Bytes} {n : ℕ} :
    decodeCanonicalBase64URL value n = some bs ↔ bs.length = n ∧ value = encodeToString bs := by
  unfold decodeCanonicalBase64URL
  constructor
  · intro h
    split_ifs at h
    split at h
    · cases h
    · split_ifs at h with hbad
      obtain rfl := Option.some.inj h
      exact ⟨not_not.mp (not_or.mp hbad).1, (not_not.mp (not_or.mp hbad).2).symm⟩
  · rintro ⟨rfl, rfl⟩
    have hadmitted : (encodeToString bs).all admitted = true :=
      List.all_eq_true.mpr fun b hb => (mem_encodeToString hb).1
    rw [if_neg (not_not.mpr (length_encodeToString bs)), hadmitted,
      decodeString_encodeToString]
    simp

/-! ## Tokens -/

theorem splitOn_spell (selector verifier : Bytes) :
    (spell selector verifier).splitOn dot =
      [passwordResetTokenVersion, encodeToString selector, encodeToString verifier] := by
  have hversion : dot ∉ passwordResetTokenVersion := by decide
  have hpart : ∀ bs, dot ∉ encodeToString bs := fun bs h => (mem_encodeToString h).2 rfl
  unfold spell
  rw [List.splitOn_append_cons_self_of_not_mem hversion,
    List.splitOn_append_cons_self_of_not_mem (hpart selector),
    List.splitOn_eq_singleton (hpart verifier)]

/-- A string with these three parts is a token. -/
theorem eq_spell {value selector verifier : Bytes} (h : value.splitOn dot =
    [passwordResetTokenVersion, encodeToString selector, encodeToString verifier]) :
    value = spell selector verifier := by
  have hjoined : [dot].intercalate (value.splitOn dot) = value := List.intercalate_splitOn dot
  rw [← hjoined, h]
  unfold spell
  simp [List.intercalate]

/-- **The accepted strings are the tokens** of a selector and a verifier of their lengths. -/
theorem parsePasswordResetToken_iff (H : Hashes) {value selector digest : Bytes} :
    parsePasswordResetToken H value = some (selector, digest) ↔
      ∃ verifier, selector.length = passwordResetSelectorBytes ∧
        verifier.length = passwordResetVerifierBytes ∧ value = spell selector verifier ∧
          digest = H.sha256 verifier := by
  constructor
  · intro h
    unfold parsePasswordResetToken at h
    split at h
    · rename_i version first second hparts
      split_ifs at h with hversion
      split at h
      · cases h
      · rename_i selector' hselector
        split at h
        · cases h
        · rename_i verifier hverifier
          obtain ⟨rfl, rfl⟩ := Prod.mk.inj (Option.some.inj h)
          obtain ⟨hs, rfl⟩ := decodeCanonicalBase64URL_iff.mp hselector
          obtain ⟨hv, rfl⟩ := decodeCanonicalBase64URL_iff.mp hverifier
          rw [not_not.mp hversion] at hparts
          exact ⟨verifier, hs, hv, eq_spell hparts, rfl⟩
    · cases h
  · rintro ⟨verifier, hs, hv, rfl, rfl⟩
    unfold parsePasswordResetToken
    rw [splitOn_spell]
    dsimp only
    rw [if_neg (not_not.mpr rfl), decodeCanonicalBase64URL_iff.mpr ⟨hs, rfl⟩]
    dsimp only
    rw [decodeCanonicalBase64URL_iff.mpr ⟨hv, rfl⟩]

theorem presents_spell (selector verifier : Bytes) :
    Presents (spell selector verifier) selector verifier :=
  ⟨_, _, _, splitOn_spell selector verifier, decodeString_encodeToString selector,
    decodeString_encodeToString verifier⟩

/-- A string carries one selector and one verifier. -/
theorem Presents.unique {value selector verifier selector' verifier' : Bytes}
    (h : Presents value selector verifier) (h' : Presents value selector' verifier') :
    selector = selector' ∧ verifier = verifier' := by
  obtain ⟨version, first, second, hparts, hfirst, hsecond⟩ := h
  obtain ⟨version', first', second', hparts', hfirst', hsecond'⟩ := h'
  obtain ⟨-, rfl, rfl, -⟩ : version = version' ∧ first = first' ∧ second = second' ∧ True := by
    simpa using hparts.symm.trans hparts'
  exact ⟨Option.some.inj (hfirst.symm.trans hfirst'), Option.some.inj (hsecond.symm.trans hsecond')⟩

/-- **A reset link has one spelling.**  Parsing the token of a selector gives the selector and
the digest of its material; a string that is accepted carries a selector and a verifier, and
every other string that carries the same two is rejected.

Nothing is assumed of the hash functions but the length of what they return.  The first half is the
round trip from a key and a selector to the link and back; the second says that a link can be
spelled in one way only.  Padding, other alphabets and trailing bits would each give further
spellings of the same bytes, and `decodeCanonicalBase64URL` refuses them by encoding once more what
it has decoded. -/
theorem resetToken_unique (H : Hashes) :
    (∀ key selector : Bytes, key.length = 32 → selector.length = 16 → ∃ token material,
      newPasswordResetToken H key selector = some token ∧
      newPasswordResetMaterial H key selector = some material ∧
      parsePasswordResetToken H token = some (selector, material.verifierDigest) ∧
      material.selector = selector) ∧
    ∀ value selector digest : Bytes, parsePasswordResetToken H value = some (selector, digest) →
      ∃ verifier, Presents value selector verifier ∧ digest = H.sha256 verifier ∧
        ∀ other, Presents other selector verifier → other ≠ value →
          parsePasswordResetToken H other = none := by
  constructor
  · intro key selector hkey hselector
    have hverifier : derivePasswordResetVerifier H key selector =
        some (H.hmac key (passwordResetContext ++ selector)) := by
      unfold derivePasswordResetVerifier
      rw [if_neg]
      rintro (hbad | hbad)
      · exact hbad hkey
      · exact hbad hselector
    refine ⟨_, _, congrArg (Option.map _) hverifier, congrArg (Option.map _) hverifier, ?_, rfl⟩
    exact (parsePasswordResetToken_iff H).mpr
      ⟨_, hselector, H.hmac_length _ _, rfl, rfl⟩
  · intro value selector digest hvalue
    obtain ⟨verifier, -, -, rfl, rfl⟩ := (parsePasswordResetToken_iff H).mp hvalue
    refine ⟨verifier, presents_spell selector verifier, rfl, fun other hother hne => ?_⟩
    refine Option.eq_none_iff_forall_ne_some.mpr fun x hx => hne ?_
    obtain ⟨verifier', -, -, rfl, -⟩ :=
      (parsePasswordResetToken_iff H).mp (show _ = some (x.1, x.2) from hx)
    obtain ⟨hs, hv⟩ := (presents_spell x.1 verifier').unique hother
    rw [hs, hv]

namespace Demo

/-- A key stream in place of the hashes. -/
def hashes : Hashes where
  hmac key _ := key.take 32 ++ List.replicate (32 - (key.take 32).length) 0
  sha256 bs := bs.reverse
  hmac_length key message := by
    rw [List.length_append, List.length_replicate, List.length_take]
    omega

end Demo

/-- One link, and a second spelling of it whose last character has a spare bit set. -/
theorem resetToken_unique_link :
    parsePasswordResetToken Demo.hashes
      (spell (List.replicate 16 7) (List.replicate 32 9)) =
        some (List.replicate 16 7, List.replicate 32 9) ∧
    parsePasswordResetToken Demo.hashes
      ((spell (List.replicate 16 7) (List.replicate 32 9)).set 24 120) = none := by
  obtain ⟨hnew, hold⟩ := resetToken_unique Demo.hashes
  obtain ⟨token, material, htoken, hmaterial, hparse, -⟩ :=
    hnew (List.replicate 32 9) (List.replicate 16 7) rfl rfl
  cases htoken
  cases hmaterial
  refine ⟨hparse, ?_⟩
  obtain ⟨verifier, hpresents, -, hother⟩ := hold _ _ _ hparse
  obtain ⟨-, rfl⟩ := hpresents.unique (presents_spell _ _)
  refine hother _ ⟨passwordResetTokenVersion, (encodeToString (List.replicate 16 7)).set 21 120,
    encodeToString (List.replicate 32 9), ?_, ?_, ?_⟩ (by decide +kernel)
  all_goals decide +kernel

end BindPlane.Credentials
