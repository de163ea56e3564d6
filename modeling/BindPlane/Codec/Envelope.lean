import BindPlane.Codec.Base64

/-!
# Sealed texts

The envelope of a secret in the database, `"v1:"` and the base64 text of the nonce with the
AES-GCM ciphertext behind it.  It is written and read by two programs: the API seals credentials
and opens configurations, strictly; the worker seals configurations and opens both, leniently.

**Purposes.**  A configuration is sealed under the associated data `configBackupAAD`, a
credential under none; this alone keeps them apart, since both programs have one key.

**Bytes and texts.**  Go's strings hold bytes, Python's hold characters.  What is sealed is
bytes for the API and a text for the worker, which takes its UTF-8 bytes; the sealed text comes
from a text column, and is a `String` for both.

`AesGcm.Correct.envelopes` says that what one program seals the other one opens, and that
neither takes a credential for a configuration, nor the other way round.

**Source.**  What is modelled here is in `internal/release/admin.go`, `internal/release/ops.go`,
`internal/release/ops_crypto.go`, `worker/devices.py` and `worker/main.py`.
-/

namespace BindPlane.Codec

open Base64

abbrev Bytes := List UInt8

/-! ## The cipher -/

/-- AES-GCM, of a key, a nonce, a text and associated data.

The cipher is a parameter.  A ciphertext is a list of bytes that ends in the tag, and opening it
either returns the text or fails; there is nothing in between. -/
structure AesGcm where
  /-- `Seal`: the ciphertext with its tag. -/
  sealed : Bytes → Bytes → Bytes → Bytes → Bytes
  /-- `Open`: the text, where the tag is right. -/
  opened : Bytes → Bytes → Bytes → Bytes → Option Bytes

/-- **The cipher is correct**: what it seals it opens, and under its own associated data only.

The second field is where authentication comes in: what was sealed for one purpose does not open for
another one.  For a real cipher this fails with negligible probability only; here it is taken as a
law, of texts that were sealed under this key. -/
structure AesGcm.Correct (g : AesGcm) : Prop where
  opens : ∀ key nonce text aad, g.opened key nonce (g.sealed key nonce text aad) aad = some text
  bound : ∀ key nonce text aad aad', aad' ≠ aad →
    g.opened key nonce (g.sealed key nonce text aad) aad' = none

/-- A nonce of the size GCM takes. -/
structure Nonce where
  bytes : Bytes
  size : bytes.length = 12

/-- Why sealing or opening fails. -/
inductive SealError
  /-- `aes.KeySizeError`, or the worker's `ValueError` for a key. -/
  | keySize
  /-- The text does not begin with `"v1:"`. -/
  | format
  /-- The text behind it is not base64. -/
  | encoding
  /-- There is no room for a nonce. -/
  | truncated
  /-- `cipher: message authentication failed`, or `InvalidTag`. -/
  | authentication
  /-- What was sealed is not UTF-8. -/
  | unicode
  deriving DecidableEq, Repr

/-- `configBackupAAD`, and `CONFIG_AAD`: `"bind-plane config backup v1"`. -/
def configBackupAAD : Bytes :=
  [98, 105, 110, 100, 45, 112, 108, 97, 110, 101, 32, 99, 111, 110, 102, 105, 103, 32, 98, 97,
    99, 107, 117, 112, 32, 118, 49]

/-- An AES key has 128, 192 or 256 bits. -/
def aesKey (key : Bytes) : Bool := key.length = 16 || key.length = 24 || key.length = 32

/-- `"v1:"`. -/
def version : List Char := ['v', '1', ':']

/-- What is behind the version. -/
def cutVersion (s : String) : Except SealError (List Char) :=
  if version.isPrefixOf s.toList then .ok (s.toList.drop 3) else .error .format

/-- The UTF-8 bytes of a text. -/
def utf8 (s : String) : Bytes := s.toUTF8.data.toList

/-- The text of UTF-8 bytes. -/
def utf8Decode (b : Bytes) : Option String := String.fromUTF8? ⟨b.toArray⟩

theorem utf8Decode_utf8 (s : String) : utf8Decode (utf8 s) = some s := by
  have hbytes : (⟨(utf8 s).toArray⟩ : ByteArray) = s.toByteArray := rfl
  rw [utf8Decode, hbytes, String.fromUTF8?, dif_pos s.isValidUTF8]
  rfl

variable (g : AesGcm)

/-! ## The API -/

namespace Api

/-- `base64.RawURLEncoding.DecodeString`. -/
def decodeString (s : List Char) : Except SealError Bytes :=
  match decodeRaw urlAlphabet s with
  | some b => .ok b
  | none => .error .encoding

/-- `credentialKey`, from the text of the environment variable. -/
def credentialKey (encoded : String) : Except SealError Bytes := do
  let key ← decodeString encoded.toList
  if key.length = 32 then .ok key else .error .keySize

/-- `configCipher`: the key, where the cipher takes it. -/
def configCipher (key : Bytes) : Except SealError Bytes :=
  if aesKey key then .ok key else .error .keySize

/-- The nonce and the ciphertext, as a text. -/
def pack (nonce : Nonce) (ciphertext : Bytes) : String :=
  String.ofList (version ++ encode urlAlphabet (nonce.bytes ++ ciphertext))

/-- `sealConfig`, with the nonce it draws. -/
def sealConfig (key : Bytes) (nonce : Nonce) (plaintext : Bytes) : Except SealError String := do
  let key ← configCipher key
  .ok (pack nonce (g.sealed key nonce.bytes plaintext configBackupAAD))

/-- `openConfig`. -/
def openConfig (key : Bytes) (sealed : String) : Except SealError Bytes := do
  let encoded ← cutVersion sealed
  let packed ← decodeString encoded
  let key ← configCipher key
  if packed.length < 12 then .error .truncated
  else
    match g.opened key (packed.take 12) (packed.drop 12) configBackupAAD with
    | some plain => .ok plain
    | none => .error .authentication

/-- `AdminHandler.seal`, with the nonce it draws. -/
def adminSeal (key : Bytes) (nonce : Nonce) (value : Bytes) : Except SealError String := do
  let key ← configCipher key
  .ok (pack nonce (g.sealed key nonce.bytes value []))

end Api

/-! ## The worker -/

namespace Worker

/-- `s + "=" * (-len(s) % 4)`. -/
def padded (s : List Char) : List Char := s ++ padding s.length

/-- The translation of the two digits the alphabets differ in. -/
def fromUrl (c : Char) : Char := if c = '-' then '+' else if c = '_' then '/' else c

@[inherit_doc fromUrl]
def toUrl (c : Char) : Char := if c = '+' then '-' else if c = '/' then '_' else c

/-- `base64.urlsafe_b64encode`. -/
def urlsafeB64encode (b : Bytes) : List Char := (encodePadded stdAlphabet b).map toUrl

/-- `base64.urlsafe_b64decode`; the characters have to be ASCII. -/
def urlsafeB64decode (s : List Char) : Except SealError Bytes :=
  if s.all fun c => c.toNat < 128 then
    match a2b stdAlphabet 0 0 0 (s.map fromUrl) with
    | some b => .ok b
    | none => .error .encoding
  else .error .encoding

/-- `credential_key`, from the text of the environment variable. -/
def credentialKey (encoded : String) : Except SealError Bytes :=
  urlsafeB64decode (padded encoded.toList)

/-- `AESGCM(key).encrypt`. -/
def encrypt (key : Bytes) (nonce : Nonce) (data aad : Bytes) : Except SealError Bytes :=
  if aesKey key then .ok (g.sealed key nonce.bytes data aad) else .error .keySize

/-- `AESGCM(key).decrypt`. -/
def decrypt (key nonce data aad : Bytes) : Except SealError Bytes :=
  if aesKey key then
    if nonce.length < 8 then .error .truncated
    else
      match g.opened key nonce data aad with
      | some plain => .ok plain
      | none => .error .authentication
  else .error .keySize

/-- `.decode("utf-8")`. -/
def decode (b : Bytes) : Except SealError String :=
  match utf8Decode b with
  | some s => .ok s
  | none => .error .unicode

/-- `seal_config`, with the nonce it draws. -/
def sealConfig (text : String) (key : Bytes) (nonce : Nonce) : Except SealError String := do
  let sealed ← encrypt g key nonce (utf8 text) configBackupAAD
  .ok (String.ofList (version ++ stripPadding (urlsafeB64encode (nonce.bytes ++ sealed))))

/-- What `open_config` and `legacy_encrypted_secret` do with what is behind the version. -/
def openPayload (encoded : List Char) (key aad : Bytes) : Except SealError String := do
  let payload ← urlsafeB64decode (padded encoded)
  let plain ← decrypt g key (payload.take 12) (payload.drop 12) aad
  decode plain

/-- `open_config`. -/
def openConfig (value : String) (key : Bytes) : Except SealError String := do
  let encoded ← cutVersion value
  openPayload g encoded key configBackupAAD

/-- `legacy_encrypted_secret`, from the text of the environment variable; `encryptSecret` is what
it hands the credential to. -/
def legacyEncryptedSecret (encryptSecret : String → Except SealError String)
    (encodedKey : String) : Option String → Except SealError (Option String)
  | none => .ok none
  | some value =>
      if value = "" then .ok none
      else do
        let encoded ← cutVersion value
        let key ← credentialKey encodedKey
        let plaintext ← openPayload g encoded key []
        let secret ← encryptSecret plaintext
        .ok (some secret)

end Worker

/-! ## One envelope -/

theorem cutVersion_ofList (s : List Char) : cutVersion (String.ofList (version ++ s)) = .ok s := by
  simp [cutVersion, version, List.isPrefixOf]

theorem aesKey_of_length {key : Bytes} (h : key.length = 32) : aesKey key = true := by
  simp [aesKey, h]

theorem Api.decodeString_encode (b : Bytes) : Api.decodeString (encode urlAlphabet b) = .ok b := by
  rw [Api.decodeString, decodeRaw_encode url]

namespace Worker

theorem map_toUrl (b : Bytes) :
    (encode stdAlphabet b).map toUrl = encode urlAlphabet b := by
  have hdigit : ∀ n < 64, toUrl (digit stdAlphabet n) = digit urlAlphabet n := by decide +kernel
  rw [encode, List.map_map]
  exact List.map_congr_left fun n hn => hdigit n (sextets_lt b n hn)

theorem map_fromUrl (b : Bytes) :
    (encode urlAlphabet b).map fromUrl = encode stdAlphabet b := by
  have hdigit : ∀ n < 64, fromUrl (digit urlAlphabet n) = digit stdAlphabet n := by decide +kernel
  rw [encode, List.map_map]
  exact List.map_congr_left fun n hn => hdigit n (sextets_lt b n hn)

/-- **The two encoders agree**: without its padding the worker's text is the API's. -/
theorem strip_urlsafeB64encode (b : Bytes) :
    stripPadding (urlsafeB64encode b) = encode urlAlphabet b := by
  have hpad : urlsafeB64encode b =
      encode urlAlphabet b ++ List.replicate ((3 - b.length % 3) % 3) '=' := by
    rw [urlsafeB64encode, encodePadded, List.map_append, map_toUrl, List.map_replicate]
    rfl
  rw [hpad]
  exact stripPadding_encodePadded url b

/-- **The lenient decoder reads what the strict one reads**, of the text of some bytes. -/
theorem urlsafeB64decode_encode (b : Bytes) :
    urlsafeB64decode (padded (encode urlAlphabet b)) = .ok b := by
  have hdigit : ∀ n < 64, (digit urlAlphabet n).toNat < 128 := by decide +kernel
  have hascii : (padded (encode urlAlphabet b)).all (fun c => c.toNat < 128) = true := by
    simp only [padded, padding, encode, List.all_append, List.all_map, List.all_replicate]
    have hall : (sextets b).all ((fun c => decide (c.toNat < 128)) ∘ digit urlAlphabet) = true :=
      List.all_eq_true.mpr fun n hn => decide_eq_true (hdigit n (sextets_lt b n hn))
    simp [hall]
  have hmap : (padded (encode urlAlphabet b)).map fromUrl =
      encode stdAlphabet b ++ padding (encode stdAlphabet b).length := by
    rw [padded, List.map_append, map_fromUrl, padding, List.map_replicate, padding]
    simp [encode, fromUrl]
  rw [urlsafeB64decode, if_pos hascii, hmap, a2b_encode std]

end Worker

/-! ## Opening what is sealed -/

variable {g} {key : Bytes}

theorem Nonce.take_append (n : Nonce) (c : Bytes) : (n.bytes ++ c).take 12 = n.bytes := by
  rw [List.take_append_of_le_length n.size.ge, List.take_of_length_le n.size.le]

theorem Nonce.drop_append (n : Nonce) (c : Bytes) : (n.bytes ++ c).drop 12 = c := by
  rw [List.drop_append_of_le_length n.size.ge, List.drop_of_length_le n.size.le,
    List.nil_append]

namespace Api

theorem sealConfig_eq (hkey : key.length = 32) (n : Nonce) (plaintext : Bytes) :
    sealConfig g key n plaintext =
      .ok (pack n (g.sealed key n.bytes plaintext configBackupAAD)) := by
  simp [sealConfig, configCipher, aesKey_of_length hkey, bind, Except.bind]

theorem adminSeal_eq (hkey : key.length = 32) (n : Nonce) (value : Bytes) :
    adminSeal g key n value = .ok (pack n (g.sealed key n.bytes value [])) := by
  simp [adminSeal, configCipher, aesKey_of_length hkey, bind, Except.bind]

/-- What the API finds in an envelope. -/
theorem openConfig_pack (hkey : key.length = 32) (n : Nonce) (c : Bytes) :
    openConfig g key (pack n c) =
      match g.opened key n.bytes c configBackupAAD with
      | some plain => .ok plain
      | none => .error .authentication := by
  have hlen : ¬ (n.bytes ++ c).length < 12 := by
    rw [List.length_append, n.size]
    omega
  simp only [openConfig, pack, cutVersion_ofList, decodeString_encode, configCipher,
    aesKey_of_length hkey, bind, Except.bind, if_true, if_neg hlen, n.take_append, n.drop_append]

end Api

namespace Worker

theorem sealConfig_eq (hkey : key.length = 32) (n : Nonce) (text : String) :
    sealConfig g text key n =
      .ok (Api.pack n (g.sealed key n.bytes (utf8 text) configBackupAAD)) := by
  simp only [sealConfig, encrypt, aesKey_of_length hkey, bind, Except.bind, if_true,
    strip_urlsafeB64encode]
  rfl

/-- What the worker finds behind the version. -/
theorem openPayload_pack (hkey : key.length = 32) (n : Nonce) (c aad : Bytes) :
    openPayload g (encode urlAlphabet (n.bytes ++ c)) key aad =
      match g.opened key n.bytes c aad with
      | some plain => decode plain
      | none => .error .authentication := by
  have hlen : ¬ n.bytes.length < 8 := by
    rw [n.size]
    decide
  simp only [openPayload, urlsafeB64decode_encode, decrypt, aesKey_of_length hkey, bind,
    Except.bind, if_true, n.take_append, n.drop_append, if_neg hlen]
  cases g.opened key n.bytes c aad with
  | none => rfl
  | some plain => rfl

theorem openConfig_pack (hkey : key.length = 32) (n : Nonce) (c : Bytes) :
    openConfig g (Api.pack n c) key =
      match g.opened key n.bytes c configBackupAAD with
      | some plain => decode plain
      | none => .error .authentication := by
  rw [openConfig, Api.pack, cutVersion_ofList]
  exact openPayload_pack hkey n c configBackupAAD

theorem decode_utf8 (text : String) : decode (utf8 text) = .ok text := by
  rw [decode, utf8Decode_utf8]

/-- What the worker makes of an envelope it takes for a credential. -/
theorem legacyEncryptedSecret_pack (hkey : key.length = 32)
    {encryptSecret : String → Except SealError String} {encodedKey : String}
    (hread : credentialKey encodedKey = .ok key) (n : Nonce) (c : Bytes) :
    legacyEncryptedSecret g encryptSecret encodedKey (some (Api.pack n c)) =
      match g.opened key n.bytes c [] with
      | some plain => decode plain >>= fun text => (encryptSecret text).map some
      | none => .error .authentication := by
  have hne : Api.pack n c ≠ "" := by
    intro h
    have hlist := congrArg String.toList h
    simp [Api.pack, version] at hlist
  rw [legacyEncryptedSecret, if_neg hne, Api.pack, cutVersion_ofList, hread]
  simp only [bind, Except.bind, openPayload_pack hkey]
  cases g.opened key n.bytes c [] with
  | none => rfl
  | some plain =>
      simp only
      cases decode plain with
      | error e => rfl
      | ok text => cases encryptSecret text <;> rfl

end Worker

/-- The text of a key is read alike by both programs. -/
theorem credentialKey_encode (hkey : key.length = 32) :
    Api.credentialKey (String.ofList (encode urlAlphabet key)) = .ok key ∧
      Worker.credentialKey (String.ofList (encode urlAlphabet key)) = .ok key := by
  constructor
  · simp [Api.credentialKey, Api.decodeString_encode, bind, Except.bind, hkey]
  · rw [Worker.credentialKey, String.toList_ofList, Worker.urlsafeB64decode_encode]

/-- **What one program seals the other opens**, and no sealed text opens for another purpose.

The two programs share a key and the layout of an envelope (`Api.pack`), and each has its own
reading of both.  So the proof goes by the one envelope: every sealing function is `pack` of a
ciphertext for its purpose, every opening function is the cipher on what was packed, and the
cipher keeps the purposes apart by their associated data.  The key itself comes to both as a
text, and there is a text that both read as it. -/
theorem AesGcm.Correct.envelopes (hg : g.Correct) (hkey : key.length = 32) (n : Nonce) :
    (∀ text, ∃ s, Worker.sealConfig g text key n = .ok s ∧
      Api.openConfig g key s = .ok (utf8 text)) ∧
    (∀ text, ∃ s, Api.sealConfig g key n (utf8 text) = .ok s ∧
      Worker.openConfig g s key = .ok text) ∧
    (∀ text, ∃ s, Api.adminSeal g key n (utf8 text) = .ok s ∧
      ∀ encryptSecret encodedKey, Worker.credentialKey encodedKey = .ok key →
        Worker.legacyEncryptedSecret g encryptSecret encodedKey (some s) =
          (encryptSecret text).map some) ∧
    (∀ value s, Api.adminSeal g key n value = .ok s →
      (∀ t, Api.openConfig g key s ≠ .ok t) ∧ ∀ t, Worker.openConfig g s key ≠ .ok t) ∧
    (∀ s, (∃ text, Worker.sealConfig g text key n = .ok s) ∨
        (∃ plaintext, Api.sealConfig g key n plaintext = .ok s) →
      ∀ encryptSecret encodedKey, Worker.credentialKey encodedKey = .ok key →
        ∀ secret,
          Worker.legacyEncryptedSecret g encryptSecret encodedKey (some s) ≠ .ok secret) ∧
    ∃ encodedKey, Api.credentialKey encodedKey = .ok key ∧
      Worker.credentialKey encodedKey = .ok key := by
  have hconfig : configBackupAAD ≠ [] := by decide
  refine ⟨fun text => ⟨_, Worker.sealConfig_eq hkey n text, ?_⟩,
    fun text => ⟨_, Api.sealConfig_eq hkey n _, ?_⟩,
    fun text => ⟨_, Api.adminSeal_eq hkey n _, fun E enc henc => ?_⟩, ?_, ?_,
    _, credentialKey_encode hkey⟩
  · rw [Api.openConfig_pack hkey, hg.opens]
  · rw [Worker.openConfig_pack hkey, hg.opens]
    exact Worker.decode_utf8 text
  · rw [Worker.legacyEncryptedSecret_pack hkey henc, hg.opens]
    simp only [Worker.decode_utf8, bind, Except.bind]
  · intro value s hs
    rw [Api.adminSeal_eq hkey] at hs
    cases hs
    constructor
    · intro t ht
      rw [Api.openConfig_pack hkey, hg.bound _ _ _ _ _ hconfig] at ht
      cases ht
    · intro t ht
      rw [Worker.openConfig_pack hkey, hg.bound _ _ _ _ _ hconfig] at ht
      cases ht
  · intro s hs E enc henc secret hsecret
    obtain ⟨plaintext, rfl⟩ : ∃ plaintext,
        s = Api.pack n (g.sealed key n.bytes plaintext configBackupAAD) := by
      rcases hs with ⟨text, hs⟩ | ⟨plaintext, hs⟩
      · rw [Worker.sealConfig_eq hkey] at hs
        exact ⟨utf8 text, (Except.ok.inj hs).symm⟩
      · rw [Api.sealConfig_eq hkey] at hs
        exact ⟨plaintext, (Except.ok.inj hs).symm⟩
    rw [Worker.legacyEncryptedSecret_pack hkey henc, hg.bound _ _ _ _ _ hconfig.symm] at hsecret
    cases hsecret

/-! ## A concrete cipher

AES-256-GCM under the key of zeros, on the text and the nonce of the worker's test vector; on
every other input, a framing of the associated data and the text that can be undone. -/

namespace Demo

def zeroKey : Bytes := List.replicate 32 0

def nonce : Nonce := ⟨[38, 26, 240, 184, 205, 121, 133, 167, 102, 21, 218, 5], rfl⟩

/-- `"sysname VECTOR\nreturn"`. -/
def plaintext : Bytes :=
  [115, 121, 115, 110, 97, 109, 101, 32, 86, 69, 67, 84, 79, 82, 10, 114, 101, 116, 117, 114,
    110]

/-- The ciphertext of the vector, before its tag. -/
def masked : Bytes :=
  [215, 240, 28, 91, 117, 111, 52, 109, 2, 1, 132, 247, 75, 151, 136, 171, 65, 218, 46, 82, 105]

/-- The tag for a purpose. -/
def tag (aad : Bytes) : Bytes :=
  if aad = configBackupAAD then
    [143, 141, 186, 193, 209, 199, 48, 246, 132, 113, 137, 180, 166, 9, 225, 155]
  else [44, 187, 125, 236, 184, 149, 143, 231, 85, 95, 176, 3, 98, 1, 243, 49]

/-- The inputs of the vector: its text, and either purpose. -/
def vector (key nonce' aad : Bytes) : Bool :=
  key = zeroKey && nonce' = nonce.bytes && (aad = configBackupAAD || aad = [])

/-- The associated data, so that its end can be told. -/
def frame (aad : Bytes) : Bytes := List.replicate aad.length 1 ++ 0 :: aad

def aes256Gcm : AesGcm where
  sealed key n text aad :=
    if vector key n aad && text = plaintext then masked ++ tag aad else frame aad ++ text
  opened key n c aad :=
    if vector key n aad && c = masked ++ tag aad then some plaintext
    else if (frame aad).isPrefixOf c then some (c.drop (frame aad).length) else none

theorem frame_head (aad : Bytes) : ∃ b rest, frame aad = b :: rest ∧ b < 2 := by
  cases aad with
  | nil => exact ⟨0, [], rfl, by decide⟩
  | cons x aad => exact ⟨1, _, rfl, by decide⟩

/-- What is framed is no ciphertext of the vector. -/
theorem frame_not_prefixOf (aad rest : Bytes) : ¬ frame aad <+: masked ++ rest := by
  obtain ⟨b, bs, hframe, hlt⟩ := frame_head aad
  rw [hframe, masked, List.cons_append, List.cons_prefix_cons]
  rintro ⟨rfl, -⟩
  exact absurd hlt (by decide)

private theorem replicate_prefixOf {x y : Bytes} :
    ∀ {m n : ℕ}, List.replicate m 1 ++ 0 :: x <+: List.replicate n 1 ++ 0 :: y → m = n
  | 0, 0, _ => rfl
  | 0, n + 1, h => by simp [List.replicate_succ] at h
  | m + 1, 0, h => by simp [List.replicate_succ] at h
  | m + 1, n + 1, h => by
      rw [List.replicate_succ, List.replicate_succ, List.cons_append, List.cons_append,
        List.cons_prefix_cons] at h
      rw [replicate_prefixOf h.2]

/-- A frame tells its associated data. -/
theorem frame_prefixOf {aad aad' text : Bytes} (h : frame aad' <+: frame aad ++ text) :
    aad' = aad := by
  rw [frame, frame, List.append_assoc, List.cons_append] at h
  have hlen := replicate_prefixOf h
  rw [hlen, List.prefix_append_right_inj, List.cons_prefix_cons] at h
  exact (List.prefix_of_prefix_length_le h.2 (List.prefix_append ..) hlen.le).eq_of_length hlen

theorem tag_injective {aad aad' : Bytes} (h : aad = configBackupAAD ∨ aad = [])
    (h' : aad' = configBackupAAD ∨ aad' = []) (heq : tag aad = tag aad') : aad' = aad := by
  rcases h with rfl | rfl <;> rcases h' with rfl | rfl
  · rfl
  · exact absurd heq (by decide)
  · exact absurd heq (by decide)
  · rfl

theorem not_isPrefixOf {a b : Bytes} (h : ¬ a <+: b) : ¬ a.isPrefixOf b = true :=
  fun hp => h (List.isPrefixOf_iff_prefix.mp hp)

theorem aes256Gcm_correct : aes256Gcm.Correct where
  opens key n text aad := by
    by_cases hv : (vector key n aad && text = plaintext) = true
    · have htext : text = plaintext := of_decide_eq_true (Bool.and_eq_true_iff.mp hv).2
      simp [aes256Gcm, htext, (Bool.and_eq_true_iff.mp hv).1]
    · have hno : ¬ (vector key n aad && frame aad ++ text = masked ++ tag aad) = true := by
        intro hv'
        have heq := of_decide_eq_true (Bool.and_eq_true_iff.mp hv').2
        exact frame_not_prefixOf aad (tag aad) (heq ▸ List.prefix_append ..)
      unfold aes256Gcm
      dsimp only
      rw [if_neg hv, if_neg hno, if_pos (List.isPrefixOf_iff_prefix.mpr (List.prefix_append ..)),
        List.drop_left]
  bound key n text aad aad' hne := by
    unfold aes256Gcm
    dsimp only
    by_cases hv : (vector key n aad && text = plaintext) = true
    · have hno : ¬ (vector key n aad' && masked ++ tag aad = masked ++ tag aad') = true := by
        intro hv'
        simp only [vector, Bool.and_eq_true, Bool.or_eq_true, decide_eq_true_eq] at hv hv'
        exact hne (tag_injective hv.1.2 hv'.1.2 (List.append_cancel_left hv'.2))
      rw [if_pos hv, if_neg hno, if_neg (not_isPrefixOf (frame_not_prefixOf _ _))]
    · have hno : ¬ (vector key n aad' && frame aad ++ text = masked ++ tag aad') = true := by
        intro hv'
        have heq := of_decide_eq_true (Bool.and_eq_true_iff.mp hv').2
        exact frame_not_prefixOf aad (tag aad') (heq ▸ List.prefix_append ..)
      rw [if_neg hv, if_neg hno, if_neg (not_isPrefixOf fun h => hne (frame_prefixOf h))]

/-- The vector of the worker's test, and what becomes of it and of the credential under the
same nonce, also where a text of the key is read. -/
theorem vector_opens : ∃ sealed credential encodedKey,
    Worker.sealConfig aes256Gcm "sysname VECTOR\nreturn" zeroKey nonce = .ok sealed ∧
    sealed = "v1:JhrwuM15hadmFdoF1_AcW3VvNG0CAYT3S5eIq0HaLlJpj426wdHHMPaEcYm0pgnhmw" ∧
    Api.openConfig aes256Gcm zeroKey sealed = .ok (utf8 "sysname VECTOR\nreturn") ∧
    Api.adminSeal aes256Gcm zeroKey nonce plaintext = .ok credential ∧
    (∀ t, Worker.openConfig aes256Gcm credential zeroKey ≠ .ok t) ∧
    Worker.legacyEncryptedSecret aes256Gcm .ok encodedKey (some credential) =
      .ok (some "sysname VECTOR\nreturn") ∧
    ∀ secret, Worker.legacyEncryptedSecret aes256Gcm .ok encodedKey (some sealed) ≠
      .ok secret := by
  have hkey : zeroKey.length = 32 := by decide
  have hplain : utf8 "sysname VECTOR\nreturn" = plaintext := by decide +kernel
  obtain ⟨hconfig, -, hlegacy, hcredential, hapart, encodedKey, -, henc⟩ :=
    aes256Gcm_correct.envelopes hkey nonce
  obtain ⟨s, hs, hopen⟩ := hconfig "sysname VECTOR\nreturn"
  obtain ⟨credential, hsealed, hrecovered⟩ := hlegacy "sysname VECTOR\nreturn"
  rw [hplain] at hsealed
  refine ⟨s, credential, encodedKey, hs, ?_, hopen, hsealed, (hcredential _ _ hsealed).2,
    hrecovered .ok encodedKey henc, hapart s (.inl ⟨_, hs⟩) .ok encodedKey henc⟩
  have hvector : Worker.sealConfig aes256Gcm "sysname VECTOR\nreturn" zeroKey nonce = .ok
      "v1:JhrwuM15hadmFdoF1_AcW3VvNG0CAYT3S5eIq0HaLlJpj426wdHHMPaEcYm0pgnhmw" := by
    decide +kernel
  exact Except.ok.inj (hs.symm.trans hvector)

end Demo

end BindPlane.Codec
