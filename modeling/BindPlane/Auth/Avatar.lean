import BindPlane.Devices.Schedules
import Mathlib.Data.List.Infix

/-!
# Avatars, and pictures that move

`NormalizeAvatar` refuses an animated picture.  What it looks for is four bytes anywhere in the
file (`isAnimatedAvatar`); what makes a picture move is a chunk of that type (`Png.Animated`,
`Webp.Animated`).

**Files.**  A `Png` and a `Webp` are files by their chunks: the types, the lengths and the end are
part of the structure, and the data is whatever it is.

**The scan.**  `containsBytes_iff` says that the loop finds an infix.  The type of a chunk is one,
so a picture that moves is always refused; a still picture is refused as well where the bytes
occur elsewhere in it, in its image data, in its metadata or in a checksum.  `isAnimated_png` and
`isAnimated_webp` say that this is the only difference.

**Two kinds of error.**  The scan may refuse a picture that stands still, and it never lets one
through that moves; both are said of every file of the two formats, and not of examples.

**Source.**  What is modelled here is in `internal/auth/application/personal_settings.go` and
`internal/auth/domain/credentials.go`.
-/

namespace BindPlane.Avatar

abbrev Bytes : Type := List UInt8

/-! ## The scan -/

/-- The loop of `containsBytes`, by what is left of the haystack at the index. -/
def containsBytes : Bytes → Bytes → Bool
  | [], needle => needle.isEmpty
  | b :: haystack, needle => needle.isPrefixOf (b :: haystack) || containsBytes haystack needle

theorem containsBytes_iff {haystack needle : Bytes} :
    containsBytes haystack needle = true ↔ needle <:+: haystack := by
  induction haystack with
  | nil =>
      unfold containsBytes
      rw [List.isEmpty_iff, List.infix_nil]
  | cons b haystack ih =>
      unfold containsBytes
      rw [Bool.or_eq_true, List.isPrefixOf_iff_prefix, ih, List.infix_cons_iff]

/-- `acTL`. -/
def acTL : Bytes := [0x61, 0x63, 0x54, 0x4C]

/-- `ANIM`. -/
def ANIM : Bytes := [0x41, 0x4E, 0x49, 0x4D]

/-- `ANMF`. -/
def ANMF : Bytes := [0x41, 0x4E, 0x4D, 0x46]

def isAnimatedAvatar (data : Bytes) (format : String) : Bool :=
  match format with
  | "png" => containsBytes data acTL
  | "webp" => containsBytes data ANIM || containsBytes data ANMF
  | _ => false

/-! ## `NormalizeAvatar` -/

def maxAvatarBytes : ℕ := 5 * 1024 * 1024
def maxAvatarDimension : ℤ := 8192
def maxAvatarPixels : ℤ := 16 * 1024 * 1024

structure ImageConfig where
  width : ℤ
  height : ℤ

/-- `image.Rectangle`. -/
structure Rectangle where
  minX : ℤ
  minY : ℤ
  maxX : ℤ
  maxY : ℤ

/-- The image packages, and `strings.ToLower`. -/
structure Images where
  Picture : Type
  /-- `image.DecodeConfig`, with the format. -/
  decodeConfig : Bytes → Option (ImageConfig × String)
  /-- `image.Decode`, with the format. -/
  decode : Bytes → Option (Picture × String)
  bounds : Picture → Rectangle
  /-- The crop scaled to the side of an avatar, as a PNG. -/
  encode : Picture → Rectangle → Option Bytes
  toLower : String → String

structure FieldError where
  field : String
  code : String
  deriving DecidableEq

def avatarValidation (code : String) : FieldError := ⟨"avatar", code⟩

/-- The square in the middle. -/
def crop (bounds : Rectangle) : Rectangle :=
  let dx := bounds.maxX - bounds.minX
  let dy := bounds.maxY - bounds.minY
  let side := if dy < dx then dy else dx
  ⟨bounds.minX + (dx - side) / 2, bounds.minY + (dy - side) / 2,
    bounds.minX + (dx - side) / 2 + side, bounds.minY + (dy - side) / 2 + side⟩

/-- `bytes.ToLower`, as far as a search for ASCII letters goes. -/
def lowerByte (b : UInt8) : UInt8 := if 65 ≤ b ∧ b ≤ 90 then b + 32 else b

def looksLikeSVG (data : Bytes) : Bool :=
  containsBytes ((data.take 4096).map lowerByte) [0x3C, 0x73, 0x76, 0x67]

section Normalize

variable (I : Images)

def normalizeImageMediaType (value : String) : String :=
  let value := I.toLower (Devices.trimSpace
    (String.ofList (value.toList.takeWhile (· ≠ ';'))))
  if value = "image/jpg" then "image/jpeg" else value

/-- The media type of a decoded format. -/
def actualType (format : String) : String :=
  match format with
  | "png" => "image/png"
  | "jpeg" => "image/jpeg"
  | "webp" => "image/webp"
  | _ => ""

/-- The checks on the configuration; the product of two numbers up to `maxAvatarDimension` does
not overflow. -/
def oversized (config : ImageConfig) : Bool :=
  config.width ≤ 0 || config.height ≤ 0 || maxAvatarDimension < config.width ||
    maxAvatarDimension < config.height || maxAvatarPixels < config.width * config.height

/-- What follows the animation check. -/
def redraw (data : Bytes) (format : String) : Except FieldError (Bytes × String) :=
  match I.decode data with
  | none => .error (avatarValidation "invalid_avatar")
  | some (picture, decodedFormat) =>
      let bounds := I.bounds picture
      if decodedFormat ≠ format then .error (avatarValidation "invalid_avatar")
      else if bounds.maxX - bounds.minX ≤ 0 ∨ bounds.maxY - bounds.minY ≤ 0 then
        .error (avatarValidation "invalid_avatar")
      else
        match I.encode picture (crop bounds) with
        | none => .error (avatarValidation "invalid_avatar")
        | some output => .ok (output, "image/png")

def normalizeAvatar (data : Bytes) (suppliedMediaType : String) :
    Except FieldError (Bytes × String) :=
  if data.length = 0 then .error (avatarValidation "invalid_avatar")
  else if maxAvatarBytes < data.length then .error (avatarValidation "content-too-large")
  else
    let supplied := normalizeImageMediaType I suppliedMediaType
    if supplied = "image/svg+xml" then .error (avatarValidation "unsupported_type")
    else
      let mediaType := if supplied = "application/octet-stream" then "" else supplied
      match I.decodeConfig data with
      | none =>
          if looksLikeSVG data then .error (avatarValidation "unsupported_type")
          else .error (avatarValidation "invalid_avatar")
      | some (config, format) =>
          if oversized config then .error (avatarValidation "invalid_avatar")
          else if actualType format = "" then .error (avatarValidation "unsupported_type")
          else if mediaType ≠ "" ∧ mediaType ≠ actualType format then
            .error (avatarValidation "invalid_avatar")
          else if isAnimatedAvatar data format then .error (avatarValidation "unsupported_type")
          else redraw I data format

end Normalize

/-- A picture that is found to move is not taken. -/
theorem normalizeAvatar_animated (I : Images) {data : Bytes} {config : ImageConfig}
    {format : String} (hconfig : I.decodeConfig data = some (config, format))
    (h : isAnimatedAvatar data format = true) (supplied : String) :
    ∃ e, normalizeAvatar I data supplied = .error e := by
  unfold normalizeAvatar
  dsimp only
  rw [hconfig]
  dsimp only
  rw [if_pos (c := isAnimatedAvatar data format = true) h]
  split_ifs <;> exact ⟨_, rfl⟩

/-! ## Files -/

/-- Four bytes, the most significant first. -/
def be32 (n : ℕ) : Bytes :=
  [UInt8.ofNat (n / 2 ^ 24), UInt8.ofNat (n / 2 ^ 16), UInt8.ofNat (n / 2 ^ 8), UInt8.ofNat n]

/-- Four bytes, the least significant first. -/
def le32 (n : ℕ) : Bytes := (be32 n).reverse

/-- One bit of the checksum's register. -/
def crcBit (c : UInt32) : UInt32 :=
  if c % 2 = 1 then (0xEDB88320 : UInt32) ^^^ (c >>> 1) else c >>> 1

/-- One byte. -/
def crcByte (c : UInt32) (b : UInt8) : UInt32 := (crcBit^[8]) (c ^^^ b.toUInt32)

/-- The checksum of a chunk. -/
def crc32 (bs : Bytes) : ℕ :=
  let c : UInt32 := bs.foldl crcByte 0xFFFFFFFF
  (c ^^^ 0xFFFFFFFF).toNat

/-- A chunk of a PNG. -/
structure Chunk where
  type : Bytes
  data : Bytes
  type_length : type.length = 4
  data_length : data.length < 2 ^ 31

def Chunk.bytes (c : Chunk) : Bytes :=
  be32 c.data.length ++ c.type ++ c.data ++ be32 (crc32 (c.type ++ c.data))

/-- `IEND`. -/
def endChunk : Chunk := ⟨[0x49, 0x45, 0x4E, 0x44], [], rfl, by decide⟩

/-- A PNG, by the chunks before its end. -/
structure Png where
  chunks : List Chunk
  not_end : ∀ c ∈ chunks, c.type ≠ endChunk.type

namespace Png

def signature : Bytes := [0x89, 0x50, 0x4E, 0x47, 0x0D, 0x0A, 0x1A, 0x0A]

def bytes (p : Png) : Bytes := signature ++ p.chunks.flatMap Chunk.bytes ++ endChunk.bytes

/-- It has an animation control chunk. -/
def Animated (p : Png) : Prop := ∃ c ∈ p.chunks, c.type = acTL

end Png

/-- A chunk of a RIFF file. -/
structure RiffChunk where
  type : Bytes
  data : Bytes
  type_length : type.length = 4

def RiffChunk.bytes (c : RiffChunk) : Bytes :=
  c.type ++ le32 c.data.length ++ c.data ++ if c.data.length % 2 = 1 then [0] else []

/-- A WebP, by its chunks. -/
structure Webp where
  chunks : List RiffChunk
  size : (chunks.flatMap RiffChunk.bytes).length + 4 < 2 ^ 32

namespace Webp

def bytes (w : Webp) : Bytes :=
  [0x52, 0x49, 0x46, 0x46] ++ le32 ((w.chunks.flatMap RiffChunk.bytes).length + 4) ++
    [0x57, 0x45, 0x42, 0x50] ++ w.chunks.flatMap RiffChunk.bytes

/-- It has an animation chunk or a frame of one. -/
def Animated (w : Webp) : Prop := ∃ c ∈ w.chunks, c.type = ANIM ∨ c.type = ANMF

end Webp

/-! ## What the scan finds -/

/-- A part of an element is a part of the whole. -/
theorem infix_flatMap {α : Type} {f : α → Bytes} {l : List α} {a : α} (ha : a ∈ l) {bs : Bytes}
    (h : bs <:+: f a) : bs <:+: l.flatMap f := by
  obtain ⟨before, after, rfl⟩ := List.append_of_mem ha
  rw [List.flatMap_append, List.flatMap_cons]
  exact h.trans (List.infix_append' _ _ _)

/-- The type of a chunk is in the file. -/
theorem Png.infix_bytes {p : Png} {c : Chunk} (hc : c ∈ p.chunks) : c.type <:+: p.bytes := by
  have hchunk : c.type <:+: c.bytes := by
    unfold Chunk.bytes
    rw [List.append_assoc]
    exact List.infix_append _ _ _
  exact (infix_flatMap hc hchunk).trans (List.infix_append _ _ _)

theorem Webp.infix_bytes {w : Webp} {c : RiffChunk} (hc : c ∈ w.chunks) :
    c.type <:+: w.bytes := by
  have hchunk : c.type <:+: c.bytes := by
    unfold RiffChunk.bytes
    rw [List.append_assoc, List.append_assoc]
    exact (List.prefix_append _ _).isInfix
  exact (infix_flatMap hc hchunk).trans (List.suffix_append _ _).isInfix

/-- A PNG that moves is found to. -/
theorem Png.Animated.found {p : Png} (h : p.Animated) :
    isAnimatedAvatar p.bytes "png" = true := by
  obtain ⟨c, hc, htype⟩ := h
  exact containsBytes_iff.mpr (htype ▸ Png.infix_bytes hc)

theorem Webp.Animated.found {w : Webp} (h : w.Animated) :
    isAnimatedAvatar w.bytes "webp" = true := by
  obtain ⟨c, hc, htype⟩ := h
  show (containsBytes w.bytes ANIM || containsBytes w.bytes ANMF) = true
  rw [Bool.or_eq_true, containsBytes_iff, containsBytes_iff]
  have hin := Webp.infix_bytes hc
  rcases htype with htype | htype
  · exact .inl (htype ▸ hin)
  · exact .inr (htype ▸ hin)

/-- `image.DecodeConfig` tells the format of a file by the bytes that it begins with. -/
structure Images.Sniffs (I : Images) : Prop where
  png : ∀ (p : Png) config format, I.decodeConfig p.bytes = some (config, format) → format = "png"
  webp : ∀ (w : Webp) config format,
    I.decodeConfig w.bytes = some (config, format) → format = "webp"

/-- A picture whose bytes are found is refused: unless it has been refused before, the check
refuses it. -/
theorem normalizeAvatar_found (I : Images) {data : Bytes} {expected : String}
    (hformat : ∀ config format, I.decodeConfig data = some (config, format) → format = expected)
    (h : isAnimatedAvatar data expected = true) (supplied : String) :
    ∃ e, normalizeAvatar I data supplied = .error e := by
  cases hconfig : I.decodeConfig data with
  | none =>
      unfold normalizeAvatar
      dsimp only
      rw [hconfig]
      dsimp only
      split_ifs <;> exact ⟨_, rfl⟩
  | some read =>
      obtain ⟨config, format⟩ := read
      obtain rfl := hformat config format hconfig
      exact normalizeAvatar_animated I hconfig h supplied

/-- **What the check is right about.**  It is right about a picture exactly if the picture moves
or does not contain the bytes that the check looks for, at any offset.

The scan finds the four bytes as an infix of the file, and the type of every chunk is such an
infix.  So one half of the claim has no condition, and with it `NormalizeAvatar` refuses every
picture that moves; the other half fails where the bytes stand anywhere else. -/
theorem isAnimated_right (p : Png) (w : Webp) :
    ((isAnimatedAvatar p.bytes "png" = true ↔ p.Animated) ↔
      p.Animated ∨ ¬acTL <:+: p.bytes) ∧
    ((isAnimatedAvatar w.bytes "webp" = true ↔ w.Animated) ↔
      w.Animated ∨ ¬ANIM <:+: w.bytes ∧ ¬ANMF <:+: w.bytes) ∧
    ∀ I : Images, I.Sniffs → ∀ supplied,
      (p.Animated → ∃ e, normalizeAvatar I p.bytes supplied = .error e) ∧
      (w.Animated → ∃ e, normalizeAvatar I w.bytes supplied = .error e) := by
  refine ⟨?_, ?_, fun I hI supplied =>
    ⟨fun h => normalizeAvatar_found I (hI.png p) h.found supplied,
      fun h => normalizeAvatar_found I (hI.webp w) h.found supplied⟩⟩
  · have hscan : isAnimatedAvatar p.bytes "png" = true ↔ acTL <:+: p.bytes := containsBytes_iff
    rw [hscan]
    constructor
    · intro h
      by_cases hmoves : p.Animated
      · exact .inl hmoves
      · exact .inr (mt h.mp hmoves)
    · rintro (hmoves | hnone)
      · exact ⟨fun _ => hmoves, fun _ => hscan.mp hmoves.found⟩
      · exact ⟨fun h => absurd h hnone, fun h => hscan.mp h.found⟩
  · have hscan : isAnimatedAvatar w.bytes "webp" = true ↔
        ANIM <:+: w.bytes ∨ ANMF <:+: w.bytes := by
      rw [← containsBytes_iff, ← containsBytes_iff, ← Bool.or_eq_true]
      exact Iff.rfl
    rw [hscan, ← not_or]
    constructor
    · intro h
      by_cases hmoves : w.Animated
      · exact .inl hmoves
      · exact .inr (mt h.mp hmoves)
    · rintro (hmoves | hnone)
      · exact ⟨fun _ => hmoves, fun _ => hscan.mp hmoves.found⟩
      · exact ⟨fun h => absurd h hnone, fun h => hscan.mp h.found⟩

namespace Demo

/-- One grey pixel, with a comment that spells `acTL`. -/
def still : Png where
  chunks := [
    -- IHDR: one by one, eight bits, grey
    ⟨[0x49, 0x48, 0x44, 0x52], [0, 0, 0, 1, 0, 0, 0, 1, 8, 0, 0, 0, 0], rfl, by decide⟩,
    -- tEXt: a keyword, a zero and the text
    ⟨[0x74, 0x45, 0x58, 0x74], [0x43, 0x6F, 0x6D, 0x6D, 0x65, 0x6E, 0x74, 0] ++ acTL, rfl,
      by decide⟩,
    -- IDAT: the filter and the pixel, stored
    ⟨[0x49, 0x44, 0x41, 0x54],
      [0x78, 1, 1, 2, 0, 0xFD, 0xFF, 0, 0, 0, 2, 0, 1], rfl, by decide⟩]
  not_end := by decide

end Demo

/-- A still picture is taken for one that moves. -/
theorem still_found : ¬((∀ p : Png, isAnimatedAvatar p.bytes "png" = true ↔ p.Animated) ∧
    ∀ w : Webp, isAnimatedAvatar w.bytes "webp" = true ↔ w.Animated) := by
  rintro ⟨hpng, -⟩
  obtain ⟨c, hc, htype⟩ := (hpng Demo.still).mp (by decide +kernel)
  simp only [Demo.still, List.mem_cons, List.not_mem_nil, or_false] at hc
  rcases hc with rfl | rfl | rfl <;> simp [acTL] at htype

end BindPlane.Avatar
