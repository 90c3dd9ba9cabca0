import PgxBackup.EncodeSafe

/-!
# What is encoded is decoded

A group of bytes and the group of characters it is encoded as have the same
bits, so decoding the group gives back the bytes. The groups of a source are
its chunks, and since every group of characters has the same length, the chunks
of the text are these groups.
-/

namespace PgxBackup

open List

variable {type : EncodingType} {source : List UInt8}

/-! ## One group -/

/-- The number of bytes in a group. -/
def EncodingType.byteUnit : EncodingType → ℕ
  | .base64 => 3
  | .hex => 1

/-- The character of six bits. -/
def base64Char (value : UInt8) : UInt8 := encodeBase64Lookup.getD value.toNat 0

def groupChars (type : EncodingType) (bytes : List UInt8) : List UInt8 :=
  match type, bytes with
  | .base64, [b0] => [base64Char (b0 >>> 2), base64Char ((b0 &&& 0x03) <<< 4), equalSign, equalSign]
  | .base64, [b0, b1] =>
    [base64Char (b0 >>> 2), base64Char (((b0 &&& 0x03) <<< 4) ||| ((b1 &&& 0xf0) >>> 4)),
      base64Char ((b1 &&& 0x0f) <<< 2), equalSign]
  | .base64, [b0, b1, b2] =>
    [base64Char (b0 >>> 2), base64Char (((b0 &&& 0x03) <<< 4) ||| ((b1 &&& 0xf0) >>> 4)),
      base64Char (((b1 &&& 0x0f) <<< 2) ||| ((b2 &&& 0xc0) >>> 6)), base64Char (b2 &&& 0x3f)]
  | .hex, [b0] => [encodeHexLookup.getD (b0.toNat * 2) 0, encodeHexLookup.getD (b0.toNat * 2 + 1) 0]
  | _, _ => []

def encodedText (type : EncodingType) (source : List UInt8) : List UInt8 :=
  (Chunks.chunks type.byteUnit source).flatMap (groupChars type)

variable {value : UInt8} {bytes : List UInt8} {i : ℕ}

/-- The character at an index of the table, which has the two digits of each byte. -/
def hexChar (k : ℕ) : UInt8 :=
  let digit := if k % 2 = 0 then k / 32 else k / 2 % 16
  Nat.toUInt8 (if digit < 10 then 48 + digit else 87 + digit)

theorem encodeHexLookup_eq : encodeHexLookup = (range 512).map hexChar := by
  unfold encodeHexLookup
  iterate 8 rw [String.toList_ofList]
  set_option maxRecDepth 8000 in decide

theorem encodeHexLookup_getD {k : ℕ} (h : k < 512) : encodeHexLookup.getD k 0 = hexChar k := by
  rw [encodeHexLookup_eq, getD_eq_getElem?_getD, getElem?_map, getElem?_range h]
  rfl

theorem base64Char_spec (h : value < 64) :
    base64Char value < 0x80 ∧ base64Char value ≠ equalSign ∧
      tableValue decodeBase64Lookup (base64Char value) = value.toNat := by
  have hall : ∀ n < 64, encodeBase64Lookup.getD n 0 < 0x80 ∧ encodeBase64Lookup.getD n 0 ≠ equalSign ∧
      tableValue decodeBase64Lookup (encodeBase64Lookup.getD n 0) = n := by
    unfold encodeBase64Lookup
    rw [String.toList_ofList]
    set_option maxRecDepth 4000 in decide
  exact hall value.toNat (UInt8.lt_iff_toNat_lt.mp h)

/-- What is looked up for six bits are these bits. -/
theorem tableByte_base64Char (h : value < 64) :
    tableByte (tableValue decodeBase64Lookup (base64Char value)) = value.toInt8 := by
  have hall : ∀ n < 64, tableByte (n : ℕ) = (UInt8.ofNat n).toInt8 := by
    set_option maxRecDepth 4000 in decide
  rw [(base64Char_spec h).2.2, hall value.toNat (UInt8.lt_iff_toNat_lt.mp h), UInt8.ofNat_toNat]

theorem toUInt8_shiftRight (h : value < 64) :
    (value.toInt8 >>> 4).toUInt8 = value >>> 4 ∧ (value.toInt8 >>> 2).toUInt8 = value >>> 2 := by
  have hall : ∀ n < 64, ((UInt8.ofNat n).toInt8 >>> 4).toUInt8 = UInt8.ofNat n >>> 4 ∧
      ((UInt8.ofNat n).toInt8 >>> 2).toUInt8 = UInt8.ofNat n >>> 2 := by
    set_option maxRecDepth 4000 in decide
  have h := hall value.toNat (UInt8.lt_iff_toNat_lt.mp h)
  rw [UInt8.ofNat_toNat] at h
  exact h

theorem decode_values {v0 v1 v2 v3 : UInt8} (h0 : v0 < 64) (h1 : v1 < 64) (h2 : v2 < 64) (h3 : v3 < 64) :
    ((v0.toInt8 <<< 2) ||| (v1.toInt8 >>> 4)).toUInt8.toNat = 4 * v0.toNat + v1.toNat / 16 ∧
    ((v1.toInt8 <<< 4) ||| (v2.toInt8 >>> 2)).toUInt8.toNat = 16 * v1.toNat % 256 + v2.toNat / 4 ∧
    (((v2.toInt8 <<< 6).toUInt8 &&& 0xc0) ||| v3.toInt8.toUInt8).toNat = 64 * v2.toNat % 256 + v3.toNat := by
  have h0 : v0.toNat < 64 := UInt8.lt_iff_toNat_lt.mp h0
  have h3 : v3.toNat < 64 := UInt8.lt_iff_toNat_lt.mp h3
  have hv1 : v1.toNat < 64 := UInt8.lt_iff_toNat_lt.mp h1
  have hv2 : v2.toNat < 64 := UInt8.lt_iff_toNat_lt.mp h2
  have hright4 (v : UInt8) : (v >>> 4).toNat = v.toNat / 16 := by
    rw [UInt8.toNat_shiftRight, Nat.shiftRight_eq_div_pow]
    rfl
  have hright2 (v : UInt8) : (v >>> 2).toNat = v.toNat / 4 := by
    rw [UInt8.toNat_shiftRight, Nat.shiftRight_eq_div_pow]
    rfl
  have hleft (v : UInt8) : (v.toInt8 <<< 2).toUInt8.toNat = 2 ^ 2 * v.toNat % 256 ∧
      (v.toInt8 <<< 4).toUInt8.toNat = 2 ^ 4 * v.toNat % 256 ∧
      (v.toInt8 <<< 6).toUInt8.toNat = 2 ^ 6 * v.toNat % 256 := by
    refine ⟨?_, ?_, ?_⟩
    · show (v <<< 2).toNat = _
      rw [UInt8.toNat_shiftLeft, Nat.shiftLeft_eq, Nat.mul_comm]
      rfl
    · show (v <<< 4).toNat = _
      rw [UInt8.toNat_shiftLeft, Nat.shiftLeft_eq, Nat.mul_comm]
      rfl
    · show (v <<< 6).toNat = _
      rw [UInt8.toNat_shiftLeft, Nat.shiftLeft_eq, Nat.mul_comm]
      rfl
  refine ⟨?_, ?_, ?_⟩
  · rw [Int8.toUInt8_or, (toUInt8_shiftRight h1).1, UInt8.toNat_or, (hleft v0).1, hright4,
      Nat.mod_eq_of_lt (by omega), Nat.or_comm, BitDigits.or_two_pow_mul (by omega)]
    omega
  · rw [Int8.toUInt8_or, (toUInt8_shiftRight h2).2, UInt8.toNat_or, (hleft v1).2.1, hright2,
      show 2 ^ 4 * v1.toNat % 256 = 2 ^ 4 * (v1.toNat % 16) by omega, Nat.or_comm,
      BitDigits.or_two_pow_mul (by omega)]
    omega
  · have hmask := BitDigits.and_mask (2 ^ 6 * v2.toNat % 256) 6 2
    rw [UInt8.toNat_or, UInt8.toNat_and, (hleft v2).2.2]
    show (2 ^ 6 * v2.toNat % 256 &&& 2 ^ 6 * (2 ^ 2 - 1)) ||| v3.toNat = _
    rw [hmask, Nat.or_comm, BitDigits.or_two_pow_mul (by omega)]
    omega

theorem encode_values (b0 b1 b2 : UInt8) :
    (b0 >>> 2).toNat = b0.toNat / 4 ∧ ((b0 &&& 0x03) <<< 4).toNat = 16 * (b0.toNat % 4) ∧
    (((b0 &&& 0x03) <<< 4) ||| ((b1 &&& 0xf0) >>> 4)).toNat = 16 * (b0.toNat % 4) + b1.toNat / 16 ∧
    ((b1 &&& 0x0f) <<< 2).toNat = 4 * (b1.toNat % 16) ∧
    (((b1 &&& 0x0f) <<< 2) ||| ((b2 &&& 0xc0) >>> 6)).toNat = 4 * (b1.toNat % 16) + b2.toNat / 64 ∧
    (b2 &&& 0x3f).toNat = b2.toNat % 64 := by
  have hb0 := b0.toNat_lt
  have hb1 := b1.toNat_lt
  have hb2 := b2.toNat_lt
  have hlow (b : UInt8) : (b &&& 0x03).toNat = b.toNat % 4 ∧ (b &&& 0x0f).toNat = b.toNat % 16 ∧
      (b &&& 0x3f).toNat = b.toNat % 64 := by
    refine ⟨?_, ?_, ?_⟩
    · rw [UInt8.toNat_and]
      exact Nat.and_two_pow_sub_one_eq_mod b.toNat 2
    · rw [UInt8.toNat_and]
      exact Nat.and_two_pow_sub_one_eq_mod b.toNat 4
    · rw [UInt8.toNat_and]
      exact Nat.and_two_pow_sub_one_eq_mod b.toNat 6
  have hhigh1 : ((b1 &&& 0xf0) >>> 4).toNat = b1.toNat / 16 := by
    rw [UInt8.toNat_shiftRight, UInt8.toNat_and, Nat.shiftRight_eq_div_pow]
    show (b1.toNat &&& 2 ^ 4 * (2 ^ 4 - 1)) / 2 ^ 4 = _
    rw [BitDigits.and_mask]
    omega
  have hhigh2 : ((b2 &&& 0xc0) >>> 6).toNat = b2.toNat / 64 := by
    rw [UInt8.toNat_shiftRight, UInt8.toNat_and, Nat.shiftRight_eq_div_pow]
    show (b2.toNat &&& 2 ^ 6 * (2 ^ 2 - 1)) / 2 ^ 6 = _
    rw [BitDigits.and_mask]
    omega
  have hleft0 : ((b0 &&& 0x03) <<< 4).toNat = 2 ^ 4 * (b0.toNat % 4) := by
    rw [UInt8.toNat_shiftLeft, (hlow b0).1, Nat.shiftLeft_eq]
    show b0.toNat % 4 * 2 ^ 4 % 2 ^ 8 = _
    omega
  have hleft1 : ((b1 &&& 0x0f) <<< 2).toNat = 2 ^ 2 * (b1.toNat % 16) := by
    rw [UInt8.toNat_shiftLeft, (hlow b1).2.1, Nat.shiftLeft_eq]
    show b1.toNat % 16 * 2 ^ 2 % 2 ^ 8 = _
    omega
  refine ⟨?_, hleft0, ?_, hleft1, ?_, (hlow b2).2.2⟩
  · rw [UInt8.toNat_shiftRight, Nat.shiftRight_eq_div_pow]
    rfl
  · rw [UInt8.toNat_or, hleft0, hhigh1, Nat.or_comm, BitDigits.or_two_pow_mul (by omega)]
    omega
  · rw [UInt8.toNat_or, hleft1, hhigh2, Nat.or_comm, BitDigits.or_two_pow_mul (by omega)]
    omega

/-- A group of bytes: at most as many as fit in it, and at least one. -/
def IsByteGroup (type : EncodingType) (bytes : List UInt8) : Prop := bytes ≠ [] ∧ bytes.length ≤ type.byteUnit

section

variable (h : IsByteGroup type bytes)
include h

theorem IsByteGroup.cases :
    (∃ b0, bytes = [b0]) ∨ type = .base64 ∧ ((∃ b0 b1, bytes = [b0, b1]) ∨ ∃ b0 b1 b2, bytes = [b0, b1, b2]) := by
  obtain ⟨hne, hle⟩ := h
  match bytes with
  | [] => exact absurd rfl hne
  | [b0] => exact .inl ⟨b0, rfl⟩
  | [b0, b1] =>
    cases type with
    | base64 => exact .inr ⟨rfl, .inl ⟨b0, b1, rfl⟩⟩
    | hex =>
      have hle : 2 ≤ 1 := hle
      omega
  | [b0, b1, b2] =>
    cases type with
    | base64 => exact .inr ⟨rfl, .inr ⟨b0, b1, b2, rfl⟩⟩
    | hex =>
      have hle : 3 ≤ 1 := hle
      omega
  | _ :: _ :: _ :: _ :: rest =>
    cases type with
    | base64 =>
      have hle : rest.length + 4 ≤ 3 := hle
      omega
    | hex =>
      have hle : rest.length + 4 ≤ 1 := hle
      omega

theorem length_groupChars : (groupChars type bytes).length = type.unit := by
  rcases h.cases with ⟨b0, rfl⟩ | ⟨rfl, ⟨b0, b1, rfl⟩ | ⟨b0, b1, b2, rfl⟩⟩
  · cases type with
    | base64 => rfl
    | hex => rfl
  · rfl
  · rfl

/-- **A group is decoded to what it was made from.** -/
theorem groupBytes_groupChars : groupBytes type (groupChars type bytes) = bytes := by
  have hlt {v : UInt8} (hv : v.toNat < 64) : v < 64 := UInt8.lt_iff_toNat_lt.mpr hv
  have heq {x y : UInt8} (hxy : x.toNat = y.toNat) : x = y := UInt8.toNat_inj.mp hxy
  rcases h.cases with ⟨b0, rfl⟩ | ⟨rfl, ⟨b0, b1, rfl⟩ | ⟨b0, b1, b2, rfl⟩⟩
  · cases type with
    | base64 =>
      have hb0 := b0.toNat_lt
      obtain ⟨h0, h1, -⟩ := encode_values b0 0 0
      have hv0 : b0 >>> 2 < 64 := hlt (by omega)
      have hv1 : (b0 &&& 0x03) <<< 4 < 64 := hlt (by omega)
      obtain ⟨d0, -⟩ := decode_values hv0 hv1 hv0 hv0
      unfold groupChars groupBytes
      dsimp only [EncodingType.table]
      rw [if_neg (not_not.mpr rfl), tableByte_base64Char hv0, tableByte_base64Char hv1]
      exact congrArg (· :: []) (heq (by rw [d0]; omega))
    | hex =>
      have hall : ∀ n < 256, groupBytes .hex [hexChar (n * 2), hexChar (n * 2 + 1)] = [UInt8.ofNat n] := by
        set_option maxRecDepth 4000 in decide
      unfold groupChars
      dsimp only
      have hlt := b0.toNat_lt
      rw [encodeHexLookup_getD (by omega), encodeHexLookup_getD (by omega), hall _ hlt, UInt8.ofNat_toNat]
  · have hb0 := b0.toNat_lt
    have hb1 := b1.toNat_lt
    obtain ⟨h0, -, h1, h2, -⟩ := encode_values b0 b1 0
    have hv0 : b0 >>> 2 < 64 := hlt (by omega)
    have hv1 : ((b0 &&& 0x03) <<< 4) ||| ((b1 &&& 0xf0) >>> 4) < 64 := hlt (by omega)
    have hv2 : (b1 &&& 0x0f) <<< 2 < 64 := hlt (by omega)
    obtain ⟨d0, d1, -⟩ := decode_values hv0 hv1 hv2 hv2
    unfold groupChars groupBytes
    dsimp only [EncodingType.table]
    rw [if_pos (base64Char_spec hv2).2.1, if_neg (not_not.mpr rfl), tableByte_base64Char hv0,
      tableByte_base64Char hv1, tableByte_base64Char hv2]
    exact congrArg₂ (fun x y => [x, y]) (heq (by rw [d0]; omega)) (heq (by rw [d1]; omega))
  · have hb0 := b0.toNat_lt
    have hb1 := b1.toNat_lt
    have hb2 := b2.toNat_lt
    obtain ⟨h0, -, h1, -, h2, h3⟩ := encode_values b0 b1 b2
    have hv0 : b0 >>> 2 < 64 := hlt (by omega)
    have hv1 : ((b0 &&& 0x03) <<< 4) ||| ((b1 &&& 0xf0) >>> 4) < 64 := hlt (by omega)
    have hv2 : ((b1 &&& 0x0f) <<< 2) ||| ((b2 &&& 0xc0) >>> 6) < 64 := hlt (by omega)
    have hv3 : b2 &&& 0x3f < 64 := hlt (by omega)
    obtain ⟨d0, d1, d2⟩ := decode_values hv0 hv1 hv2 hv3
    unfold groupChars groupBytes
    dsimp only [EncodingType.table]
    rw [if_pos (base64Char_spec hv2).2.1, if_pos (base64Char_spec hv3).2.1, tableByte_base64Char hv0,
      tableByte_base64Char hv1, tableByte_base64Char hv2, tableByte_base64Char hv3]
    refine congrArg₂ cons (heq (by rw [d0]; omega)) ?_
    exact congrArg₂ (fun x y => [x, y]) (heq (by rw [d1]; omega)) (heq (by rw [d2]; omega))

end

theorem isByteGroup_of_mem (h : bytes ∈ Chunks.chunks type.byteUnit source) :
    IsByteGroup type bytes := by
  have hpos : 0 < type.byteUnit := by
    cases type with
    | base64 => decide
    | hex => decide
  obtain ⟨i, hi, rfl⟩ := mem_map.mp h
  exact ⟨Chunks.chunk_ne_nil hpos (mem_range.mp hi), Chunks.length_chunk_le _ _ _⟩

section

variable (type : EncodingType) (source : List UInt8)

/-- The groups of a text are those it was made of. -/
theorem chunks_encodedText :
    Chunks.chunks type.unit (encodedText type source)
      = (Chunks.chunks type.byteUnit source).map (groupChars type) := by
  unfold encodedText
  rw [flatMap_def, Chunks.chunks_flatten type.unit_pos]
  intro chars hchars
  obtain ⟨bytes, hbytes, rfl⟩ := mem_map.mp hchars
  exact length_groupChars (isByteGroup_of_mem hbytes)

/-- **The bytes of a text** are those it was made from. -/
theorem decodedBytes_encodedText : decodedBytes type (encodedText type source) = source := by
  have hpos : 0 < type.byteUnit := by
    cases type with
    | base64 => decide
    | hex => decide
  unfold decodedBytes
  rw [chunks_encodedText, flatMap_map, flatMap_def,
    map_congr_left fun bytes hbytes => groupBytes_groupChars (isByteGroup_of_mem hbytes), map_id',
    Chunks.flatten_chunks hpos]

/-- **The size of a text.** -/
theorem length_encodedText :
    (encodedText type source).length = encodeToStrSize type source.length := by
  have hlength : (encodedText type source).length = Chunks.total type.byteUnit source.length * type.unit := by
    unfold encodedText
    rw [flatMap_def, @Chunks.length_flatten_of_length _ type.unit, length_map, Chunks.length_chunks]
    intro chars hchars
    obtain ⟨bytes, hbytes, rfl⟩ := mem_map.mp hchars
    exact length_groupChars (isByteGroup_of_mem hbytes)
  rw [hlength]
  cases type with
  | base64 =>
    show Chunks.total 3 source.length * 4 = (source.length + 2) / 3 * 4
    unfold Chunks.total
    split
    · omega
    · omega
  | hex =>
    show Chunks.total 1 source.length * 2 = source.length * 2
    unfold Chunks.total
    rw [if_pos (Nat.mod_one _), Nat.div_one, Nat.add_zero]

end

/-! ## A text is valid -/

def InAlphabet (type : EncodingType) (c : UInt8) : Prop :=
  c < 0x80 ∧ ¬(type = .base64 ∧ c = equalSign) ∧ tableValue type.table c ≠ -1

theorem inAlphabet_base64Char (h : value.toNat < 64) : InAlphabet .base64 (base64Char value) := by
  obtain ⟨hlow, hne, hvalue⟩ := base64Char_spec (UInt8.lt_iff_toNat_lt.mpr h)
  refine ⟨hlow, fun heq => hne heq.2, ?_⟩
  rw [show tableValue EncodingType.base64.table (base64Char value) = (value.toNat : ℤ) from hvalue]
  omega

theorem inAlphabet_hex (b0 : UInt8) : ∀ c ∈ groupChars .hex [b0], InAlphabet .hex c := by
  have hall : ∀ n < 256, ∀ c ∈ [hexChar (n * 2), hexChar (n * 2 + 1)],
      c < 0x80 ∧ tableValue decodeHexLookup c ≠ -1 := by
    set_option maxRecDepth 4000 in decide
  intro c hc
  unfold groupChars at hc
  dsimp only at hc
  have hlt := b0.toNat_lt
  rw [encodeHexLookup_getD (by omega), encodeHexLookup_getD (by omega)] at hc
  obtain ⟨hlow, hvalue⟩ := hall _ hlt c hc
  exact ⟨hlow, fun h => absurd h.1 nofun, hvalue⟩

/-- The characters of a base64 group: two of the alphabet, and two that are of
the alphabet or padding, where there is only padding behind padding. -/
theorem groupChars_base64 (h : IsByteGroup .base64 bytes) :
    ∃ c0 c1 c2 c3, groupChars .base64 bytes = [c0, c1, c2, c3] ∧ InAlphabet .base64 c0 ∧ InAlphabet .base64 c1 ∧
      (c2 = equalSign ∧ c3 = equalSign ∧ bytes.length < 3 ∨
        InAlphabet .base64 c2 ∧ (c3 = equalSign ∧ bytes.length < 3 ∨ InAlphabet .base64 c3)) := by
  rcases h.cases with ⟨b0, rfl⟩ | ⟨-, ⟨b0, b1, rfl⟩ | ⟨b0, b1, b2, rfl⟩⟩
  · have hb0 := b0.toNat_lt
    obtain ⟨h0, h1, -⟩ := encode_values b0 0 0
    exact ⟨_, _, _, _, rfl, inAlphabet_base64Char (by omega), inAlphabet_base64Char (by omega),
      .inl ⟨rfl, rfl, (by decide : 1 < 3)⟩⟩
  · have hb0 := b0.toNat_lt
    have hb1 := b1.toNat_lt
    obtain ⟨h0, -, h1, h2, -⟩ := encode_values b0 b1 0
    exact ⟨_, _, _, _, rfl, inAlphabet_base64Char (by omega), inAlphabet_base64Char (by omega),
      .inr ⟨inAlphabet_base64Char (by omega), .inl ⟨rfl, (by decide : 2 < 3)⟩⟩⟩
  · have hb0 := b0.toNat_lt
    have hb1 := b1.toNat_lt
    have hb2 := b2.toNat_lt
    obtain ⟨h0, -, h1, -, h2, h3⟩ := encode_values b0 b1 b2
    exact ⟨_, _, _, _, rfl, inAlphabet_base64Char (by omega), inAlphabet_base64Char (by omega),
      .inr ⟨inAlphabet_base64Char (by omega), .inr (inAlphabet_base64Char (by omega))⟩⟩

theorem charPasses_of_inAlphabet {text : List UInt8} {c : UInt8} (hc : text[i]? = some c)
    (h : InAlphabet type c) : CharPasses type text i := by
  constructor
  · rintro ⟨c', hc', h'⟩
    cases hc.symm.trans hc'
    rcases h' with ⟨htype, heq, -⟩ | ⟨-, -, hvalue⟩
    · exact h.2.1 ⟨htype, heq⟩
    · exact h.2.2 hvalue
  · rintro ⟨c', hc', hhigh⟩
    cases hc.symm.trans hc'
    exact absurd h.1 (UInt8.not_lt.mpr hhigh)

theorem charPasses_equal {text : List UInt8} (hc : text[i]? = some equalSign) (hplace : text.length ≤ i + 2)
    (hlast : i + 2 = text.length → text.getLast? = some equalSign) : CharPasses .base64 text i := by
  constructor
  · rintro ⟨c', hc', h'⟩
    cases hc.symm.trans hc'
    rcases h' with ⟨-, -, hbefore | ⟨hsecond, hne⟩⟩ | ⟨hne, -⟩
    · omega
    · exact hne (hlast hsecond)
    · exact hne ⟨rfl, rfl⟩
  · rintro ⟨c', hc', hhigh⟩
    cases hc.symm.trans hc'
    exact absurd hhigh (by decide)

theorem inAlphabet_of_whole {front : List UInt8} {m : ℕ} (hfront : front.length = m * 3) :
    ∀ c ∈ encodedText .base64 front, InAlphabet .base64 c := by
  intro c hc
  obtain ⟨bytes, hbytes, hc⟩ := mem_flatMap.mp hc
  obtain ⟨c0, c1, c2, c3, hchars, h0, h1, h23⟩ := groupChars_base64 (isByteGroup_of_mem hbytes)
  have hlength : bytes.length = 3 := by
    obtain ⟨i, hi, rfl⟩ := mem_map.mp hbytes
    have hi : i < m := by
      have htotal := Chunks.total_mul (n := 3) (by decide) m
      rw [← hfront] at htotal
      exact htotal ▸ mem_range.mp hi
    show (Chunks.chunk 3 front i).length = 3
    rw [Chunks.length_chunk, hfront]
    omega
  obtain ⟨h2, h3⟩ : InAlphabet .base64 c2 ∧ InAlphabet .base64 c3 := by
    rcases h23 with ⟨-, -, hlt⟩ | ⟨h2, ⟨-, hlt⟩ | h3⟩
    · omega
    · omega
    · exact ⟨h2, h3⟩
  rw [hchars] at hc
  simp only [mem_cons, not_mem_nil, or_false] at hc
  rcases hc with rfl | rfl | rfl | rfl
  · exact h0
  · exact h1
  · exact h2
  · exact h3

/-- **An encoded text that the index can count is valid.** -/
theorem validText_encodedText (hrange : (encodedText type source).length < UINT_RANGE) :
    ValidText type (encodedText type source) := by
  have hlength := length_encodedText type source
  cases type with
  | hex =>
    refine ⟨?_, hrange, fun i hi => ?_⟩
    · rw [hlength]
      exact Nat.mul_mod_left _ _
    · have hget := getElem?_eq_getElem hi
      obtain ⟨bytes, hbytes, hc⟩ := mem_flatMap.mp (getElem_mem hi)
      rcases (isByteGroup_of_mem hbytes).cases with ⟨b0, rfl⟩ | ⟨htype, -⟩
      · exact charPasses_of_inAlphabet hget (inAlphabet_hex b0 _ hc)
      · cases htype
  | base64 =>
    refine ⟨?_, hrange, fun i hi => ?_⟩
    · rw [hlength]
      exact Nat.mul_mod_left _ _
    · -- The source ends in a group, and only this one can have padding.
      have hpos : 0 < source.length := by
        by_contra hzero
        rw [hlength, Nat.eq_zero_of_not_pos hzero] at hi
        exact absurd hi (Nat.not_lt_zero _)
      have hm := Nat.div_mul_le_self (source.length - 1) 3
      have hfront : (source.take ((source.length - 1) / 3 * 3)).length = (source.length - 1) / 3 * 3 := by
        rw [length_take]
        omega
      have hlast : IsByteGroup .base64 (source.drop ((source.length - 1) / 3 * 3)) := by
        refine ⟨ne_nil_of_length_pos ?_, ?_⟩
        · rw [length_drop]
          omega
        · show (source.drop _).length ≤ 3
          rw [length_drop]
          omega
      have htext : encodedText .base64 source = encodedText .base64 (source.take ((source.length - 1) / 3 * 3))
          ++ groupChars .base64 (source.drop ((source.length - 1) / 3 * 3)) := by
        have hchunks := Chunks.chunks_append (n := 3) (by decide) hfront hlast.1 hlast.2
        rw [take_append_drop] at hchunks
        show (Chunks.chunks 3 source).flatMap _ = (Chunks.chunks 3 (source.take _)).flatMap _ ++ _
        rw [hchunks, flatMap_append, flatMap_singleton]
      have hwhole := inAlphabet_of_whole hfront
      obtain ⟨c0, c1, c2, c3, hchars, h0, h1, h23⟩ := groupChars_base64 hlast
      rw [hchars] at htext
      rw [htext] at hi ⊢
      generalize encodedText .base64 (source.take ((source.length - 1) / 3 * 3)) = front at hwhole hi ⊢
      by_cases hin : i < front.length
      · have hget : (front ++ [c0, c1, c2, c3])[i]? = some front[i] := by
          rw [getElem?_append_left hin, getElem?_eq_getElem hin]
        exact charPasses_of_inAlphabet hget (hwhole _ (getElem_mem hin))
      · obtain ⟨k, rfl⟩ := Nat.exists_eq_add_of_le (not_lt.mp hin)
        have hk : k < 4 := by
          rw [length_append] at hi
          exact Nat.lt_of_add_lt_add_left hi
        have hget {c : UInt8} (hc : [c0, c1, c2, c3][k]? = some c) :
            (front ++ [c0, c1, c2, c3])[front.length + k]? = some c := by
          rw [getElem?_append_right (Nat.le_add_right _ _), Nat.add_sub_cancel_left, hc]
        have hsize : (front ++ [c0, c1, c2, c3]).length = front.length + 4 := length_append
        have hend : (front ++ [c0, c1, c2, c3]).getLast? = some c3 := getLast?_append_of_ne_nil _ (cons_ne_nil _ _)
        match k with
        | 0 => exact charPasses_of_inAlphabet (hget rfl) h0
        | 1 => exact charPasses_of_inAlphabet (hget rfl) h1
        | 2 =>
          rcases h23 with ⟨rfl, rfl, -⟩ | ⟨h2, -⟩
          · exact charPasses_equal (hget rfl) (by omega) fun _ => hend
          · exact charPasses_of_inAlphabet (hget rfl) h2
        | 3 =>
          rcases h23 with ⟨-, rfl, -⟩ | ⟨-, ⟨rfl, -⟩ | h3⟩
          · exact charPasses_equal (hget rfl) (by omega) fun _ => hend
          · exact charPasses_equal (hget rfl) (by omega) fun _ => hend
          · exact charPasses_of_inAlphabet (hget rfl) h3

/-! ## The encoding -/

/-- Characters stored one after the other. -/
def EncodeDest.putAll (dest : EncodeDest) (chars : List UInt8) : EncodeDest := chars.foldl EncodeDest.put dest

/-- Characters stored as long as the position does not wrap around. -/
theorem EncodeDest.putAll_eq {dest : EncodeDest} {chars : List UInt8}
    (h : dest.destinationIdx + chars.length < UINT_RANGE) :
    dest.putAll chars
      = ⟨dest.stored ++ chars.zipIdx dest.destinationIdx, dest.destinationIdx + chars.length⟩ := by
  unfold EncodeDest.putAll
  induction chars generalizing dest with
  | nil =>
    rw [foldl_nil, zipIdx_nil, append_nil]
    rfl
  | cons c chars ih =>
    rw [length_cons] at h
    have hnext : (dest.put c).destinationIdx = dest.destinationIdx + 1 := Nat.mod_eq_of_lt (by omega)
    rw [foldl_cons, ih (by rw [hnext]; omega), hnext, zipIdx_cons, length_cons]
    show EncodeDest.mk (dest.stored ++ [(c, dest.destinationIdx)] ++ _) _ = _
    rw [append_assoc, Nat.add_right_comm]
    rfl

def encodeGroup (type : EncodingType) (source : List UInt8) (idx : ℕ) (dest : EncodeDest) :
    Except EncodeStop EncodeDest :=
  match type with
  | .base64 => encodeToStrBase64Group source idx dest
  | .hex => encodeToStrHexGroup source idx dest

theorem arrayGet_base64 (h : value.toNat < 64) :
    arrayGet encodeBase64Lookup value.toNat = .ok (base64Char value) := by
  refine arrayGet_ok ?_
  have hlength : encodeBase64Lookup.length = 64 := by
    unfold encodeBase64Lookup
    rw [String.toList_ofList]
    rfl
  unfold base64Char
  rw [getD_eq_getElem?_getD, getElem?_eq_getElem (hlength ▸ h)]
  rfl

/-- **One round stores the characters of its group.** -/
theorem encodeToStrBase64Group_eq (hi : 3 * i < source.length) (hrange : source.length < UINT_RANGE)
    (dest : EncodeDest) :
    encodeToStrBase64Group source (3 * i) dest
      = .ok (dest.putAll (groupChars .base64 (Chunks.chunk 3 source i))) := by
  have hdrop {k : ℕ} (hk : k < source.length) : source.drop k = source[k] :: source.drop (k + 1) :=
    drop_eq_getElem_cons hk
  have hget {k : ℕ} (hk : k < source.length) : arrayGet source ((k % UINT_RANGE : ℕ) : ℤ) = .ok source[k] := by
    rw [Nat.mod_eq_of_lt (lt_trans hk hrange)]
    exact arrayGet_ok (getElem?_eq_getElem hk)
  have hfirst : arrayGet source ((3 * i : ℕ) : ℤ) = .ok source[3 * i] := arrayGet_ok (getElem?_eq_getElem hi)
  have hvalue (b0 b1 b2 : UInt8) : (b0 >>> 2).toNat < 64 ∧ ((b0 &&& 0x03) <<< 4).toNat < 64 ∧
      (((b0 &&& 0x03) <<< 4) ||| ((b1 &&& 0xf0) >>> 4)).toNat < 64 ∧ ((b1 &&& 0x0f) <<< 2).toNat < 64 ∧
      (((b1 &&& 0x0f) <<< 2) ||| ((b2 &&& 0xc0) >>> 6)).toNat < 64 ∧ (b2 &&& 0x3f).toNat < 64 := by
    have hb0 := b0.toNat_lt
    have hb1 := b1.toNat_lt
    have hb2 := b2.toNat_lt
    obtain ⟨h0, h1, h2, h3, h4, h5⟩ := encode_values b0 b1 b2
    refine ⟨?_, ?_, ?_, ?_, ?_, ?_⟩ <;> omega
  unfold encodeToStrBase64Group Chunks.chunk
  rw [Nat.mul_comm i 3, hdrop hi, hfirst, ok_bind]
  by_cases hone : source.length - 3 * i = 1
  · obtain ⟨h0, h1, -⟩ := hvalue source[3 * i] 0 0
    rw [arrayGet_base64 h0, ok_bind, if_pos hone, arrayGet_base64 h1, ok_bind,
      @drop_eq_nil_of_le _ source _ (by omega)]
    rfl
  · have hb1 : 3 * i + 1 < source.length := by omega
    by_cases htwo : source.length - 3 * i = 2
    · obtain ⟨h0, -, h1, h2, -⟩ := hvalue source[3 * i] source[3 * i + 1] 0
      rw [arrayGet_base64 h0, ok_bind, if_neg hone, hget hb1, ok_bind, arrayGet_base64 h1, ok_bind, if_pos htwo,
        arrayGet_base64 h2, ok_bind, hdrop hb1, @drop_eq_nil_of_le _ source _ (by omega)]
      rfl
    · have hb2 : 3 * i + 2 < source.length := by omega
      obtain ⟨h0, -, h1, -, h2, h3⟩ := hvalue source[3 * i] source[3 * i + 1] source[3 * i + 2]
      rw [arrayGet_base64 h0, ok_bind, if_neg hone, hget hb1, ok_bind, arrayGet_base64 h1, ok_bind, if_neg htwo,
        hget hb2, ok_bind, arrayGet_base64 h2, ok_bind, arrayGet_base64 h3, ok_bind, hdrop hb1, hdrop hb2]
      rfl

theorem encodeToStrHexGroup_eq (hi : i < source.length) (dest : EncodeDest) :
    encodeToStrHexGroup source (1 * i) dest
      = .ok ⟨dest.stored ++ (groupChars .hex (Chunks.chunk 1 source i)).zipIdx dest.destinationIdx,
          dest.destinationIdx + (groupChars .hex (Chunks.chunk 1 source i)).length⟩ := by
  have hget : arrayGet source ((i : ℕ) : ℤ) = .ok source[i] := arrayGet_ok (getElem?_eq_getElem hi)
  have hlookup {k : ℕ} (hk : k < 512) : arrayGet encodeHexLookup (k : ℕ) = .ok (encodeHexLookup.getD k 0) := by
    have hlength : encodeHexLookup.length = 512 := by rw [encodeHexLookup_eq, length_map, length_range]
    refine arrayGet_ok ?_
    rw [getD_eq_getElem?_getD, getElem?_eq_getElem (hlength ▸ hk)]
    rfl
  have hbyte := source[i].toNat_lt
  have hchunk : Chunks.chunk 1 source i = [source[i]] := by
    unfold Chunks.chunk
    rw [Nat.mul_one, drop_eq_getElem_cons hi]
    rfl
  unfold encodeToStrHexGroup
  rw [Nat.one_mul, hget, ok_bind, hlookup (by omega), ok_bind, hlookup (by omega), ok_bind, hchunk]
  rfl

/-- A run of rounds that each store the characters of their group, one after
the other. -/
theorem foldlM_stored {step : EncodeDest → ℕ → Except EncodeStop EncodeDest} {chars : ℕ → List UInt8}
    {limit : ℕ} {l : List ℕ} {dest : EncodeDest}
    (hstep : ∀ i ∈ l, ∀ dest : EncodeDest, dest.destinationIdx + (chars i).length < limit →
      step dest i = .ok ⟨dest.stored ++ (chars i).zipIdx dest.destinationIdx,
        dest.destinationIdx + (chars i).length⟩)
    (hlimit : dest.destinationIdx + (l.flatMap chars).length < limit) :
    l.foldlM step dest
      = .ok ⟨dest.stored ++ (l.flatMap chars).zipIdx dest.destinationIdx,
          dest.destinationIdx + (l.flatMap chars).length⟩ := by
  induction l generalizing dest with
  | nil =>
    rw [foldlM_nil, flatMap_nil, zipIdx_nil, append_nil]
    rfl
  | cons i l ih =>
    rw [flatMap_cons, length_append] at hlimit
    rw [foldlM_cons, hstep i mem_cons_self dest (by omega), ok_bind,
      ih (fun j hj => hstep j (mem_cons_of_mem _ hj)) (by show _ + _ + _ < limit; omega), flatMap_cons,
      zipIdx_append, length_append, append_assoc, Nat.add_assoc]

theorem EncodingType.byteUnit_pos (type : EncodingType) : 0 < type.byteUnit := by
  cases type with
  | base64 => decide
  | hex => decide

theorem encodeGroup_eq (hi : type.byteUnit * i < source.length) (hrange : source.length < UINT_RANGE)
    {dest : EncodeDest}
    (hdest : dest.destinationIdx + (groupChars type (Chunks.chunk type.byteUnit source i)).length < UINT_RANGE) :
    encodeGroup type source (type.byteUnit * i) dest
      = .ok ⟨dest.stored ++ (groupChars type (Chunks.chunk type.byteUnit source i)).zipIdx dest.destinationIdx,
          dest.destinationIdx + (groupChars type (Chunks.chunk type.byteUnit source i)).length⟩ := by
  cases type with
  | base64 => exact (encodeToStrBase64Group_eq hi hrange dest).trans (congrArg _ (EncodeDest.putAll_eq hdest))
  | hex => exact encodeToStrHexGroup_eq ((Nat.one_mul i).symm.trans_lt hi) dest

theorem lt_UINT_RANGE_of_le (h : source.length ≤ DECODE_IDX_MAX) :
    source.length < UINT_RANGE ∧ type.byteUnit * Chunks.total type.byteUnit source.length < UINT_RANGE ∧
      (encodedText type source).length < UINT_RANGE := by
  have hmax : DECODE_IDX_MAX = 2147483647 := rfl
  have hwords : UINT_RANGE = 4294967296 := rfl
  rw [length_encodedText]
  cases type with
  | base64 =>
    show source.length < _ ∧ 3 * Chunks.total 3 source.length < _ ∧ (source.length + 2) / 3 * 4 < _
    unfold Chunks.total
    split
    · omega
    · omega
  | hex =>
    show source.length < _ ∧ 1 * Chunks.total 1 source.length < _ ∧ source.length * 2 < _
    unfold Chunks.total
    rw [if_pos (Nat.mod_one _), Nat.div_one]
    omega

/-- **The text is stored from its first position on**, with the terminating
zero behind it. -/
theorem returns_encodeToStr (hsource : source.length ≤ DECODE_IDX_MAX) :
    CodecReturns (fun fuel => encodeToStr fuel type source) (.ok ((encodedText type source ++ [0]).zipIdx)) := by
  obtain ⟨hrange, htotal, hlength⟩ := @lt_UINT_RANGE_of_le type source hsource
  have hpos := type.byteUnit_pos
  have htext : (range (Chunks.total type.byteUnit source.length)).flatMap
      (fun i => groupChars type (Chunks.chunk type.byteUnit source i)) = encodedText type source := by
    unfold encodedText Chunks.chunks
    rw [flatMap_map]
  have hlow : ∀ i < Chunks.total type.byteUnit source.length, type.byteUnit * i < source.length := by
    intro i hi
    rw [Nat.mul_comm]
    exact (Chunks.lt_total_iff hpos _ _).mp hi
  have hhigh : source.length ≤ type.byteUnit * Chunks.total type.byteUnit source.length := by
    rw [Nat.mul_comm]
    exact not_lt.mp fun hlt => lt_irrefl _ ((Chunks.lt_total_iff hpos _ _).mpr hlt)
  have hends : WordLoop.Ends UINT_RANGE source.length type.byteUnit (encodeGroup type source) 0 ⟨[], 0⟩
      (.ok ⟨(encodedText type source).zipIdx, (encodedText type source).length⟩) := by
    have hfold := @foldlM_stored (fun dest i => encodeGroup type source (type.byteUnit * i) dest)
      (fun i => groupChars type (Chunks.chunk type.byteUnit source i)) UINT_RANGE
      (range (Chunks.total type.byteUnit source.length)) ⟨[], 0⟩
      (fun i hi dest hdest => encodeGroup_eq (hlow i (mem_range.mp hi)) hrange hdest)
      (by rw [htext, Nat.zero_add]; exact hlength)
    rw [htext, nil_append, Nat.zero_add] at hfold
    rw [← hfold]
    exact WordLoop.ends_foldlM hlow hhigh htotal (fun _ _ _ => rfl) _
  obtain ⟨fuel, hfuel⟩ := hends
  refine ⟨fuel, ?_⟩
  have hdef : encodeToStr fuel type source
      = (WordLoop.loop UINT_RANGE source.length type.byteUnit (encodeGroup type source) fuel 0 ⟨[], 0⟩).map
          fun dest => dest.map fun dest => dest.stored ++ [(0, dest.destinationIdx)] := by
    cases type with
    | base64 => rfl
    | hex => rfl
  show encodeToStr fuel type source = _
  rw [hdef, hfuel, zipIdx_append, Nat.zero_add]
  rfl

/-! ## Both directions -/

/-- The text of the source has the size that is computed for it and is
terminated behind that, and it is decoded to the source. -/
def EncodeExact (type : EncodingType) (source : List UInt8) : Prop :=
  ∃ text : List UInt8, CodecReturns (fun fuel => encodeToStr fuel type source) (.ok ((text ++ [0]).zipIdx)) ∧
    text.length = encodeToStrSize type source.length ∧
    CodecReturns (fun fuel => decodeToBinSize fuel type text) (.ok source.length) ∧
    CodecReturns (fun fuel => decodeToBin fuel type text) (.ok source)

theorem validText_of_returns
    (h : CodecReturns (fun fuel => decodeToBin fuel type source) (.ok bytes)) : ValidText type source := by
  classical
  have hok : CodecReturns (fun fuel => decodeValidate type fuel source) (.ok ()) := by
    rcases (returns_decodeToBin_iff _).mp h with ⟨stop, -, hstop⟩ | ⟨hok, -⟩
    · cases hstop
    · exact hok
  have hunit : source.length % type.unit = 0 := by
    by_contra hne
    obtain ⟨error, -, herror⟩ := decodeValidate_length hne
    cases returns_unique hok herror
  have hrange : source.length < UINT_RANGE := by
    by_contra hlong
    exact WordLoop.not_ends_ok (by decide) (not_lt.mp hlong) (by decide) _ _ ((decodeValidate_iff hunit _).mp hok)
  refine ⟨hunit, hrange, ?_⟩
  by_contra hnone
  -- The first character that does not pass stops the validation.
  have hfirst : ∃ i, i < source.length ∧ ¬CharPasses type source i := by
    by_contra hall
    exact hnone fun i hi => by_contra fun hi' => hall ⟨i, hi, hi'⟩
  obtain ⟨hlt, hfails⟩ := Nat.find_spec hfirst
  have hbefore : ∀ j < Nat.find hfirst, CharPasses type source j := fun j hj =>
    by_contra fun hj' => Nat.find_min hfirst hj ⟨lt_trans hj hlt, hj'⟩
  by_cases hrejected : Rejected type source (Nat.find hfirst)
  · obtain ⟨error, -, herror⟩ := decodeValidate_rejected hunit (lt_trans hlt hrange) hrejected hbefore
    cases returns_unique hok herror
  · have hhigh : OutOfTable source (Nat.find hfirst) := by_contra fun hlow => hfails ⟨hrejected, hlow⟩
    exact absurd (returns_unique hok (decodeValidate_outOfTable hunit (lt_trans hlt hrange) hhigh hbefore)) nofun

/-- **Encoded text is decoded to its source** for the sources that an index of
type `int` counts, if there is a last character to look at. -/
theorem encodeExact_iff (type : EncodingType) (source : List UInt8) :
    EncodeExact type source ↔ source.length ≤ DECODE_IDX_MAX ∧ (type = .base64 → source ≠ []) := by
  constructor
  · rintro ⟨text, -, hlength, hsize, hbytes⟩
    refine ⟨length_le_of_returns (validText_of_returns hbytes) hbytes, ?_⟩
    rintro rfl rfl
    obtain rfl : text = [] := eq_nil_of_length_eq_zero hlength
    exact not_decodeExact_nil (.inr ⟨[], hbytes, hsize⟩)
  · rintro ⟨hsource, hne⟩
    have hvalid := validText_encodedText (@lt_UINT_RANGE_of_le type source hsource).2.2
    have hbytes : decodedBytes type (encodedText type source) = source := decodedBytes_encodedText type source
    have hlength := length_decodedBytes hvalid
    rw [hbytes] at hlength
    have htext : type = .base64 → encodedText type source ≠ [] := by
      rintro rfl hnil
      rw [hnil] at hbytes
      exact hne rfl hbytes.symm
    refine ⟨encodedText type source, returns_encodeToStr hsource, length_encodedText type source,
      (returns_decodeToBinSize_valid hvalid _).mpr ?_, (returns_decodeToBin_valid hvalid _).mpr ?_⟩
    · rw [decodeSizeCalc_eq hvalid htext, hlength]
    · rw [hbytes, decodePutAll_ok (by rw [length_nil, Nat.zero_add]; exact hsource), nil_append]

/-- **What the encodings do for every input.** A source is encoded and decoded
again exactly if an index of type `int` counts it and base64 has a last
character to look at. A string is rejected or decoded to the size announced for
it exactly if it is `Decodable`. -/
theorem encoding_exact (type : EncodingType) :
    (∀ source, EncodeExact type source ↔ source.length ≤ DECODE_IDX_MAX ∧ (type = .base64 → source ≠ [])) ∧
      ∀ source, DecodeExact type source ↔ Decodable type source :=
  ⟨encodeExact_iff type, decodeExact_iff type⟩

/-- The size of the empty text is not found, nor that of a text with a byte
from 0x80 on. -/
theorem encoding_reads_outside :
    ¬EncodeExact .base64 [] ∧ ¬DecodeExact .base64 [] ∧ ¬DecodeExact .hex [0x80, 0x41] := by
  refine ⟨fun h => ((encodeExact_iff .base64 []).mp h).2 rfl rfl, not_decodeExact_nil, fun h => ?_⟩
  obtain ⟨j, hj, -⟩ := ((decodeExact_iff .hex _).mp h).outOfTable rfl 0 (by decide) ⟨0x80, rfl, by decide⟩
  exact absurd hj (Nat.not_lt_zero j)

end PgxBackup
