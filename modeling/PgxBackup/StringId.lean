import Mathlib.Data.Nat.Digits.Defs
import Mathlib.Tactic.Ring
import PgxBackup.BitDigits
import PgxBackup.Text

/-!
# Short strings as integers

A `StringId` is a short string in 64 bits (`common/type/stringId.c`). Bit 0
says which of two alphabets the characters are from, bits 1 to 3 hold a small
sequence, and the characters follow from bit 4 on, the first one lowest. A
larger sequence is kept in bits 4 to 8: bits 1 to 3 are all set to mark it, and
the characters follow from bit 9 on.

No character is encoded as zero, so the characters end where the rest of the
integer is zero, and the digits of the integer are the string. What has to be
seen is that neither layout loses its top bits, and that a small sequence never
sets the bits that mark a large one.
-/

namespace PgxBackup

open List

abbrev StringId := UInt64

/-- The encodings (`StringIdBit`). -/
inductive StringIdBit
  | bit5
  | bit6
  deriving DecidableEq, Repr

/-- The value of the encoding in the header. -/
def StringIdBit.header : StringIdBit → UInt64
  | .bit5 => 0
  | .bit6 => 1

/-- The number of bits for a character. -/
def StringIdBit.width : StringIdBit → ℕ
  | .bit5 => 5
  | .bit6 => 6

def StringIdBit.mask : StringIdBit → UInt64
  | .bit5 => 0x1F
  | .bit6 => 0x3F

/-- The most characters that can be encoded (`STRID5_MAX`, `STRID6_MAX`). -/
def StringIdBit.max : StringIdBit → ℕ
  | .bit5 => 12
  | .bit6 => 10

/-- The maps from characters to their encoding. -/
def StringIdBit.encodeMap : StringIdBit → List UInt8
  | .bit5 =>
    [0, 0, 0, 0, 0, 0, 0, 0, 0, 0, 0, 0, 0, 0, 0, 0,
     0, 0, 0, 0, 0, 0, 0, 0, 0, 0, 0, 0, 0, 0, 0, 0,
     0, 0, 0, 0, 0, 0, 0, 0, 0, 0, 0, 0, 0, 27, 0, 0,
     0, 0, 28, 0, 0, 29, 30, 0, 0, 0, 0, 0, 0, 0, 0, 0,
     0, 0, 0, 0, 0, 0, 0, 0, 0, 0, 0, 0, 0, 0, 0, 0,
     0, 0, 0, 0, 0, 0, 0, 0, 0, 0, 0, 0, 0, 0, 0, 0,
     0, 1, 2, 3, 4, 5, 6, 7, 8, 9, 10, 11, 12, 13, 14, 15,
     16, 17, 18, 19, 20, 21, 22, 23, 24, 25, 26, 0, 0, 0, 0, 0,
     0, 0, 0, 0, 0, 0, 0, 0, 0, 0, 0, 0, 0, 0, 0, 0,
     0, 0, 0, 0, 0, 0, 0, 0, 0, 0, 0, 0, 0, 0, 0, 0,
     0, 0, 0, 0, 0, 0, 0, 0, 0, 0, 0, 0, 0, 0, 0, 0,
     0, 0, 0, 0, 0, 0, 0, 0, 0, 0, 0, 0, 0, 0, 0, 0,
     0, 0, 0, 0, 0, 0, 0, 0, 0, 0, 0, 0, 0, 0, 0, 0,
     0, 0, 0, 0, 0, 0, 0, 0, 0, 0, 0, 0, 0, 0, 0, 0,
     0, 0, 0, 0, 0, 0, 0, 0, 0, 0, 0, 0, 0, 0, 0, 0,
     0, 0, 0, 0, 0, 0, 0, 0, 0, 0, 0, 0, 0, 0, 0, 0]
  | .bit6 =>
    [0, 0, 0, 0, 0, 0, 0, 0, 0, 0, 0, 0, 0, 0, 0, 0,
     0, 0, 0, 0, 0, 0, 0, 0, 0, 0, 0, 0, 0, 0, 0, 0,
     0, 0, 0, 0, 0, 0, 0, 0, 0, 0, 0, 0, 0, 27, 0, 0,
     28, 29, 30, 31, 32, 33, 34, 35, 36, 37, 0, 0, 0, 0, 0, 0,
     0, 38, 39, 40, 41, 42, 43, 44, 45, 46, 47, 48, 49, 50, 51, 52,
     53, 54, 55, 56, 57, 58, 59, 60, 61, 62, 63, 0, 0, 0, 0, 0,
     0, 1, 2, 3, 4, 5, 6, 7, 8, 9, 10, 11, 12, 13, 14, 15,
     16, 17, 18, 19, 20, 21, 22, 23, 24, 25, 26, 0, 0, 0, 0, 0,
     0, 0, 0, 0, 0, 0, 0, 0, 0, 0, 0, 0, 0, 0, 0, 0,
     0, 0, 0, 0, 0, 0, 0, 0, 0, 0, 0, 0, 0, 0, 0, 0,
     0, 0, 0, 0, 0, 0, 0, 0, 0, 0, 0, 0, 0, 0, 0, 0,
     0, 0, 0, 0, 0, 0, 0, 0, 0, 0, 0, 0, 0, 0, 0, 0,
     0, 0, 0, 0, 0, 0, 0, 0, 0, 0, 0, 0, 0, 0, 0, 0,
     0, 0, 0, 0, 0, 0, 0, 0, 0, 0, 0, 0, 0, 0, 0, 0,
     0, 0, 0, 0, 0, 0, 0, 0, 0, 0, 0, 0, 0, 0, 0, 0,
     0, 0, 0, 0, 0, 0, 0, 0, 0, 0, 0, 0, 0, 0, 0, 0]

/-- The maps from the encoding to characters. -/
def StringIdBit.decodeMap : StringIdBit → Str
  | .bit5 => "!abcdefghijklmnopqrstuvwxyz-256!".toList
  | .bit6 => "!abcdefghijklmnopqrstuvwxyz-0123456789ABCDEFGHIJKLMNOPQRSTUVWXYZ".toList

/-- The encoding of a character, zero if the alphabet does not have it. -/
def StringIdBit.encode (bit : StringIdBit) (c : UInt8) : UInt8 := bit.encodeMap.getD c.toNat 0

/-- The character of an encoding. -/
def StringIdBit.decode (bit : StringIdBit) (code : ℕ) : UInt8 := ((bit.decodeMap.getD code '!').toNat).toUInt8

/-- The largest sequence (`STRING_ID_SEQ_MAX`). -/
def STRING_ID_SEQ_MAX : UInt32 := 37

/-- Sequences from here on are stored in the high sequence bits. -/
def STRING_ID_SEQ_HIGH_MIN : UInt32 := 6

def STRING_ID_SEQ_NONE : UInt32 := 0xFFFFFFFF

/-- The bits of a low sequence. -/
def STRING_ID_SEQ_LOW_MASK : UInt64 := 0xE

/-- The bits of a high sequence. -/
def STRING_ID_SEQ_HIGH_MASK : UInt32 := 0x1F0

/-- The `switch` over the number of characters: each case adds its character
and falls through to the one before it. -/
def strIdEncodeCase (bit : StringIdBit) (buffer : List UInt8) : ℕ → UInt64 → UInt64
  | 0, result => result
  | size + 1, result =>
    strIdEncodeCase bit buffer size
      (result ||| (bit.encode (buffer.getD size 0)).toUInt64 <<< (4 + bit.width * size).toUInt64)

/-- `strIdBitFromZN`: zero if the string cannot be encoded. -/
def strIdBitFromZN (bit : StringIdBit) (buffer : List UInt8) : UInt64 :=
  if buffer.length > bit.max then 0
  else if buffer.any (fun c => bit.encode c == 0) then 0
  else strIdEncodeCase bit buffer buffer.length bit.header

/-- The encoding that a string id uses. -/
def strIdBit (strId : UInt64) : StringIdBit := if strId &&& 1 = 0 then .bit5 else .bit6

/-- The part of `strIdFromZN` that adds the sequence. -/
def strIdAddSeq (result : UInt64) (sequence : UInt32) : UInt64 :=
  if sequence ≠ STRING_ID_SEQ_NONE then
    if sequence < STRING_ID_SEQ_HIGH_MIN then
      result ||| ((sequence + 1) <<< 1).toUInt64
    else
      -- the encoding goes with the shift and is added again
      (result >>> 1) <<< 6
        ||| (((sequence - STRING_ID_SEQ_HIGH_MIN) <<< 4).toUInt64 ||| STRING_ID_SEQ_LOW_MASK ||| (strIdBit result).header)
  else result

/-- `strIdFromZN`: five bits a character if the alphabet allows it, else six.
The assertions on the sequence are those of a test build. -/
def strIdFromZN (buffer : List UInt8) (sequence : UInt32) : Except Error StringId :=
  let result := strIdBitFromZN .bit5 buffer
  let result := if result = 0 then strIdBitFromZN .bit6 buffer else result
  if result = 0 then
    .error ⟨.formatError, '\'' :: (buffer.takeWhile (· ≠ 0)).map (fun c => Char.ofNat c.toNat)
      ++ "' contains invalid characters".toList⟩
  else .ok (strIdAddSeq result sequence)

/-- The characters of `strIdToZN`, with at most `size` of them left: the last
one is not followed by a test. -/
def strIdDecode (bit : StringIdBit) : ℕ → UInt64 → List UInt8
  | 0, _ => []
  | size + 1, strId =>
    let next := strId >>> bit.width.toUInt64
    bit.decode (strId &&& bit.mask).toNat
      :: if size = 0 ∨ next = 0 then [] else strIdDecode bit size next

/-- `strIdToZN`: the characters written to the buffer. -/
def strIdToZN (strId : StringId) : List UInt8 :=
  let bit := strIdBit strId
  let strId := if strId &&& STRING_ID_SEQ_LOW_MASK = STRING_ID_SEQ_LOW_MASK then strId >>> 9 else strId >>> 4
  strIdDecode bit bit.max strId

/-- `strIdSeq`. Without a sequence the subtraction wraps around to
`STRING_ID_SEQ_NONE` (a test build stops there). -/
def strIdSeq (strId : StringId) : UInt32 :=
  let sequence := strId.toUInt32 &&& STRING_ID_SEQ_LOW_MASK.toUInt32
  if sequence ≠ STRING_ID_SEQ_LOW_MASK.toUInt32 then (sequence >>> 1) - 1
  else ((strId.toUInt32 &&& STRING_ID_SEQ_HIGH_MASK) >>> 4) + STRING_ID_SEQ_HIGH_MIN

namespace StringIdBit

section

variable (bit : StringIdBit)
include bit

theorem width_pos : bit.width ≠ 0 := by
  cases bit with
  | bit5 => decide
  | bit6 => decide

theorem toNat_and_mask (strId : UInt64) :
    (strId &&& bit.mask).toNat = strId.toNat % 2 ^ bit.width := by
  rw [UInt64.toNat_and]
  cases bit with
  | bit5 => exact Nat.and_two_pow_sub_one_eq_mod strId.toNat 5
  | bit6 => exact Nat.and_two_pow_sub_one_eq_mod strId.toNat 6

theorem encode_mem (c : UInt8) : (bit.encode c, c.toNat) ∈ bit.encodeMap.zipIdx := by
  have hlength : bit.encodeMap.length = 256 := by
    cases bit with
    | bit5 => decide +kernel
    | bit6 => decide +kernel
  have hlt : c.toNat < bit.encodeMap.length := hlength ▸ c.toNat_lt
  unfold encode
  rw [getD_eq_getElem?_getD, getElem?_eq_getElem hlt]
  exact mem_zipIdx_iff_getElem?.mpr (getElem?_eq_getElem hlt)

theorem toNat_encode_lt (c : UInt8) : (bit.encode c).toNat < 2 ^ bit.width := by
  have hall : ∀ p ∈ bit.encodeMap.zipIdx, p.1.toNat < 2 ^ bit.width := by
    cases bit with
    | bit5 => decide +kernel
    | bit6 => decide +kernel
  exact hall _ (encode_mem bit c)

/-- A character that can be encoded is read back from its encoding. -/
theorem decode_encode {c : UInt8} (h : bit.encode c ≠ 0) : bit.decode (bit.encode c).toNat = c := by
  have hall : ∀ p ∈ bit.encodeMap.zipIdx, p.1 ≠ 0 → (bit.decodeMap.getD p.1.toNat '!').toNat = p.2 := by
    unfold decodeMap
    cases bit with
    | bit5 => dsimp only; rw [String.toList_ofList]; decide +kernel
    | bit6 => dsimp only; rw [String.toList_ofList]; decide +kernel
  unfold decode
  rw [hall _ (encode_mem bit c) h]
  exact UInt8.ofNat_toNat

/-- All characters fit behind the header. -/
theorem room {size : ℕ} (h : size ≤ bit.max) : 4 + bit.width * size ≤ 64 := by
  cases bit with
  | bit5 => exact le_trans (Nat.add_le_add_left (Nat.mul_le_mul_left 5 h) 4) (by decide)
  | bit6 => exact le_trans (Nat.add_le_add_left (Nat.mul_le_mul_left 6 h) 4) (by decide)

/-- All but one fit behind a large sequence. -/
theorem room_high {size : ℕ} (h : size < bit.max) : 9 + bit.width * size ≤ 64 := by
  cases bit with
  | bit5 => exact le_trans (Nat.add_le_add_left (Nat.mul_le_mul_left 5 (Nat.le_of_lt_succ h)) 9) (by decide)
  | bit6 => exact le_trans (Nat.add_le_add_left (Nat.mul_le_mul_left 6 (Nat.le_of_lt_succ h)) 9) (by decide)

end

/-- The encoded characters. -/
def codes (bit : StringIdBit) (buffer : List UInt8) : List ℕ := buffer.map fun c => (bit.encode c).toNat

theorem codes_lt (bit : StringIdBit) (buffer : List UInt8) : ∀ code ∈ bit.codes buffer, code < 2 ^ bit.width := by
  intro code hcode
  obtain ⟨c, -, rfl⟩ := mem_map.mp hcode
  exact bit.toNat_encode_lt c

/-- The characters as one number. -/
def payload (bit : StringIdBit) (buffer : List UInt8) : ℕ := Nat.ofDigits (2 ^ bit.width) (bit.codes buffer)

theorem payload_lt (bit : StringIdBit) (buffer : List UInt8) :
    bit.payload buffer < 2 ^ (bit.width * buffer.length) := by
  have h := Nat.ofDigits_lt_base_pow_length (Nat.one_lt_two_pow bit.width_pos) (bit.codes_lt buffer)
  rwa [← Nat.pow_mul, show (bit.codes buffer).length = buffer.length from length_map _] at h

end StringIdBit

/-! ## What is encoded -/

variable {buffer : List UInt8} {bit : StringIdBit} {sequence : UInt32} {result : UInt64}

/-- **The cases of the switch put the characters next to each other.** -/
theorem toNat_strIdEncodeCase (bit : StringIdBit) {size : ℕ} (hsize : size ≤ buffer.length)
    (hmax : buffer.length ≤ bit.max) (result : UInt64) :
    (strIdEncodeCase bit buffer size result).toNat
      = result.toNat ||| 2 ^ 4 * bit.payload (buffer.take size) := by
  induction size generalizing result with
  | zero => exact (Nat.or_zero _).symm
  | succ size ih =>
    have hlt : size < buffer.length := hsize
    have hroom := bit.room (le_trans hsize hmax)
    obtain ⟨c, hc⟩ : ∃ c, buffer[size]? = some c := ⟨_, getElem?_eq_getElem hlt⟩
    have hcode : ((bit.encode c).toUInt64 <<< (4 + bit.width * size).toUInt64).toNat
        = 2 ^ (4 + bit.width * size) * (bit.encode c).toNat := by
      have hwidth := Nat.pos_of_ne_zero bit.width_pos
      have hshift : 4 + bit.width * size + bit.width ≤ 64 := by
        rw [Nat.add_assoc, ← Nat.mul_succ]
        exact hroom
      have hfit : (bit.encode c).toNat * 2 ^ (4 + bit.width * size) < 2 ^ 64 := by
        refine lt_of_lt_of_le (Nat.mul_lt_mul_of_pos_right (bit.toNat_encode_lt c) (Nat.two_pow_pos _)) ?_
        rw [← Nat.pow_add, Nat.add_comm]
        exact Nat.pow_le_pow_right (by decide) hshift
      rw [UInt64.toNat_shiftLeft, UInt8.toNat_toUInt64, Nat.toUInt64_eq, UInt64.toNat_ofNat',
        Nat.mod_eq_of_lt (by omega : 4 + bit.width * size < 2 ^ 64), Nat.mod_eq_of_lt (by omega : _ < 64),
        Nat.shiftLeft_eq, Nat.mod_eq_of_lt hfit, Nat.mul_comm]
    have htake : bit.payload (buffer.take (size + 1))
        = bit.payload (buffer.take size) + (2 ^ bit.width) ^ size * (bit.encode c).toNat := by
      unfold StringIdBit.payload StringIdBit.codes
      rw [take_add_one, hc, map_append, Nat.ofDigits_append, length_map, length_take,
        Nat.min_eq_left hlt.le]
      rw [show (some c).toList = [c] from rfl, map_singleton, Nat.ofDigits_singleton]
    have hlow : 2 ^ 4 * bit.payload (buffer.take size) < 2 ^ (4 + bit.width * size) := by
      have h := bit.payload_lt (buffer.take size)
      rw [length_take, Nat.min_eq_left hlt.le] at h
      rw [Nat.pow_add]
      exact Nat.mul_lt_mul_of_pos_left h (by decide)
    unfold strIdEncodeCase
    rw [ih (le_of_lt hlt), getD_eq_getElem?_getD, hc, Option.getD_some, UInt64.toNat_or, hcode, Nat.or_assoc,
      Nat.or_comm (2 ^ _ * _), BitDigits.or_two_pow_mul hlow, htake]
    congr 1
    ring

/-- The string is encoded in the integer: it is short enough, its characters
are all in the alphabet, and they stand behind the header. -/
structure Encodes (bit : StringIdBit) (buffer : List UInt8) (result : UInt64) : Prop where
  length_le : buffer.length ≤ bit.max
  encodable : ∀ c ∈ buffer, bit.encode c ≠ 0
  toNat_eq : result.toNat = bit.header.toNat + 2 ^ 4 * bit.payload buffer

theorem StringIdBit.header_lt (bit : StringIdBit) : bit.header.toNat < 2 := by
  cases bit with
  | bit5 => decide
  | bit6 => decide

theorem encodes_of_ne_zero (h : strIdBitFromZN bit buffer ≠ 0) :
    Encodes bit buffer (strIdBitFromZN bit buffer) := by
  unfold strIdBitFromZN at h ⊢
  split at h
  · exact absurd rfl h
  next hlength =>
    have hlength : buffer.length ≤ bit.max := not_lt.mp hlength
    split at h
    · exact absurd rfl h
    next hall =>
      rw [if_neg (not_lt.mpr hlength), if_neg hall]
      refine ⟨hlength, fun c hc hzero => ?_, ?_⟩
      · exact hall (any_eq_true.mpr ⟨c, hc, beq_iff_eq.mpr hzero⟩)
      · rw [toNat_strIdEncodeCase bit le_rfl hlength, take_length,
          BitDigits.or_two_pow_mul (lt_trans bit.header_lt (by decide))]

/-- The encoding that is tried first or, if that fails, the other one. -/
def strIdEncoding (buffer : List UInt8) : StringIdBit :=
  if strIdBitFromZN .bit5 buffer = 0 then .bit6 else .bit5

variable {strId : StringId}

/-- **What a string id is made of**: a string that is encoded, and its
sequence. -/
theorem encodes_of_strIdFromZN (h : strIdFromZN buffer sequence = .ok strId) :
    ∃ result, Encodes (strIdEncoding buffer) buffer result ∧ strId = strIdAddSeq result sequence := by
  unfold strIdFromZN at h
  unfold strIdEncoding
  dsimp only at h
  by_cases hfive : strIdBitFromZN .bit5 buffer = 0
  · rw [if_pos hfive] at h ⊢
    split at h
    · cases h
    next hsix => exact ⟨_, encodes_of_ne_zero hsix, (Except.ok.inj h).symm⟩
  · rw [if_neg hfive, if_neg hfive] at h
    rw [if_neg hfive]
    exact ⟨_, encodes_of_ne_zero hfive, (Except.ok.inj h).symm⟩

/-! ## What is decoded -/

theorem strIdDecode_eq (bit : StringIdBit) (size : ℕ) (strId : UInt64) :
    strIdDecode bit size strId = (BitDigits.unpack bit.width size strId.toNat).map bit.decode := by
  have hshift (strId : UInt64) : (strId >>> bit.width.toUInt64).toNat = strId.toNat / 2 ^ bit.width := by
    rw [UInt64.toNat_shiftRight, Nat.shiftRight_eq_div_pow]
    cases bit with
    | bit5 => rfl
    | bit6 => rfl
  induction size generalizing strId with
  | zero => rfl
  | succ size ih =>
    unfold strIdDecode BitDigits.unpack
    rw [map_cons, bit.toNat_and_mask]
    refine congrArg _ ?_
    have hzero : strId >>> bit.width.toUInt64 = 0 ↔ strId.toNat / 2 ^ bit.width = 0 := by
      rw [← UInt64.toNat_inj, hshift]
      rfl
    by_cases hstop : size = 0 ∨ strId.toNat / 2 ^ bit.width = 0
    · rw [if_pos hstop, if_pos (hstop.imp_right hzero.mpr), map_nil]
    · rw [if_neg hstop, if_neg (mt (Or.imp_right hzero.mp) hstop), ih, hshift]

/-- **The characters of an encoded string are read back.** -/
theorem strIdDecode_payload {strId : UInt64}
    (h : Encodes bit buffer result) (hne : buffer ≠ []) (hstrId : strId.toNat = bit.payload buffer) :
    strIdDecode bit bit.max strId = buffer := by
  have hcodes : ∀ code ∈ bit.codes buffer, 0 < code ∧ code < 2 ^ bit.width := by
    intro code hcode
    refine ⟨?_, bit.codes_lt buffer code hcode⟩
    obtain ⟨c, hc, rfl⟩ := mem_map.mp hcode
    exact Nat.pos_of_ne_zero fun hzero => h.encodable c hc (UInt8.toNat_inj.mp hzero)
  have hcodesne : bit.codes buffer ≠ [] := mt map_eq_nil_iff.mp hne
  have hlength : (bit.codes buffer).length ≤ bit.max := by
    rw [show (bit.codes buffer).length = buffer.length from length_map _]
    exact h.length_le
  rw [strIdDecode_eq, hstrId]
  unfold StringIdBit.payload
  rw [BitDigits.unpack_ofDigits bit.width_pos hcodesne hcodes hlength]
  unfold StringIdBit.codes
  rw [map_map]
  calc buffer.map _ = buffer.map id := map_congr_left fun c hc => bit.decode_encode (h.encodable c hc)
    _ = buffer := map_id buffer

/-! ## The sequence -/

/-- A string id whose characters follow from bit `shift` on, and the header
below them. -/
structure Layout (bit : StringIdBit) (buffer : List UInt8) (shift header : ℕ) (strId : UInt64) : Prop where
  toNat_eq : strId.toNat = header + 2 ^ shift * bit.payload buffer
  header_lt : header < 2 ^ shift
  header_bit : header % 2 = bit.header.toNat

theorem strIdBit_eq {bit : StringIdBit} {strId : UInt64} (h : strId.toNat % 2 = bit.header.toNat) :
    strIdBit strId = bit := by
  have hzero : strId &&& 1 = 0 ↔ strId.toNat % 2 = 0 := by
    rw [← UInt64.toNat_inj, UInt64.toNat_and, ← Nat.and_one_is_mod]
    rfl
  unfold strIdBit
  cases bit with
  | bit5 => rw [if_pos (hzero.mpr h)]
  | bit6 => rw [if_neg (mt hzero.mp (by rw [h]; decide))]

section

variable (h : Encodes bit buffer result)
include h

theorem layout_none : Layout bit buffer 4 bit.header.toNat result :=
  ⟨h.toNat_eq, lt_trans bit.header_lt (by decide), Nat.mod_eq_of_lt bit.header_lt⟩

/-- A small sequence is in the bits behind the encoding. -/
theorem layout_low (hsequence : sequence < STRING_ID_SEQ_HIGH_MIN) :
    Layout bit buffer 4 (bit.header.toNat + 2 * (sequence.toNat + 1))
      (result ||| ((sequence + 1) <<< 1).toUInt64) := by
  have hbit := bit.header_lt
  have hsix : sequence.toNat < 6 := UInt32.lt_iff_toNat_lt.mp hsequence
  have hseq : (((sequence + 1) <<< 1).toUInt64).toNat = 2 ^ 1 * (sequence.toNat + 1) := by
    rw [UInt32.toNat_toUInt64, UInt32.toNat_shiftLeft, UInt32.toNat_add, Nat.shiftLeft_eq]
    show (sequence.toNat + 1) % 2 ^ 32 * 2 ^ 1 % 2 ^ 32 = _
    omega
  refine ⟨?_, by omega, by omega⟩
  rw [UInt64.toNat_or, h.toNat_eq, hseq, ← BitDigits.or_two_pow_mul (lt_trans hbit (by decide)), Nat.or_assoc,
    Nat.or_comm (2 ^ 4 * _), ← Nat.or_assoc, BitDigits.or_two_pow_mul (show _ < 2 ^ 1 from hbit),
    BitDigits.or_two_pow_mul (by omega)]
  rfl

/-- A large one is in the bits behind the mark. -/
theorem layout_high (hlength : buffer.length < bit.max) (hmin : STRING_ID_SEQ_HIGH_MIN ≤ sequence)
    (hmax : sequence ≤ STRING_ID_SEQ_MAX) :
    Layout bit buffer 9 (bit.header.toNat + 14 + 16 * (sequence.toNat - 6))
      ((result >>> 1) <<< 6
        ||| (((sequence - STRING_ID_SEQ_HIGH_MIN) <<< 4).toUInt64 ||| STRING_ID_SEQ_LOW_MASK
          ||| (strIdBit result).header)) := by
  have hbit := bit.header_lt
  have hlast : sequence.toNat ≤ 37 := UInt32.le_iff_toNat_le.mp hmax
  -- The characters are still below bit 64 after the shift.
  have hpayload : 2 ^ 9 * bit.payload buffer < 2 ^ 64 := by
    refine lt_of_lt_of_le (Nat.mul_lt_mul_of_pos_left (bit.payload_lt buffer) (by decide)) ?_
    rw [← Nat.pow_add]
    exact Nat.pow_le_pow_right (by decide) (bit.room_high hlength)
  have hshift : ((result >>> 1) <<< 6).toNat = 2 ^ 9 * bit.payload buffer := by
    rw [UInt64.toNat_shiftLeft, UInt64.toNat_shiftRight, h.toNat_eq, Nat.shiftLeft_eq, Nat.shiftRight_eq_div_pow]
    show (bit.header.toNat + 2 ^ 4 * bit.payload buffer) / 2 ^ 1 * 2 ^ 6 % 2 ^ 64 = _
    omega
  have hseq : (((sequence - STRING_ID_SEQ_HIGH_MIN) <<< 4).toUInt64).toNat = 2 ^ 4 * (sequence.toNat - 6) := by
    rw [UInt32.toNat_toUInt64, UInt32.toNat_shiftLeft, UInt32.toNat_sub_of_le _ _ hmin, Nat.shiftLeft_eq]
    show (sequence.toNat - 6) * 2 ^ 4 % 2 ^ 32 = _
    omega
  have hencoding : (strIdBit result).header.toNat = bit.header.toNat := by
    rw [@strIdBit_eq bit result (by rw [h.toNat_eq]; omega)]
  have hheader : 2 ^ 4 * (sequence.toNat - 6) ||| 14 ||| bit.header.toNat
      = bit.header.toNat + 14 + 16 * (sequence.toNat - 6) := by
    rw [Nat.or_assoc, Nat.or_comm, Nat.or_comm 14, show 14 = 2 ^ 1 * 7 from rfl,
      BitDigits.or_two_pow_mul (show _ < 2 ^ 1 from hbit), BitDigits.or_two_pow_mul (by omega)]
    rfl
  refine ⟨?_, by omega, by omega⟩
  rw [UInt64.toNat_or, UInt64.toNat_or, UInt64.toNat_or, hshift, hseq, hencoding]
  show 2 ^ 9 * _ ||| (2 ^ 4 * _ ||| 14 ||| _) = _
  rw [hheader, Nat.or_comm, BitDigits.or_two_pow_mul (by omega)]

end

/-- The mark of a large sequence, as arithmetic. -/
theorem seqLowMask_iff (strId : UInt64) :
    strId &&& STRING_ID_SEQ_LOW_MASK = STRING_ID_SEQ_LOW_MASK ↔ strId.toNat / 2 % 8 = 7 := by
  have hmask : (strId &&& STRING_ID_SEQ_LOW_MASK).toNat = 2 ^ 1 * (strId.toNat / 2 ^ 1 % 2 ^ 3) := by
    rw [UInt64.toNat_and]
    exact BitDigits.and_mask strId.toNat 1 3
  rw [← UInt64.toNat_inj, hmask]
  show 2 ^ 1 * (strId.toNat / 2 ^ 1 % 2 ^ 3) = 14 ↔ _
  omega

/-- **The characters are read back from behind the header**, whose bits tell
where that is. -/
theorem strIdToZN_layout {strId : UInt64} {shift header : ℕ}
    (h : Encodes bit buffer result) (hne : buffer ≠ []) (hlayout : Layout bit buffer shift header strId)
    (hshift : shift = 4 ∧ header / 2 % 8 ≠ 7 ∨ shift = 9 ∧ header / 2 % 8 = 7) : strIdToZN strId = buffer := by
  have heq := hlayout.toNat_eq
  have hlt := hlayout.header_lt
  have hright {n : ℕ} (hn : n < 64) : (strId >>> n.toUInt64).toNat = strId.toNat / 2 ^ n := by
    rw [UInt64.toNat_shiftRight, Nat.toUInt64_eq, UInt64.toNat_ofNat', Nat.shiftRight_eq_div_pow]
    congr 2
    omega
  unfold strIdToZN
  rcases hshift with ⟨rfl, hmark⟩ | ⟨rfl, hmark⟩
  · rw [strIdBit_eq (by rw [← hlayout.header_bit]; omega), if_neg (mt (seqLowMask_iff strId).mp (by omega))]
    exact strIdDecode_payload h hne (by rw [show (4 : UInt64) = Nat.toUInt64 4 from rfl, hright (by decide)]; omega)
  · rw [strIdBit_eq (by rw [← hlayout.header_bit]; omega), if_pos ((seqLowMask_iff strId).mpr (by omega))]
    exact strIdDecode_payload h hne (by rw [show (9 : UInt64) = Nat.toUInt64 9 from rfl, hright (by decide)]; omega)

theorem strIdSeq_low {value : ℕ} (h : strId.toNat / 2 % 8 = value) (hvalue : value ≠ 7) :
    strIdSeq strId = UInt32.ofNat value - 1 := by
  have hlow : (strId.toUInt32 &&& STRING_ID_SEQ_LOW_MASK.toUInt32).toNat = 2 ^ 1 * value := by
    have hmask := BitDigits.and_mask (strId.toNat % 2 ^ 32) 1 3
    rw [UInt32.toNat_and, UInt64.toNat_toUInt32]
    refine Eq.trans hmask ?_
    omega
  have hmark : strId.toUInt32 &&& STRING_ID_SEQ_LOW_MASK.toUInt32 ≠ STRING_ID_SEQ_LOW_MASK.toUInt32 := by
    intro heq
    rw [heq] at hlow
    have hlow : 14 = 2 ^ 1 * value := hlow
    omega
  unfold strIdSeq
  rw [if_pos hmark]
  refine congrArg (· - 1) (UInt32.toNat_inj.mp ?_)
  rw [UInt32.toNat_shiftRight, hlow, Nat.shiftRight_eq_div_pow, UInt32.toNat_ofNat']
  show 2 ^ 1 * value / 2 ^ 1 = value % 2 ^ 32
  omega

theorem strIdSeq_high {value : ℕ} (h : strId.toNat / 16 % 32 = value)
    (hmark : strId.toNat / 2 % 8 = 7) : strIdSeq strId = UInt32.ofNat value + STRING_ID_SEQ_HIGH_MIN := by
  have hlow : strId.toUInt32 &&& STRING_ID_SEQ_LOW_MASK.toUInt32 = STRING_ID_SEQ_LOW_MASK.toUInt32 := by
    have hmask := BitDigits.and_mask (strId.toNat % 2 ^ 32) 1 3
    refine UInt32.toNat_inj.mp ?_
    rw [UInt32.toNat_and, UInt64.toNat_toUInt32]
    refine Eq.trans hmask ?_
    show _ = 14
    omega
  have hhigh : (strId.toUInt32 &&& STRING_ID_SEQ_HIGH_MASK).toNat = 2 ^ 4 * value := by
    have hmask := BitDigits.and_mask (strId.toNat % 2 ^ 32) 4 5
    rw [UInt32.toNat_and, UInt64.toNat_toUInt32]
    refine Eq.trans hmask ?_
    omega
  unfold strIdSeq
  rw [if_neg (not_not.mpr hlow)]
  refine congrArg (· + STRING_ID_SEQ_HIGH_MIN) (UInt32.toNat_inj.mp ?_)
  rw [UInt32.toNat_shiftRight, hhigh, Nat.shiftRight_eq_div_pow, UInt32.toNat_ofNat']
  show 2 ^ 4 * value / 2 ^ 4 = value % 2 ^ 32
  omega

/-! ## Both together -/

/-- What a string id may be made of: a string, and no sequence or one that the
header can hold, where a large one needs the room of a character. -/
@[ext] structure StrIdInput where
  buffer : List UInt8
  sequence : UInt32
  ne_nil : buffer ≠ []
  sequence_le : sequence = STRING_ID_SEQ_NONE ∨ sequence ≤ STRING_ID_SEQ_MAX
  room : sequence ≠ STRING_ID_SEQ_NONE → STRING_ID_SEQ_HIGH_MIN ≤ sequence →
    buffer.length < (strIdEncoding buffer).max

/-- **One string id is read back.** -/
theorem strIdFromZN_roundTrip (input : StrIdInput)
    (h : strIdFromZN input.buffer input.sequence = .ok strId) :
    strIdToZN strId = input.buffer ∧ strIdSeq strId = input.sequence := by
  obtain ⟨result, hencodes, rfl⟩ := encodes_of_strIdFromZN h
  have hbit := (strIdEncoding input.buffer).header_lt
  unfold strIdAddSeq
  by_cases hnone : input.sequence = STRING_ID_SEQ_NONE
  · have hlayout := layout_none hencodes
    have heq := hlayout.toNat_eq
    rw [if_neg (not_not.mpr hnone)]
    refine ⟨strIdToZN_layout hencodes input.ne_nil hlayout (.inl ⟨rfl, by omega⟩), ?_⟩
    rw [@strIdSeq_low result 0 (by omega) (by decide), hnone]
    rfl
  · rw [if_pos hnone]
    by_cases hlow : input.sequence < STRING_ID_SEQ_HIGH_MIN
    · have hlayout := layout_low hencodes hlow
      have heq := hlayout.toNat_eq
      have hsix : input.sequence.toNat < 6 := UInt32.lt_iff_toNat_lt.mp hlow
      rw [if_pos hlow]
      refine ⟨strIdToZN_layout hencodes input.ne_nil hlayout (.inl ⟨rfl, by omega⟩), ?_⟩
      rw [@strIdSeq_low _ (input.sequence.toNat + 1) (by omega) (by omega)]
      refine UInt32.toNat_inj.mp ?_
      rw [UInt32.toNat_sub, UInt32.toNat_ofNat']
      show (2 ^ 32 - 1 + (input.sequence.toNat + 1) % 2 ^ 32) % 2 ^ 32 = _
      omega
    · have hmin : STRING_ID_SEQ_HIGH_MIN ≤ input.sequence := UInt32.not_lt.mp hlow
      have hmax := input.sequence_le.resolve_left hnone
      have hlayout := layout_high hencodes (input.room hnone hmin) hmin hmax
      have heq := hlayout.toNat_eq
      have hsix : 6 ≤ input.sequence.toNat := UInt32.le_iff_toNat_le.mp hmin
      have hlast : input.sequence.toNat ≤ 37 := UInt32.le_iff_toNat_le.mp hmax
      rw [if_neg hlow]
      refine ⟨strIdToZN_layout hencodes input.ne_nil hlayout (.inr ⟨rfl, by omega⟩), ?_⟩
      rw [@strIdSeq_high _ (input.sequence.toNat - 6) (by omega) (by omega)]
      refine UInt32.toNat_inj.mp ?_
      rw [UInt32.toNat_add, UInt32.toNat_ofNat']
      show ((input.sequence.toNat - 6) % 2 ^ 32 + 6) % 2 ^ 32 = _
      omega

theorem strIdFromZN_ok_iff (hne : buffer ≠ []) (sequence : UInt32) :
    (∃ strId, strIdFromZN buffer sequence = .ok strId) ↔
      ∃ bit : StringIdBit, buffer.length ≤ bit.max ∧ ∀ c ∈ buffer, bit.encode c ≠ 0 := by
  constructor
  · rintro ⟨strId, h⟩
    obtain ⟨result, hencodes, -⟩ := encodes_of_strIdFromZN h
    exact ⟨_, hencodes.length_le, hencodes.encodable⟩
  · rintro ⟨bit, hlength, hencodable⟩
    have hnonzero : strIdBitFromZN bit buffer ≠ 0 := by
      have hall : ¬(buffer.any fun c => bit.encode c == 0) = true := by
        rw [any_eq_true]
        rintro ⟨c, hc, hzero⟩
        exact hencodable c hc (beq_iff_eq.mp hzero)
      obtain ⟨c, rest, rfl⟩ := exists_cons_of_ne_nil hne
      have hpos : 0 < bit.payload (c :: rest) := by
        unfold StringIdBit.payload StringIdBit.codes
        rw [map_cons, Nat.ofDigits_cons]
        refine Nat.add_pos_left (Nat.pos_of_ne_zero fun hzero => ?_) _
        exact hencodable c mem_cons_self (UInt8.toNat_inj.mp hzero)
      intro hzero
      unfold strIdBitFromZN at hzero
      rw [if_neg (not_lt.mpr hlength), if_neg hall, ← UInt64.toNat_inj, toNat_strIdEncodeCase bit le_rfl hlength,
        take_length, BitDigits.or_two_pow_mul (lt_trans bit.header_lt (by decide))] at hzero
      have hzero : bit.header.toNat + 2 ^ 4 * bit.payload (c :: rest) = 0 := hzero
      omega
    unfold strIdFromZN
    dsimp only
    by_cases hfive : strIdBitFromZN .bit5 buffer = 0
    · have hsix : strIdBitFromZN .bit6 buffer ≠ 0 := by
        cases bit with
        | bit5 => exact absurd hfive hnonzero
        | bit6 => exact hnonzero
      rw [if_pos hfive, if_neg hsix]
      exact ⟨_, rfl⟩
    · rw [if_neg hfive, if_neg hfive]
      exact ⟨_, rfl⟩

/-- **String ids are injective and reversible**: the strings that are accepted
are those of either alphabet and length, and a string id gives back its string
and its sequence, so no other string or sequence has it. -/
theorem strIdFromZN_injective (input : StrIdInput) :
    ((∃ strId, strIdFromZN input.buffer input.sequence = .ok strId) ↔
      ∃ bit : StringIdBit, input.buffer.length ≤ bit.max ∧ ∀ c ∈ input.buffer, bit.encode c ≠ 0) ∧
    ∀ strId, strIdFromZN input.buffer input.sequence = .ok strId →
      strIdToZN strId = input.buffer ∧ strIdSeq strId = input.sequence ∧
      ∀ other : StrIdInput, strIdFromZN other.buffer other.sequence = .ok strId → other = input := by
  refine ⟨strIdFromZN_ok_iff input.ne_nil _, fun strId h => ?_⟩
  obtain ⟨hbuffer, hsequence⟩ := strIdFromZN_roundTrip input h
  refine ⟨hbuffer, hsequence, fun other hother => ?_⟩
  obtain ⟨hbuffer', hsequence'⟩ := strIdFromZN_roundTrip other hother
  exact StrIdInput.ext (hbuffer'.symm.trans hbuffer) (hsequence'.symm.trans hsequence)

/-- The string `backup` with a large sequence. -/
def strIdInputOfBackup : StrIdInput where
  buffer := [98, 97, 99, 107, 117, 112]
  sequence := 37
  ne_nil := cons_ne_nil _ _
  sequence_le := by decide
  room := by decide +kernel

theorem strIdFromZN_injective_backup :
    strIdToZN 0x42ab1845fe = [98, 97, 99, 107, 117, 112] ∧ strIdSeq 0x42ab1845fe = 37 :=
  have h := (strIdFromZN_injective strIdInputOfBackup).2 0x42ab1845fe (by decide +kernel)
  ⟨h.1, h.2.1⟩

end PgxBackup
