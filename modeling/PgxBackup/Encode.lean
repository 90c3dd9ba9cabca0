import PgxBackup.Text
import PgxBackup.WordLoop

/-!
# Binary data as text

Base64 and hexadecimal text (`common/encode.c`). A source is read through an
index of 32 bits, a table through the number of a character. The type `char`
has a sign, so a byte from 0x80 on has a negative number.

The places that are read are part of the model: a read outside a table or a
string stops the function, and so does an index of type `int` that leaves its
range. A function may also not end, which is why its result is given for a
number of tests of its loop conditions.
-/

namespace PgxBackup

/-- The ways a function stops without a result. -/
inductive EncodeStop
  /-- An error is raised. -/
  | error (error : Error)
  /-- A table or a string is read outside its range. -/
  | outOfRange
  /-- A signed index overflows. -/
  | overflow
  deriving DecidableEq

/-- The types of text (`EncodingType`) that can be decoded. -/
inductive EncodingType
  | base64
  | hex
  deriving DecidableEq, Repr

/-- The number of values of an `unsigned int`. -/
def UINT_RANGE : ℕ := 2 ^ 32

/-- The largest index of type `int`. -/
def DECODE_IDX_MAX : ℕ := 2 ^ 31 - 1

/-- Read an entry of an array. -/
def arrayGet {α : Type} (array : List α) (idx : ℤ) : Except EncodeStop α :=
  match if idx < 0 then none else array[idx.toNat]? with
  | some value => .ok value
  | none => .error .outOfRange

/-- The number of a character. -/
def charInt (c : UInt8) : ℤ := c.toInt8.toInt

/-- The character `=`. -/
def equalSign : UInt8 := 0x3d

/-! ## Encode -/

/-- The destination of an encoding: the characters stored so far, each with its
position, and the position of the next one. -/
structure EncodeDest where
  stored : List (UInt8 × ℕ)
  destinationIdx : ℕ

/-- `destination[destinationIdx++] = value`, with an index of type `unsigned
int`. -/
def EncodeDest.put (dest : EncodeDest) (value : UInt8) : EncodeDest :=
  ⟨dest.stored ++ [(value, dest.destinationIdx)], (dest.destinationIdx + 1) % UINT_RANGE⟩

def encodeBase64Lookup : List UInt8 :=
  ("ABCDEFGHIJKLMNOPQRSTUVWXYZabcdefghijklmnopqrstuvwxyz0123456789+/".toList).map fun c => c.toNat.toUInt8

/-- One round of `encodeToStrBase64`: three bytes to four characters. -/
def encodeToStrBase64Group (source : List UInt8) (sourceIdx : ℕ) (dest : EncodeDest) :
    Except EncodeStop EncodeDest := do
  let byte0 ← arrayGet source sourceIdx
  -- the first character is always used completely
  let dest := dest.put (← arrayGet encodeBase64Lookup (byte0 >>> 2).toNat)
  if source.length - sourceIdx = 1 then
    -- only one byte: the second character is partly used, the others are padding
    let dest := dest.put (← arrayGet encodeBase64Lookup ((byte0 &&& 0x03) <<< 4).toNat)
    .ok ((dest.put equalSign).put equalSign)
  else
    let byte1 ← arrayGet source ((sourceIdx + 1) % UINT_RANGE : ℕ)
    let dest := dest.put (← arrayGet encodeBase64Lookup (((byte0 &&& 0x03) <<< 4) ||| ((byte1 &&& 0xf0) >>> 4)).toNat)
    if source.length - sourceIdx = 2 then
      let dest := dest.put (← arrayGet encodeBase64Lookup ((byte1 &&& 0x0f) <<< 2).toNat)
      .ok (dest.put equalSign)
    else
      let byte2 ← arrayGet source ((sourceIdx + 2) % UINT_RANGE : ℕ)
      let dest := dest.put (← arrayGet encodeBase64Lookup (((byte1 &&& 0x0f) <<< 2) ||| ((byte2 &&& 0xc0) >>> 6)).toNat)
      let dest := dest.put (← arrayGet encodeBase64Lookup (byte2 &&& 0x3f).toNat)
      .ok dest

/-- `encodeToStrBase64`, without the terminating zero. -/
def encodeToStrBase64 (fuel : ℕ) (source : List UInt8) : Option (Except EncodeStop EncodeDest) :=
  WordLoop.loop UINT_RANGE source.length 3 (encodeToStrBase64Group source) fuel 0 ⟨[], 0⟩

def encodeHexLookup : List UInt8 :=
  ("000102030405060708090a0b0c0d0e0f101112131415161718191a1b1c1d1e1f".toList ++
    "202122232425262728292a2b2c2d2e2f303132333435363738393a3b3c3d3e3f".toList ++
    "404142434445464748494a4b4c4d4e4f505152535455565758595a5b5c5d5e5f".toList ++
    "606162636465666768696a6b6c6d6e6f707172737475767778797a7b7c7d7e7f".toList ++
    "808182838485868788898a8b8c8d8e8f909192939495969798999a9b9c9d9e9f".toList ++
    "a0a1a2a3a4a5a6a7a8a9aaabacadaeafb0b1b2b3b4b5b6b7b8b9babbbcbdbebf".toList ++
    "c0c1c2c3c4c5c6c7c8c9cacbcccdcecfd0d1d2d3d4d5d6d7d8d9dadbdcdddedf".toList ++
    "e0e1e2e3e4e5e6e7e8e9eaebecedeeeff0f1f2f3f4f5f6f7f8f9fafbfcfdfeff".toList).map
    fun c => c.toNat.toUInt8

/-- One round of `encodeToStrHex`: one byte to two characters. The destination
is a pointer, so its position does not wrap around. -/
def encodeToStrHexGroup (source : List UInt8) (sourceIdx : ℕ) (dest : EncodeDest) :
    Except EncodeStop EncodeDest := do
  let byte ← arrayGet source sourceIdx
  let char0 ← arrayGet encodeHexLookup (byte.toNat * 2 : ℕ)
  let char1 ← arrayGet encodeHexLookup (byte.toNat * 2 + 1 : ℕ)
  .ok ⟨dest.stored ++ [(char0, dest.destinationIdx), (char1, dest.destinationIdx + 1)], dest.destinationIdx + 2⟩

/-- `encodeToStrHex`, without the terminating zero. -/
def encodeToStrHex (fuel : ℕ) (source : List UInt8) : Option (Except EncodeStop EncodeDest) :=
  WordLoop.loop UINT_RANGE source.length 1 (encodeToStrHexGroup source) fuel 0 ⟨[], 0⟩

/-- `encodeToStr`: the characters stored, with their positions. The last one is
the terminating zero. -/
def encodeToStr (fuel : ℕ) (type : EncodingType) (source : List UInt8) :
    Option (Except EncodeStop (List (UInt8 × ℕ))) :=
  let dest :=
    match type with
    | .base64 => encodeToStrBase64 fuel source
    | .hex => encodeToStrHex fuel source
  dest.map fun dest => dest.map fun dest => dest.stored ++ [(0, dest.destinationIdx)]

/-- `encodeToStrSize`. -/
def encodeToStrSize (type : EncodingType) (sourceSize : ℕ) : ℕ :=
  match type with
  | .base64 => (sourceSize + 2) / 3 * 4
  | .hex => sourceSize * 2

/-! ## Decode -/

def decodeBase64Lookup : List ℤ :=
  [-1, -1, -1, -1, -1, -1, -1, -1, -1, -1, -1, -1, -1, -1, -1, -1,
   -1, -1, -1, -1, -1, -1, -1, -1, -1, -1, -1, -1, -1, -1, -1, -1,
   -1, -1, -1, -1, -1, -1, -1, -1, -1, -1, -1, 62, -1, -1, -1, 63,
   52, 53, 54, 55, 56, 57, 58, 59, 60, 61, -1, -1, -1, -1, -1, -1,
   -1, 0, 1, 2, 3, 4, 5, 6, 7, 8, 9, 10, 11, 12, 13, 14,
   15, 16, 17, 18, 19, 20, 21, 22, 23, 24, 25, -1, -1, -1, -1, -1,
   -1, 26, 27, 28, 29, 30, 31, 32, 33, 34, 35, 36, 37, 38, 39, 40,
   41, 42, 43, 44, 45, 46, 47, 48, 49, 50, 51, -1, -1, -1, -1, -1,
   -1, -1, -1, -1, -1, -1, -1, -1, -1, -1, -1, -1, -1, -1, -1, -1,
   -1, -1, -1, -1, -1, -1, -1, -1, -1, -1, -1, -1, -1, -1, -1, -1,
   -1, -1, -1, -1, -1, -1, -1, -1, -1, -1, -1, -1, -1, -1, -1, -1,
   -1, -1, -1, -1, -1, -1, -1, -1, -1, -1, -1, -1, -1, -1, -1, -1,
   -1, -1, -1, -1, -1, -1, -1, -1, -1, -1, -1, -1, -1, -1, -1, -1,
   -1, -1, -1, -1, -1, -1, -1, -1, -1, -1, -1, -1, -1, -1, -1, -1,
   -1, -1, -1, -1, -1, -1, -1, -1, -1, -1, -1, -1, -1, -1, -1, -1,
   -1, -1, -1, -1, -1, -1, -1, -1, -1, -1, -1, -1, -1, -1, -1, -1]

/-- One round of `decodeToBinValidateBase64`: check a character. -/
def decodeToBinValidateBase64Char (source : List UInt8) (sourceIdx : ℕ) : Except EncodeStop Unit := do
  let sourceSize := source.length
  let c ← arrayGet (source ++ [0]) sourceIdx
  if c = equalSign then
    -- terminators are only in the last two positions
    if sourceIdx < sourceSize - 2 then
      .error (.error ⟨.formatError, "base64 '=' character may only appear in last two positions".toList⟩)
    else if sourceIdx = sourceSize - 2 then
      let last ← arrayGet (source ++ [0]) ((sourceSize : ℤ) - 1)
      if last ≠ equalSign then
        .error (.error ⟨.formatError, "base64 last character must be '=' if second to last is".toList⟩)
      else .ok ()
    else .ok ()
  else
    let value ← arrayGet decodeBase64Lookup (charInt c)
    if value = -1 then
      .error (.error ⟨.formatError, "base64 invalid character found at position ".toList
        ++ Nat.toDigits 10 sourceIdx⟩)
    else .ok ()

/-- `decodeToBinValidateBase64`. -/
def decodeToBinValidateBase64 (fuel : ℕ) (source : List UInt8) : Option (Except EncodeStop Unit) :=
  if source.length % 4 ≠ 0 then
    some (.error (.error ⟨.formatError, "base64 size ".toList ++ Nat.toDigits 10 source.length
      ++ " is not evenly divisible by 4".toList⟩))
  else
    WordLoop.loop UINT_RANGE source.length 1 (fun sourceIdx _ => decodeToBinValidateBase64Char source sourceIdx)
      fuel 0 ()

/-- `destination[destinationIdx++] = value`, with an index of type `int`. The
index is the number of bytes stored. -/
def decodePut (dest : List UInt8) (value : UInt8) : Except EncodeStop (List UInt8) :=
  if dest.length = DECODE_IDX_MAX then .error .overflow else .ok (dest ++ [value])

/-- A value of a table as an eight-bit integer. -/
def tableByte (value : ℤ) : Int8 := Int8.ofInt value

/-- One round of `decodeToBinBase64`: four characters to three bytes. The casts
to `uint8_t` keep the low eight bits. -/
def decodeToBinBase64Group (source : List UInt8) (sourceIdx : ℕ) (dest : List UInt8) :
    Except EncodeStop (List UInt8) := do
  let char0 ← arrayGet (source ++ [0]) sourceIdx
  let char1 ← arrayGet (source ++ [0]) ((sourceIdx + 1) % UINT_RANGE : ℕ)
  let value0 ← arrayGet decodeBase64Lookup (charInt char0)
  let value1 ← arrayGet decodeBase64Lookup (charInt char1)
  -- the first byte is always decoded
  let dest ← decodePut dest ((tableByte value0 <<< 2) ||| (tableByte value1 >>> 4)).toUInt8
  -- the second byte is optional
  let char2 ← arrayGet (source ++ [0]) ((sourceIdx + 2) % UINT_RANGE : ℕ)
  let dest ←
    if char2 ≠ equalSign then do
      let value2 ← arrayGet decodeBase64Lookup (charInt char2)
      decodePut dest ((tableByte value1 <<< 4) ||| (tableByte value2 >>> 2)).toUInt8
    else .ok dest
  -- the third byte is optional
  let char3 ← arrayGet (source ++ [0]) ((sourceIdx + 3) % UINT_RANGE : ℕ)
  if char3 ≠ equalSign then
    let value2 ← arrayGet decodeBase64Lookup (charInt char2)
    let value3 ← arrayGet decodeBase64Lookup (charInt char3)
    decodePut dest (((tableByte value2 <<< 6).toUInt8 &&& 0xc0) ||| (tableByte value3).toUInt8)
  else .ok dest

/-- `decodeToBinBase64`: the bytes stored. -/
def decodeToBinBase64 (fuel : ℕ) (source : List UInt8) : Option (Except EncodeStop (List UInt8)) := do
  match ← decodeToBinValidateBase64 fuel source with
  | .error stop => some (.error stop)
  | .ok () => WordLoop.loop UINT_RANGE source.length 4 (decodeToBinBase64Group source) fuel 0 []

/-- The calculation of `decodeToBinSizeBase64`. -/
def decodeToBinSizeBase64Calc (source : List UInt8) : Except EncodeStop ℕ := do
  let sourceSize := source.length
  let destinationSize := sourceSize / 4 * 3
  let last ← arrayGet (source ++ [0]) ((sourceSize : ℤ) - 1)
  if last = equalSign then
    let destinationSize := destinationSize - 1
    let secondLast ← arrayGet (source ++ [0]) ((sourceSize : ℤ) - 2)
    if secondLast = equalSign then .ok (destinationSize - 1) else .ok destinationSize
  else .ok destinationSize

/-- `decodeToBinSizeBase64`. -/
def decodeToBinSizeBase64 (fuel : ℕ) (source : List UInt8) : Option (Except EncodeStop ℕ) := do
  match ← decodeToBinValidateBase64 fuel source with
  | .error stop => some (.error stop)
  | .ok () => some (decodeToBinSizeBase64Calc source)

def decodeHexLookup : List ℤ :=
  [-1, -1, -1, -1, -1, -1, -1, -1, -1, -1, -1, -1, -1, -1, -1, -1,
   -1, -1, -1, -1, -1, -1, -1, -1, -1, -1, -1, -1, -1, -1, -1, -1,
   -1, -1, -1, -1, -1, -1, -1, -1, -1, -1, -1, -1, -1, -1, -1, -1,
   0, 1, 2, 3, 4, 5, 6, 7, 8, 9, -1, -1, -1, -1, -1, -1,
   -1, 10, 11, 12, 13, 14, 15, -1, -1, -1, -1, -1, -1, -1, -1, -1,
   -1, -1, -1, -1, -1, -1, -1, -1, -1, -1, -1, -1, -1, -1, -1, -1,
   -1, 10, 11, 12, 13, 14, 15, -1, -1, -1, -1, -1, -1, -1, -1, -1,
   -1, -1, -1, -1, -1, -1, -1, -1, -1, -1, -1, -1, -1, -1, -1, -1,
   -1, -1, -1, -1, -1, -1, -1, -1, -1, -1, -1, -1, -1, -1, -1, -1,
   -1, -1, -1, -1, -1, -1, -1, -1, -1, -1, -1, -1, -1, -1, -1, -1,
   -1, -1, -1, -1, -1, -1, -1, -1, -1, -1, -1, -1, -1, -1, -1, -1,
   -1, -1, -1, -1, -1, -1, -1, -1, -1, -1, -1, -1, -1, -1, -1, -1,
   -1, -1, -1, -1, -1, -1, -1, -1, -1, -1, -1, -1, -1, -1, -1, -1,
   -1, -1, -1, -1, -1, -1, -1, -1, -1, -1, -1, -1, -1, -1, -1, -1,
   -1, -1, -1, -1, -1, -1, -1, -1, -1, -1, -1, -1, -1, -1, -1, -1,
   -1, -1, -1, -1, -1, -1, -1, -1, -1, -1, -1, -1, -1, -1, -1, -1]

/-- One round of `decodeToBinValidateHex`: check a character. -/
def decodeToBinValidateHexChar (source : List UInt8) (sourceIdx : ℕ) : Except EncodeStop Unit := do
  let c ← arrayGet (source ++ [0]) sourceIdx
  let value ← arrayGet decodeHexLookup (charInt c)
  if value = -1 then
    .error (.error ⟨.formatError, "hex invalid character found at position ".toList ++ Nat.toDigits 10 sourceIdx⟩)
  else .ok ()

/-- `decodeToBinValidateHex`. -/
def decodeToBinValidateHex (fuel : ℕ) (source : List UInt8) : Option (Except EncodeStop Unit) :=
  if source.length % 2 ≠ 0 then
    some (.error (.error ⟨.formatError, "hex size ".toList ++ Nat.toDigits 10 source.length
      ++ " is not evenly divisible by 2".toList⟩))
  else
    WordLoop.loop UINT_RANGE source.length 1 (fun sourceIdx _ => decodeToBinValidateHexChar source sourceIdx) fuel 0 ()

/-- One round of `decodeToBinHex`: two characters to one byte. -/
def decodeToBinHexGroup (source : List UInt8) (sourceIdx : ℕ) (dest : List UInt8) :
    Except EncodeStop (List UInt8) := do
  let char0 ← arrayGet (source ++ [0]) sourceIdx
  let char1 ← arrayGet (source ++ [0]) ((sourceIdx + 1) % UINT_RANGE : ℕ)
  let value0 ← arrayGet decodeHexLookup (charInt char0)
  let value1 ← arrayGet decodeHexLookup (charInt char1)
  decodePut dest ((tableByte value0 <<< 4) ||| tableByte value1).toUInt8

/-- `decodeToBinHex`: the bytes stored. -/
def decodeToBinHex (fuel : ℕ) (source : List UInt8) : Option (Except EncodeStop (List UInt8)) := do
  match ← decodeToBinValidateHex fuel source with
  | .error stop => some (.error stop)
  | .ok () => WordLoop.loop UINT_RANGE source.length 2 (decodeToBinHexGroup source) fuel 0 []

/-- `decodeToBinSizeHex`. -/
def decodeToBinSizeHex (fuel : ℕ) (source : List UInt8) : Option (Except EncodeStop ℕ) := do
  match ← decodeToBinValidateHex fuel source with
  | .error stop => some (.error stop)
  | .ok () => some (.ok (source.length / 2))

/-- `decodeToBin`. -/
def decodeToBin (fuel : ℕ) (type : EncodingType) (source : List UInt8) : Option (Except EncodeStop (List UInt8)) :=
  match type with
  | .base64 => decodeToBinBase64 fuel source
  | .hex => decodeToBinHex fuel source

/-- `decodeToBinSize`. -/
def decodeToBinSize (fuel : ℕ) (type : EncodingType) (source : List UInt8) : Option (Except EncodeStop ℕ) :=
  match type with
  | .base64 => decodeToBinSizeBase64 fuel source
  | .hex => decodeToBinSizeHex fuel source

end PgxBackup
