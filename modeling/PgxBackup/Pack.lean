import Mathlib.Data.PNat.Basic
import PgxBackup.VarInt

/-!
# The pack format

Pack fields begin with a tag: the type of the field, the delta of its id from
the id of the field before it, and as much of the value as fits. `NULL`s and
values that are equal to their default are not stored, they only leave a gap
in the ids. The writer counts them in `nullTotal`; the reader finds a gap by
looking at the next tag, which it keeps until the field with the id of the
tag is asked for.

A pack is written to a buffer or to a stream (`write`, `read` are then the
size of the internal buffer). `pckReadBuffer` returns the bytes it makes
available, since every caller moves `bufferPos` over them at once.
-/

namespace PgxBackup

/-! ## Types -/

/-- The types that are written into a pack (`PackTypeMap`); the unknown type is
`none` where it is allowed. -/
inductive PackTypeMap
  | array
  | bool
  | i32
  | i64
  | obj
  | str
  | u32
  | u64
  | strId
  | time
  | bin
  | pack
  | mode
  deriving DecidableEq, Repr

/-- The number that a type is stored as. -/
def PackTypeMap.toNat : PackTypeMap → ℕ
  | .array => 1
  | .bool => 2
  | .i32 => 3
  | .i64 => 4
  | .obj => 5
  | .str => 7
  | .u32 => 8
  | .u64 => 9
  | .strId => 10
  | .time => 15
  | .bin => 16
  | .pack => 17
  | .mode => 18

/-- The type with a number, if there is one. -/
def PackTypeMap.ofNat? : ℕ → Option PackTypeMap
  | 1 => some .array
  | 2 => some .bool
  | 3 => some .i32
  | 4 => some .i64
  | 5 => some .obj
  | 7 => some .str
  | 8 => some .u32
  | 9 => some .u64
  | 10 => some .strId
  | 15 => some .time
  | 16 => some .bin
  | 17 => some .pack
  | 18 => some .mode
  | _ => none

/-- How the values of a type are stored. -/
structure PackTypeMapData where
  /-- Data type. -/
  type : Str
  /-- Can the value be stored in a single bit? -/
  valueSingleBit : Bool
  /-- Can the value require multiple bits? -/
  valueMultiBit : Bool
  /-- Does the type require a size? -/
  size : Bool

/-- `packTypeMapData`. -/
def packTypeMapData : PackTypeMap → PackTypeMapData
  | .array => ⟨"array".toList, false, false, false⟩
  | .bool => ⟨"bool".toList, true, false, false⟩
  | .i32 => ⟨"i32".toList, false, true, false⟩
  | .i64 => ⟨"i64".toList, false, true, false⟩
  | .obj => ⟨"obj".toList, false, false, false⟩
  | .str => ⟨"str".toList, true, false, true⟩
  | .u32 => ⟨"u32".toList, false, true, false⟩
  | .u64 => ⟨"u64".toList, false, true, false⟩
  | .strId => ⟨"strid".toList, false, true, false⟩
  | .time => ⟨"time".toList, false, true, false⟩
  | .bin => ⟨"bin".toList, true, false, true⟩
  | .pack => ⟨"pack".toList, false, false, true⟩
  | .mode => ⟨"mode".toList, false, true, false⟩

/-- The largest `unsigned int`. -/
def UINT_MAX : ℕ := 2 ^ 32 - 1

/-! ## Values -/

def STRING_SIZE_MAX : ℕ := 1073741824

/-- Extra space that a growing string is given at least. -/
def STRING_EXTRA_MIN : ℕ := 64

/-- A `String`: its bytes, which are not zero, up to the terminating zero. -/
structure ByteStr where
  bytes : List UInt8
  zeroFree : 0 ∉ bytes
  size_le : bytes.length ≤ STRING_SIZE_MAX
  deriving DecidableEq

/-- A `Buffer` or a `Pack`: the used bytes. -/
structure Buffer where
  bytes : List UInt8
  size_lt : bytes.length < 2 ^ 64
  deriving DecidableEq

/-- A `StringList` without `NULL`s. A list starts with room for 8 items and
doubles; the room is an `unsigned int`. -/
structure StringList where
  strs : List ByteStr
  size_le : strs.length ≤ 2 ^ 31
  deriving DecidableEq

/-- A string that is being built: its bytes and the space left. -/
structure GrowingStr where
  bytes : List UInt8
  extra : ℕ

/-- `strNew`. -/
def strNew : GrowingStr := ⟨[], 0⟩

/-- `strResize`. -/
def strResize (s : GrowingStr) (requested : ℕ) : Except Error GrowingStr :=
  if requested > s.extra then
    if s.bytes.length + requested > STRING_SIZE_MAX then
      .error ⟨.assertError, "string size must be <= 1073741824 bytes".toList⟩
    else
      .ok { s with
        extra := max (requested + (s.bytes.length + requested) / 2) STRING_EXTRA_MIN }
  else .ok s

/-- `strCatZN`. -/
def strCatZN (s : GrowingStr) (cat : List UInt8) : Except Error GrowingStr :=
  if cat.length ≠ 0 then do
    let s ← strResize s cat.length
    .ok ⟨s.bytes ++ cat, s.extra - cat.length⟩
  else .ok s

/-- The string up to its first zero, which `strcmp` compares. -/
def strZ (bytes : List UInt8) : List UInt8 := bytes.takeWhile (fun byte => byte ≠ 0)

/-- `strEq`. -/
def strEq (a b : Option ByteStr) : Bool :=
  match a, b with
  | some a, some b => decide (a.bytes.length = b.bytes.length) && decide (strZ a.bytes = strZ b.bytes)
  | none, none => true
  | _, _ => false

/-- `cvtInt32ToZigZag`. -/
def cvtInt32ToZigZag (value : Int32) : ℕ := (Base128.zigZag value.toBitVec).toNat

/-- `cvtInt32FromZigZag`. -/
def cvtInt32FromZigZag (value : ℕ) : Int32 :=
  Int32.ofBitVec (Base128.unZigZag (BitVec.ofNat 32 value))

/-! ## Containers -/

structure PackTagStackItem where
  /-- Tag type map. -/
  typeMap : PackTypeMap
  /-- Last id in the container. -/
  idLast : ℕ
  /-- Total nulls since last tag written. -/
  nullTotal : ℕ
  deriving DecidableEq

/-- The open containers: the innermost one and those around it. The last one
is the pack itself, which is an object. -/
structure PackTagStack where
  top : PackTagStackItem
  below : List PackTagStackItem
  deriving DecidableEq

/-- The stack of a pack with no open container. -/
def PackTagStack.bottom : PackTagStack := ⟨⟨.obj, 0, 0⟩, []⟩

/-- `pckTagStackPush`. -/
def pckTagStackPush (tagStack : PackTagStack) (typeMap : PackTypeMap) : PackTagStack :=
  ⟨⟨typeMap, 0, 0⟩, tagStack.top :: tagStack.below⟩

/-- `pckTagStackPopCheck`. -/
def pckTagStackPopCheck (tagStack : PackTagStack) (typeMap : PackTypeMap) : Except Error Unit :=
  if tagStack.below = [] ∨ tagStack.top.typeMap ≠ typeMap then
    .error ⟨.formatError, "not in ".toList ++ (packTypeMapData typeMap).type⟩
  else .ok ()

/-- `pckTagStackPop`. -/
def pckTagStackPop (tagStack : PackTagStack) : PackTagStack :=
  match tagStack.below with
  | [] => tagStack
  | item :: below => ⟨item, below⟩

/-! ## Reading -/

/-- A pack that is being read. -/
structure PackRead where
  /-- Size of the internal buffer when the pack is read from a stream. -/
  read : Option ℕ+
  /-- Bytes that were not read yet. -/
  bytes : List UInt8
  /-- Next tag id, zero when the next tag was not read yet. -/
  tagNextId : ℕ
  /-- Next tag type map. -/
  tagNextTypeMap : Option PackTypeMap
  /-- Next tag value. -/
  tagNextValue : ℕ
  /-- Next tag size. -/
  tagNextSize : ℕ
  /-- Stack of object/array tags. -/
  tagStack : PackTagStack

/-- Set the last id of the innermost container. -/
def PackRead.setIdLast (this : PackRead) (id : ℕ) : PackRead :=
  { this with tagStack := { this.tagStack with top := { this.tagStack.top with idLast := id } } }

/-- `pckReadNew`, or `pckReadNewIo` with an internal buffer of the given size. -/
def pckReadNew (read : Option ℕ+) (bytes : List UInt8) : PackRead :=
  ⟨read, bytes, 0, none, 0, 0, .bottom⟩

/-- How much is read at once: from a stream, no more than fits the internal
buffer. -/
def pckReadLimit (read : Option ℕ+) (size : ℕ) : ℕ :=
  match read with
  | none => size
  | some bufferSize => min size bufferSize

/-- `pckReadBuffer`: at most `size` bytes, at least one. -/
def pckReadBuffer (this : PackRead) (size : ℕ) : Except Error (List UInt8 × PackRead) :=
  let limit := pckReadLimit this.read size
  if 0 < size ∧ this.bytes.take limit = [] then
    .error ⟨.formatError, "unexpected EOF".toList⟩
  else .ok (this.bytes.take limit, { this with bytes := this.bytes.drop limit })

/-- Read `size` bytes out in chunks, which `cat` adds to a result. A chunk has
at least one byte, so there are at most `size` of them. -/
def pckReadChunks {α : Type} (cat : α → List UInt8 → Except Error α) :
    ℕ → ℕ → α → PackRead → Except Error (α × PackRead)
  | 0, _, result, this => .ok (result, this)
  | fuel + 1, size, result, this =>
    if size = 0 then .ok (result, this)
    else do
      let (chunk, this) ← pckReadBuffer this size
      let result ← cat result chunk
      pckReadChunks cat fuel (size - chunk.length) result this

/-- `pckReadConsumeBuffer`. -/
def pckReadConsumeBuffer (this : PackRead) : Except Error PackRead := do
  let (_, this) ← pckReadChunks (fun _ _ => .ok ()) this.tagNextSize this.tagNextSize () this
  .ok { this with tagNextSize := 0 }

/-- `cvtUInt64FromVarInt128`, from the start of a buffer. -/
def cvtUInt64FromVarInt128 (buffer : List UInt8) : Except Error (ℕ × List UInt8) :=
  Base128.decode ⟨.formatError, "buffer position is beyond buffer size".toList⟩
    ⟨.formatError, "unterminated varint-128 integer".toList⟩ 64 CVT_VARINT128_BUFFER_SIZE 0 0 buffer

theorem cvtUInt64FromVarInt128_varInt {value : ℕ} (h : value < 2 ^ 64) (rest : List UInt8) :
    cvtUInt64FromVarInt128 (varInt value ++ rest) = .ok (value, rest) :=
  (Base128.decode_ok_iff _ _ _ _).mp (run_ioReadVarIntU64 h rest)

/-- `pckReadU64Internal`. -/
def pckReadU64Internal (this : PackRead) : Except Error (ℕ × PackRead) := do
  let (value, bytes) ← match this.read with
    | none => cvtUInt64FromVarInt128 this.bytes
    | some _ => ioReadVarIntU64.run this.bytes
  .ok (value, { this with bytes := bytes })

/-- The delta of the field id: the low order bits are in the tag, the high
order bits follow when the tag says so. -/
def pckReadTagId (this : PackRead) (tag mask more shift : ℕ) : Except Error (ℕ × PackRead) :=
  if tag &&& more ≠ 0 then do
    let (high, this) ← pckReadU64Internal this
    .ok ((tag &&& mask) ||| u32 (u32 high <<< shift), this)
  else .ok (tag &&& mask, this)

/-- The delta of the field id and the value, by how the value is stored. -/
def pckReadTagValue (this : PackRead) (data : PackTypeMapData) (tag : ℕ) :
    Except Error ((ℕ × ℕ) × PackRead) := do
  if data.valueMultiBit then
    -- the value is stored following the tag
    if tag &&& 0x8 ≠ 0 then
      let (tagId, this) ← pckReadTagId this tag 0x3 0x4 2
      let (value, this) ← pckReadU64Internal this
      .ok ((tagId, value), this)
    else
      let (tagId, this) ← pckReadTagId this tag 0x1 0x2 1
      .ok ((tagId, (tag >>> 2) &&& 0x3), this)
  else if data.valueSingleBit then
    let (tagId, this) ← pckReadTagId this tag 0x3 0x4 2
    .ok ((tagId, (tag >>> 3) &&& 0x1), this)
  else
    let (tagId, this) ← pckReadTagId this tag 0x7 0x8 3
    .ok ((tagId, 0), this)

def pckReadTagType (this : PackRead) (tag : ℕ) : Except Error (ℕ × PackRead) :=
  if tag >>> 4 = 0xF then do
    let (high, this) ← pckReadU64Internal this
    .ok (u32 (u32 high + 0xF), this)
  else .ok (tag >>> 4, this)

/-- The size after a tag, if there is one. -/
def pckReadTagSize (this : PackRead) (data : PackTypeMapData) (value : ℕ) :
    Except Error (ℕ × PackRead) :=
  if data.size && (decide (value > 0) || !data.valueSingleBit) then pckReadU64Internal this
  else .ok (0, this)

/-- `pckReadTagNext`. A zero byte is the end of the container. -/
def pckReadTagNext (this : PackRead) : Except Error (Bool × PackRead) := do
  let (bytes, this) ← pckReadBuffer this 1
  let tag := (bytes.headD 0).toNat
  if tag = 0 then
    .ok (false, { this with tagNextId := UINT_MAX })
  else
    let (typeMap, this) ← pckReadTagType this tag
    match PackTypeMap.ofNat? typeMap with
    | none => .error ⟨.formatError, "invalid tag type".toList⟩
    | some typeMap =>
      let data := packTypeMapData typeMap
      let ((tagId, value), this) ← pckReadTagValue this data tag
      let (size, this) ← pckReadTagSize this data value
      .ok (true, { this with
        tagNextId := u32 (tagId + u32 (this.tagStack.top.idLast + 1))
        tagNextTypeMap := some typeMap
        tagNextValue := value
        tagNextSize := size })

def pckTypeName (typeMap : Option PackTypeMap) : Str :=
  match typeMap with
  | some typeMap => (packTypeMapData typeMap).type
  | none => []

/-- Get the next tag if it has not been read yet. -/
def pckReadTagLook (this : PackRead) : Except Error PackRead :=
  if this.tagNextId = 0 then (pckReadTagNext this).map Prod.snd else .ok this

/-- The requested id exists. When not peeking the type must be as specified. -/
def pckReadTagFound (this : PackRead) (typeMap : Option PackTypeMap) : Except Error PackRead :=
  match typeMap with
  | none => .ok this
  | some typeMap =>
    if this.tagNextTypeMap ≠ some typeMap then
      .error ⟨.formatError, "field ".toList ++ Nat.toDigits 10 this.tagNextId
        ++ " is type '".toList ++ pckTypeName this.tagNextTypeMap
        ++ "' but expected '".toList ++ pckTypeName (some typeMap) ++ "'".toList⟩
    else .ok { this.setIdLast this.tagNextId with tagNextId := 0 }

/-- Search for the requested id. Every further turn reads a tag, so the bytes
that are left bound the number of turns. -/
def pckReadTagLoop (typeMap : Option PackTypeMap) (id : ℕ) :
    ℕ → PackRead → Except Error PackRead
  | 0, _ => .error ⟨.formatError, "unexpected EOF".toList⟩
  | fuel + 1, this => do
    let this ← pckReadTagLook this
    if id < this.tagNextId then .ok this
    else if id = this.tagNextId then pckReadTagFound this typeMap
    else
      -- read data for the field being skipped
      let this ← pckReadConsumeBuffer this
      pckReadTagLoop typeMap id fuel { this.setIdLast this.tagNextId with tagNextId := 0 }

/-- The id that is requested: the next one if no id was specified. -/
def pckReadTagRequest (this : PackRead) (id : ℕ) : Except Error ℕ :=
  if id = 0 then .ok (u32 (this.tagStack.top.idLast + 1))
  else if id ≤ this.tagStack.top.idLast then
    .error ⟨.formatError, "field ".toList ++ Nat.toDigits 10 id ++ " was already read".toList⟩
  else .ok id

/-- `pckReadTag`, which peeks when no type is given. Returns the id and the
value of the tag. -/
def pckReadTag (this : PackRead) (id : ℕ) (typeMap : Option PackTypeMap) :
    Except Error ((ℕ × ℕ) × PackRead) := do
  let id ← pckReadTagRequest this id
  let this ← pckReadTagLoop typeMap id (this.bytes.length + 2) this
  .ok ((id, this.tagNextValue), this)

/-- `pckReadNullInternal`. Returns also the id. -/
def pckReadNullInternal (this : PackRead) (id : ℕ) : Except Error ((Bool × ℕ) × PackRead) := do
  let ((id, _), this) ← pckReadTag this id none
  if id < this.tagNextId then .ok ((true, id), this.setIdLast id)
  else .ok ((false, id), this)

/-- `pckReadNull`. -/
def pckReadNull (this : PackRead) (id : ℕ) : Except Error (Bool × PackRead) := do
  let ((result, _), this) ← pckReadNullInternal this id
  .ok (result, this)

/-- Read a field that may be missing: the default, or what `value` makes of the
value of the tag and the bytes that follow. -/
def pckReadField {α : Type} (typeMap : PackTypeMap)
    (value : PackRead → ℕ → Except Error (α × PackRead)) (this : PackRead) (id : ℕ)
    (defaultValue : α) : Except Error (α × PackRead) := do
  let ((result, id), this) ← pckReadNullInternal this id
  if result then .ok (defaultValue, this)
  else
    let ((_, tagValue), this) ← pckReadTag this id (some typeMap)
    value this tagValue

def pckReadBegin (this : PackRead) (id : ℕ) (typeMap : PackTypeMap) : Except Error PackRead := do
  let (_, this) ← pckReadTag this id (some typeMap)
  .ok { this with tagStack := pckTagStackPush this.tagStack typeMap }

def pckReadContainerEnd (this : PackRead) (typeMap : PackTypeMap) : Except Error PackRead := do
  pckTagStackPopCheck this.tagStack typeMap
  -- make sure that this is the end of the container
  let (_, this) ← pckReadTag this (UINT_MAX - 1) none
  .ok { this with tagStack := pckTagStackPop this.tagStack, tagNextId := 0 }

/-- `pckReadArrayBegin`. -/
def pckReadArrayBegin (this : PackRead) (id : ℕ) : Except Error PackRead :=
  pckReadBegin this id .array

/-- `pckReadArrayEnd`. -/
def pckReadArrayEnd (this : PackRead) : Except Error PackRead := pckReadContainerEnd this .array

/-- `pckReadObjBegin`. -/
def pckReadObjBegin (this : PackRead) (id : ℕ) : Except Error PackRead :=
  pckReadBegin this id .obj

/-- `pckReadObjEnd`. -/
def pckReadObjEnd (this : PackRead) : Except Error PackRead := pckReadContainerEnd this .obj

/-- Read the data of a buffer or a pack. -/
def pckReadBuf (this : PackRead) : Except Error (List UInt8 × PackRead) :=
  pckReadChunks (fun result chunk => .ok (result ++ chunk)) this.tagNextSize this.tagNextSize [] this

/-- `pckReadBin`. -/
def pckReadBin (this : PackRead) (id : ℕ) : Except Error (Option (List UInt8) × PackRead) :=
  pckReadField .bin (fun this value =>
    if value ≠ 0 then (pckReadBuf this).map (fun (bytes, this) => (some bytes, this))
    else .ok (some [], this)) this id none

/-- `pckReadPack`. -/
def pckReadPack (this : PackRead) (id : ℕ) : Except Error (Option (List UInt8) × PackRead) :=
  pckReadField .pack (fun this _ =>
    (pckReadBuf this).map (fun (bytes, this) => (some bytes, this))) this id none

/-- `pckReadStr`. -/
def pckReadStr (this : PackRead) (id : ℕ) (defaultValue : Option (List UInt8)) :
    Except Error (Option (List UInt8) × PackRead) :=
  pckReadField .str (fun this value =>
    if value ≠ 0 then
      (pckReadChunks strCatZN this.tagNextSize this.tagNextSize strNew this).map
        (fun (s, this) => (some s.bytes, this))
    else .ok (some strNew.bytes, this)) this id defaultValue

/-- `pckReadBool`. -/
def pckReadBool (this : PackRead) (id : ℕ) (defaultValue : UInt32) :
    Except Error (Bool × PackRead) :=
  pckReadField .bool (fun this value => .ok (decide (value ≠ 0), this)) this id
    (decide (defaultValue ≠ 0))

/-- `pckReadI32`. -/
def pckReadI32 (this : PackRead) (id : ℕ) (defaultValue : Int32) : Except Error (Int32 × PackRead) :=
  pckReadField .i32 (fun this value => .ok (cvtInt32FromZigZag (u32 value), this)) this id defaultValue

/-- `pckReadI64`. -/
def pckReadI64 (this : PackRead) (id : ℕ) (defaultValue : Int64) : Except Error (Int64 × PackRead) :=
  pckReadField .i64 (fun this value => .ok (Int64.ofInt (cvtInt64FromZigZag value), this)) this id
    defaultValue

/-- `pckReadMode`. -/
def pckReadMode (this : PackRead) (id : ℕ) (defaultValue : UInt32) :
    Except Error (UInt32 × PackRead) :=
  pckReadField .mode (fun this value => .ok (UInt32.ofNat value, this)) this id defaultValue

/-- `pckReadStrId`. -/
def pckReadStrId (this : PackRead) (id : ℕ) (defaultValue : UInt64) :
    Except Error (UInt64 × PackRead) :=
  pckReadField .strId (fun this value => .ok (UInt64.ofNat value, this)) this id defaultValue

/-- `pckReadTime`. -/
def pckReadTime (this : PackRead) (id : ℕ) (defaultValue : Int64) :
    Except Error (Int64 × PackRead) :=
  pckReadField .time (fun this value => .ok (Int64.ofInt (cvtInt64FromZigZag value), this)) this id
    defaultValue

/-- `pckReadU32`. -/
def pckReadU32 (this : PackRead) (id : ℕ) (defaultValue : UInt32) :
    Except Error (UInt32 × PackRead) :=
  pckReadField .u32 (fun this value => .ok (UInt32.ofNat value, this)) this id defaultValue

/-- `pckReadU64`. -/
def pckReadU64 (this : PackRead) (id : ℕ) (defaultValue : UInt64) :
    Except Error (UInt64 × PackRead) :=
  pckReadField .u64 (fun this value => .ok (UInt64.ofNat value, this)) this id defaultValue

/-- The strings of a list up to the end of the array. Every string begins with
a tag, so the bytes that are left bound the number of strings. -/
def pckReadStrLstLoop : ℕ → PackRead → Except Error (List (Option (List UInt8)) × PackRead)
  | 0, _ => .error ⟨.formatError, "unexpected EOF".toList⟩
  | fuel + 1, this => do
    let (result, this) ← pckReadNull this 0
    if result then .ok ([], this)
    else
      let (value, this) ← pckReadStr this 0 none
      let (values, this) ← pckReadStrLstLoop fuel this
      .ok (value :: values, this)

/-- `pckReadStrLst`. -/
def pckReadStrLst (this : PackRead) (id : ℕ) :
    Except Error (Option (List (Option (List UInt8))) × PackRead) := do
  let ((result, id), this) ← pckReadNullInternal this id
  if result then .ok (none, this)
  else
    let this ← pckReadArrayBegin this id
    let (values, this) ← pckReadStrLstLoop (this.bytes.length + 1) this
    let this ← pckReadArrayEnd this
    .ok (some values, this)

/-- `pckReadEnd`. -/
def pckReadEnd (this : PackRead) : Except Error PackRead := do
  if this.tagStack.below ≠ [] then
    .error ⟨.formatError, "invalid pack end read in container".toList⟩
  else
    let (_, this) ← pckReadTag this (UINT_MAX - 1) none
    .ok this

/-! ## Writing -/

/-- A pack that is being written. -/
structure PackWrite where
  /-- Size of the internal buffer when the pack is written to a stream. -/
  write : Option ℕ+
  /-- Bytes sent to the stream. -/
  sent : List UInt8
  /-- Bytes in the buffer. -/
  buffer : List UInt8
  /-- Stack of object/array tags. -/
  tagStack : PackTagStack

/-- `pckWriteNew`, or `pckWriteNewIo` with an internal buffer of the given
size. -/
def pckWriteNew (write : Option ℕ+) : PackWrite := ⟨write, [], [], .bottom⟩

/-- `pckWriteBuffer`. -/
def pckWriteBuffer (this : PackWrite) (buffer : List UInt8) : PackWrite :=
  match this.write with
  | none => { this with buffer := this.buffer ++ buffer }
  | some bufferSize =>
    if bufferSize - this.buffer.length ≥ buffer.length then
      { this with buffer := this.buffer ++ buffer }
    else
      -- flush the internal buffer, then use it or write directly
      let this := { this with sent := this.sent ++ this.buffer, buffer := [] }
      if (bufferSize : ℕ) ≥ buffer.length then { this with buffer := buffer }
      else { this with sent := this.sent ++ buffer }

/-- `pckWriteU64Internal`. -/
def pckWriteU64Internal (this : PackWrite) (value : ℕ) : Except Error PackWrite := do
  let bytes ← cvtUInt64ToVarInt128 CVT_VARINT128_BUFFER_SIZE value
  .ok (pckWriteBuffer this bytes)

/-- Write a value when it has bits left. -/
def pckWriteU64If (this : PackWrite) (condition : Bool) (value : ℕ) : Except Error PackWrite :=
  if condition then pckWriteU64Internal this value else .ok this

/-- The tag byte, and what is left of the delta of the id and of the value. -/
def pckTagBits (typeMap : PackTypeMap) (tagId value : ℕ) : ℕ × ℕ × ℕ :=
  let tag := if typeMap.toNat ≥ 0xF then 0xF0 else typeMap.toNat <<< 4
  if (packTypeMapData typeMap).valueMultiBit then
    if value < 2 then
      (tag ||| (value &&& 0x1) <<< 2 ||| tagId &&& 0x1 ||| (if tagId >>> 1 > 0 then 0x2 else 0),
        tagId >>> 1, value >>> 1)
    else
      (tag ||| 0x8 ||| tagId &&& 0x3 ||| (if tagId >>> 2 > 0 then 0x4 else 0), tagId >>> 2, value)
  else if (packTypeMapData typeMap).valueSingleBit then
    (tag ||| (value &&& 0x1) <<< 3 ||| tagId &&& 0x3 ||| (if tagId >>> 2 > 0 then 0x4 else 0),
      tagId >>> 2, value >>> 1)
  else
    (tag ||| tagId &&& 0x7 ||| (if tagId >>> 3 > 0 then 0x8 else 0), tagId >>> 3, value)

/-- The id of a field: after the pending nulls if no id was specified. -/
def pckWriteTagId (top : PackTagStackItem) (id : ℕ) : Except Error ℕ :=
  if id = 0 then .ok (u32 (top.idLast + top.nullTotal + 1))
  else if id > top.idLast then .ok id
  else .error ⟨.assertError, "field id must be greater than last id".toList⟩

/-- `pckWriteTag`. -/
def pckWriteTag (this : PackWrite) (typeMap : PackTypeMap) (id value : ℕ) :
    Except Error PackWrite := do
  let top := this.tagStack.top
  let id ← pckWriteTagId top id
  let data := packTypeMapData typeMap
  ASSERT (data.valueMultiBit || data.valueSingleBit || decide (value = 0)) "value == 0"
  let (tag, tagId, value) := pckTagBits typeMap (u32 (id + 2 ^ 32 - (top.idLast + 1))) value
  let this := pckWriteBuffer this [UInt8.ofNat tag]
  let this ← pckWriteU64If this (typeMap.toNat ≥ 0xF) (typeMap.toNat - 0xF)
  let this ← pckWriteU64If this (tagId > 0) tagId
  let this ← pckWriteU64If this (value > 0) value
  -- the nulls are cleared now that the field id has been calculated
  .ok { this with tagStack := { this.tagStack with top := ⟨top.typeMap, id, 0⟩ } }

/-- `pckWriteNull`. -/
def pckWriteNull (this : PackWrite) : PackWrite :=
  { this with tagStack := { this.tagStack with
      top := { this.tagStack.top with nullTotal := u32 (this.tagStack.top.nullTotal + 1) } } }

/-- Write a field unless it is left out as a `NULL` (`pckWriteDefaultNull`). -/
def pckWriteField (this : PackWrite) (defaultWrite defaultEqual : Bool)
    (field : PackWrite → Except Error PackWrite) : Except Error PackWrite :=
  if !defaultWrite && defaultEqual then .ok (pckWriteNull this) else field this

/-- Write the size of the data and the data. -/
def pckWriteBuf (this : PackWrite) (bytes : List UInt8) : Except Error PackWrite := do
  let this ← pckWriteU64Internal this bytes.length
  .ok (pckWriteBuffer this bytes)

/-- Write data whose tag says if there is any. -/
def pckWriteData (this : PackWrite) (typeMap : PackTypeMap) (id : ℕ) (bytes : List UInt8) :
    Except Error PackWrite := do
  let this ← pckWriteTag this typeMap id (if bytes.length > 0 then 1 else 0)
  if bytes.length > 0 then pckWriteBuf this bytes else .ok this

def pckWriteContainerEnd (this : PackWrite) (typeMap : PackTypeMap) : Except Error PackWrite := do
  pckTagStackPopCheck this.tagStack typeMap
  let this ← pckWriteU64Internal this 0
  .ok { this with tagStack := pckTagStackPop this.tagStack }

def pckWriteBegin (this : PackWrite) (id : ℕ) (typeMap : PackTypeMap) : Except Error PackWrite := do
  let this ← pckWriteTag this typeMap id 0
  .ok { this with tagStack := pckTagStackPush this.tagStack typeMap }

/-- `pckWriteArrayBegin`. -/
def pckWriteArrayBegin (this : PackWrite) (id : ℕ) : Except Error PackWrite :=
  pckWriteBegin this id .array

/-- `pckWriteArrayEnd`. -/
def pckWriteArrayEnd (this : PackWrite) : Except Error PackWrite := pckWriteContainerEnd this .array

/-- `pckWriteObjBegin`. -/
def pckWriteObjBegin (this : PackWrite) (id : ℕ) : Except Error PackWrite :=
  pckWriteBegin this id .obj

/-- `pckWriteObjEnd`. -/
def pckWriteObjEnd (this : PackWrite) : Except Error PackWrite := pckWriteContainerEnd this .obj

/-- `pckWriteBin`. -/
def pckWriteBin (this : PackWrite) (value : Option Buffer) (id : ℕ) : Except Error PackWrite :=
  pckWriteField this false value.isNone (fun this =>
    match value with
    | none => (ASSERT false "value != NULL").map (fun _ => this)
    | some value => pckWriteData this .bin id value.bytes)

/-- `pckWritePack`. -/
def pckWritePack (this : PackWrite) (value : Option Buffer) (id : ℕ) : Except Error PackWrite :=
  pckWriteField this false value.isNone (fun this =>
    match value with
    | none => (ASSERT false "value != NULL").map (fun _ => this)
    | some value => do
      let this ← pckWriteTag this .pack id 0
      pckWriteBuf this value.bytes)

/-- `pckWriteStr`. -/
def pckWriteStr (this : PackWrite) (value : Option ByteStr) (id : ℕ) (defaultWrite : Bool)
    (defaultValue : Option ByteStr) : Except Error PackWrite :=
  pckWriteField this defaultWrite (strEq value defaultValue) (fun this =>
    match value with
    | none => (ASSERT false "value != NULL").map (fun _ => this)
    | some value => pckWriteData this .str id value.bytes)

/-- `pckWriteBool`. -/
def pckWriteBool (this : PackWrite) (value : Bool) (id : ℕ) (defaultWrite : Bool)
    (defaultValue : UInt32) : Except Error PackWrite :=
  pckWriteField this defaultWrite (decide (value.toNat = defaultValue.toNat))
    (fun this => pckWriteTag this .bool id value.toNat)

/-- `pckWriteI32`. -/
def pckWriteI32 (this : PackWrite) (value : Int32) (id : ℕ) (defaultWrite : Bool)
    (defaultValue : Int32) : Except Error PackWrite :=
  pckWriteField this defaultWrite (decide (value = defaultValue))
    (fun this => pckWriteTag this .i32 id (cvtInt32ToZigZag value))

/-- `pckWriteI64`. -/
def pckWriteI64 (this : PackWrite) (value : Int64) (id : ℕ) (defaultWrite : Bool)
    (defaultValue : Int64) : Except Error PackWrite :=
  pckWriteField this defaultWrite (decide (value = defaultValue))
    (fun this => pckWriteTag this .i64 id (cvtInt64ToZigZag value.toInt))

/-- `pckWriteMode`. -/
def pckWriteMode (this : PackWrite) (value : UInt32) (id : ℕ) (defaultWrite : Bool)
    (defaultValue : UInt32) : Except Error PackWrite :=
  pckWriteField this defaultWrite (decide (value = defaultValue))
    (fun this => pckWriteTag this .mode id value.toNat)

/-- `pckWriteStrId`. -/
def pckWriteStrId (this : PackWrite) (value : UInt64) (id : ℕ) (defaultWrite : Bool)
    (defaultValue : UInt64) : Except Error PackWrite :=
  pckWriteField this defaultWrite (decide (value = defaultValue))
    (fun this => pckWriteTag this .strId id value.toNat)

/-- `pckWriteTime`. -/
def pckWriteTime (this : PackWrite) (value : Int64) (id : ℕ) (defaultWrite : Bool)
    (defaultValue : Int64) : Except Error PackWrite :=
  pckWriteField this defaultWrite (decide (value = defaultValue))
    (fun this => pckWriteTag this .time id (cvtInt64ToZigZag value.toInt))

/-- `pckWriteU32`. -/
def pckWriteU32 (this : PackWrite) (value : UInt32) (id : ℕ) (defaultWrite : Bool)
    (defaultValue : UInt32) : Except Error PackWrite :=
  pckWriteField this defaultWrite (decide (value = defaultValue))
    (fun this => pckWriteTag this .u32 id value.toNat)

/-- `pckWriteU64`. -/
def pckWriteU64 (this : PackWrite) (value : UInt64) (id : ℕ) (defaultWrite : Bool)
    (defaultValue : UInt64) : Except Error PackWrite :=
  pckWriteField this defaultWrite (decide (value = defaultValue))
    (fun this => pckWriteTag this .u64 id value.toNat)

def pckWriteStrs (this : PackWrite) : List ByteStr → Except Error PackWrite
  | [] => .ok this
  | value :: values => do
    let this ← pckWriteStr this (some value) 0 false none
    pckWriteStrs this values

/-- `pckWriteStrLst`. -/
def pckWriteStrLst (this : PackWrite) (value : Option StringList) (id : ℕ) :
    Except Error PackWrite :=
  pckWriteField this false value.isNone (fun this =>
    match value with
    | none => (ASSERT false "value != NULL").map (fun _ => this)
    | some value => do
      let this ← pckWriteArrayBegin this id
      let this ← pckWriteStrs this value.strs
      pckWriteArrayEnd this)

/-- `pckWriteEnd`, which flushes the internal buffer when writing to a
stream. -/
def pckWriteEnd (this : PackWrite) : Except Error PackWrite := do
  ASSERT (decide (this.tagStack.below = [])) "this->tagStack.depth == 0"
  let this ← pckWriteU64Internal this 0
  match this.write with
  | none => .ok this
  | some _ => .ok { this with sent := this.sent ++ this.buffer, buffer := [] }

/-- The pack: the buffer (`pckWriteResult`), or what was sent to the stream. -/
def pckWriteResult (this : PackWrite) : List UInt8 :=
  match this.write with
  | none => this.buffer
  | some _ => this.sent

end PgxBackup
