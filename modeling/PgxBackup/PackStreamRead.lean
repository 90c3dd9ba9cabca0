import PgxBackup.PackId
import PgxBackup.ReadStream

/-!
# A pack that is read from a stream

The reader of a stream gets its bytes from an `IoRead`, which may return them
in any portions: a tag and the data of a field through its buffer, no more
than the field needs, and integers directly. `PackRead` knows the bytes
themselves.
-/

namespace PgxBackup

open List

/-- A pack that is read from an `IoRead`. -/
structure PackReadIo where
  /-- The size of the buffer and what was read of the tags. Its bytes are not
  used. -/
  tags : PackRead
  io : IoReadState

/-- `pckReadNewIo`. -/
def pckReadNewIo (bufferSize : ℕ+) (io : IoReadState) : PackReadIo :=
  ⟨pckReadNew (some bufferSize) [], io⟩

namespace PackReadIo

/-- `pckReadBuffer`. -/
def pckReadBuffer (this : PackReadIo) (size : ℕ) : Except Error (List UInt8 × PackReadIo) :=
  let (buffer, io) := this.io.ioReadSmall (pckReadLimit this.tags.read size)
  if 0 < size ∧ buffer = [] then .error ⟨.formatError, "unexpected EOF".toList⟩
  else .ok (buffer, { this with io := io })

/-- Read `size` bytes out in chunks, which `cat` adds to a result. -/
def pckReadChunks {α : Type} (cat : α → List UInt8 → Except Error α) :
    ℕ → ℕ → α → PackReadIo → Except Error (α × PackReadIo)
  | 0, _, result, this => .ok (result, this)
  | fuel + 1, size, result, this =>
    if size = 0 then .ok (result, this)
    else do
      let (chunk, this) ← this.pckReadBuffer size
      let result ← cat result chunk
      pckReadChunks cat fuel (size - chunk.length) result this

/-- `pckReadConsumeBuffer`. -/
def pckReadConsumeBuffer (this : PackReadIo) : Except Error PackReadIo := do
  let (_, this) ← pckReadChunks (fun _ _ => .ok ()) this.tags.tagNextSize this.tags.tagNextSize () this
  .ok { this with tags := { this.tags with tagNextSize := 0 } }

/-- `pckReadU64Internal`. -/
def pckReadU64Internal (this : PackReadIo) : Except Error (ℕ × PackReadIo) := do
  let (value, io) ← this.io.ioReadVarIntU64
  .ok (value, { this with io := io })

/-- The delta of the field id. -/
def pckReadTagId (this : PackReadIo) (tag mask more shift : ℕ) : Except Error (ℕ × PackReadIo) :=
  if tag &&& more ≠ 0 then do
    let (high, this) ← this.pckReadU64Internal
    .ok ((tag &&& mask) ||| u32 (u32 high <<< shift), this)
  else .ok (tag &&& mask, this)

/-- The delta of the field id and the value. -/
def pckReadTagValue (this : PackReadIo) (data : PackTypeMapData) (tag : ℕ) :
    Except Error ((ℕ × ℕ) × PackReadIo) := do
  if data.valueMultiBit then
    if tag &&& 0x8 ≠ 0 then
      let (tagId, this) ← this.pckReadTagId tag 0x3 0x4 2
      let (value, this) ← this.pckReadU64Internal
      .ok ((tagId, value), this)
    else
      let (tagId, this) ← this.pckReadTagId tag 0x1 0x2 1
      .ok ((tagId, (tag >>> 2) &&& 0x3), this)
  else if data.valueSingleBit then
    let (tagId, this) ← this.pckReadTagId tag 0x3 0x4 2
    .ok ((tagId, (tag >>> 3) &&& 0x1), this)
  else
    let (tagId, this) ← this.pckReadTagId tag 0x7 0x8 3
    .ok ((tagId, 0), this)

def pckReadTagType (this : PackReadIo) (tag : ℕ) : Except Error (ℕ × PackReadIo) :=
  if tag >>> 4 = 0xF then do
    let (high, this) ← this.pckReadU64Internal
    .ok (u32 (u32 high + 0xF), this)
  else .ok (tag >>> 4, this)

/-- The size after a tag, if there is one. -/
def pckReadTagSize (this : PackReadIo) (data : PackTypeMapData) (value : ℕ) :
    Except Error (ℕ × PackReadIo) :=
  if data.size && (decide (value > 0) || !data.valueSingleBit) then this.pckReadU64Internal
  else .ok (0, this)

/-- `pckReadTagNext`. -/
def pckReadTagNext (this : PackReadIo) : Except Error (Bool × PackReadIo) := do
  let (bytes, this) ← this.pckReadBuffer 1
  let tag := (bytes.headD 0).toNat
  if tag = 0 then
    .ok (false, { this with tags := { this.tags with tagNextId := UINT_MAX } })
  else
    let (typeMap, this) ← this.pckReadTagType tag
    match PackTypeMap.ofNat? typeMap with
    | none => .error ⟨.formatError, "invalid tag type".toList⟩
    | some typeMap =>
      let data := packTypeMapData typeMap
      let ((tagId, value), this) ← this.pckReadTagValue data tag
      let (size, this) ← this.pckReadTagSize data value
      .ok (true, { this with tags := { this.tags with
        tagNextId := u32 (tagId + u32 (this.tags.tagStack.top.idLast + 1))
        tagNextTypeMap := some typeMap
        tagNextValue := value
        tagNextSize := size } })

/-- Get the next tag if it has not been read yet. -/
def pckReadTagLook (this : PackReadIo) : Except Error PackReadIo :=
  if this.tags.tagNextId = 0 then this.pckReadTagNext.map Prod.snd else .ok this

/-- The requested id exists. -/
def pckReadTagFound (this : PackReadIo) (typeMap : Option PackTypeMap) : Except Error PackReadIo :=
  (PgxBackup.pckReadTagFound this.tags typeMap).map (fun tags => { this with tags := tags })

/-- Search for the requested id. -/
def pckReadTagLoop (typeMap : Option PackTypeMap) (id : ℕ) :
    ℕ → PackReadIo → Except Error PackReadIo
  | 0, _ => .error ⟨.formatError, "unexpected EOF".toList⟩
  | fuel + 1, this => do
    let this ← this.pckReadTagLook
    if id < this.tags.tagNextId then .ok this
    else if id = this.tags.tagNextId then this.pckReadTagFound typeMap
    else
      let this ← this.pckReadConsumeBuffer
      pckReadTagLoop typeMap id fuel
        { this with tags := { this.tags.setIdLast this.tags.tagNextId with tagNextId := 0 } }

/-- `pckReadTag`. -/
def pckReadTag (this : PackReadIo) (id : ℕ) (typeMap : Option PackTypeMap) :
    Except Error ((ℕ × ℕ) × PackReadIo) := do
  let id ← pckReadTagRequest this.tags id
  let this ← pckReadTagLoop typeMap id (this.io.bytes.length + 2) this
  .ok ((id, this.tags.tagNextValue), this)

/-- `pckReadNullInternal`. -/
def pckReadNullInternal (this : PackReadIo) (id : ℕ) :
    Except Error ((Bool × ℕ) × PackReadIo) := do
  let ((id, _), this) ← this.pckReadTag id none
  if id < this.tags.tagNextId then .ok ((true, id), { this with tags := this.tags.setIdLast id })
  else .ok ((false, id), this)

/-- `pckReadNull`. -/
def pckReadNull (this : PackReadIo) (id : ℕ) : Except Error (Bool × PackReadIo) := do
  let ((result, _), this) ← this.pckReadNullInternal id
  .ok (result, this)

/-- Read a field that may be missing. -/
def pckReadField {α : Type} (typeMap : PackTypeMap)
    (value : PackReadIo → ℕ → Except Error (α × PackReadIo)) (this : PackReadIo) (id : ℕ)
    (defaultValue : α) : Except Error (α × PackReadIo) := do
  let ((result, id), this) ← this.pckReadNullInternal id
  if result then .ok (defaultValue, this)
  else
    let ((_, tagValue), this) ← this.pckReadTag id (some typeMap)
    value this tagValue

def pckReadBegin (this : PackReadIo) (id : ℕ) (typeMap : PackTypeMap) : Except Error PackReadIo := do
  let (_, this) ← this.pckReadTag id (some typeMap)
  .ok { this with tags := { this.tags with tagStack := pckTagStackPush this.tags.tagStack typeMap } }

def pckReadContainerEnd (this : PackReadIo) (typeMap : PackTypeMap) : Except Error PackReadIo := do
  pckTagStackPopCheck this.tags.tagStack typeMap
  let (_, this) ← this.pckReadTag (UINT_MAX - 1) none
  .ok { this with
    tags := { this.tags with tagStack := pckTagStackPop this.tags.tagStack, tagNextId := 0 } }

/-- Read the data of a buffer or a pack. -/
def pckReadBuf (this : PackReadIo) : Except Error (List UInt8 × PackReadIo) :=
  pckReadChunks (fun result chunk => .ok (result ++ chunk)) this.tags.tagNextSize
    this.tags.tagNextSize [] this

/-- `pckReadBin`. -/
def pckReadBin (this : PackReadIo) (id : ℕ) : Except Error (Option (List UInt8) × PackReadIo) :=
  pckReadField .bin (fun this value =>
    if value ≠ 0 then this.pckReadBuf.map (fun (bytes, this) => (some bytes, this))
    else .ok (some [], this)) this id none

/-- `pckReadPack`. -/
def pckReadPack (this : PackReadIo) (id : ℕ) : Except Error (Option (List UInt8) × PackReadIo) :=
  pckReadField .pack (fun this _ =>
    this.pckReadBuf.map (fun (bytes, this) => (some bytes, this))) this id none

/-- `pckReadStr`. -/
def pckReadStr (this : PackReadIo) (id : ℕ) (defaultValue : Option (List UInt8)) :
    Except Error (Option (List UInt8) × PackReadIo) :=
  pckReadField .str (fun this value =>
    if value ≠ 0 then
      (pckReadChunks strCatZN this.tags.tagNextSize this.tags.tagNextSize strNew this).map
        (fun (s, this) => (some s.bytes, this))
    else .ok (some strNew.bytes, this)) this id defaultValue

/-- A field whose value is in its tag: the functions for booleans, numbers,
modes, string ids and times. -/
def pckReadNumber {α : Type} (typeMap : PackTypeMap) (value : ℕ → α) (this : PackReadIo) (id : ℕ)
    (defaultValue : α) : Except Error (α × PackReadIo) :=
  pckReadField typeMap (fun this tagValue => .ok (value tagValue, this)) this id defaultValue

/-- The strings of a list up to the end of the array. -/
def pckReadStrLstLoop : ℕ → PackReadIo → Except Error (List (Option (List UInt8)) × PackReadIo)
  | 0, _ => .error ⟨.formatError, "unexpected EOF".toList⟩
  | fuel + 1, this => do
    let (result, this) ← this.pckReadNull 0
    if result then .ok ([], this)
    else
      let (value, this) ← this.pckReadStr 0 none
      let (values, this) ← pckReadStrLstLoop fuel this
      .ok (value :: values, this)

/-- `pckReadStrLst`. -/
def pckReadStrLst (this : PackReadIo) (id : ℕ) :
    Except Error (Option (List (Option (List UInt8))) × PackReadIo) := do
  let ((result, id), this) ← this.pckReadNullInternal id
  if result then .ok (none, this)
  else
    let this ← this.pckReadBegin id .array
    let (values, this) ← pckReadStrLstLoop (this.io.bytes.length + 1) this
    let this ← this.pckReadContainerEnd .array
    .ok (some values, this)

/-- `pckReadEnd`. -/
def pckReadEnd (this : PackReadIo) : Except Error PackReadIo := do
  if this.tags.tagStack.below ≠ [] then
    .error ⟨.formatError, "invalid pack end read in container".toList⟩
  else
    let (_, this) ← this.pckReadTag (UINT_MAX - 1) none
    .ok this

def value {α : Type} (value : α → PckValue) (result : Except Error (α × PackReadIo)) :
    Except Error (PckValue × PackReadIo) :=
  result.map (fun (result, this) => (value result, this))

/-- Make a read call with an id, zero for an automatic one. -/
def pckReadCallId (this : PackReadIo) (id : ℕ) :
    PckReadCall → Except Error (PckValue × PackReadIo)
  | .null => value .null (this.pckReadNull id)
  | .bool defaultValue =>
    value .bool (this.pckReadNumber .bool (fun n => decide (n ≠ 0)) id (decide (defaultValue ≠ 0)))
  | .i32 defaultValue =>
    value .i32 (this.pckReadNumber .i32 (fun n => cvtInt32FromZigZag (u32 n)) id defaultValue)
  | .i64 defaultValue =>
    value .i64 (this.pckReadNumber .i64 (fun n => Int64.ofInt (cvtInt64FromZigZag n)) id defaultValue)
  | .mode defaultValue => value .mode (this.pckReadNumber .mode UInt32.ofNat id defaultValue)
  | .u32 defaultValue => value .u32 (this.pckReadNumber .u32 UInt32.ofNat id defaultValue)
  | .u64 defaultValue => value .u64 (this.pckReadNumber .u64 UInt64.ofNat id defaultValue)
  | .strId defaultValue => value .strId (this.pckReadNumber .strId UInt64.ofNat id defaultValue)
  | .time defaultValue =>
    value .time
      (this.pckReadNumber .time (fun n => Int64.ofInt (cvtInt64FromZigZag n)) id defaultValue)
  | .str defaultValue => value .str (this.pckReadStr id (defaultValue.map ByteStr.bytes))
  | .bin => value .bin (this.pckReadBin id)
  | .pack => value .pack (this.pckReadPack id)
  | .strLst => value .strLst (this.pckReadStrLst id)
  | .arrayBegin => do .ok (.void, ← this.pckReadBegin id .array)
  | .arrayEnd => do .ok (.void, ← this.pckReadContainerEnd .array)
  | .objBegin => do .ok (.void, ← this.pckReadBegin id .obj)
  | .objEnd => do .ok (.void, ← this.pckReadContainerEnd .obj)

end PackReadIo

/-! ## Agreement -/

/-- **A reader of a stream is at the same place** as a reader in memory, with
more bytes behind the pack. -/
structure SameRead (bufferSize : ℕ+) (rest : List UInt8) (r : PackRead) (c : PackReadIo) : Prop where
  memory : r.read = none
  stream : c.tags.read = some bufferSize
  tags : c.tags = { r with read := c.tags.read, bytes := c.tags.bytes }
  valid : c.io.Valid
  bytes : c.io.bytes = r.bytes ++ rest

/-- **What the reader in memory returns, the reader of the stream returns**, and
if nothing is behind the pack both fail together. -/
def Follows {α β : Type} (rest : List UInt8) (same : α → β → Prop) (memory : Except Error α)
    (stream : Except Error β) : Prop :=
  (∀ a, memory = .ok a → ∃ b, stream = .ok b ∧ same a b) ∧
    (rest = [] → ∀ error, memory = .error error → ∃ error', stream = .error error')

/-- The same value, and readers at the same place. -/
def SameResult {α : Type} (bufferSize : ℕ+) (rest : List UInt8) (a : α × PackRead) (b : α × PackReadIo) : Prop :=
  a.1 = b.1 ∧ SameRead bufferSize rest a.2 b.2

section Follows

variable {α β α' β' : Type} {rest : List UInt8} {same : α → β → Prop} {same' : α' → β' → Prop}
  {memory : Except Error α} {stream : Except Error β}

theorem Follows.ok {a : α} {b : β} (h : same a b) : Follows rest same (.ok a) (.ok b) :=
  ⟨fun _ heq => ⟨b, rfl, Except.ok.inj heq ▸ h⟩, nofun⟩

theorem Follows.error (error error' : Error) : Follows rest same (.error error) (.error error') :=
  ⟨nofun, fun _ _ _ => ⟨error', rfl⟩⟩

section

variable (h : Follows rest same memory stream)
include h

theorem Follows.bindOk {f : α → Except Error α'} {g : β → Except Error β'}
    (hnext : ∀ a b, memory = .ok a → same a b → Follows rest same' (f a) (g b)) :
    Follows rest same' (memory >>= f) (stream >>= g) := by
  cases memory with
  | error error =>
    refine ⟨nofun, fun hrest _ _ => ?_⟩
    obtain ⟨error', rfl⟩ := h.2 hrest error rfl
    exact ⟨error', rfl⟩
  | ok a =>
    obtain ⟨b, rfl, hsame⟩ := h.1 a rfl
    exact hnext a b rfl hsame

theorem Follows.bind {f : α → Except Error α'} {g : β → Except Error β'}
    (hnext : ∀ a b, same a b → Follows rest same' (f a) (g b)) :
    Follows rest same' (memory >>= f) (stream >>= g) :=
  h.bindOk (fun a b _ => hnext a b)

theorem Follows.map {f : α → α'} {g : β → β'} (hnext : ∀ a b, same a b → same' (f a) (g b)) :
    Follows rest same' (memory.map f) (stream.map g) := by
  cases memory with
  | error error =>
    refine ⟨nofun, fun hrest _ _ => ?_⟩
    obtain ⟨error', rfl⟩ := h.2 hrest error rfl
    exact ⟨error', rfl⟩
  | ok a =>
    obtain ⟨b, rfl, hsame⟩ := h.1 a rfl
    exact .ok (hnext a b hsame)

theorem Follows.mono {same' : α → β → Prop} (himp : ∀ a b, same a b → same' a b) :
    Follows rest same' memory stream := by
  refine ⟨fun a hok => ?_, h.2⟩
  obtain ⟨b, hb, hsame⟩ := h.1 a hok
  exact ⟨b, hb, himp a b hsame⟩

end

theorem follows_self (x : Except Error α) : Follows rest Eq x x :=
  ⟨fun a h => ⟨a, h, rfl⟩, fun _ error h => ⟨error, h⟩⟩

end Follows

section Read

variable {bufferSize : ℕ+} {rest : List UInt8} {r : PackRead} {c : PackReadIo}

section

variable (h : SameRead bufferSize rest r c)
include h

theorem SameRead.tagStack : c.tags.tagStack = r.tagStack := by
  rw [h.tags]

theorem SameRead.tagNextId : c.tags.tagNextId = r.tagNextId := by
  rw [h.tags]

theorem SameRead.tagNextValue : c.tags.tagNextValue = r.tagNextValue := by
  rw [h.tags]

theorem SameRead.tagNextSize : c.tags.tagNextSize = r.tagNextSize := by
  rw [h.tags]

theorem SameRead.tagNextTypeMap : c.tags.tagNextTypeMap = r.tagNextTypeMap := by
  rw [h.tags]

/-- The readers after another part of the stream. -/
theorem SameRead.withBytes {bytes : List UInt8} {io : IoReadState} (hvalid : io.Valid)
    (hbytes : io.bytes = bytes ++ rest) :
    SameRead bufferSize rest { r with bytes := bytes } { c with io := io } :=
  ⟨h.memory, h.stream, h.tags, hvalid, hbytes⟩

theorem SameRead.withTags (f : PackRead → PackRead) (hread : ∀ r, (f r).read = r.read)
    (hbytes : ∀ r, (f r).bytes = r.bytes)
    (hf : ∀ r read bytes, f { r with read := read, bytes := bytes }
      = { f r with read := read, bytes := bytes }) :
    SameRead bufferSize rest (f r) { c with tags := f c.tags } := by
  refine ⟨(hread r).trans h.memory, (hread _).trans h.stream, ?_, h.valid, ?_⟩
  · show f c.tags = { f r with read := (f c.tags).read, bytes := (f c.tags).bytes }
    rw [hread, hbytes, ← hf, ← h.tags]
  · rw [hbytes]
    exact h.bytes

end

/-! ### Bytes -/

theorem SameRead.readByte (h : SameRead bufferSize rest r c) :
    Follows rest (SameResult bufferSize rest) (pckReadBuffer r 1) (c.pckReadBuffer 1) := by
  have hmemoryLimit : pckReadLimit r.read 1 = 1 := by
    rw [h.memory]
    rfl
  have hlimit : pckReadLimit c.tags.read 1 = 1 := by
    rw [h.stream]
    exact min_eq_left bufferSize.pos
  obtain ⟨hdata, hleft, hvalid⟩ := IoReadState.ioReadSmall_bytes h.valid 1
  unfold pckReadBuffer PackReadIo.pckReadBuffer
  rw [hmemoryLimit, hlimit]
  dsimp only
  rw [hdata, h.bytes]
  cases hbytes : r.bytes with
  | nil =>
    rw [if_pos ⟨Nat.one_pos, rfl⟩]
    refine ⟨nofun, fun hrest _ _ => ⟨_, if_pos ⟨Nat.one_pos, ?_⟩⟩⟩
    rw [hrest]
    rfl
  | cons byte bytes =>
    rw [if_neg (fun hnil => absurd hnil.2 nofun), if_neg (fun hnil => absurd hnil.2 nofun)]
    refine .ok ⟨rfl, h.withBytes hvalid ?_⟩
    rw [hleft, h.bytes, hbytes]
    rfl

theorem decode_append (eof eof' unterminated unterminated' : Error) (rest : List UInt8)
    (n idx result : ℕ) (bytes : List UInt8) :
    Follows rest (fun a b => a.1 = b.1 ∧ b.2 = a.2 ++ rest)
      (Base128.decode eof unterminated 64 n idx result bytes)
      (Base128.decode eof' unterminated' 64 n idx result (bytes ++ rest)) := by
  induction n generalizing idx result bytes with
  | zero => exact .error _ _
  | succ n ih =>
    cases bytes with
    | nil =>
      refine ⟨nofun, fun hrest _ _ => ⟨eof', ?_⟩⟩
      rw [hrest]
      rfl
    | cons byte bytes =>
      rw [cons_append]
      unfold Base128.decode
      by_cases hlast : byte < 0x80
      · rw [if_pos hlast, if_pos hlast]
        exact .ok ⟨rfl, rfl⟩
      · rw [if_neg hlast, if_neg hlast]
        exact ih (idx + 1) _ bytes

/-- **An integer.** -/
theorem SameRead.u64 (h : SameRead bufferSize rest r c) :
    Follows rest (SameResult bufferSize rest) (pckReadU64Internal r) c.pckReadU64Internal := by
  have hdecode := decode_append ⟨.formatError, "buffer position is beyond buffer size".toList⟩
    ⟨.fileReadError, "unexpected eof".toList⟩
    ⟨.formatError, "unterminated varint-128 integer".toList⟩
    ⟨.formatError, "unterminated base-128 integer".toList⟩ rest CVT_VARINT128_BUFFER_SIZE 0 0 r.bytes
  have hstream := IoReadState.ioReadVarIntU64_bytes h.valid
  rw [h.bytes] at hstream
  have hio : Follows rest (fun a b => a.1 = b.1 ∧ b.2.Valid ∧ b.2.bytes = a.2 ++ rest)
      (cvtUInt64FromVarInt128 r.bytes) c.io.ioReadVarIntU64 := by
    cases hread : ioReadVarIntU64.run (r.bytes ++ rest) with
    | error error =>
      rw [hread] at hstream
      refine ⟨fun a ha => ?_, fun _ _ _ => ⟨error, hstream⟩⟩
      obtain ⟨b, hb, -⟩ := hdecode.1 a ha
      cases hread.symm.trans hb
    | ok read =>
      rw [hread] at hstream
      obtain ⟨io, hio, hvalid, hbytes⟩ := hstream
      refine ⟨fun a ha => ?_, fun hrest error herror => ?_⟩
      · obtain ⟨b, hb, hvalue, hleft⟩ := hdecode.1 a ha
        cases hread.symm.trans hb
        exact ⟨_, hio, hvalue, hvalid, hbytes.trans hleft⟩
      · obtain ⟨error', herror'⟩ := hdecode.2 hrest error herror
        cases hread.symm.trans herror'
  have hmemory : pckReadU64Internal r
      = cvtUInt64FromVarInt128 r.bytes >>= fun a => .ok (a.1, { r with bytes := a.2 }) := by
    have hnone := h.memory
    unfold pckReadU64Internal
    cases hread : r.read with
    | none => rfl
    | some bufferSize => cases hread.symm.trans hnone
  rw [hmemory]
  refine hio.bind (fun a b hsame => ?_)
  obtain ⟨hvalue, hvalid, hbytes⟩ := hsame
  exact .ok ⟨hvalue, h.withBytes hvalid hbytes⟩

/-! ### Chunks -/

/-- The reader of a stream as a reader that knows all the bytes. -/
def PackReadIo.known (this : PackReadIo) : PackRead := { this.tags with bytes := this.io.bytes }

theorem SameRead.of_known (hmemory : r.read = none)
    (hstream : c.tags.read = some bufferSize) (hvalid : c.io.Valid)
    (h : c.known = { r with read := c.tags.read, bytes := r.bytes ++ rest }) : SameRead bufferSize rest r c := by
  refine ⟨hmemory, hstream, ?_, hvalid, congrArg PackRead.bytes h⟩
  show { c.known with bytes := c.tags.bytes } = _
  rw [h]

/-- What a reader that knows the bytes returns, the reader of the stream
returns. -/
def KnownRead {α : Type} (known : Except Error (α × PackRead))
    (stream : Except Error (α × PackReadIo)) : Prop :=
  match known with
  | .error error => stream = .error error
  | .ok (a, r) => ∃ c, stream = .ok (a, c) ∧ c.io.Valid ∧ c.known = r

/-- `ioReadSmall` returns the bytes that are asked for. -/
theorem pckReadBuffer_known (hvalid : c.io.Valid) (size : ℕ) :
    KnownRead (pckReadBuffer c.known size) (c.pckReadBuffer size) := by
  obtain ⟨hdata, hleft, hvalid'⟩ :=
    IoReadState.ioReadSmall_bytes hvalid (pckReadLimit c.tags.read size)
  have hlimit : c.known.read = c.tags.read := rfl
  have hbytes : c.known.bytes = c.io.bytes := rfl
  unfold pckReadBuffer PackReadIo.pckReadBuffer
  dsimp only
  rw [hdata, hlimit, hbytes]
  by_cases hempty : 0 < size ∧ c.io.bytes.take (pckReadLimit c.tags.read size) = []
  · rw [if_pos hempty, if_pos hempty]
    rfl
  · rw [if_neg hempty, if_neg hempty]
    refine ⟨_, rfl, hvalid', ?_⟩
    unfold PackReadIo.known
    rw [hleft]

section

variable {α : Type} (cat : α → List UInt8 → Except Error α) (fuel size : ℕ) (result : α)

/-- **Chunks are read as if the bytes were known.** -/
theorem pckReadChunks_known (hvalid : c.io.Valid) :
    KnownRead (pckReadChunks cat fuel size result c.known)
      (c.pckReadChunks cat fuel size result) := by
  induction fuel generalizing size result c with
  | zero => exact ⟨c, rfl, hvalid, rfl⟩
  | succ fuel ih =>
    unfold pckReadChunks PackReadIo.pckReadChunks
    by_cases hsize : size = 0
    · rw [if_pos hsize, if_pos hsize]
      exact ⟨c, rfl, hvalid, rfl⟩
    · rw [if_neg hsize, if_neg hsize]
      have hbuffer := pckReadBuffer_known hvalid size
      cases hread : pckReadBuffer c.known size with
      | error error =>
        rw [hread] at hbuffer
        rw [show c.pckReadBuffer size = .error error from hbuffer]
        rfl
      | ok read =>
        obtain ⟨chunk, r'⟩ := read
        rw [hread] at hbuffer
        obtain ⟨c', hstream, hvalid', rfl⟩ := hbuffer
        rw [hstream, ok_bind, ok_bind]
        dsimp only
        cases hcat : cat result chunk with
        | error error => rfl
        | ok result' => exact ih _ result' hvalid'

/-- Less data than a tag says. -/
theorem pckReadChunks_short (r : PackRead) (hfuel : size ≤ fuel) (hshort : r.bytes.length < size) :
    ∃ error, pckReadChunks cat fuel size result r = .error error := by
  induction fuel generalizing size result r with
  | zero => omega
  | succ fuel ih =>
    have hlimitPos := pckReadLimit_pos r.read (Nat.zero_lt_of_lt hshort)
    unfold pckReadChunks pckReadBuffer
    rw [if_neg (Nat.ne_zero_of_lt hshort)]
    by_cases hempty : 0 < size ∧ r.bytes.take (pckReadLimit r.read size) = []
    · rw [if_pos hempty]
      exact ⟨_, rfl⟩
    · rw [if_neg hempty, ok_bind]
      dsimp only
      cases hcat : cat result (r.bytes.take (pckReadLimit r.read size)) with
      | error error => exact ⟨error, rfl⟩
      | ok result' =>
        have hne : r.bytes ≠ [] := by
          rintro hnil
          refine hempty ⟨Nat.zero_lt_of_lt hshort, ?_⟩
          rw [hnil, take_nil]
        have hpos := length_pos_of_ne_nil hne
        refine ih _ result' _ ?_ ?_
        · rw [length_take]
          omega
        · show (r.bytes.drop _).length < _
          rw [length_drop, length_take]
          omega

end

/-- **Data in chunks.** `Holds` says what the result is after some bytes were
read; up to `bound` bytes it can be made, in whatever chunks. -/
theorem SameRead.chunks (h : SameRead bufferSize rest r c) {α : Type} {cat : α → List UInt8 → Except Error α}
    (Holds : List UInt8 → α → Prop) (bound : ℕ)
    (hcat : ∀ read result chunk, Holds read result → (read ++ chunk).length ≤ bound →
      ∃ result', cat result chunk = .ok result' ∧ Holds (read ++ chunk) result')
    {start : α} (hstart : Holds [] start) (size : ℕ) (hsize : size ≤ r.bytes.length → size ≤ bound) :
    Follows rest
      (fun a b => (∃ read, Holds read a.1 ∧ Holds read b.1) ∧ SameRead bufferSize rest a.2 b.2)
      (pckReadChunks cat size size start r) (c.pckReadChunks cat size size start) := by
  have hknown := pckReadChunks_known cat size size start h.valid
  have hbytes : c.known.bytes = r.bytes ++ rest := h.bytes
  by_cases hlength : size ≤ r.bytes.length
  · have hbound := hsize hlength
    obtain ⟨result, hmemory, hread⟩ := pckReadChunks_ok Holds bound hcat size r (r.bytes.drop size)
      (r.bytes.take size) [] start hstart (by rw [length_take]; omega)
      (by rw [nil_append, length_take]; omega)
    obtain ⟨result', hstream, hread'⟩ :=
      pckReadChunks_ok Holds bound hcat size c.known (r.bytes.drop size ++ rest)
      (r.bytes.take size) [] start hstart (by rw [length_take]; omega)
      (by rw [nil_append, length_take]; omega)
    rw [length_take_of_le hlength] at hmemory hstream
    rw [take_append_drop] at hmemory
    rw [← append_assoc, take_append_drop, ← hbytes] at hstream
    rw [show pckReadChunks cat size size start c.known = _ from hstream] at hknown
    obtain ⟨c', hio, hvalid', hc'⟩ := hknown
    rw [show pckReadChunks cat size size start r = _ from hmemory, hio]
    refine .ok ⟨⟨_, hread, hread'⟩, .of_known h.memory ?_ hvalid' ?_⟩
    · have hread := congrArg PackRead.read hc'
      exact hread.trans h.stream
    · have hread := congrArg PackRead.read hc'
      have hread : c'.tags.read = c.tags.read := hread
      have hknown : c.known = { r with read := c.tags.read, bytes := c.io.bytes } := by
        show { c.tags with bytes := c.io.bytes } = _
        rw [h.tags]
      refine hc'.trans ?_
      rw [hread, hknown]
  · obtain ⟨error, hmemory⟩ :=
      pckReadChunks_short cat size size start r le_rfl (Nat.lt_of_not_le hlength)
    rw [hmemory]
    refine ⟨nofun, fun hrest _ _ => ?_⟩
    obtain ⟨error', hstream⟩ := pckReadChunks_short cat size size start c.known le_rfl (by
      rw [hbytes, hrest, append_nil]
      exact Nat.lt_of_not_le hlength)
    rw [hstream] at hknown
    exact ⟨error', hknown⟩

end Read

end PgxBackup
