import PgxBackup.VarInt

/-!
# The block map

A file that is backed up block by block has a map which says for each block
where it is stored: the backup (*reference*), the super block in it (by its
offset) and the number of the block inside of the super block, along with a
checksum. The map is written as a sequence of references, each with a
sequence of super blocks, each with a sequence of checksums. What can be
inferred from the last use of the same reference is left out.

Writer and reader keep the same information about the references seen so
far (`BlockMapReference`) and the size of the last super block.
-/

namespace PgxBackup

/-- Size of the checksum of an item (`XX_HASH_SIZE_MAX`). -/
def XX_HASH_SIZE_MAX : ℕ := 16

/-- Where a block is stored (`BlockMapItem`). -/
structure BlockMapItem where
  reference : ℕ
  superBlockSize : ℕ
  bundleId : ℕ
  offset : ℕ
  size : ℕ
  block : ℕ
  checksum : List UInt8
  deriving DecidableEq, Repr

/-- What is known of a reference, so that it need not be stored again
(`BlockMapReference`). -/
structure BlockMapReference where
  reference : ℕ
  superBlockSize : ℕ
  bundleId : ℕ
  offset : ℕ
  size : ℕ
  block : ℕ
  deriving DecidableEq, Repr

/-- Last reference, super block, etc. -/
def BLOCK_MAP_FLAG_LAST : ℕ := 1

def BLOCK_MAP_FLAG_OFFSET : ℕ := 4

def BLOCK_MAP_FLAG_BUNDLE_ID : ℕ := 2

/-- Reference continues a prior super block. -/
def BLOCK_MAP_FLAG_CONTINUE : ℕ := 2

/-- Continued super block is last for the reference. -/
def BLOCK_MAP_FLAG_CONTINUE_LAST : ℕ := 4

def BLOCK_MAP_REFERENCE_SHIFT : ℕ := 3

def BLOCK_MAP_FLAG_SUPER_BLOCK_SIZE_REMAINDER : ℕ := 1

def BLOCK_MAP_SUPER_BLOCK_SIZE_SHIFT : ℕ := 1

/-- The super block size has changed. -/
def BLOCK_MAP_FLAG_SUPER_BLOCK_CHANGE : ℕ := 2

/-- Block total and offset when not complete. -/
def BLOCK_MAP_FLAG_SUPER_BLOCK_TOTAL_OFFSET : ℕ := 4

def BLOCK_MAP_SUPER_BLOCK_SHIFT : ℕ := 3

def BLOCK_MAP_FLAG_BLOCK_TOTAL_OFFSET : ℕ := 1

def BLOCK_MAP_BLOCK_TOTAL_SHIFT : ℕ := 1

/-- The information about a reference, if it was seen before. -/
def refFind (refList : List BlockMapReference) (reference : ℕ) : Option BlockMapReference :=
  refList.find? (fun data => decide (data.reference = reference))

/-- Update the information about a reference or add it. -/
def refSet (refList : List BlockMapReference) (data : BlockMapReference) :
    List BlockMapReference :=
  if (refFind refList data.reference).isSome then
    refList.map (fun d => if d.reference = data.reference then data else d)
  else refList ++ [data]

/-- Number of blocks in a complete super block. -/
def superBlockTotal (blockSize superBlockSize : ℕ) : ℕ :=
  superBlockSize / blockSize + if superBlockSize % blockSize = 0 then 0 else 1

/-! ## Writing -/

/-- A flag that is set under a condition. -/
def flagIf (condition : Bool) (flag : ℕ) : ℕ := if condition then flag else 0

def referenceWithFlags (flags reference : ℕ) : ℕ :=
  flags ||| u32 (reference <<< BLOCK_MAP_REFERENCE_SHIFT)

/-- Write a value that is stored under a condition. -/
def ioWriteVarIntIf (condition : Bool) (value : ℕ) : Except Error (List UInt8) :=
  if condition then ioWriteVarIntU64 value else .ok []

def blockMapWriteSize (blockSize superBlockEncoded : ℕ) (superBlock : BlockMapItem)
    (referenceData : BlockMapReference) (sizeLast : ℤ) :
    Except Error (List UInt8 × BlockMapReference) := do
  let referenceData := { referenceData with
    offset := superBlock.offset, size := superBlock.size, block := 0 }
  let change := decide (superBlock.superBlockSize ≠ referenceData.superBlockSize)
  let superBlockEncoded := superBlockEncoded ||| flagIf change BLOCK_MAP_FLAG_SUPER_BLOCK_CHANGE
  let size ← ioWriteVarIntU64 (superBlockEncoded |||
    u64 ((if sizeLast = 0 then superBlock.size
      else cvtInt64ToZigZag (superBlock.size - sizeLast)) <<< BLOCK_MAP_SUPER_BLOCK_SHIFT))
  if change then
    let remainder := superBlock.superBlockSize % blockSize
    let superBlockSize ← ioWriteVarIntU64 (
      u64 ((superBlock.superBlockSize / blockSize) <<< BLOCK_MAP_SUPER_BLOCK_SIZE_SHIFT) |||
        flagIf (remainder ≠ 0) BLOCK_MAP_FLAG_SUPER_BLOCK_SIZE_REMAINDER)
    let superBlockRemainder ← ioWriteVarIntIf (remainder ≠ 0) remainder
    return (size ++ superBlockSize ++ superBlockRemainder,
      { referenceData with superBlockSize := superBlock.superBlockSize })
  else return (size, referenceData)

/-- Write the number of blocks and how many blocks are skipped, if the super
block does not include all blocks. -/
def blockMapWriteTotal (totalOffset : Bool) (blockTotal : ℕ) (superBlock : BlockMapItem)
    (referenceData : BlockMapReference) : Except Error (List UInt8 × BlockMapReference) := do
  if totalOffset then
    let gap := u64Sub superBlock.block referenceData.block
    let total ← ioWriteVarIntU64 (u32 ((blockTotal - 1) <<< BLOCK_MAP_BLOCK_TOTAL_SHIFT) |||
      flagIf (gap > 0) BLOCK_MAP_FLAG_BLOCK_TOTAL_OFFSET)
    let offset ← ioWriteVarIntIf (gap > 0) gap
    return (total ++ offset,
      if gap > 0 then { referenceData with block := superBlock.block } else referenceData)
  else return ([], referenceData)

/-- Write the checksums of the blocks after the first. -/
def blockMapWriteChecksum (checksumSize : ℕ) :
    BlockMapItem → List BlockMapItem → Except Error (List UInt8)
  | _, [] => .ok []
  | prior, block :: blocks => do
    ASSERT (block.block = u64 (prior.block + 1))
      "superBlock == block || block->block == blockPrior->block + 1"
    let checksums ← blockMapWriteChecksum checksumSize block blocks
    return block.checksum.take checksumSize ++ checksums

/-- Write a super block. When it is continued the reference has not been
written yet and its flags are given. -/
def blockMapWriteSuperBlock (blockSize checksumSize : ℕ) (reference : BlockMapItem)
    (referenceContinue : Option ℕ) (last : Bool) (superBlock : BlockMapItem)
    (blocks : List BlockMapItem) (referenceData : BlockMapReference) (sizeLast : ℤ) :
    Except Error (List UInt8 × BlockMapReference) := do
  let blockTotal := blocks.length + 1
  let totalOffset := referenceContinue.isSome || decide (superBlock.block ≠ 0) ||
    decide (blockTotal ≠ superBlockTotal blockSize superBlock.superBlockSize)
  let superBlockEncoded := flagIf last BLOCK_MAP_FLAG_LAST |||
    flagIf totalOffset BLOCK_MAP_FLAG_SUPER_BLOCK_TOTAL_OFFSET
  let (begin, referenceData) ←
    match referenceContinue with
    | some referenceEncoded => do
      ASSERT (superBlock.superBlockSize = referenceData.superBlockSize)
        "superBlock->superBlockSize == referenceData->superBlockSize"
      let begin ← ioWriteVarIntU64 (referenceWithFlags
        (referenceEncoded ||| flagIf last BLOCK_MAP_FLAG_CONTINUE_LAST) reference.reference)
      pure (begin, referenceData)
    | none => do
      ASSERT (reference.superBlockSize > 0) "reference->superBlockSize > 0"
      blockMapWriteSize blockSize superBlockEncoded superBlock referenceData sizeLast
  let (total, referenceData) ← blockMapWriteTotal totalOffset blockTotal superBlock referenceData
  ASSERT (superBlock.block ≥ referenceData.block) "superBlock->block >= referenceData->block"
  let checksums ← blockMapWriteChecksum checksumSize superBlock blocks
  return (begin ++ total ++ superBlock.checksum.take checksumSize ++ checksums,
    { referenceData with block := u64 (referenceData.block + blockTotal) })

/-- Write the super blocks of a reference. Only the first can be continued. -/
def blockMapWriteSuperBlocks (blockSize checksumSize : ℕ) (reference : BlockMapItem) :
    Option ℕ → List (List BlockMapItem) → BlockMapReference → ℤ →
      Except Error (List UInt8 × BlockMapReference × ℤ)
  | _, [], referenceData, sizeLast => .ok ([], referenceData, sizeLast)
  | _, [] :: _, referenceData, sizeLast => .ok ([], referenceData, sizeLast)
  | referenceContinue, (superBlock :: blocks) :: superBlocks, referenceData, sizeLast => do
    let (bytes, referenceData) ← blockMapWriteSuperBlock blockSize checksumSize reference
      referenceContinue superBlocks.isEmpty superBlock blocks referenceData sizeLast
    let (rest, referenceData, sizeLast) ← blockMapWriteSuperBlocks blockSize checksumSize
      reference none superBlocks referenceData superBlock.size
    return (bytes ++ rest, referenceData, sizeLast)

/-- Write what comes before the super blocks of a reference: nothing when a
super block is continued, since the flags depend on that super block. -/
def blockMapWriteReference (blockSize : ℕ) (refList : List BlockMapReference)
    (reference : BlockMapItem) (last : Bool) :
    Except Error (List UInt8 × Option ℕ × BlockMapReference) := do
  let referenceEncoded := flagIf last BLOCK_MAP_FLAG_LAST
  match refFind refList reference.reference with
  | none =>
    let bytes ← ioWriteVarIntU64 (referenceWithFlags (referenceEncoded |||
      flagIf (reference.bundleId > 0) BLOCK_MAP_FLAG_BUNDLE_ID |||
      flagIf (reference.offset > 0) BLOCK_MAP_FLAG_OFFSET) reference.reference)
    let bundleId ← ioWriteVarIntIf (reference.bundleId > 0) reference.bundleId
    let offset ← ioWriteVarIntIf (reference.offset > 0) reference.offset
    return (bytes ++ bundleId ++ offset, none,
      { reference := reference.reference
        superBlockSize := blockSize
        bundleId := reference.bundleId
        offset := reference.offset
        size := 0
        block := 0 })
  | some referenceData =>
    ASSERT (reference.bundleId = referenceData.bundleId)
      "reference->bundleId == referenceData->bundleId"
    ASSERT (reference.offset ≥ referenceData.offset)
      "reference->offset >= referenceData->offset"
    if reference.offset = referenceData.offset then
      ASSERT (reference.superBlockSize = referenceData.superBlockSize)
        "reference->superBlockSize == referenceData->superBlockSize"
      return ([], some (referenceEncoded ||| BLOCK_MAP_FLAG_CONTINUE), referenceData)
    else
      let expected := u64 (referenceData.offset + referenceData.size)
      let gap := decide (reference.offset > expected)
      let bytes ← ioWriteVarIntU64 (referenceWithFlags
        (referenceEncoded ||| flagIf gap BLOCK_MAP_FLAG_OFFSET) reference.reference)
      let offset ← ioWriteVarIntIf gap (reference.offset - expected)
      return (bytes ++ offset, none,
        { referenceData with offset := reference.offset, size := reference.size })

def superBlockRuns (items : List BlockMapItem) : List (List BlockMapItem) :=
  items.splitBy (fun a b => decide (a.offset = b.offset))

/-- Write a reference with the items up to the next one. -/
def blockMapWriteRun (blockSize checksumSize : ℕ) (refList : List BlockMapReference)
    (reference : BlockMapItem) (items : List BlockMapItem) (last : Bool) (sizeLast : ℤ) :
    Except Error (List UInt8 × BlockMapReference × ℤ) := do
  ASSERT (items.all (fun item => decide (reference.offset ≤ item.offset)))
    "reference->offset <= blockMapGet(this, referenceIdx)->offset"
  let (begin, referenceContinue, referenceData) ←
    blockMapWriteReference blockSize refList reference last
  let (bytes, referenceData, sizeLast) ← blockMapWriteSuperBlocks blockSize checksumSize
    reference referenceContinue (superBlockRuns (reference :: items)) referenceData sizeLast
  return (begin ++ bytes, referenceData, sizeLast)

/-- Write the references, each a run of items. -/
def blockMapWriteReferences (blockSize checksumSize : ℕ) :
    List (List BlockMapItem) → List BlockMapReference → ℤ → Except Error (List UInt8)
  | [], _, _ => .ok []
  | [] :: _, _, _ => .ok []
  | (reference :: items) :: references, refList, sizeLast => do
    let (bytes, referenceData, sizeLast) ← blockMapWriteRun blockSize checksumSize refList
      reference items references.isEmpty sizeLast
    let rest ← blockMapWriteReferences blockSize checksumSize references
      (refSet refList referenceData) sizeLast
    return bytes ++ rest

def referenceRuns (items : List BlockMapItem) : List (List BlockMapItem) :=
  items.splitBy (fun a b => decide (a.reference = b.reference))

/-- **Write the map** (`blockMapWrite`), as the bytes that are written. -/
def blockMapWrite (map : List BlockMapItem) (blockSize checksumSize : ℕ) :
    Except Error (List UInt8) := do
  ASSERT (map.length > 0) "blockMapSize(this) > 0"
  ASSERT (blockSize > 0) "blockSize > 0"
  let flags ← ioWriteVarIntU64 0
  let references ← blockMapWriteReferences blockSize checksumSize (referenceRuns map) [] 0
  return flags ++ references

/-! ## Reading -/

/-- What the reader keeps while it reads a reference. -/
structure BlockMapReadState where
  item : BlockMapItem
  referenceData : BlockMapReference
  sizeLast : ℤ
  deriving Repr

/-- Read a value that is stored under a condition. -/
def ioReadVarIntIf (condition : Bool) : IoRead ℕ :=
  if condition then ioReadVarIntU64 else pure 0

/-- Read the super block size if it has changed. -/
def blockMapReadSuperBlockSize (blockSize superBlockEncoded : ℕ) : IoRead (Option ℕ) := do
  if superBlockEncoded &&& BLOCK_MAP_FLAG_SUPER_BLOCK_CHANGE ≠ 0 then
    let superBlockSizeEncoded ← ioReadVarIntU64
    let superBlockSize := u64 ((superBlockSizeEncoded >>> BLOCK_MAP_SUPER_BLOCK_SIZE_SHIFT)
      * blockSize)
    let remainder ← ioReadVarIntIf
      (superBlockSizeEncoded &&& BLOCK_MAP_FLAG_SUPER_BLOCK_SIZE_REMAINDER ≠ 0)
    return some (u64 (superBlockSize + remainder))
  else return none

/-- Read the size of a super block; also returns its flags. -/
def blockMapReadSize (blockSize : ℕ) (superBlockFirst : Bool) (s : BlockMapReadState) :
    IoRead (ℕ × BlockMapReadState) := do
  let superBlockEncoded ← ioReadVarIntU64
  let size := superBlockEncoded >>> BLOCK_MAP_SUPER_BLOCK_SHIFT
  let size := if s.sizeLast ≠ 0 then u64Cast (cvtInt64FromZigZag size + s.sizeLast) else size
  let superBlockSize ← blockMapReadSuperBlockSize blockSize superBlockEncoded
  let offset :=
    if superBlockFirst then s.item.offset
    else u64 (s.referenceData.offset + u64Cast s.sizeLast)
  return (superBlockEncoded,
    { s with
      item := { s.item with
        size := size, superBlockSize := superBlockSize.getD s.item.superBlockSize }
      referenceData := { s.referenceData with
        superBlockSize := superBlockSize.getD s.referenceData.superBlockSize
        offset := offset, size := size, block := 0 } })

/-- Read the flags of a super block, and its size unless it is continued. -/
def blockMapReadBegin (blockSize referenceEncoded : ℕ) (referenceContinue superBlockFirst : Bool)
    (s : BlockMapReadState) : IoRead (ℕ × BlockMapReadState) :=
  if referenceContinue then
    pure (flagIf (referenceEncoded &&& BLOCK_MAP_FLAG_CONTINUE_LAST ≠ 0) BLOCK_MAP_FLAG_LAST |||
      BLOCK_MAP_FLAG_SUPER_BLOCK_TOTAL_OFFSET, s)
  else blockMapReadSize blockSize superBlockFirst s

/-- Read or calculate the number of blocks; also returns the number of the
first block. -/
def blockMapReadTotal (blockSize superBlockEncoded superBlockSize block : ℕ) :
    IoRead (ℕ × ℕ) := do
  if superBlockEncoded &&& BLOCK_MAP_FLAG_SUPER_BLOCK_TOTAL_OFFSET ≠ 0 then
    let blockTotalEncoded ← ioReadVarIntU64
    let offset ← ioReadVarIntIf (blockTotalEncoded &&& BLOCK_MAP_FLAG_BLOCK_TOTAL_OFFSET ≠ 0)
    return ((blockTotalEncoded >>> BLOCK_MAP_BLOCK_TOTAL_SHIFT) + 1, u64 (block + offset))
  else return (superBlockTotal blockSize superBlockSize, block)

/-- Copy bytes to the start of a buffer. -/
def memcpy (dest src : List UInt8) : List UInt8 := src ++ dest.drop src.length

def blockMapReadChecksum (checksumSize : ℕ) :
    ℕ → ℕ → BlockMapItem → IoRead (List BlockMapItem × BlockMapItem)
  | 0, _, item => pure ([], item)
  | blockTotal + 1, block, item => do
    let checksum ← ioRead checksumSize
    let item := { item with block := u64 block, checksum := memcpy item.checksum checksum }
    let (items, itemLast) ← blockMapReadChecksum checksumSize blockTotal (block + 1) item
    return (item :: items, itemLast)

/-- Read a super block; also returns if it is the last of the reference. -/
def blockMapReadSuperBlock (blockSize checksumSize referenceEncoded : ℕ)
    (referenceContinue superBlockFirst : Bool) (s : BlockMapReadState) :
    IoRead (List BlockMapItem × BlockMapReadState × Bool) := do
  let (superBlockEncoded, s) ←
    blockMapReadBegin blockSize referenceEncoded referenceContinue superBlockFirst s
  let (blockTotal, block) ← blockMapReadTotal blockSize superBlockEncoded
    s.item.superBlockSize s.referenceData.block
  let (items, item) ← blockMapReadChecksum checksumSize blockTotal block s.item
  return (items,
    { item := { item with offset := u64 (item.offset + item.size) }
      referenceData := { s.referenceData with block := u64 (block + blockTotal) }
      sizeLast := i64 item.size },
    superBlockEncoded &&& BLOCK_MAP_FLAG_LAST ≠ 0)

/-- Read super blocks until the last of the reference. Each takes at least
one byte, which bounds the number of rounds. -/
def blockMapReadSuperBlocks (blockSize checksumSize referenceEncoded : ℕ) :
    ℕ → Bool → Bool → BlockMapReadState → IoRead (List BlockMapItem × BlockMapReadState)
  | 0, _, _, _ => throw ⟨.fileReadError, "unexpected eof".toList⟩
  | rounds + 1, referenceContinue, superBlockFirst, s => do
    let (items, s, last) ← blockMapReadSuperBlock blockSize checksumSize referenceEncoded
      referenceContinue superBlockFirst s
    if last then return (items, s)
    else
      let (rest, s) ← blockMapReadSuperBlocks blockSize checksumSize referenceEncoded rounds
        false false s
      return (items ++ rest, s)

def BlockMapItem.empty (reference superBlockSize bundleId offset size : ℕ) : BlockMapItem :=
  { reference, superBlockSize, bundleId, offset, size, block := 0,
    checksum := List.replicate XX_HASH_SIZE_MAX 0 }

/-- Read what comes before the super blocks of a reference; also returns if
a super block is continued. -/
def blockMapReadReference (blockSize : ℕ) (refList : List BlockMapReference)
    (referenceEncoded : ℕ) : IoRead (Bool × BlockMapItem × BlockMapReference) := do
  let reference := u32 (referenceEncoded >>> BLOCK_MAP_REFERENCE_SHIFT)
  match refFind refList reference with
  | none =>
    let bundleId ← ioReadVarIntIf (referenceEncoded &&& BLOCK_MAP_FLAG_BUNDLE_ID ≠ 0)
    let offset ← ioReadVarIntIf (referenceEncoded &&& BLOCK_MAP_FLAG_OFFSET ≠ 0)
    return (false, .empty reference blockSize bundleId offset 0,
      ⟨reference, blockSize, bundleId, offset, 0, 0⟩)
  | some data =>
    if referenceEncoded &&& BLOCK_MAP_FLAG_CONTINUE ≠ 0 then
      return (true, .empty reference data.superBlockSize data.bundleId data.offset data.size, data)
    else
      let gap ← ioReadVarIntIf (referenceEncoded &&& BLOCK_MAP_FLAG_OFFSET ≠ 0)
      let offset := u64 (data.offset + data.size + gap)
      return (false, .empty reference data.superBlockSize data.bundleId offset 0,
        { data with offset := offset })

def blockMapReadRun (blockSize checksumSize rounds : ℕ) (refList : List BlockMapReference)
    (referenceEncoded : ℕ) (sizeLast : ℤ) : IoRead (List BlockMapItem × BlockMapReadState) := do
  let (referenceContinue, item, referenceData) ←
    blockMapReadReference blockSize refList referenceEncoded
  blockMapReadSuperBlocks blockSize checksumSize referenceEncoded rounds referenceContinue true
    ⟨item, referenceData, sizeLast⟩

/-- Read references until the last one. Each takes at least one byte, which
bounds the number of rounds. -/
def blockMapReadReferences (blockSize checksumSize : ℕ) :
    ℕ → List BlockMapReference → ℤ → IoRead (List BlockMapItem)
  | 0, _, _ => throw ⟨.fileReadError, "unexpected eof".toList⟩
  | rounds + 1, refList, sizeLast => do
    let referenceEncoded ← ioReadVarIntU64
    let (items, s) ← blockMapReadRun blockSize checksumSize rounds refList referenceEncoded
      sizeLast
    if referenceEncoded &&& BLOCK_MAP_FLAG_LAST ≠ 0 then return items
    else
      let rest ← blockMapReadReferences blockSize checksumSize rounds
        (refSet refList s.referenceData) s.sizeLast
      return items ++ rest

/-- **Read a map** (`blockMapNewRead`). -/
def blockMapNewRead (blockSize checksumSize : ℕ) : IoRead (List BlockMapItem) := do
  let flags ← ioReadVarIntU64
  if flags &&& 1 ≠ 0 then
    throw ⟨.formatError, "block map version must be zero".toList⟩
  let stream ← get
  blockMapReadReferences blockSize checksumSize stream.length [] 0

end PgxBackup
