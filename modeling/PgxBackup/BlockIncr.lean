import PgxBackup.BlockMap
import PgxBackup.Chunks

/-!
# Block incremental backup of a file

The filter cuts a file into blocks and compares the checksum of each with
the map of the prior backup. A block that is the same becomes a reference to
where it is stored; a block that is new or has changed is added to the
current super block. A super block is closed when it is large enough or at
the end of the file. Its stored size is known only then, so the items of its
blocks are updated at that time. At the end the new map is written, unless
nothing has changed.

Checksums, compression and encryption are parameters (`BlockPipe`). A super
block may be stored differently each time (encryption uses a salt), hence
the reference and the offset among the arguments.
-/

namespace PgxBackup

open Chunks

/-- The filters that a block goes through when it is backed up and
restored. -/
structure BlockPipe where
  /-- The 128-bit xxHash of a block. -/
  xxHash : List UInt8 → List UInt8
  /-- Compress and encrypt a super block. -/
  encode : ℕ → ℕ → List UInt8 → List UInt8
  /-- Decrypt and decompress a super block. -/
  decode : List UInt8 → Except Error (List UInt8)
  /-- Encrypt a map. -/
  encodeMap : ℕ → List UInt8 → List UInt8
  /-- Decrypt a map. -/
  decodeMap : List UInt8 → Except Error (List UInt8)

/-- `xxHashOne`: the first bytes of the hash. -/
def xxHashOne (pipe : BlockPipe) (size : ℕ) (message : List UInt8) : List UInt8 :=
  (pipe.xxHash message).take size

/-- The fields of `BlockIncr` that do not change. -/
structure BlockIncrParam where
  superBlockSize : ℕ
  blockSize : ℕ
  checksumSize : ℕ
  reference : ℕ
  bundleId : ℕ
  bundleOffset : ℕ
  blockMapPrior : Option (List BlockMapItem)
  deriving Repr

/-- `blockIncrNew`: the super block size is rounded up to whole blocks and
the prior map is read. -/
def blockIncrNew (superBlockSize blockSize checksumSize reference bundleId bundleOffset : ℕ)
    (blockMapPrior : Option (List UInt8)) : Except Error BlockIncrParam := do
  let param := fun prior : Option (List BlockMapItem) =>
    { superBlockSize := u64 (superBlockTotal blockSize superBlockSize * blockSize)
      blockSize, checksumSize, reference, bundleId, bundleOffset, blockMapPrior := prior }
  match blockMapPrior with
  | none => return param none
  | some bytes =>
    let (map, _) ← (blockMapNewRead blockSize checksumSize).run bytes
    return param (some map)

/-! ## Blocks and super blocks -/

/-- The fields of `BlockIncr` that change from block to block. -/
structure BlockIncrState where
  blockNo : ℕ
  superBlockNo : ℕ
  blockOffset : ℕ
  /-- What was written to the super block, if one is open. -/
  blockOutWrite : Option (List UInt8)
  blockOutList : List ℕ
  blockOutSize : ℕ
  blockMapOut : List BlockMapItem
  blockMapWrite : Bool
  deriving Repr

/-- The state before the first block. -/
def BlockIncrState.new (param : BlockIncrParam) : BlockIncrState :=
  { blockNo := 0
    superBlockNo := 0
    blockOffset := param.bundleOffset
    blockOutWrite := none
    blockOutList := []
    blockOutSize := 0
    blockMapOut := []
    blockMapWrite := false }

/-- The item of a block that is new or has changed. Its size is not known
yet. -/
def BlockIncrState.item (param : BlockIncrParam) (s : BlockIncrState) (checksum : List UInt8) :
    BlockMapItem :=
  { reference := param.reference
    superBlockSize := param.superBlockSize
    bundleId := param.bundleId
    offset := s.blockOffset
    size := 0
    block := s.superBlockNo
    checksum := memcpy (List.replicate XX_HASH_SIZE_MAX 0) checksum }

/-- Does the block exist in the prior map? -/
def BlockIncrState.itemIn (param : BlockIncrParam) (s : BlockIncrState) : Option BlockMapItem :=
  match param.blockMapPrior with
  | some prior => prior[s.blockNo]?
  | none => none

def BlockIncrState.writeBlock (param : BlockIncrParam) (s : BlockIncrState)
    (block checksum : List UInt8) : BlockIncrState :=
  { s with
    blockOutWrite := some (s.blockOutWrite.getD [] ++ block)
    blockOutList := s.blockOutList ++ [s.blockMapOut.length]
    blockOutSize := u64 (s.blockOutSize + block.length)
    blockMapOut := s.blockMapOut ++ [s.item param checksum]
    superBlockNo := u64 (s.superBlockNo + 1)
    blockNo := u32 (s.blockNo + 1) }

/-- Write a reference to the block in the prior backup. -/
def BlockIncrState.keepBlock (s : BlockIncrState) (itemIn : BlockMapItem) : BlockIncrState :=
  { s with
    blockMapOut := s.blockMapOut ++ [itemIn]
    blockNo := u32 (s.blockNo + 1) }

/-- **Add a block to the map.** -/
def BlockIncrState.addBlock (pipe : BlockPipe) (param : BlockIncrParam) (s : BlockIncrState)
    (block : List UInt8) : BlockIncrState :=
  let checksum := xxHashOne pipe param.checksumSize block
  match s.itemIn param with
  | none => s.writeBlock param block checksum
  | some itemIn =>
    if itemIn.checksum.take param.checksumSize ≠ checksum then s.writeBlock param block checksum
    else s.keepBlock itemIn

/-- Update size and super block size for items already added to the map. -/
def updateSize (size superBlockSize : ℕ) (map : List BlockMapItem) (blockOutList : List ℕ) :
    List BlockMapItem :=
  blockOutList.foldl (fun map idx => map.modify idx
    (fun item => { item with size := size, superBlockSize := superBlockSize })) map

/-- **Write the super block** when it is complete; also returns what is
written. -/
def BlockIncrState.writeSuperBlock (pipe : BlockPipe) (param : BlockIncrParam) (done : Bool)
    (s : BlockIncrState) : BlockIncrState × List UInt8 :=
  match s.blockOutWrite with
  | none => (s, [])
  | some content =>
    if done || decide (s.blockOutSize ≥ param.superBlockSize) then
      let out := pipe.encode param.reference s.blockOffset content
      ({ s with
          blockMapOut := updateSize out.length s.blockOutSize s.blockMapOut s.blockOutList
          blockOutWrite := none
          blockOutList := []
          blockOffset := u64 (s.blockOffset + out.length)
          blockOutSize := 0
          superBlockNo := 0
          blockMapWrite := true }, out)
    else (s, [])

/-- Is the map written? There are new or changed blocks, or the file has
fewer blocks than before. -/
def BlockIncrState.mapNeeded (param : BlockIncrParam) (s : BlockIncrState) : Bool :=
  s.blockMapWrite ||
    match param.blockMapPrior with
    | some prior => decide (s.blockMapOut.length < prior.length)
    | none => false

def BlockIncrState.mapBytes (pipe : BlockPipe) (param : BlockIncrParam) (s : BlockIncrState) :
    Except Error (List UInt8) := do
  let bytes ← PgxBackup.blockMapWrite s.blockMapOut param.blockSize param.checksumSize
  return pipe.encodeMap param.reference bytes

/-! ## A whole file -/

def blockIncrBlock (pipe : BlockPipe) (param : BlockIncrParam)
    (run : BlockIncrState × List UInt8) (block : List UInt8) : BlockIncrState × List UInt8 :=
  let (s, out) := (run.1.addBlock pipe param block).writeSuperBlock pipe param false
  (s, run.2 ++ out)

/-- The blocks of a file, with the super blocks that are written. -/
def blockIncrBlocks (pipe : BlockPipe) (param : BlockIncrParam) (content : List UInt8) :
    BlockIncrState × List UInt8 :=
  (chunks param.blockSize content).foldl (blockIncrBlock pipe param) (.new param, [])

theorem blockIncrBlocks_append {pipe : BlockPipe} {param : BlockIncrParam} {full : List UInt8}
    {k : ℕ} (hsize : 0 < param.blockSize) (hfull : full.length = k * param.blockSize)
    (content : List UInt8) :
    blockIncrBlocks pipe param (full ++ content)
      = (chunks param.blockSize content).foldl (blockIncrBlock pipe param)
          (blockIncrBlocks pipe param full) := by
  unfold blockIncrBlocks
  rw [chunks_append_of_length hsize hfull, List.foldl_append]

theorem blockIncrBlocks_concat {pipe : BlockPipe} {param : BlockIncrParam} {full : List UInt8}
    {k : ℕ} (hsize : 0 < param.blockSize) (hfull : full.length = k * param.blockSize)
    {block : List UInt8} (hne : block ≠ []) (hle : block.length ≤ param.blockSize) :
    blockIncrBlocks pipe param (full ++ block)
      = blockIncrBlock pipe param (blockIncrBlocks pipe param full) block := by
  rw [blockIncrBlocks_append hsize hfull, chunks_singleton hsize hne hle]
  rfl

/-- The end of the file: the last super block. -/
def blockIncrEnd (pipe : BlockPipe) (param : BlockIncrParam) (content : List UInt8) :
    BlockIncrState × List UInt8 :=
  let run := blockIncrBlocks pipe param content
  let (s, out) := run.1.writeSuperBlock pipe param true
  (s, run.2 ++ out)

/-- What is left of a backup of a file. -/
structure BlockIncrResult where
  /-- What is stored: the super blocks, then the map if it is written. -/
  out : List UInt8
  /-- The map if it is written, and its size as stored. -/
  map : Option (List BlockMapItem × ℕ)
  deriving Repr

/-- **Back up a file.** -/
def blockIncr (pipe : BlockPipe) (param : BlockIncrParam) (content : List UInt8) :
    Except Error BlockIncrResult := do
  let (s, out) := blockIncrEnd pipe param content
  if s.mapNeeded param then
    let bytes ← s.mapBytes pipe param
    return { out := out ++ bytes, map := some (s.blockMapOut, bytes.length) }
  else return { out := out, map := none }

end PgxBackup
