import PgxBackup.BlockChain

/-!
# Restore of a block incremental file

The map of the last backup is compared with the checksums of the blocks that
the file has now. Blocks that differ are read from the repository: per
reference, super blocks that follow each other are read at once, and of each
super block the blocks that are needed are taken out in order. Each block is
written at its place in the file.

Offsets and sizes of stored super blocks are sums of plain numbers: a file of the
repository has less than 2^64 bytes, so they do not wrap.
-/

namespace PgxBackup

open Chunks

/-- A block to take out of a super block (`BlockDeltaBlock`). -/
structure BlockDeltaBlock where
  no : ℕ
  offset : ℕ
  checksum : List UInt8
  deriving DecidableEq, Repr

/-- A super block to read (`BlockDeltaSuperBlock`). -/
structure BlockDeltaSuperBlock where
  superBlockSize : ℕ
  size : ℕ
  blockList : List BlockDeltaBlock
  deriving DecidableEq, Repr

/-- A read of super blocks that follow each other (`BlockDeltaRead`). -/
structure BlockDeltaRead where
  reference : ℕ
  bundleId : ℕ
  offset : ℕ
  size : ℕ
  superBlockList : List BlockDeltaSuperBlock
  deriving DecidableEq, Repr

/-- A block to write at an offset of the file (`BlockDeltaWrite`). -/
structure BlockDeltaWrite where
  offset : ℕ
  block : List UInt8
  deriving DecidableEq, Repr

/-- The checksums of the blocks of a file (`blockChecksumProcess` and
`blockChecksumResult`), one after the other. -/
def blockChecksum (pipe : BlockPipe) (blockSize checksumSize : ℕ) (content : List UInt8) :
    List UInt8 :=
  (chunks blockSize content).flatMap (xxHashOne pipe checksumSize)

/-! ## What to read -/

/-- Must the block be updated? It is beyond the blocks that exist in the
checksum list, or the checksums differ. -/
def blockNeeded (checksumSize : ℕ) (blockChecksum : Option (List UInt8)) (blockMapIdx : ℕ)
    (item : BlockMapItem) : Bool :=
  match blockChecksum with
  | none => true
  | some list =>
    decide (blockMapIdx ≥ u32 (list.length / checksumSize)) ||
      decide (item.checksum.take checksumSize
        ≠ (list.drop (blockMapIdx * checksumSize)).take checksumSize)

/-- The blocks of a reference, by their number in the map
(`BlockDeltaReference`). -/
structure BlockDeltaReference where
  reference : ℕ
  blockList : List (ℕ × BlockMapItem)

def referenceListAdd (referenceList : List BlockDeltaReference) (block : ℕ × BlockMapItem) :
    List BlockDeltaReference :=
  if referenceList.any (fun data => decide (data.reference = block.2.reference)) then
    referenceList.map (fun data =>
      if data.reference = block.2.reference then
        { data with blockList := data.blockList ++ [block] }
      else data)
  else referenceList ++ [⟨block.2.reference, [block]⟩]

/-- The references with their blocks, in descending order. -/
def referenceList (checksumSize : ℕ) (blockMap : List BlockMapItem)
    (blockChecksum : Option (List UInt8)) : List BlockDeltaReference :=
  (((blockMap.zipIdx.map Prod.swap).filter
      (fun block => blockNeeded checksumSize blockChecksum block.1 block.2)).foldl
        referenceListAdd []).mergeSort (fun a b => decide (b.reference ≤ a.reference))

/-- Does a block belong to the read of the block before? -/
def sameRead (a b : ℕ × BlockMapItem) : Bool :=
  decide (a.2.offset = b.2.offset) || decide (a.2.offset + a.2.size = b.2.offset)

/-- Does a block belong to the super block of the block before? -/
def sameSuperBlock (a b : ℕ × BlockMapItem) : Bool := decide (a.2.offset = b.2.offset)

def blockDeltaSuperBlock (blockSize : ℕ) : List (ℕ × BlockMapItem) → Option BlockDeltaSuperBlock
  | [] => none
  | block :: blocks => some
    { superBlockSize := block.2.superBlockSize
      size := block.2.size
      blockList := (block :: blocks).map (fun b =>
        { no := b.2.block, offset := u64 (b.1 * blockSize), checksum := b.2.checksum }) }

def blockDeltaRead (blockSize : ℕ) : List (ℕ × BlockMapItem) → Option BlockDeltaRead
  | [] => none
  | block :: blocks =>
    let superBlockList := ((block :: blocks).splitBy sameSuperBlock).filterMap
      (blockDeltaSuperBlock blockSize)
    some
      { reference := block.2.reference
        bundleId := block.2.bundleId
        offset := block.2.offset
        size := (superBlockList.map BlockDeltaSuperBlock.size).sum
        superBlockList := superBlockList }

/-- **What to read** (`blockDeltaNew`). -/
def blockDeltaNew (blockMap : List BlockMapItem) (blockSize checksumSize : ℕ)
    (blockChecksum : Option (List UInt8)) : List BlockDeltaRead :=
  (referenceList checksumSize blockMap blockChecksum).flatMap (fun data =>
    (data.blockList.splitBy sameRead).filterMap (blockDeltaRead blockSize))

/-! ## Reading -/

/-- Find required blocks in the super block. Also returns what is left of
it. The last required block stays when there are no more. -/
def findBlocks (blockSize : ℕ) : ℕ → ℕ → List BlockDeltaBlock → List UInt8 →
    List BlockDeltaWrite × List UInt8
  | 0, _, _, content => ([], content)
  | rounds + 1, blockIdx, blockList, content =>
    let block := content.take blockSize
    let rest := content.drop blockSize
    match blockList with
    | [] => findBlocks blockSize rounds (blockIdx + 1) [] rest
    | blockData :: next =>
      if blockIdx = blockData.no then
        let found := findBlocks blockSize rounds (blockIdx + 1)
          (if next = [] then [blockData] else next) rest
        (⟨blockData.offset, block⟩ :: found.1, found.2)
      else findBlocks blockSize rounds (blockIdx + 1) (blockData :: next) rest

def readSuperBlock (pipe : BlockPipe) (blockSize : ℕ) (superBlockData : BlockDeltaSuperBlock)
    (bytes : List UInt8) : Except Error (List BlockDeltaWrite) := do
  let content ← pipe.decode bytes
  let blockTotal := u32 (u32 (superBlockData.superBlockSize / blockSize)
    + if superBlockData.superBlockSize % blockSize = 0 then 0 else 1)
  let (writes, rest) := findBlocks blockSize blockTotal 0 superBlockData.blockList content
  if rest ≠ [] then
    throw ⟨.fileReadError, "expected EOF but flushed ".toList ++ (Nat.repr rest.length).toList
      ++ " byte(s)".toList⟩
  return writes

/-- **The blocks of a read** (`blockDeltaNext`, called until there is none
left), super block by super block. -/
def blockDeltaNext (pipe : BlockPipe) (blockSize : ℕ) :
    List BlockDeltaSuperBlock → List UInt8 → Except Error (List BlockDeltaWrite)
  | [], _ => .ok []
  | superBlockData :: superBlockList, readIo => do
    let writes ← readSuperBlock pipe blockSize superBlockData (readIo.take superBlockData.size)
    let rest ← blockDeltaNext pipe blockSize superBlockList (readIo.drop superBlockData.size)
    return writes ++ rest

/-! ## Writing -/

/-- Write a block at an offset. A gap at the end of the file is filled with
zeros; without a block nothing is written. -/
def writeAt (file : List UInt8) (write : BlockDeltaWrite) : List UInt8 :=
  if write.block = [] then file
  else (file ++ List.replicate (write.offset - file.length) 0).take write.offset ++ write.block
    ++ file.drop (write.offset + write.block.length)

/-- Read and write the blocks of all reads. -/
def blockDeltaApply (pipe : BlockPipe) (blockSize : ℕ) (file : ℕ → ℕ → List UInt8) :
    List BlockDeltaRead → List UInt8 → Except Error (List UInt8)
  | [], pgFile => .ok pgFile
  | read :: reads, pgFile => do
    let readIo := ((file read.reference read.bundleId).drop read.offset).take read.size
    let writes ← blockDeltaNext pipe blockSize read.superBlockList readIo
    blockDeltaApply pipe blockSize file reads (writes.foldl writeAt pgFile)

/-- **Restore a file** that was backed up block by block (`restoreFile`).
The existing file is cut to the size of the backup; when there is none, or
nothing in it, there are no checksums and the file starts empty. -/
def restoreFile (pipe : BlockPipe) (blockSize checksumSize : ℕ) (repo : BlockRepo) (size : ℕ)
    (pgFile : Option (List UInt8)) : Except Error (List UInt8) := do
  let pgFile := (pgFile.getD []).take size
  let checksum := if pgFile = [] then none else some (blockChecksum pipe blockSize checksumSize pgFile)
  match ← repo.readMap pipe with
  | none => throw ⟨.fileReadError, "unexpected eof".toList⟩
  | some bytes =>
    let (blockMap, _) ← (blockMapNewRead blockSize checksumSize).run bytes
    blockDeltaApply pipe blockSize repo.file
      (blockDeltaNew blockMap blockSize checksumSize checksum) pgFile

end PgxBackup
