import PgxBackup.BlockIncr

/-!
# What the block incremental filter leaves

The filter goes through a file block by block. What holds between two blocks
(`RunInv`): the map has an item for each block so far; an item is either the
one of the prior map at the same position or an item of this backup, whose
block is found in the super block that it names – in the file if the super
block was written, else in the super block that is still open. Items of this
backup are in the order of the blocks.
-/

namespace PgxBackup

open List Chunks

/-! ## What is assumed of the filters and of the sizes -/

/-- **What the filters do**: something is written for a super block, at most
twice its size and a bit, and the restore side gets it back. -/
structure PipeValid (pipe : BlockPipe) : Prop where
  xxHash : ∀ m, (pipe.xxHash m).length = XX_HASH_SIZE_MAX
  encode_ne : ∀ r o c, c ≠ [] → pipe.encode r o c ≠ []
  encode_le : ∀ r o c, (pipe.encode r o c).length ≤ 2 * c.length + 2 ^ 16
  decode_encode : ∀ r o c, pipe.decode (pipe.encode r o c) = .ok c
  decodeMap_encodeMap : ∀ r m, pipe.decodeMap (pipe.encodeMap r m) = .ok m

/-- The sizes that a backup of a file can have. -/
structure SizeValid (param : BlockIncrParam) (content : List UInt8) : Prop where
  blockSize : 0 < param.blockSize
  checksumSize : param.checksumSize ≤ XX_HASH_SIZE_MAX
  reference : param.reference < 2 ^ 29
  bundleId : param.bundleId < 2 ^ 64
  bundleOffset : param.bundleOffset < 2 ^ 63
  size : content.length < 2 ^ 57
  blocks : total param.blockSize content.length ≤ 2 ^ 31

/-! ## Items -/

/-- The order of two items of the same reference. -/
def Later (a b : BlockMapItem) : Prop :=
  if a.offset = b.offset then
    a.size = b.size ∧ a.superBlockSize = b.superBlockSize ∧ a.block < b.block
  else a.offset + a.size ≤ b.offset

/-- Two items of the same reference next to each other. -/
def Touches (a b : BlockMapItem) : Prop :=
  if a.offset = b.offset then b.block = a.block + 1
  else b.offset = a.offset + a.size ∧ b.block = 0

section Order

variable {a b : BlockMapItem}

theorem later_same (hoffset : a.offset = b.offset) (hsize : a.size = b.size)
    (hsbs : a.superBlockSize = b.superBlockSize) (hblock : a.block < b.block) : Later a b := by
  unfold Later
  rw [if_pos hoffset]
  exact ⟨hsize, hsbs, hblock⟩

theorem later_behind (hoffset : a.offset ≠ b.offset) (hle : a.offset + a.size ≤ b.offset) :
    Later a b := by
  unfold Later
  rw [if_neg hoffset]
  exact hle

theorem touches_same (hoffset : a.offset = b.offset) (hblock : b.block = a.block + 1) :
    Touches a b := by
  unfold Touches
  rw [if_pos hoffset]
  exact hblock

theorem touches_behind (hoffset : a.offset ≠ b.offset) (hend : b.offset = a.offset + a.size)
    (hblock : b.block = 0) : Touches a b := by
  unfold Touches
  rw [if_neg hoffset]
  exact ⟨hend, hblock⟩

end Order

/-- **The block of an item is stored** in a file: the bytes at its offset are
a super block that has it at its number. -/
structure ItemStored (pipe : BlockPipe) (blockSize : ℕ) (file : List UInt8) (x : BlockMapItem)
    (block superBlock : List UInt8) : Prop where
  superBlock_ne : superBlock ≠ []
  superBlockSize : x.superBlockSize = superBlock.length
  size : x.size = (pipe.encode x.reference x.offset superBlock).length
  inside : x.offset + x.size ≤ file.length
  bytes : (file.drop x.offset).take x.size = pipe.encode x.reference x.offset superBlock
  block_lt : x.block < total blockSize superBlock.length
  block : chunk blockSize superBlock x.block = block

theorem ItemStored.append {pipe : BlockPipe} {blockSize : ℕ} {file : List UInt8}
    {x : BlockMapItem} {block superBlock : List UInt8}
    (h : ItemStored pipe blockSize file x block superBlock) (more : List UInt8) :
    ItemStored pipe blockSize (file ++ more) x block superBlock := by
  refine ⟨h.superBlock_ne, h.superBlockSize, h.size, ?_, ?_, h.block_lt, h.block⟩
  · rw [length_append]
    exact le_trans h.inside (Nat.le_add_right _ _)
  · have hinside := h.inside
    rw [drop_append_of_le_length (by omega), take_append_of_le_length, h.bytes]
    rw [length_drop]
    omega

/-- An item of the open super block. -/
structure ItemOpen (param : BlockIncrParam) (s : BlockIncrState) (x : BlockMapItem)
    (block superBlock : List UInt8) : Prop where
  blockOutWrite : s.blockOutWrite = some superBlock
  offset : x.offset = s.blockOffset
  size : x.size = 0
  superBlockSize : x.superBlockSize = param.superBlockSize
  block_lt : x.block < s.superBlockNo
  block : chunk param.blockSize superBlock x.block = block

/-- An item of a super block that was written. -/
structure ItemClosed (pipe : BlockPipe) (param : BlockIncrParam) (file : List UInt8)
    (s : BlockIncrState) (x : BlockMapItem) (block superBlock : List UInt8) : Prop where
  stored : ItemStored pipe param.blockSize file x block superBlock
  size_lt : superBlock.length < 2 ^ 57
  blocks_le : total param.blockSize superBlock.length ≤ 2 ^ 31
  blockMapWrite : s.blockMapWrite = true

/-! ## The invariant -/

/-- **What holds between two blocks.** -/
structure RunInv (pipe : BlockPipe) (param : BlockIncrParam) (prior : List BlockMapItem)
    (content file : List UInt8) (s : BlockIncrState) : Prop where
  length : s.blockMapOut.length = total param.blockSize content.length
  blockNo : s.blockNo = s.blockMapOut.length
  offset : s.blockOffset = file.length
  checksum : ∀ (i : ℕ) (x : BlockMapItem), s.blockMapOut[i]? = some x →
    x.checksum.take param.checksumSize
      = xxHashOne pipe param.checksumSize (chunk param.blockSize content i)
  old : ∀ (i : ℕ) (x : BlockMapItem), s.blockMapOut[i]? = some x → x.reference ≠ param.reference → prior[i]? = some x
  new : ∀ (i : ℕ) (x : BlockMapItem), s.blockMapOut[i]? = some x → x.reference = param.reference →
    x.bundleId = param.bundleId ∧
    x.checksum = memcpy (replicate XX_HASH_SIZE_MAX 0)
      (x.checksum.take param.checksumSize) ∧
    ∃ superBlock, ItemOpen param s x (chunk param.blockSize content i) superBlock ∨
      ItemClosed pipe param file s x (chunk param.blockSize content i) superBlock
  later : ∀ (i j : ℕ) (a b : BlockMapItem), i < j → s.blockMapOut[i]? = some a → s.blockMapOut[j]? = some b →
    a.reference = param.reference → b.reference = param.reference → Later a b
  touches : ∀ (i : ℕ) (a b : BlockMapItem), s.blockMapOut[i]? = some a → s.blockMapOut[i + 1]? = some b →
    a.reference = param.reference → b.reference = param.reference → Touches a b
  last : ∀ (i : ℕ) (a : BlockMapItem), i + 1 = s.blockMapOut.length → s.blockMapOut[i]? = some a →
    a.reference = param.reference →
    a.offset = s.blockOffset ∧ a.block + 1 = s.superBlockNo ∨
      a.offset + a.size = s.blockOffset ∧ a.offset ≠ s.blockOffset ∧ s.superBlockNo = 0
  outList : ∀ (i : ℕ) (x : BlockMapItem), s.blockMapOut[i]? = some x →
    (i ∈ s.blockOutList ↔ x.reference = param.reference ∧ x.offset = s.blockOffset)
  outList_lt : ∀ i ∈ s.blockOutList, i < s.blockMapOut.length
  closed : s.blockOutWrite = none → s.superBlockNo = 0 ∧ s.blockOutSize = 0 ∧ s.blockOutList = []
  opened : ∀ superBlock, s.blockOutWrite = some superBlock → superBlock ≠ [] ∧
    superBlock.length = s.blockOutSize ∧ superBlock.length ≤ content.length ∧
    s.superBlockNo = total param.blockSize superBlock.length ∧
    (content.length % param.blockSize = 0 →
      superBlock.length = s.superBlockNo * param.blockSize)
  space : file.length + 2 * s.blockOutSize + (if s.blockOutWrite = none then 0 else 2 ^ 16)
    ≤ param.bundleOffset + 2 * content.length + 2 ^ 16 * s.blockMapOut.length

section Step

variable {pipe : BlockPipe} {param : BlockIncrParam} {prior : List BlockMapItem}
variable {content file block : List UInt8} {s : BlockIncrState}

variable {i k : ℕ} {x : BlockMapItem}

theorem getElem?_concat {α : Type} {l : List α} {a b : α}
    (h : (l ++ [a])[i]? = some b) : l[i]? = some b ∨ i = l.length ∧ b = a := by
  rcases Nat.lt_trichotomy i l.length with hlt | heq | hgt
  · rw [getElem?_append_left hlt] at h
    exact .inl h
  · rw [heq, getElem?_append_right le_rfl, Nat.sub_self] at h
    exact .inr ⟨heq, by simpa using h.symm⟩
  · rw [getElem?_eq_none (by rw [length_append, length_singleton]; omega)] at h
    cases h

theorem RunInv.nil (hfile : file.length = param.bundleOffset) :
    RunInv pipe param prior [] file (.new param) where
  length := by simp [BlockIncrState.new, total]
  blockNo := rfl
  offset := hfile.symm
  checksum := fun i x h => by simp [BlockIncrState.new] at h
  old := fun i x h => by simp [BlockIncrState.new] at h
  new := fun i x h => by simp [BlockIncrState.new] at h
  later := fun i j a b _ h => by simp [BlockIncrState.new] at h
  touches := fun i a b h => by simp [BlockIncrState.new] at h
  last := fun i a _ h => by simp [BlockIncrState.new] at h
  outList := fun i x h => by simp [BlockIncrState.new] at h
  outList_lt := fun i h => by simp [BlockIncrState.new] at h
  closed := fun _ => ⟨rfl, rfl, rfl⟩
  opened := fun superBlock h => by simp [BlockIncrState.new] at h
  space := by simp [BlockIncrState.new, hfile]

section

variable (h : RunInv pipe param prior content file s) (hparam : 0 < param.blockSize)
  (hcontent : content.length = k * param.blockSize)
include h hparam hcontent

theorem RunInv.chunk_eq (hx : s.blockMapOut[i]? = some x) (block : List UInt8) :
    chunk param.blockSize (content ++ block) i = chunk param.blockSize content i := by
  refine chunk_append_left hcontent ?_
  have hlt := (List.getElem?_eq_some_iff.mp hx).1
  rw [h.length, hcontent, total_mul hparam] at hlt
  exact hlt

theorem RunInv.total_append (hne : block ≠ []) (hle : block.length ≤ param.blockSize) :
    total param.blockSize (content ++ block).length = s.blockMapOut.length + 1 := by
  rw [h.length, length_append, hcontent,
    total_add hparam k (length_pos_iff.mpr hne) hle, total_mul hparam]

/-- **A block that is the same as before.** -/
theorem RunInv.keepBlock {x₀ : BlockMapItem} (hne : block ≠ [])
    (hle : block.length ≤ param.blockSize)
    (hblocks : total param.blockSize (content ++ block).length ≤ 2 ^ 31)
    (hprior : prior[s.blockNo]? = some x₀) (href : x₀.reference ≠ param.reference)
    (hchecksum : x₀.checksum.take param.checksumSize
      = xxHashOne pipe param.checksumSize block) :
    RunInv pipe param prior (content ++ block) file (s.keepBlock x₀) := by
  have htotal := h.total_append hparam hcontent hne hle
  have hlast : chunk param.blockSize (content ++ block) s.blockMapOut.length = block := by
    have hk : s.blockMapOut.length = k := by rw [h.length, hcontent, total_mul hparam]
    rw [hk]
    exact chunk_append_right hcontent hle
  have hmap : (s.keepBlock x₀).blockMapOut = s.blockMapOut ++ [x₀] := rfl
  refine
    { length := ?_, blockNo := ?_, offset := h.offset, checksum := ?_, old := ?_, new := ?_
      later := ?_, touches := ?_, last := ?_, outList := ?_, outList_lt := ?_
      closed := h.closed, opened := ?_, space := ?_ }
  · rw [hmap, length_append, length_singleton, htotal]
  · show u32 (s.blockNo + 1) = _
    rw [hmap, length_append, length_singleton, h.blockNo, u32_of_lt (by omega)]
  · intro i x hx
    rcases getElem?_concat hx with hx | ⟨rfl, rfl⟩
    · rw [h.chunk_eq hparam hcontent hx]
      exact h.checksum i x hx
    · rw [hlast]
      exact hchecksum
  · intro i x hx hxref
    rcases getElem?_concat hx with hx | ⟨rfl, rfl⟩
    · exact h.old i x hx hxref
    · rw [← h.blockNo]
      exact hprior
  · intro i x hx hxref
    rcases getElem?_concat hx with hx | ⟨rfl, rfl⟩
    · obtain ⟨hbundle, hchecksum, superBlock, hopen | hclosed⟩ := h.new i x hx hxref
      · refine ⟨hbundle, hchecksum, superBlock, .inl ?_⟩
        rw [h.chunk_eq hparam hcontent hx]
        exact ⟨hopen.1, hopen.2, hopen.3, hopen.4, hopen.5, hopen.6⟩
      · refine ⟨hbundle, hchecksum, superBlock, .inr ?_⟩
        rw [h.chunk_eq hparam hcontent hx]
        exact ⟨hclosed.1, hclosed.2, hclosed.3, hclosed.4⟩
    · exact absurd hxref href
  · intro i j a b hij ha hb haref hbref
    rcases getElem?_concat hb with hb | ⟨rfl, rfl⟩
    · rcases getElem?_concat ha with ha | ⟨rfl, rfl⟩
      · exact h.later i j a b hij ha hb haref hbref
      · exact absurd haref href
    · exact absurd hbref href
  · intro i a b ha hb haref hbref
    rcases getElem?_concat hb with hb | ⟨_, rfl⟩
    · rcases getElem?_concat ha with ha | ⟨_, rfl⟩
      · exact h.touches i a b ha hb haref hbref
      · exact absurd haref href
    · exact absurd hbref href
  · intro i a hi ha haref
    rcases getElem?_concat ha with ha | ⟨_, rfl⟩
    · have hlt := (List.getElem?_eq_some_iff.mp ha).1
      rw [hmap, length_append, length_singleton] at hi
      omega
    · exact absurd haref href
  · intro i x hx
    rcases getElem?_concat hx with hx | ⟨hi, rfl⟩
    · exact h.outList i x hx
    · constructor
      · intro hmem
        exact absurd (h.outList_lt i hmem) (by omega)
      · intro hxref
        exact absurd hxref.1 href
  · intro i hi
    rw [hmap, length_append, length_singleton]
    exact Nat.lt_succ_of_lt (h.outList_lt i hi)
  · intro superBlock hsuper
    obtain ⟨hsne, hsize, hslen, hno, hwhole⟩ := h.opened superBlock hsuper
    refine ⟨hsne, hsize, ?_, hno, fun _ => hwhole ?_⟩
    · rw [length_append]
      omega
    · rw [hcontent]
      exact Nat.mul_mod_left _ _
  · have hspace := h.space
    rw [hmap, length_append, length_append, length_singleton]
    show file.length + 2 * s.blockOutSize + (if s.blockOutWrite = none then 0 else 2 ^ 16) ≤ _
    omega

end

theorem RunInv.superBlock (h : RunInv pipe param prior content file s)
    (hcontent : content.length = k * param.blockSize) :
    (s.blockOutWrite.getD []).length = s.blockOutSize ∧
      (s.blockOutWrite.getD []).length ≤ content.length ∧
      (s.blockOutWrite.getD []).length = s.superBlockNo * param.blockSize := by
  cases hwrite : s.blockOutWrite with
  | none =>
    obtain ⟨hno, hsize, -⟩ := h.closed hwrite
    simp [hno, hsize]
  | some superBlock =>
    obtain ⟨-, hsize, hslen, -, hwhole⟩ := h.opened superBlock hwrite
    exact ⟨hsize, hslen, hwhole (by rw [hcontent]; exact Nat.mul_mod_left _ _)⟩

theorem length_xxHashOne (hpipe : PipeValid pipe) {size : ℕ} (hsize : size ≤ XX_HASH_SIZE_MAX)
    (message : List UInt8) : (xxHashOne pipe size message).length = size := by
  unfold xxHashOne
  rw [length_take, hpipe.xxHash, Nat.min_eq_left hsize]

theorem take_memcpy {dest src : List UInt8} {n : ℕ} (h : src.length = n) :
    (memcpy dest src).take n = src := by
  unfold memcpy
  rw [← h, take_left]

theorem ItemStored.size_pos (hpipe : PipeValid pipe) {blockSize : ℕ}
    {block superBlock : List UInt8} (h : ItemStored pipe blockSize file x block superBlock) :
    0 < x.size := by
  rw [h.size]
  exact length_pos_iff.mpr (hpipe.encode_ne _ _ _ h.superBlock_ne)

theorem RunInv.later_item (hpipe : PipeValid pipe) (h : RunInv pipe param prior content file s)
    {a : BlockMapItem} (ha : s.blockMapOut[i]? = some a)
    (href : a.reference = param.reference) (checksum : List UInt8) :
    Later a (s.item param checksum) := by
  obtain ⟨-, -, superBlock, hopen | hclosed⟩ := h.new i a ha href
  · exact later_same hopen.offset hopen.size hopen.superBlockSize hopen.block_lt
  · have hinside := hclosed.stored.inside
    have hpos := hclosed.stored.size_pos hpipe
    have hle : a.offset + a.size ≤ s.blockOffset := by
      rw [h.offset]
      exact hinside
    exact later_behind (show a.offset ≠ s.blockOffset by omega) hle

theorem RunInv.touches_item (h : RunInv pipe param prior content file s)
    {a : BlockMapItem} (hi : i + 1 = s.blockMapOut.length) (ha : s.blockMapOut[i]? = some a)
    (href : a.reference = param.reference) (checksum : List UInt8) :
    Touches a (s.item param checksum) := by
  rcases h.last i a hi ha href with ⟨hoffset, hblock⟩ | ⟨hend, hoffset, hno⟩
  · exact touches_same hoffset hblock.symm
  · exact touches_behind hoffset hend.symm hno

/-- **A block that is new or has changed.** -/
theorem RunInv.writeBlock (hpipe : PipeValid pipe)
    (h : RunInv pipe param prior content file s) (hparam : 0 < param.blockSize)
    (hcs : param.checksumSize ≤ XX_HASH_SIZE_MAX)
    (hcontent : content.length = k * param.blockSize) (hne : block ≠ [])
    (hle : block.length ≤ param.blockSize)
    (hblocks : total param.blockSize (content ++ block).length ≤ 2 ^ 31)
    (hsize : (content ++ block).length < 2 ^ 57) :
    RunInv pipe param prior (content ++ block) file
      (s.writeBlock param block (xxHashOne pipe param.checksumSize block)) := by
  have htotal := h.total_append hparam hcontent hne hle
  have hk : s.blockMapOut.length = k := by rw [h.length, hcontent, total_mul hparam]
  have hlast : chunk param.blockSize (content ++ block) s.blockMapOut.length = block := by
    rw [hk]
    exact chunk_append_right hcontent hle
  obtain ⟨hsuperSize, hsuperLe, hsuperWhole⟩ := h.superBlock hcontent
  have hpos := length_pos_iff.mpr hne
  rw [length_append] at hsize
  -- the counters do not overflow
  have hoversize : u64 (s.blockOutSize + block.length) = s.blockOutSize + block.length :=
    u64_of_lt (by omega)
  have hno : s.superBlockNo ≤ s.blockMapOut.length := by
    rw [hk]
    refine Nat.le_of_mul_le_mul_right ?_ hparam
    omega
  have hoverno : u64 (s.superBlockNo + 1) = s.superBlockNo + 1 := u64_of_lt (by omega)
  generalize hs : s.writeBlock param block (xxHashOne pipe param.checksumSize block) = s'
  have hmap : s'.blockMapOut
      = s.blockMapOut ++ [s.item param (xxHashOne pipe param.checksumSize block)] := by
    rw [← hs]
    rfl
  have hwrite : s'.blockOutWrite = some (s.blockOutWrite.getD [] ++ block) := by
    rw [← hs]
    rfl
  have hoffset : s'.blockOffset = s.blockOffset := by
    rw [← hs]
    rfl
  have hsno : s'.superBlockNo = s.superBlockNo + 1 := by
    rw [← hs]
    exact hoverno
  have hssize : s'.blockOutSize = s.blockOutSize + block.length := by
    rw [← hs]
    exact hoversize
  have hlist : s'.blockOutList = s.blockOutList ++ [s.blockMapOut.length] := by
    rw [← hs]
    rfl
  have hmapWrite : s'.blockMapWrite = s.blockMapWrite := by
    rw [← hs]
    rfl
  -- the items of the open super block stay in it
  have hopened : ∀ i x superBlock, s.blockMapOut[i]? = some x →
      ItemOpen param s x (chunk param.blockSize content i) superBlock →
      ItemOpen param s' x (chunk param.blockSize content i) (s.blockOutWrite.getD [] ++ block) := by
    intro i x superBlock hx hopen
    refine ⟨hwrite, hopen.offset.trans hoffset.symm, hopen.size, hopen.superBlockSize, ?_, ?_⟩
    · rw [hsno]
      exact Nat.lt_succ_of_lt hopen.block_lt
    · rw [chunk_append_left hsuperWhole hopen.block_lt]
      rw [hopen.blockOutWrite]
      exact hopen.block
  have hcsLen := length_xxHashOne hpipe hcs block
  refine
    { length := ?_, blockNo := ?_, offset := hoffset.trans h.offset, checksum := ?_, old := ?_
      new := ?_, later := ?_, touches := ?_, last := ?_, outList := ?_, outList_lt := ?_
      closed := ?_, opened := ?_, space := ?_ }
  · rw [hmap, length_append, length_singleton, htotal]
  · rw [← hs]
    show u32 (s.blockNo + 1) = (s.blockMapOut ++ [_]).length
    rw [length_append, length_singleton, h.blockNo, u32_of_lt (by omega)]
  · intro i x hx
    rw [hmap] at hx
    rcases getElem?_concat hx with hx | ⟨rfl, rfl⟩
    · rw [h.chunk_eq hparam hcontent hx]
      exact h.checksum i x hx
    · rw [hlast]
      exact take_memcpy hcsLen
  · intro i x hx hxref
    rw [hmap] at hx
    rcases getElem?_concat hx with hx | ⟨rfl, rfl⟩
    · exact h.old i x hx hxref
    · exact absurd rfl hxref
  · intro i x hx hxref
    rw [hmap] at hx
    rcases getElem?_concat hx with hx | ⟨rfl, rfl⟩
    · rw [h.chunk_eq hparam hcontent hx]
      obtain ⟨hbundle, hchecksum, superBlock, hopen | hclosed⟩ := h.new i x hx hxref
      · exact ⟨hbundle, hchecksum, _, .inl (hopened i x superBlock hx hopen)⟩
      · exact ⟨hbundle, hchecksum, superBlock, .inr ⟨hclosed.1, hclosed.2, hclosed.3,
          hmapWrite.trans hclosed.4⟩⟩
    · refine ⟨rfl, ?_, _, .inl ⟨hwrite, hoffset.symm, rfl, rfl, ?_, ?_⟩⟩
      · show memcpy _ _ = memcpy _ ((memcpy _ _).take _)
        rw [take_memcpy hcsLen]
      · rw [hsno]
        exact Nat.lt_succ_self _
      · rw [hlast]
        exact chunk_append_right hsuperWhole hle
  · intro i j a b hij ha hb haref hbref
    rw [hmap] at ha hb
    rcases getElem?_concat ha with ha | ⟨hi, rfl⟩
    · rcases getElem?_concat hb with hb | ⟨_, rfl⟩
      · exact h.later i j a b hij ha hb haref hbref
      · exact h.later_item hpipe ha haref _
    · have hlt := (List.getElem?_eq_some_iff.mp hb).1
      rw [length_append, length_singleton] at hlt
      omega
  · intro i a b ha hb haref hbref
    rw [hmap] at ha hb
    rcases getElem?_concat hb with hb | ⟨hi, rfl⟩
    · have hlt := (List.getElem?_eq_some_iff.mp hb).1
      rcases getElem?_concat ha with ha | ⟨hi, _⟩
      · exact h.touches i a b ha hb haref hbref
      · omega
    · rcases getElem?_concat ha with ha | ⟨hi', _⟩
      · exact h.touches_item hi ha haref _
      · omega
  · intro i a hi ha haref
    rw [hmap] at hi ha
    rw [length_append, length_singleton] at hi
    rcases getElem?_concat ha with ha | ⟨_, rfl⟩
    · have hlt := (List.getElem?_eq_some_iff.mp ha).1
      omega
    · refine .inl ⟨hoffset.symm, ?_⟩
      rw [hsno]
      rfl
  · intro i x hx
    rw [hmap] at hx
    rw [hlist, hoffset, mem_append, mem_singleton]
    rcases getElem?_concat hx with hx | ⟨hi, rfl⟩
    · have hlt := (List.getElem?_eq_some_iff.mp hx).1
      rw [← h.outList i x hx]
      exact ⟨fun hmem => hmem.resolve_right (by omega), .inl⟩
    · exact ⟨fun _ => ⟨rfl, rfl⟩, fun _ => .inr hi⟩
  · intro i hi
    rw [hlist, mem_append, mem_singleton] at hi
    rw [hmap, length_append, length_singleton]
    rcases hi with hi | hi
    · exact Nat.lt_succ_of_lt (h.outList_lt i hi)
    · omega
  · intro hnone
    rw [hwrite] at hnone
    cases hnone
  · intro superBlock hsuper
    rw [hwrite] at hsuper
    obtain rfl : s.blockOutWrite.getD [] ++ block = superBlock := by simpa using hsuper
    rw [hssize, hsno, length_append, length_append]
    refine ⟨by simp [hne], by omega, by omega, ?_, fun hwhole => ?_⟩
    · rw [hsuperWhole, total_add hparam _ hpos hle]
    · have hfull : block.length = param.blockSize := by
        have hmod : block.length % param.blockSize = 0 := by
          rw [hcontent, Nat.add_comm, Nat.add_mul_mod_self_right] at hwhole
          exact hwhole
        exact le_antisymm hle (Nat.le_of_dvd hpos (Nat.dvd_of_mod_eq_zero hmod))
      rw [hsuperWhole, hfull, Nat.succ_mul]
  · have hspace := h.space
    rw [hmap, hssize, hwrite, if_neg (by simp), length_append, length_append,
      length_singleton]
    split at hspace <;> omega

/-! ## Closing a super block -/

def BlockMapItem.setSize (size superBlockSize : ℕ) (x : BlockMapItem) : BlockMapItem :=
  { x with size := size, superBlockSize := superBlockSize }

section

variable (size superBlockSize : ℕ) (map : List BlockMapItem) (blockOutList : List ℕ)

theorem getElem?_updateSize (i : ℕ) :
    (updateSize size superBlockSize map blockOutList)[i]?
      = if i ∈ blockOutList then map[i]?.map (BlockMapItem.setSize size superBlockSize)
        else map[i]? := by
  unfold updateSize
  induction blockOutList generalizing map with
  | nil => rfl
  | cons j blockOutList ih =>
    rw [foldl_cons, ih, getElem?_modify]
    by_cases hij : j = i
    · rw [if_pos (mem_cons.mpr (.inl hij.symm))]
      cases map[i]? with
      | none => simp
      | some x =>
        simp only [hij, Option.map_eq_map, if_true, Option.map_some]
        split
        · rfl
        · rfl
    · have hmem : i ∈ j :: blockOutList ↔ i ∈ blockOutList := by
        rw [mem_cons]
        exact ⟨fun h => h.resolve_left (Ne.symm hij), .inr⟩
      simp only [hmem, hij, if_false, Option.map_eq_map, Option.map_id']

theorem length_updateSize :
    (updateSize size superBlockSize map blockOutList).length = map.length := by
  unfold updateSize
  induction blockOutList generalizing map with
  | nil => rfl
  | cons j blockOutList ih => rw [foldl_cons, ih, length_modify]

end

/-- The items of the open super block get their size. -/
theorem RunInv.updateSize_cases (h : RunInv pipe param prior content file s)
    {size superBlockSize : ℕ} {y : BlockMapItem}
    (hy : (updateSize size superBlockSize s.blockMapOut s.blockOutList)[i]? = some y) :
    ∃ x, s.blockMapOut[i]? = some x ∧
      (x.reference = param.reference ∧ x.offset = s.blockOffset ∧
          y = x.setSize size superBlockSize ∨
        ¬(x.reference = param.reference ∧ x.offset = s.blockOffset) ∧ y = x) := by
  rw [getElem?_updateSize] at hy
  split at hy
  · rename_i hmem
    obtain ⟨x, hx, rfl⟩ := Option.map_eq_some_iff.mp hy
    have hopen := (h.outList i x hx).mp hmem
    exact ⟨x, hx, .inl ⟨hopen.1, hopen.2, rfl⟩⟩
  · rename_i hmem
    exact ⟨y, hy, .inr ⟨fun hopen => hmem ((h.outList i y hy).mpr hopen), rfl⟩⟩

/-- An item of this backup is open exactly when it is at the current
offset. -/
theorem RunInv.open_of_offset (hpipe : PipeValid pipe)
    (h : RunInv pipe param prior content file s)
    (hx : s.blockMapOut[i]? = some x) (href : x.reference = param.reference)
    (hoffset : x.offset = s.blockOffset) :
    ∃ superBlock, ItemOpen param s x (chunk param.blockSize content i) superBlock := by
  obtain ⟨-, -, superBlock, hopen | hclosed⟩ := h.new i x hx href
  · exact ⟨superBlock, hopen⟩
  · have hinside := hclosed.stored.inside
    have hpos := hclosed.stored.size_pos hpipe
    rw [hoffset, h.offset] at hinside
    omega

theorem RunInv.offset_le (h : RunInv pipe param prior content file s)
    (hx : s.blockMapOut[i]? = some x) (href : x.reference = param.reference) :
    x.offset ≤ s.blockOffset := by
  obtain ⟨-, -, superBlock, hopen | hclosed⟩ := h.new i x hx href
  · exact hopen.offset.le
  · have hinside := hclosed.stored.inside
    rw [h.offset]
    omega

section

variable (hpipe : PipeValid pipe) (h : RunInv pipe param prior content file s)
include hpipe h

/-- **A super block is written.** -/
theorem RunInv.closeSuperBlock (hparam : 0 < param.blockSize)
    (hbundle : param.bundleOffset < 2 ^ 63) (hsize : content.length < 2 ^ 57)
    (hblocks : total param.blockSize content.length ≤ 2 ^ 31) {superBlock : List UInt8}
    (hwrite : s.blockOutWrite = some superBlock) {s' : BlockIncrState} {out : List UInt8}
    (hout : out = pipe.encode param.reference s.blockOffset superBlock) (hs' : s' = { s with
      blockMapOut := updateSize out.length s.blockOutSize s.blockMapOut s.blockOutList
      blockOutWrite := none
      blockOutList := []
      blockOffset := u64 (s.blockOffset + out.length)
      blockOutSize := 0
      superBlockNo := 0
      blockMapWrite := true }) : RunInv pipe param prior content (file ++ out) s' := by
  obtain ⟨hsne, hssize, hslen, hsno, -⟩ := h.opened superBlock hwrite
  have houtpos : 0 < out.length := by
    rw [hout]
    exact length_pos_iff.mpr (hpipe.encode_ne _ _ _ hsne)
  have houtle : out.length ≤ 2 * superBlock.length + 2 ^ 16 := by
    rw [hout]
    exact hpipe.encode_le _ _ _
  have hspace := h.space
  rw [if_neg (by rw [hwrite]; simp)] at hspace
  have hlength := h.length
  have hoffset : s'.blockOffset = s.blockOffset + out.length := by
    rw [hs']
    show u64 (s.blockOffset + out.length) = _
    refine u64_of_lt ?_
    rw [h.offset]
    omega
  have hmap : s'.blockMapOut
      = updateSize out.length s.blockOutSize s.blockMapOut s.blockOutList := by
    rw [hs']
  have hlen : s'.blockMapOut.length = s.blockMapOut.length := by
    rw [hmap, length_updateSize]
  have hpos : 0 < s.superBlockNo := by
    rw [hsno, lt_total_iff hparam, Nat.zero_mul]
    exact length_pos_iff.mpr hsne
  -- an open item is now stored
  have hstored : ∀ i x, s.blockMapOut[i]? = some x → x.reference = param.reference →
      x.offset = s.blockOffset →
      ItemStored pipe param.blockSize (file ++ out) (x.setSize out.length s.blockOutSize)
        (chunk param.blockSize content i) superBlock := by
    intro i x hx href hxoffset
    obtain ⟨superBlock', hopen⟩ := h.open_of_offset hpipe hx href hxoffset
    obtain rfl : superBlock = superBlock' := by
      have heq := hopen.blockOutWrite
      rw [hwrite] at heq
      exact Option.some.inj heq
    have hencode : pipe.encode x.reference x.offset superBlock = out := by
      rw [href, hxoffset, ← hout]
    have hxfile : x.offset = file.length := hxoffset.trans h.offset
    refine ⟨hsne, hssize.symm, ?_, ?_, ?_, ?_, hopen.block⟩
    · show out.length = (pipe.encode x.reference x.offset superBlock).length
      rw [hencode]
    · show x.offset + out.length ≤ (file ++ out).length
      rw [hxfile, length_append]
    · show ((file ++ out).drop x.offset).take out.length = pipe.encode x.reference x.offset superBlock
      rw [hencode, hxfile, drop_left, take_length]
    · rw [← hsno]
      exact hopen.block_lt
  refine
    { length := hlen.trans h.length, blockNo := ?_, offset := ?_, checksum := ?_, old := ?_
      new := ?_, later := ?_, touches := ?_, last := ?_, outList := ?_, outList_lt := ?_
      closed := ?_, opened := ?_, space := ?_ }
  · rw [hlen, hs']
    exact h.blockNo
  · rw [hoffset, h.offset, length_append]
  · intro i y hy
    rw [hmap] at hy
    obtain ⟨x, hx, ⟨-, -, rfl⟩ | ⟨-, rfl⟩⟩ := h.updateSize_cases hy
    · exact h.checksum i x hx
    · exact h.checksum i _ hx
  · intro i y hy hyref
    rw [hmap] at hy
    obtain ⟨x, hx, ⟨href, -, rfl⟩ | ⟨-, rfl⟩⟩ := h.updateSize_cases hy
    · exact absurd href hyref
    · exact h.old i _ hx hyref
  · intro i y hy hyref
    rw [hmap] at hy
    obtain ⟨x, hx, ⟨href, hxoffset, rfl⟩ | ⟨hno, rfl⟩⟩ := h.updateSize_cases hy
    · obtain ⟨hxbundle, hxchecksum, -⟩ := h.new i x hx href
      refine ⟨hxbundle, hxchecksum, superBlock, .inr ⟨hstored i x hx href hxoffset, ?_, ?_, ?_⟩⟩
      · omega
      · exact le_trans (total_mono hparam hslen) hblocks
      · rw [hs']
    · obtain ⟨hxbundle, hxchecksum, superBlock', hopen | hclosed⟩ := h.new i _ hx hyref
      · exact absurd ⟨hyref, hopen.offset⟩ hno
      · refine ⟨hxbundle, hxchecksum, superBlock', .inr
          ⟨hclosed.stored.append out, hclosed.size_lt, hclosed.blocks_le, ?_⟩⟩
        rw [hs']
  · intro i j a' b' hij ha' hb' haref hbref
    rw [hmap] at ha' hb'
    obtain ⟨a, ha, hcasea⟩ := h.updateSize_cases ha'
    obtain ⟨b, hb, hcaseb⟩ := h.updateSize_cases hb'
    rcases hcasea with ⟨haref', haoffset, rfl⟩ | ⟨hano, rfl⟩
    · rcases hcaseb with ⟨hbref', hboffset, rfl⟩ | ⟨hbno, rfl⟩
      · have hlater := h.later i j a b hij ha hb haref' hbref'
        unfold Later at hlater
        rw [if_pos (haoffset.trans hboffset.symm)] at hlater
        exact later_same (haoffset.trans hboffset.symm) rfl rfl hlater.2.2
      · -- an item that comes later is not before the open super block
        have hlater := h.later i j a _ hij ha hb haref' hbref
        have hne : a.offset ≠ b'.offset := fun heq =>
          hbno ⟨hbref, heq.symm.trans haoffset⟩
        unfold Later at hlater
        rw [if_neg hne] at hlater
        have hle := h.offset_le hb hbref
        omega
    · rcases hcaseb with ⟨hbref', hboffset, rfl⟩ | ⟨hbno, rfl⟩
      · have hlater := h.later i j _ b hij ha hb haref hbref'
        have hne : a'.offset ≠ b.offset := fun heq => hano ⟨haref, heq.trans hboffset⟩
        unfold Later at hlater
        rw [if_neg hne] at hlater
        exact later_behind hne hlater
      · exact h.later i j _ _ hij ha hb haref hbref
  · intro i a' b' ha' hb' haref hbref
    rw [hmap] at ha' hb'
    obtain ⟨a, ha, hcasea⟩ := h.updateSize_cases ha'
    obtain ⟨b, hb, hcaseb⟩ := h.updateSize_cases hb'
    rcases hcasea with ⟨haref', haoffset, rfl⟩ | ⟨hano, rfl⟩
    · obtain ⟨_, hopen⟩ := h.open_of_offset hpipe ha haref' haoffset
      have hoffsetEq : ∀ c, s.blockMapOut[i + 1]? = some c → c.reference = param.reference →
          a.offset = c.offset ∧ c.block = a.block + 1 := by
        intro c hc hcref
        have htouch := h.touches i a c ha hc haref' hcref
        unfold Touches at htouch
        split at htouch
        · exact ⟨by assumption, htouch⟩
        · rename_i hne
          rw [hopen.size, Nat.add_zero] at htouch
          exact absurd htouch.1.symm hne
      rcases hcaseb with ⟨hbref', hboffset, rfl⟩ | ⟨hbno, rfl⟩
      · have hnext := hoffsetEq b hb hbref'
        exact touches_same hnext.1 hnext.2
      · have hnext := hoffsetEq _ hb hbref
        exact absurd ⟨hbref, hnext.1.symm.trans haoffset⟩ hbno
    · rcases hcaseb with ⟨hbref', hboffset, rfl⟩ | ⟨hbno, rfl⟩
      · have htouch := h.touches i _ b ha hb haref hbref'
        have hne : a'.offset ≠ b.offset := fun heq => hano ⟨haref, heq.trans hboffset⟩
        unfold Touches at htouch
        rw [if_neg hne] at htouch
        exact touches_behind hne htouch.1 htouch.2
      · exact h.touches i _ _ ha hb haref hbref
  · intro i a' hi ha' haref
    rw [hlen] at hi
    rw [hmap] at ha'
    obtain ⟨a, ha, ⟨haref', haoffset, rfl⟩ | ⟨hano, rfl⟩⟩ := h.updateSize_cases ha'
    · refine .inr ⟨?_, ?_, ?_⟩
      · show a.offset + out.length = _
        rw [hoffset, haoffset]
      · show a.offset ≠ _
        rw [hoffset, haoffset]
        omega
      · rw [hs']
    · rcases h.last i _ hi ha haref with hlast | hlast
      · exact absurd ⟨haref, hlast.1⟩ hano
      · omega
  · intro i y hy
    rw [hmap] at hy
    have hnil : s'.blockOutList = [] := by rw [hs']
    rw [hnil, hoffset]
    refine ⟨fun hmem => absurd hmem not_mem_nil, fun hopen => ?_⟩
    obtain ⟨x, hx, ⟨href, hxoffset, rfl⟩ | ⟨-, rfl⟩⟩ := h.updateSize_cases hy
    · have hbad : x.offset = s.blockOffset + out.length := hopen.2
      omega
    · have hle := h.offset_le hx hopen.1
      omega
  · intro i hi
    rw [hs'] at hi
    cases hi
  · intro _
    rw [hs']
    exact ⟨rfl, rfl, rfl⟩
  · intro c hc
    rw [hs'] at hc
    cases hc
  · have hnone : s'.blockOutWrite = none := by rw [hs']
    have hzero : s'.blockOutSize = 0 := by rw [hs']
    rw [hnone, hzero, hlen, length_append, if_pos rfl]
    omega

/-- **After a block** the super block is written when it is complete, or
when the file is done. -/
theorem RunInv.writeSuperBlock (hsizes : SizeValid param content) (done : Bool) :
    RunInv pipe param prior content (file ++ (s.writeSuperBlock pipe param done).2)
      (s.writeSuperBlock pipe param done).1 := by
  unfold BlockIncrState.writeSuperBlock
  cases hwrite : s.blockOutWrite with
  | none =>
    rw [append_nil]
    exact h
  | some superBlock =>
    dsimp only
    by_cases hclose : (done || decide (s.blockOutSize ≥ param.superBlockSize)) = true
    · rw [if_pos hclose]
      exact h.closeSuperBlock hpipe hsizes.blockSize hsizes.bundleOffset hsizes.size hsizes.blocks
        hwrite rfl rfl
    · rw [if_neg hclose, append_nil]
      exact h

end

/-- **The next block.** -/
theorem RunInv.addBlock (hpipe : PipeValid pipe)
    (h : RunInv pipe param (param.blockMapPrior.getD []) content file s)
    (hprior : ∀ x ∈ param.blockMapPrior.getD [], x.reference ≠ param.reference)
    (hsizes : SizeValid param (content ++ block))
    (hcontent : content.length = k * param.blockSize) (hne : block ≠ [])
    (hle : block.length ≤ param.blockSize) :
    RunInv pipe param (param.blockMapPrior.getD []) (content ++ block) file
      (s.addBlock pipe param block) := by
  have hitemIn : s.itemIn param = (param.blockMapPrior.getD [])[s.blockNo]? := by
    unfold BlockIncrState.itemIn
    cases param.blockMapPrior with
    | none => rfl
    | some prior => rfl
  have hnew := h.writeBlock hpipe hsizes.blockSize hsizes.checksumSize hcontent hne hle
    hsizes.blocks hsizes.size
  unfold BlockIncrState.addBlock
  cases hin : s.itemIn param with
  | none => exact hnew
  | some x₀ =>
    dsimp only
    rw [hitemIn] at hin
    by_cases hsame : x₀.checksum.take param.checksumSize
        = xxHashOne pipe param.checksumSize block
    · rw [if_neg (by simpa using hsame)]
      exact h.keepBlock hsizes.blockSize hcontent hne hle hsizes.blocks hin
        (hprior x₀ (mem_of_getElem? hin)) hsame
    · rw [if_pos hsame]
      exact hnew

end Step

/-! ## A whole file -/

section File

variable {pipe : BlockPipe} {param : BlockIncrParam} {content : List UInt8}

theorem SizeValid.of_le (h : SizeValid param content) (before : List UInt8)
    (hle : before.length ≤ content.length) : SizeValid param before := by
  exact ⟨h.blockSize, h.checksumSize, h.reference, h.bundleId, h.bundleOffset,
    lt_of_le_of_lt hle h.size, le_trans (total_mono h.blockSize hle) h.blocks⟩

section

variable {before : List UInt8} (hpipe : PipeValid pipe)
  (hprior : ∀ x ∈ param.blockMapPrior.getD [], x.reference ≠ param.reference)
  (hbefore : before.length = param.bundleOffset)
include hpipe hprior hbefore

/-- **The blocks of a file.** The induction is on their number. -/
theorem runInv_blocks (k : ℕ) (content : List UInt8) (hk : total param.blockSize content.length = k)
    (hsizes : SizeValid param content) :
    RunInv pipe param (param.blockMapPrior.getD []) content
      (before ++ (blockIncrBlocks pipe param content).2) (blockIncrBlocks pipe param content).1 := by
  induction k generalizing content with
  | zero =>
    have hnil : content = [] := by
      rw [← length_eq_zero_iff]
      by_contra hne
      have hlt : 0 < total param.blockSize content.length := by
        rw [lt_total_iff hsizes.blockSize]
        omega
      omega
    rw [hnil]
    unfold blockIncrBlocks
    rw [chunks_nil, foldl_nil, append_nil]
    exact RunInv.nil hbefore
  | succ k ih =>
    -- the last block and what comes before
    have hlt : k * param.blockSize < content.length := by
      rw [← lt_total_iff hsizes.blockSize]
      omega
    have hge : content.length ≤ (k + 1) * param.blockSize := by
      rw [← not_lt, ← lt_total_iff hsizes.blockSize]
      omega
    have hlen : (content.take (k * param.blockSize)).length = k * param.blockSize :=
      length_take_of_le hlt.le
    have hne : content.drop (k * param.blockSize) ≠ [] := by
      rw [← length_pos_iff, length_drop]
      omega
    have hle : (content.drop (k * param.blockSize)).length ≤ param.blockSize := by
      rw [length_drop]
      rw [Nat.succ_mul] at hge
      omega
    have hcontent := take_append_drop (k * param.blockSize) content
    generalize content.take (k * param.blockSize) = first at *
    generalize content.drop (k * param.blockSize) = block at *
    subst hcontent
    have hfirst := hsizes.of_le first (by rw [length_append]; omega)
    have hinv := ih first (by rw [hlen, total_mul hsizes.blockSize]) hfirst
    have hstep := (hinv.addBlock hpipe hprior hsizes hlen hne hle).writeSuperBlock hpipe hsizes false
    rw [blockIncrBlocks_concat hsizes.blockSize hlen hne hle]
    unfold blockIncrBlock
    rw [← append_assoc]
    exact hstep

/-- **What the filter leaves of a file.** -/
theorem runInv_end (hsizes : SizeValid param content) :
    RunInv pipe param (param.blockMapPrior.getD []) content
        (before ++ (blockIncrEnd pipe param content).2) (blockIncrEnd pipe param content).1 ∧
      (blockIncrEnd pipe param content).1.blockOutWrite = none := by
  have hinv := runInv_blocks hpipe hprior hbefore _ content rfl hsizes
  constructor
  · unfold blockIncrEnd
    rw [← append_assoc]
    exact hinv.writeSuperBlock hpipe hsizes true
  · unfold blockIncrEnd BlockIncrState.writeSuperBlock
    dsimp only
    cases hwrite : (blockIncrBlocks pipe param content).1.blockOutWrite with
    | none => exact hwrite
    | some superBlock => rfl

end

end File

end PgxBackup
