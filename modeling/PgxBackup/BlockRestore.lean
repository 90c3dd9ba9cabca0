import PgxBackup.BlockDelta

/-!
# Restore undoes backup

The blocks that are read are those of the last version, whatever backup they
come from, and they are written at their places. What is not written is the
same in the file already.
-/

namespace PgxBackup

open List Chunks Runs

/-! ## Writing blocks -/

section Write

variable {blockSize : ℕ} {content file start : List UInt8}

theorem getElem?_writeAt {write : BlockDeltaWrite} (hne : write.block ≠ []) (file : List UInt8)
    (j : ℕ) (hinside : j < file.length ∨ write.offset ≤ j) :
    (writeAt file write)[j]?
      = if write.offset ≤ j ∧ j < write.offset + write.block.length then
          write.block[j - write.offset]?
        else file[j]? := by
  have hlen : ((file ++ replicate (write.offset - file.length) (0 : UInt8)).take
      write.offset).length = write.offset := by
    rw [length_take, length_append, length_replicate]
    omega
  unfold writeAt
  rw [if_neg hne]
  by_cases hbefore : j < write.offset
  · rw [if_neg (by omega), append_assoc, getElem?_append_left (by omega),
      getElem?_take_of_lt hbefore, getElem?_append_left (by omega)]
  · rw [append_assoc, getElem?_append_right (by omega), hlen]
    by_cases hblock : j < write.offset + write.block.length
    · rw [if_pos (by omega), getElem?_append_left (by omega)]
    · rw [if_neg (by omega), getElem?_append_right (by omega), getElem?_drop]
      congr 1
      omega

theorem length_writeAt {write : BlockDeltaWrite} (hne : write.block ≠ []) (file : List UInt8) :
    (writeAt file write).length = max file.length (write.offset + write.block.length) := by
  unfold writeAt
  rw [if_neg hne, length_append, length_append, length_take, length_append,
    length_replicate, length_drop]
  omega

def blockWrite (blockSize : ℕ) (content : List UInt8) (i : ℕ) : BlockDeltaWrite :=
  ⟨i * blockSize, chunk blockSize content i⟩

/-- What holds while blocks are written: those that were written are as in
the content, the others as before. -/
structure WriteInv (blockSize : ℕ) (content start file : List UInt8) (done : List ℕ) : Prop where
  length : file.length ≤ content.length
  start_le : start.length ≤ file.length
  written : ∀ j < content.length, j / blockSize ∈ done → file[j]? = content[j]?
  kept : ∀ j < start.length, j / blockSize ∉ done → file[j]? = start[j]?

/-- **A block is written.** -/
theorem WriteInv.step {done : List ℕ} {i : ℕ} (hn : 0 < blockSize)
    (h : WriteInv blockSize content start file done) (hi : i < total blockSize content.length) :
    WriteInv blockSize content start (writeAt file (blockWrite blockSize content i))
      (done ++ [i]) := by
  have hne : (blockWrite blockSize content i).block ≠ [] := chunk_ne_nil hn hi
  have hlt : i * blockSize < content.length := (lt_total_iff hn _ _).mp hi
  have hblock : (blockWrite blockSize content i).block.length
      = min blockSize (content.length - i * blockSize) := length_chunk _ _ _
  have hoffset : (blockWrite blockSize content i).offset = i * blockSize := rfl
  have hlength := h.length
  have hstart := h.start_le
  -- a position in the block or not
  have hdiv : ∀ j, j / blockSize = i ↔ i * blockSize ≤ j ∧ j < i * blockSize + blockSize := by
    intro j
    rw [Nat.div_eq_iff hn]
    omega
  refine ⟨?_, ?_, fun j hj hmem => ?_, fun j hj hmem => ?_⟩
  · rw [length_writeAt hne, hblock, hoffset]
    omega
  · rw [length_writeAt hne]
    omega
  · by_cases hin : j / blockSize = i
    · have hbounds := (hdiv j).mp hin
      rw [getElem?_writeAt hne file j (.inr hbounds.1), hoffset, hblock, if_pos (by omega)]
      show ((content.drop (i * blockSize)).take blockSize)[j - i * blockSize]? = _
      rw [getElem?_take_of_lt (by omega), getElem?_drop]
      congr 1
      omega
    · have hdone : j / blockSize ∈ done := by
        rcases mem_append.mp hmem with hmem | hmem
        · exact hmem
        · exact absurd (mem_singleton.mp hmem) hin
      have hwritten := h.written j hj hdone
      have hjfile : j < file.length := by
        rw [getElem?_eq_getElem hj] at hwritten
        exact (List.getElem?_eq_some_iff.mp hwritten).1
      rw [getElem?_writeAt hne file j (.inl hjfile), hoffset, hblock]
      have hout := mt (hdiv j).mpr hin
      rw [if_neg (by omega)]
      exact hwritten
  · rw [mem_append, mem_singleton, not_or] at hmem
    have hout := mt (hdiv j).mpr hmem.2
    rw [getElem?_writeAt hne file j (.inl (by omega)), hoffset, hblock, if_neg (by omega)]
    exact h.kept j hj hmem.1

section

variable (hn : 0 < blockSize) (list : List ℕ)
  (hlist : ∀ i ∈ list, i < total blockSize content.length)
include hn list hlist

/-- **All blocks are written.** -/
theorem writeInv_foldl (done : List ℕ) (h : WriteInv blockSize content start file done) :
    WriteInv blockSize content start
      ((list.map (blockWrite blockSize content)).foldl writeAt file) (done ++ list) := by
  induction list generalizing file done with
  | nil =>
    rw [append_nil]
    exact h
  | cons i list ih =>
    rw [forall_mem_cons] at hlist
    rw [map_cons, foldl_cons]
    have hstep := ih hlist.2 (done ++ [i]) (h.step hn hlist.1)
    rw [append_assoc] at hstep
    exact hstep

/-- **The file is the content** when the blocks that are not written are the
same already. -/
theorem foldl_writeAt_eq (hstart : start.length ≤ content.length)
    (hsame : ∀ i < total blockSize content.length, i ∉ list →
      chunk blockSize start i = chunk blockSize content i) :
    (list.map (blockWrite blockSize content)).foldl writeAt start = content := by
  have hinit : WriteInv blockSize content start start [] :=
    ⟨hstart, le_rfl, fun j _ hmem => absurd hmem not_mem_nil, fun _ _ _ => rfl⟩
  have hinv := writeInv_foldl hn list hlist [] hinit
  rw [nil_append] at hinv
  generalize (list.map (blockWrite blockSize content)).foldl writeAt start = result at hinv
  refine ext_getElem? (fun j => ?_)
  by_cases hj : j < content.length
  · by_cases hmem : j / blockSize ∈ list
    · exact hinv.written j hj hmem
    · have hi : j / blockSize < total blockSize content.length := by
        rw [lt_total_iff hn]
        exact lt_of_le_of_lt (Nat.div_mul_le_self j blockSize) hj
      have hpos : start[j]? = content[j]? := by
        rw [getElem?_chunk hn start, getElem?_chunk hn content, hsame _ hi hmem]
      have hjstart : j < start.length := by
        rw [getElem?_eq_getElem hj] at hpos
        exact (List.getElem?_eq_some_iff.mp hpos).1
      rw [hinv.kept j hjstart hmem, hpos]
  · have hlength := hinv.length
    rw [getElem?_eq_none (by omega), getElem?_eq_none (by omega)]

end

end Write

/-! ## Reading a super block -/

section Read

variable {pipe : BlockPipe} {blockSize : ℕ} {superBlock : List UInt8}

/-- Blocks that were passed are not found again. -/
theorem findBlocks_passed (blockSize rounds blockIdx : ℕ) (blockList : List BlockDeltaBlock)
    (hpassed : ∀ b ∈ blockList, b.no < blockIdx) (content : List UInt8) :
    findBlocks blockSize rounds blockIdx blockList content
      = ([], content.drop (rounds * blockSize)) := by
  induction rounds generalizing blockIdx content with
  | zero =>
    rw [Nat.zero_mul]
    rfl
  | succ rounds ih =>
    have hrest : (content.drop blockSize).drop (rounds * blockSize)
        = content.drop ((rounds + 1) * blockSize) := by
      rw [drop_drop, Nat.succ_mul, Nat.add_comm]
    cases blockList with
    | nil =>
      rw [findBlocks, ih (blockIdx + 1) (by simp), hrest]
    | cons b blockList =>
      have hb := hpassed b mem_cons_self
      rw [findBlocks, if_neg (Nat.ne_of_gt hb),
        ih (blockIdx + 1) (fun c hc => Nat.lt_succ_of_lt (hpassed c hc)), hrest]

/-- **The blocks that are needed are found**, in the order of their
numbers. -/
theorem findBlocks_eq (blockSize : ℕ) (superBlock : List UInt8) (rounds blockIdx : ℕ)
    (blockList : List BlockDeltaBlock)
    (hincreasing : blockList.Pairwise (fun a b => a.no < b.no))
    (hbounds : ∀ b ∈ blockList, blockIdx ≤ b.no ∧ b.no < blockIdx + rounds) :
    findBlocks blockSize rounds blockIdx blockList (superBlock.drop (blockIdx * blockSize))
      = (blockList.map (fun b => ⟨b.offset, chunk blockSize superBlock b.no⟩),
        superBlock.drop ((blockIdx + rounds) * blockSize)) := by
  induction rounds generalizing blockIdx blockList with
  | zero =>
    have hnil : blockList = [] := by
      refine eq_nil_iff_forall_not_mem.mpr (fun b hb => ?_)
      have := hbounds b hb
      omega
    rw [hnil]
    rfl
  | succ rounds ih =>
    have hrest : (superBlock.drop (blockIdx * blockSize)).drop blockSize
        = superBlock.drop ((blockIdx + 1) * blockSize) := by
      rw [drop_drop, Nat.succ_mul]
    have hend : blockIdx + 1 + rounds = blockIdx + (rounds + 1) := by omega
    cases blockList with
    | nil =>
      rw [findBlocks, hrest, ih (blockIdx + 1) [] .nil (by simp), hend]
    | cons b next =>
      rw [pairwise_cons] at hincreasing
      rw [forall_mem_cons] at hbounds
      by_cases hfound : blockIdx = b.no
      · have hnext : findBlocks blockSize rounds (blockIdx + 1)
            (if next = [] then [b] else next) (superBlock.drop ((blockIdx + 1) * blockSize))
            = (next.map (fun b => ⟨b.offset, chunk blockSize superBlock b.no⟩),
              superBlock.drop ((blockIdx + 1 + rounds) * blockSize)) := by
          by_cases hnil : next = []
          · rw [if_pos hnil, findBlocks_passed, hnil, drop_drop, ← Nat.add_mul]
            · rfl
            · intro c hc
              rw [mem_singleton.mp hc]
              omega
          · rw [if_neg hnil]
            refine ih (blockIdx + 1) next hincreasing.2 (fun c hc => ?_)
            have hlt := hincreasing.1 c hc
            have hc := hbounds.2 c hc
            omega
        rw [findBlocks, if_pos hfound, hrest, hnext, hend, map_cons, ← hfound]
        rfl
      · rw [findBlocks, if_neg hfound, hrest, ih (blockIdx + 1) (b :: next)
          (pairwise_cons.mpr hincreasing), hend]
        refine forall_mem_cons.mpr ⟨by omega, fun c hc => ?_⟩
        have hlt := hincreasing.1 c hc
        have hc := hbounds.2 c hc
        omega

/-- **The blocks of a super block** that decodes to its content. -/
theorem readSuperBlock_content (hn : 0 < blockSize)
    (hblocks : total blockSize superBlock.length < 2 ^ 32) {data : BlockDeltaSuperBlock}
    (hsize : data.superBlockSize = superBlock.length)
    (hincreasing : data.blockList.Pairwise (fun a b => a.no < b.no))
    (hbounds : ∀ b ∈ data.blockList, b.no < total blockSize superBlock.length) {bytes : List UInt8}
    (hdecode : pipe.decode bytes = .ok superBlock) :
    readSuperBlock pipe blockSize data bytes
      = .ok (data.blockList.map (fun b => ⟨b.offset, chunk blockSize superBlock b.no⟩)) := by
  have htotal : u32 (u32 (superBlock.length / blockSize)
      + if superBlock.length % blockSize = 0 then 0 else 1)
        = total blockSize superBlock.length := by
    have hdiv : superBlock.length / blockSize < 2 ^ 32 := lt_of_le_of_lt (Nat.le_add_right _ _) hblocks
    rw [u32_of_lt hdiv]
    exact u32_of_lt hblocks
  have hend : superBlock.drop (total blockSize superBlock.length * blockSize) = [] := by
    refine drop_eq_nil_of_le ?_
    rw [← not_lt, ← lt_total_iff hn]
    exact lt_irrefl _
  have hfind := findBlocks_eq blockSize superBlock
    (total blockSize superBlock.length) 0 data.blockList hincreasing
    (fun b hb => ⟨Nat.zero_le _, by rw [Nat.zero_add]; exact hbounds b hb⟩)
  rw [Nat.zero_mul, drop_zero, Nat.zero_add, hend] at hfind
  unfold readSuperBlock
  rw [hdecode, ok_bind, hsize, htotal]
  dsimp only
  rw [hfind]
  rfl

/-- **A super block is read.** -/
theorem readSuperBlock_eq (hpipe : PipeValid pipe) (hn : 0 < blockSize)
    (hblocks : total blockSize superBlock.length ≤ 2 ^ 31) {data : BlockDeltaSuperBlock}
    (hsize : data.superBlockSize = superBlock.length)
    (hincreasing : data.blockList.Pairwise (fun a b => a.no < b.no))
    (hbounds : ∀ b ∈ data.blockList, b.no < total blockSize superBlock.length)
    (reference offset : ℕ) :
    readSuperBlock pipe blockSize data (pipe.encode reference offset superBlock)
      = .ok (data.blockList.map (fun b => ⟨b.offset, chunk blockSize superBlock b.no⟩)) := by
  exact readSuperBlock_content hn (lt_of_le_of_lt hblocks (by decide)) hsize hincreasing hbounds
    (hpipe.decode_encode reference offset superBlock)

end Read

/-! ## The blocks of a version -/

/-- **An item stands for a block**: it has its checksum and the block is
stored where it says. -/
structure ItemHolds (pipe : BlockPipe) (blockSize checksumSize : ℕ) (file : ℕ → ℕ → List UInt8)
    (x : BlockMapItem) (block : List UInt8) : Prop where
  checksum : x.checksum.take checksumSize = xxHashOne pipe checksumSize block
  stored : ∃ superBlock, total blockSize superBlock.length ≤ 2 ^ 31 ∧
    ItemStored pipe blockSize (file x.reference x.bundleId) x block superBlock

/-- **A map stands for a version of the file.** -/
structure Represents (pipe : BlockPipe) (blockSize checksumSize : ℕ) (file : ℕ → ℕ → List UInt8)
    (map : List BlockMapItem) (content : List UInt8) : Prop where
  length : map.length = total blockSize content.length
  item : ∀ (i : ℕ) (x : BlockMapItem), map[i]? = some x →
    ItemHolds pipe blockSize checksumSize file x (chunk blockSize content i)

section Delta

variable {pipe : BlockPipe} {blockSize checksumSize : ℕ} {file : ℕ → ℕ → List UInt8}
variable {content : List UInt8}

/-- What is known of the blocks that are read together: they stand for
blocks of the content and are in the order of the super blocks. -/
structure BlocksValid (pipe : BlockPipe) (blockSize checksumSize : ℕ)
    (file : ℕ → ℕ → List UInt8) (content : List UInt8) (blocks : List (ℕ × BlockMapItem)) :
    Prop where
  holds : ∀ b ∈ blocks, b.1 < total blockSize content.length ∧
    ItemHolds pipe blockSize checksumSize file b.2 (chunk blockSize content b.1)
  later : blocks.Pairwise (fun a b => a.2.reference = b.2.reference ∧
    a.2.bundleId = b.2.bundleId ∧ Later a.2 b.2)

variable {blocks : List (ℕ × BlockMapItem)} {p : ℕ × BlockMapItem}

theorem BlocksValid.sublist {part : List (ℕ × BlockMapItem)}
    (h : BlocksValid pipe blockSize checksumSize file content blocks) (hpart : part.Sublist blocks) :
    BlocksValid pipe blockSize checksumSize file content part :=
  ⟨fun b hb => h.holds b (hpart.subset hb), h.later.sublist hpart⟩

theorem BlocksValid.superBlock (hpipe : PipeValid pipe)
    (h : BlocksValid pipe blockSize checksumSize file content (p :: blocks))
    (hoffset : ∀ b ∈ blocks, p.2.offset = b.2.offset) :
    ∃ superBlock, total blockSize superBlock.length ≤ 2 ^ 31 ∧
      p.2.superBlockSize = superBlock.length ∧
      ((file p.2.reference p.2.bundleId).drop p.2.offset).take p.2.size
        = pipe.encode p.2.reference p.2.offset superBlock ∧
      ∀ b ∈ p :: blocks, b.2.block < total blockSize superBlock.length ∧
        chunk blockSize superBlock b.2.block = chunk blockSize content b.1 := by
  obtain ⟨-, hp⟩ := h.holds p mem_cons_self
  obtain ⟨superBlock, htotal, hstored⟩ := hp.stored
  refine ⟨superBlock, htotal, hstored.superBlockSize, hstored.bytes, ?_⟩
  rw [forall_mem_cons]
  refine ⟨⟨hstored.block_lt, hstored.block⟩, fun b hb => ?_⟩
  obtain ⟨-, hq⟩ := h.holds b (mem_cons_of_mem _ hb)
  obtain ⟨superBlock', -, hstored'⟩ := hq.stored
  obtain ⟨href, hbundle, hlater⟩ := (pairwise_cons.mp h.later).1 b hb
  unfold Later at hlater
  rw [if_pos (hoffset b hb)] at hlater
  -- both are what the same bytes decode to
  have hbytes := hstored.bytes
  have hbytes' := hstored'.bytes
  rw [← href, ← hbundle, ← hoffset b hb, ← hlater.1, hbytes] at hbytes'
  have hsame : (Except.ok superBlock : Except Error (List UInt8)) = .ok superBlock' := by
    rw [← hpipe.decode_encode p.2.reference p.2.offset superBlock, hbytes',
      hpipe.decode_encode]
  rw [Except.ok.inj hsame]
  exact ⟨hstored'.block_lt, hstored'.block⟩

section

variable (hpipe : PipeValid pipe) (hn : 0 < blockSize) (hcontent : content.length < 2 ^ 57)
include hpipe hn hcontent

/-- **The blocks of one super block are read.** -/
theorem readSuperBlock_blocks
    (h : BlocksValid pipe blockSize checksumSize file content (p :: blocks))
    (hoffset : ∀ b ∈ blocks, p.2.offset = b.2.offset) {data : BlockDeltaSuperBlock}
    (hdata : blockDeltaSuperBlock blockSize (p :: blocks) = some data) :
    data.size = p.2.size ∧
    readSuperBlock pipe blockSize data
        (((file p.2.reference p.2.bundleId).drop p.2.offset).take p.2.size)
      = .ok ((p :: blocks).map (fun b => blockWrite blockSize content b.1)) := by
  obtain ⟨superBlock, htotal, hsize, hbytes, hblock⟩ := h.superBlock hpipe hoffset
  cases hdata
  refine ⟨rfl, ?_⟩
  -- the block numbers increase, since all blocks are at one offset
  have hsame : ∀ b ∈ p :: blocks, b.2.offset = p.2.offset := by
    rw [forall_mem_cons]
    exact ⟨rfl, fun b hb => (hoffset b hb).symm⟩
  have hincreasing : (p :: blocks).Pairwise (fun a b => a.2.block < b.2.block) := by
    refine List.Pairwise.imp_of_mem (fun {a b} ha hb hab => ?_) h.later
    have hlater := hab.2.2
    unfold Later at hlater
    rw [if_pos ((hsame a ha).trans (hsame b hb).symm)] at hlater
    exact hlater.2.2
  rw [hbytes, readSuperBlock_eq hpipe hn htotal hsize]
  · rw [map_map]
    refine congrArg Except.ok (map_congr_left (fun b hb => ?_))
    have hlt := (h.holds b hb).1
    rw [lt_total_iff hn] at hlt
    show BlockDeltaWrite.mk (u64 (b.1 * blockSize)) (chunk blockSize superBlock b.2.block) = _
    rw [(hblock b hb).2, u64_of_lt (by omega)]
    rfl
  · rw [pairwise_map]
    exact hincreasing
  · intro d hd
    obtain ⟨b, hb, rfl⟩ := mem_map.mp hd
    exact (hblock b hb).1

theorem readSuperBlock_first {runs : List (List (ℕ × BlockMapItem))}
    (hvalid : BlocksValid pipe blockSize checksumSize file content
      ((p :: blocks) :: runs).flatten)
    (hoffset : (p :: blocks).IsChain (fun a b => a.2.offset = b.2.offset)) :
    ∃ data, blockDeltaSuperBlock blockSize (p :: blocks) = some data ∧ data.size = p.2.size ∧
      readSuperBlock pipe blockSize data
          (((file p.2.reference p.2.bundleId).drop p.2.offset).take p.2.size)
        = .ok ((p :: blocks).map (fun b => blockWrite blockSize content b.1)) := by
  rw [flatten_cons] at hvalid
  obtain ⟨hsize, hread⟩ := readSuperBlock_blocks hpipe hn hcontent
    (hvalid.sublist (sublist_append_left _ _)) (eq_of_isChain hoffset) rfl
  exact ⟨_, rfl, hsize, hread⟩

end

theorem superBlock_last {runs : List (List (ℕ × BlockMapItem))} {a : ℕ × BlockMapItem}
    (hvalid : BlocksValid pipe blockSize checksumSize file content
      ((p :: blocks) :: runs).flatten)
    (hoffset : (p :: blocks).IsChain (fun a b => a.2.offset = b.2.offset))
    (ha : a ∈ (p :: blocks).getLast?) : a.2.offset + a.2.size = p.2.offset + p.2.size := by
  rcases mem_cons.mp (mem_of_getLast? ha) with rfl | hmem
  · rfl
  · have hlater := hvalid.later
    rw [flatten_cons, cons_append, pairwise_cons] at hlater
    have hpa := (hlater.1 a (mem_append_left _ hmem)).2.2
    have hsame := eq_of_isChain hoffset a hmem
    unfold Later at hpa
    rw [if_pos hsame] at hpa
    rw [hsame, hpa.1]

section

variable (hpipe : PipeValid pipe) (hn : 0 < blockSize) (hcontent : content.length < 2 ^ 57)
include hpipe hn hcontent

/-- **The super blocks of a read are read**, one after the other: each
starts where the one before ends. -/
theorem blockDeltaNext_eq (runs : List (List (ℕ × BlockMapItem)))
    (hvalid : BlocksValid pipe blockSize checksumSize file content
      ((p :: blocks) :: runs).flatten)
    (hoffset : ∀ run ∈ (p :: blocks) :: runs, run.IsChain (fun a b => a.2.offset = b.2.offset))
    (hne : [] ∉ runs) (hnext : ((p :: blocks) :: runs).IsChain
      (Follows (fun a b => a.2.offset + a.2.size = b.2.offset))) :
    blockDeltaNext pipe blockSize
        (((p :: blocks) :: runs).filterMap (blockDeltaSuperBlock blockSize))
        (((file p.2.reference p.2.bundleId).drop p.2.offset).take
          ((((p :: blocks) :: runs).filterMap (blockDeltaSuperBlock blockSize)).map
            BlockDeltaSuperBlock.size).sum)
      = .ok (((p :: blocks) :: runs).flatten.map (fun b => blockWrite blockSize content b.1)) := by
  induction runs generalizing p blocks with
  | nil =>
    obtain ⟨data, hdata, hsize, hread⟩ :=
      readSuperBlock_first hpipe hn hcontent hvalid (hoffset (p :: blocks) mem_cons_self)
    rw [filterMap_cons_some hdata, filterMap_nil, map_singleton, sum_singleton,
      blockDeltaNext, take_take, Nat.min_self, hsize, hread, ok_bind, blockDeltaNext, ok_bind,
      flatten_cons, flatten_nil, append_nil, append_nil]
    rfl
  | cons run runs ih =>
    cases run with
    | nil => exact absurd mem_cons_self hne
    | cons q blocks' =>
      have hchain := hoffset (p :: blocks) mem_cons_self
      obtain ⟨data, hdata, hsize, hread⟩ := readSuperBlock_first hpipe hn hcontent hvalid hchain
      rw [isChain_cons_cons] at hnext
      have hrest : BlocksValid pipe blockSize checksumSize file content
          ((q :: blocks') :: runs).flatten := by
        rw [flatten_cons] at hvalid
        exact hvalid.sublist (sublist_append_right _ _)
      have hpq := hvalid.later
      rw [flatten_cons, cons_append, pairwise_cons] at hpq
      obtain ⟨href, hbundle, -⟩ := hpq.1 q (by simp)
      -- the last block of this super block says where the next one starts
      obtain ⟨a, ha⟩ : ∃ a, a ∈ (p :: blocks).getLast? :=
        ⟨_, getLast?_eq_some_getLast (cons_ne_nil p blocks)⟩
      have hend : p.2.offset + p.2.size = q.2.offset := by
        rw [← superBlock_last hvalid hchain ha]
        exact hnext.1 a ha q (by simp)
      have hih := ih hrest (fun run hrun => hoffset run (mem_cons_of_mem _ hrun))
        (fun hmem => hne (mem_cons_of_mem _ hmem)) hnext.2
      have hflat : ((p :: blocks) :: (q :: blocks') :: runs).flatten
          = (p :: blocks) ++ ((q :: blocks') :: runs).flatten := rfl
      rw [filterMap_cons_some hdata, map_cons, sum_cons, blockDeltaNext,
        take_take, Nat.min_eq_left (Nat.le_add_right _ _), hsize, hread, ok_bind,
        drop_take, drop_drop, Nat.add_sub_cancel_left, hend, href, hbundle, hih, ok_bind,
        hflat, map_append]
      rfl

/-- **A read is read.** -/
theorem blockDeltaRead_eq
    (hvalid : BlocksValid pipe blockSize checksumSize file content (p :: blocks))
    (hchain : (p :: blocks).IsChain (fun a b => sameRead a b)) :
    ∃ read, blockDeltaRead blockSize (p :: blocks) = some read ∧
      blockDeltaNext pipe blockSize read.superBlockList
          (((file read.reference read.bundleId).drop read.offset).take read.size)
        = .ok ((p :: blocks).map (fun b => blockWrite blockSize content b.1)) := by
  refine ⟨_, rfl, ?_⟩
  have hsplit : (p :: blocks).IsChain (fun a b => if sameSuperBlock a b then
      a.2.offset = b.2.offset else a.2.offset + a.2.size = b.2.offset) := by
    refine hchain.imp (fun a b hab => ?_)
    by_cases hoffset : a.2.offset = b.2.offset
    · rw [if_pos (show sameSuperBlock a b = true from decide_eq_true hoffset)]
      exact hoffset
    · rw [if_neg (show ¬sameSuperBlock a b = true by simpa [sameSuperBlock] using hoffset)]
      simpa [sameRead, hoffset] using hab
  have hflat := flatten_splitBy sameSuperBlock (p :: blocks)
  have hnil := nil_notMem_splitBy sameSuperBlock (p :: blocks)
  have hruns := fun run (hrun : run ∈ (p :: blocks).splitBy sameSuperBlock) =>
    isChain_of_mem hsplit hrun
  have hfollows := isChain_follows hsplit
  obtain ⟨first, runs, hall⟩ := splitBy_cons sameSuperBlock p blocks
  rw [hall] at hflat hnil hruns hfollows ⊢
  rw [← hflat] at hvalid ⊢
  exact blockDeltaNext_eq hpipe hn hcontent runs hvalid hruns
    (fun hmem => hnil (mem_cons_of_mem _ hmem)) hfollows

/-- **All reads are read and written.** -/
theorem blockDeltaApply_eq (reads : List (List (ℕ × BlockMapItem)))
    (hvalid : ∀ run ∈ reads, BlocksValid pipe blockSize checksumSize file content run)
    (hchain : ∀ run ∈ reads, run.IsChain (fun a b => sameRead a b)) (pgFile : List UInt8) :
    blockDeltaApply pipe blockSize file (reads.filterMap (blockDeltaRead blockSize)) pgFile
      = .ok ((reads.flatten.map (fun b => blockWrite blockSize content b.1)).foldl
          writeAt pgFile) := by
  induction reads generalizing pgFile with
  | nil => rfl
  | cons run reads ih =>
    rw [forall_mem_cons] at hvalid hchain
    cases run with
    | nil =>
      rw [filterMap_cons_none (by rfl), ih hvalid.2 hchain.2, flatten_cons,
        nil_append]
    | cons p blocks =>
      obtain ⟨read, hread, hnext⟩ := blockDeltaRead_eq hpipe hn hcontent hvalid.1 hchain.1
      rw [filterMap_cons_some hread, blockDeltaApply, hnext, ok_bind, ih hvalid.2 hchain.2,
        flatten_cons, map_append, foldl_append]

end

end Delta

/-! ## The list of references -/

theorem mem_blocks {map : List BlockMapItem} {b : ℕ × BlockMapItem} :
    b ∈ map.zipIdx.map Prod.swap ↔ map[b.1]? = some b.2 := by
  rw [mem_map]
  constructor
  · rintro ⟨⟨x, i⟩, hmem, rfl⟩
    exact mem_zipIdx_iff_getElem?.mp hmem
  · intro h
    exact ⟨(b.2, b.1), mem_zipIdx_iff_getElem?.mpr h, rfl⟩

theorem pairwise_blocks (map : List BlockMapItem) :
    (map.zipIdx.map Prod.swap).Pairwise (fun a b => a.1 < b.1) := by
  rw [pairwise_iff_getElem]
  intro i j hi hj hij
  simpa using hij

/-- What holds while blocks are added: a reference has its blocks in their
order, and each block is in the list of its reference. -/
structure ReferenceInv (list : List BlockDeltaReference) (done : List (ℕ × BlockMapItem)) :
    Prop where
  blockList : ∀ data ∈ list,
    data.blockList = done.filter (fun b => decide (b.2.reference = data.reference))
  mem : ∀ b ∈ done, ∃ data ∈ list, data.reference = b.2.reference

theorem ReferenceInv.step {list : List BlockDeltaReference} {done : List (ℕ × BlockMapItem)}
    (h : ReferenceInv list done) (b : ℕ × BlockMapItem) :
    ReferenceInv (referenceListAdd list b) (done ++ [b]) := by
  unfold referenceListAdd
  by_cases hknown : list.any (fun data => decide (data.reference = b.2.reference)) = true
  · rw [if_pos hknown]
    constructor
    · intro data' hdata'
      obtain ⟨data, hdata, rfl⟩ := mem_map.mp hdata'
      rw [filter_append]
      by_cases href : data.reference = b.2.reference
      · rw [if_pos href, h.blockList data hdata, filter_cons_of_pos]
        · rfl
        · exact decide_eq_true href.symm
      · rw [if_neg href, h.blockList data hdata, filter_cons_of_neg, filter_nil,
          append_nil]
        simpa using Ne.symm href
    · intro c hc
      obtain ⟨data, hdata, href⟩ : ∃ data ∈ list, data.reference = c.2.reference := by
        rcases mem_append.mp hc with hc | hc
        · exact h.mem c hc
        · rw [mem_singleton.mp hc]
          simpa using hknown
      refine ⟨_, mem_map_of_mem hdata, ?_⟩
      split
      · exact href
      · exact href
  · rw [if_neg hknown]
    have hnew : ∀ data ∈ list, data.reference ≠ b.2.reference := by
      simpa using hknown
    constructor
    · intro data hdata
      rw [filter_append]
      rcases mem_append.mp hdata with hdata | hdata
      · rw [h.blockList data hdata, filter_cons_of_neg, filter_nil, append_nil]
        simpa using (hnew data hdata).symm
      · rw [mem_singleton.mp hdata]
        have hnone : done.filter (fun c => decide (c.2.reference = b.2.reference)) = [] := by
          rw [filter_eq_nil_iff]
          intro c hc
          obtain ⟨data, hdata, href⟩ := h.mem c hc
          rw [← href]
          simpa using hnew data hdata
        rw [hnone, filter_cons_of_pos (by simp)]
        rfl
    · intro c hc
      rcases mem_append.mp hc with hc | hc
      · obtain ⟨data, hdata, href⟩ := h.mem c hc
        exact ⟨data, mem_append_left _ hdata, href⟩
      · rw [mem_singleton.mp hc]
        exact ⟨_, mem_append_right _ (mem_singleton.mpr rfl), rfl⟩

theorem referenceInv_foldl (blocks : List (ℕ × BlockMapItem)) (list : List BlockDeltaReference)
    (done : List (ℕ × BlockMapItem)) (h : ReferenceInv list done) :
    ReferenceInv (blocks.foldl referenceListAdd list) (done ++ blocks) := by
  induction blocks generalizing list done with
  | nil =>
    rw [append_nil]
    exact h
  | cons b blocks ih =>
    have hstep := ih _ _ (h.step b)
    rw [append_assoc] at hstep
    exact hstep

section Restore

variable {pipe : BlockPipe} {blockSize checksumSize : ℕ} {file : ℕ → ℕ → List UInt8}
variable {map : List BlockMapItem} {content start : List UInt8}
variable {checksum : Option (List UInt8)}

theorem referenceList_inv (checksumSize : ℕ) (map : List BlockMapItem)
    (checksum : Option (List UInt8)) :
    ReferenceInv (referenceList checksumSize map checksum)
      ((map.zipIdx.map Prod.swap).filter
        (fun block => blockNeeded checksumSize checksum block.1 block.2)) := by
  have h := referenceInv_foldl ((map.zipIdx.map Prod.swap).filter
    (fun block => blockNeeded checksumSize checksum block.1 block.2)) [] []
    ⟨by simp, by simp⟩
  rw [nil_append] at h
  constructor
  · intro data hdata
    exact h.blockList data (mem_mergeSort.mp hdata)
  · intro b hb
    obtain ⟨data, hdata, href⟩ := h.mem b hb
    exact ⟨data, mem_mergeSort.mpr hdata, href⟩

theorem blocksValid_reference (hinv : MapInv blockSize checksumSize map)
    (hrep : Represents pipe blockSize checksumSize file map content) {data : BlockDeltaReference}
    (hdata : data ∈ referenceList checksumSize map checksum) :
    BlocksValid pipe blockSize checksumSize file content data.blockList := by
  rw [(referenceList_inv checksumSize map checksum).blockList data hdata, filter_filter]
  refine ⟨fun b hb => ?_, ?_⟩
  · have hmem := mem_blocks.mp (mem_filter.mp hb).1
    refine ⟨?_, hrep.item b.1 b.2 hmem⟩
    rw [← hrep.length]
    exact (List.getElem?_eq_some_iff.mp hmem).1
  · refine List.Pairwise.imp_of_mem (fun {a b} ha hb hab => ?_)
      ((pairwise_blocks map).filter _)
    obtain ⟨ha, haref⟩ := mem_filter.mp ha
    obtain ⟨hb, hbref⟩ := mem_filter.mp hb
    have href : a.2.reference = b.2.reference := by
      simp only [Bool.and_eq_true, decide_eq_true_eq] at haref hbref
      exact haref.1.trans hbref.1.symm
    exact ⟨href, hinv.later a.1 b.1 a.2 b.2 hab (mem_blocks.mp ha) (mem_blocks.mp hb) href⟩

theorem mem_references {i : ℕ} {x : BlockMapItem} (hx : map[i]? = some x)
    (hneeded : blockNeeded checksumSize checksum i x = true) :
    (i, x) ∈ (referenceList checksumSize map checksum).flatMap BlockDeltaReference.blockList := by
  have hinv := referenceList_inv checksumSize map checksum
  have hmem : (i, x) ∈ (map.zipIdx.map Prod.swap).filter
      (fun block => blockNeeded checksumSize checksum block.1 block.2) :=
    mem_filter.mpr ⟨mem_blocks.mpr hx, hneeded⟩
  obtain ⟨data, hdata, href⟩ := hinv.mem _ hmem
  refine mem_flatMap.mpr ⟨data, hdata, ?_⟩
  rw [hinv.blockList data hdata]
  exact mem_filter.mpr ⟨hmem, decide_eq_true href.symm⟩

theorem xxHashOne_of_not_needed (hpipe : PipeValid pipe) (hpos : 0 < checksumSize)
    (hcs : checksumSize ≤ XX_HASH_SIZE_MAX) {i : ℕ} {x : BlockMapItem}
    (hneeded : blockNeeded checksumSize (if start = [] then none
      else some (blockChecksum pipe blockSize checksumSize start)) i x = false) :
    i < total blockSize start.length ∧
      x.checksum.take checksumSize = xxHashOne pipe checksumSize (chunk blockSize start i) := by
  by_cases hnil : start = []
  · rw [if_pos hnil] at hneeded
    cases hneeded
  · rw [if_neg hnil] at hneeded
    have hpieces : ∀ p ∈ (chunks blockSize start).map (xxHashOne pipe checksumSize),
        p.length = checksumSize := by
      intro p hp
      obtain ⟨block, -, rfl⟩ := mem_map.mp hp
      exact length_xxHashOne hpipe hcs block
    have hlist : blockChecksum pipe blockSize checksumSize start
        = ((chunks blockSize start).map (xxHashOne pipe checksumSize)).flatten := by
      unfold blockChecksum
      rw [flatMap_def]
    have hlength : (blockChecksum pipe blockSize checksumSize start).length / checksumSize
        = total blockSize start.length := by
      rw [hlist, length_flatten_of_length hpieces, length_map, length_chunks,
        Nat.mul_div_cancel _ hpos]
    unfold blockNeeded at hneeded
    dsimp only at hneeded
    rw [hlength] at hneeded
    simp only [Bool.or_eq_false_iff, decide_eq_false_iff_not, not_le, not_not] at hneeded
    have hi : i < total blockSize start.length :=
      lt_of_lt_of_le hneeded.1 (Nat.mod_le _ _)
    refine ⟨hi, ?_⟩
    rw [hneeded.2, hlist]
    refine chunk_flatten hpieces ?_
    rw [getElem?_map, getElem?_chunks, if_pos hi]
    rfl

/-- **The file is restored** from a map that stands for it. Blocks of the
file and of the content with the same checksum must be the same. -/
theorem restoreFile_eq (hpipe : PipeValid pipe) (hn : 0 < blockSize) (hpos : 0 < checksumSize)
    (hcs : checksumSize ≤ XX_HASH_SIZE_MAX) (hcontent : content.length < 2 ^ 57)
    {repo : BlockRepo} {place : BlockMapPlace} (hplace : repo.map = some place)
    (hforce : MapInForce pipe blockSize checksumSize repo place map)
    (hrep : Represents pipe blockSize checksumSize repo.file map content)
    (pgFile : Option (List UInt8))
    (hcollide : ∀ i, chunk blockSize ((pgFile.getD []).take content.length) i ≠ [] →
      xxHashOne pipe checksumSize (chunk blockSize ((pgFile.getD []).take content.length) i)
          = xxHashOne pipe checksumSize (chunk blockSize content i) →
        chunk blockSize ((pgFile.getD []).take content.length) i = chunk blockSize content i) :
    restoreFile pipe blockSize checksumSize repo content.length pgFile = .ok content := by
  obtain ⟨bytes, hdecode, hread⟩ := hforce.read
  unfold restoreFile BlockRepo.readMap
  rw [hplace]
  dsimp only
  rw [hdecode, ok_bind]
  generalize hstart : (pgFile.getD []).take content.length = start at *
  generalize hchecksum : (if start = [] then none
    else some (blockChecksum pipe blockSize checksumSize start)) = checksum
  rw [pure_bind]
  dsimp only
  rw [hread, ok_bind]
  dsimp only
  -- the reads of all references
  have hreads : blockDeltaNew map blockSize checksumSize checksum
      = ((referenceList checksumSize map checksum).flatMap
          (fun data => data.blockList.splitBy sameRead)).filterMap (blockDeltaRead blockSize) := by
    unfold blockDeltaNew
    rw [filterMap_flatMap]
  have hflat : ((referenceList checksumSize map checksum).flatMap
      (fun data => data.blockList.splitBy sameRead)).flatten
        = (referenceList checksumSize map checksum).flatMap BlockDeltaReference.blockList :=
    flatten_flatMap_splitBy _ _ _
  have happly := blockDeltaApply_eq hpipe hn hcontent
    ((referenceList checksumSize map checksum).flatMap
      (fun data => data.blockList.splitBy sameRead))
    (fun run hrun => by
      obtain ⟨data, hdata, hrun⟩ := mem_flatMap.mp hrun
      exact (blocksValid_reference hforce.inv hrep hdata).sublist
        (isInfix_of_mem_splitBy hrun).sublist)
    (fun run hrun => by
      obtain ⟨data, -, hrun⟩ := mem_flatMap.mp hrun
      exact isChain_of_mem_splitBy hrun) start
  have hwrites : ((referenceList checksumSize map checksum).flatMap
      BlockDeltaReference.blockList).map (fun b => blockWrite blockSize content b.1)
        = (((referenceList checksumSize map checksum).flatMap
            BlockDeltaReference.blockList).map Prod.fst).map (blockWrite blockSize content) := by
    rw [map_map]
    rfl
  rw [hreads, happly, hflat, hwrites]
  refine congrArg Except.ok (foldl_writeAt_eq hn _ (fun i hi => ?_) ?_ (fun i hi hout => ?_))
  · obtain ⟨b, hb, rfl⟩ := mem_map.mp hi
    obtain ⟨data, hdata, hb⟩ := mem_flatMap.mp hb
    exact ((blocksValid_reference hforce.inv hrep hdata).holds b hb).1
  · rw [← hstart, length_take]
    exact Nat.min_le_left _ _
  · -- a block that is not read is the same
    rw [← hrep.length] at hi
    have hx := getElem?_eq_getElem hi
    have hneeded : blockNeeded checksumSize checksum i map[i] = false := by
      rw [← Bool.not_eq_true]
      intro hneeded
      exact hout (mem_map.mpr ⟨_, mem_references hx hneeded, rfl⟩)
    rw [← hchecksum] at hneeded
    obtain ⟨hlt, hsame⟩ := xxHashOne_of_not_needed hpipe hpos hcs hneeded
    refine hcollide i (chunk_ne_nil hn hlt) ?_
    rw [← hsame]
    exact (hrep.item i _ hx).checksum

end Restore

/-! ## The chain -/

section Chain

variable {pipe : BlockPipe} {blockSize checksumSize : ℕ} {repo : BlockRepo}
variable {prior : Option (List BlockMapItem)} {version : BlockVersion} {old : List UInt8}

/-- **Checksums tell the blocks apart.** -/
def NoCollision (pipe : BlockPipe) (checksumSize : ℕ) (blocks : List (List UInt8)) : Prop :=
  ∀ b ∈ blocks, ∀ c ∈ blocks,
    xxHashOne pipe checksumSize b = xxHashOne pipe checksumSize c → b = c

theorem chunk_mem_chunks {α : Type} {n i : ℕ} {l : List α} (hi : i < total n l.length) :
    chunk n l i ∈ chunks n l :=
  mem_map.mpr ⟨i, mem_range.mpr hi, rfl⟩

/-- **The map stands for the version** after its backup, if the prior map
stood for the version before. -/
theorem Backed.represents {repo' : BlockRepo} {written : Option (List BlockMapItem)}
    {s : BlockIncrState} {out more : List UInt8}
    (h : Backed pipe blockSize checksumSize repo version prior repo' written s out more)
    (hinv : ChainInv pipe blockSize checksumSize repo prior version.reference)
    (hprior : ∀ map ∈ prior, Represents pipe blockSize checksumSize repo.file map old)
    {blocks : List (List UInt8)} (hcollide : NoCollision pipe checksumSize blocks)
    (hold : ∀ b ∈ chunks blockSize old, b ∈ blocks)
    (hnew : ∀ b ∈ chunks blockSize version.content, b ∈ blocks) :
    ∀ map ∈ written.orElse (fun _ => prior),
      Represents pipe blockSize checksumSize repo'.file map version.content := by
  intro map hmap
  have hout : s.blockMapOut = map := by
    rw [h.map, hmap]
    rfl
  have hlength := h.run.length
  rw [hout] at hlength
  refine ⟨hlength, fun i x hx => ?_⟩
  have hi : i < total blockSize version.content.length := by
    have hlt := (List.getElem?_eq_some_iff.mp hx).1
    rw [hlength] at hlt
    exact hlt
  rw [← hout] at hx
  have hchecksum := h.run.checksum i x hx
  refine ⟨hchecksum, ?_⟩
  by_cases href : x.reference = version.reference
  · -- the block was stored by this backup
    obtain ⟨superBlock, hclosed⟩ := h.run.stored_of_new h.closed hx href
    have hbundle : x.bundleId = version.bundleId := (h.run.new i x hx href).1
    refine ⟨superBlock, hclosed.blocks_le, ?_⟩
    rw [href, hbundle, h.file]
    exact hclosed.stored.append more
  · -- the block was kept, so it is the one of the version before
    have hpriorx := h.run.old i x hx href
    cases hsome : prior with
    | none =>
      rw [hsome] at hpriorx
      cases hpriorx
    | some priorMap =>
      rw [hsome] at hpriorx
      have hrep := hprior priorMap hsome
      have hholds := hrep.item i x hpriorx
      obtain ⟨superBlock, htotal, hstored⟩ := hholds.stored
      have hiold : i < total blockSize old.length := by
        rw [← hrep.length]
        exact (List.getElem?_eq_some_iff.mp hpriorx).1
      have hsame : chunk blockSize old i = chunk blockSize version.content i := by
        refine hcollide _ (hold _ (chunk_mem_chunks hiold)) _ (hnew _ (chunk_mem_chunks hi)) ?_
        rw [← hholds.checksum]
        exact hchecksum
      refine ⟨superBlock, htotal, ?_⟩
      have hlt : x.reference < version.reference :=
        (hinv.mapInv_prior).2 x (by rw [hsome]; exact mem_of_getElem? hpriorx)
      rw [h.frame _ _ (Nat.ne_of_lt hlt), ← hsame]
      exact hstored

/-- The chain from any point: the map in force stands for the last
version. -/
theorem backupChain_represents (hpipe : PipeValid pipe) (hblockSize : 0 < blockSize)
    (hchecksumSize : checksumSize ≤ XX_HASH_SIZE_MAX) {blocks : List (List UInt8)}
    (hcollide : NoCollision pipe checksumSize blocks) (versions : List BlockVersion)
    (hversions : ∀ version ∈ versions, VersionValid blockSize version ∧ version.content ≠ [] ∧
      ∀ b ∈ chunks blockSize version.content, b ∈ blocks)
    (hincreasing : versions.Pairwise (fun a b => a.reference < b.reference))
    (repo : BlockRepo) (prior : Option (List BlockMapItem)) (old : List UInt8) (reference : ℕ)
    (hinv : ChainInv pipe blockSize checksumSize repo prior reference)
    (hprior : ∀ map ∈ prior, Represents pipe blockSize checksumSize repo.file map old)
    (hold : ∀ b ∈ chunks blockSize old, b ∈ blocks)
    (hreference : ∀ version ∈ versions, reference ≤ version.reference) :
    ∃ repo' maps prior' reference',
      backupChain pipe blockSize checksumSize repo versions = .ok (repo', maps) ∧
      ChainInv pipe blockSize checksumSize repo' prior' reference' ∧
      (prior ≠ none ∨ versions ≠ [] → prior' ≠ none) ∧
      ∀ map ∈ prior', Represents pipe blockSize checksumSize repo'.file map
        ((versions.getLast?.map BlockVersion.content).getD old) := by
  induction versions generalizing repo prior old reference with
  | nil =>
    exact ⟨repo, [], prior, reference, rfl, hinv, fun h => h.resolve_right (by simp), hprior⟩
  | cons version versions ih =>
    rw [forall_mem_cons] at hversions hreference
    rw [pairwise_cons] at hincreasing
    obtain ⟨hvalid, hne, hnew⟩ := hversions.1
    have hstart := hinv.mono hreference.1
    obtain ⟨repo₁, written, s, out, more, hbackup, hbacked⟩ :=
      backupVersion_ok hpipe hblockSize hchecksumSize hstart hvalid (.inl hne)
    have hrep := hbacked.represents hstart hprior hcollide hold hnew
    have hsome : written.orElse (fun _ => prior) ≠ none := by
      rw [Ne, hbacked.none_iff hblockSize]
      exact fun hno => hne hno.1
    obtain ⟨repo', maps, prior', reference', hchain, hinv', hprior', hrep'⟩ :=
      ih hversions.2 hincreasing.2 repo₁ (written.orElse (fun _ => prior)) version.content
        (version.reference + 1) hbacked.inv hrep hnew (fun v hv => hincreasing.1 v hv)
    refine ⟨repo', written.toList ++ maps, prior', reference', ?_, hinv', fun _ => ?_, ?_⟩
    · unfold backupChain
      rw [hbackup, ok_bind]
      dsimp only
      rw [hchain, ok_bind]
      rfl
    · exact hprior' (.inl hsome)
    · rw [getLast?_cons]
      cases hlast : versions.getLast? with
      | none =>
        rw [hlast] at hrep'
        exact hrep'
      | some last =>
        rw [hlast] at hrep'
        exact hrep'

/-- **Restore undoes any chain of backups.** After backups of the versions of
a file, none of them empty, with references that increase, the restore over
any existing file gives the last version. Blocks of the versions and of the
existing file that have the same checksum must be the same. -/
theorem restoreFile_backupChain (pipe : BlockPipe) (hpipe : PipeValid pipe)
    (blockSize checksumSize : ℕ) (hblockSize : 0 < blockSize) (hpos : 0 < checksumSize)
    (hchecksumSize : checksumSize ≤ XX_HASH_SIZE_MAX) (versions : List BlockVersion)
    (last : BlockVersion)
    (hversions : ∀ version ∈ versions ++ [last],
      VersionValid blockSize version ∧ version.content ≠ [])
    (hincreasing : (versions ++ [last]).Pairwise (fun a b => a.reference < b.reference))
    (pgFile : Option (List UInt8))
    (hcollide : NoCollision pipe checksumSize
      ((versions ++ [last]).flatMap (fun version => chunks blockSize version.content) ++
        chunks blockSize ((pgFile.getD []).take last.content.length))) :
    ∃ repo maps,
      backupChain pipe blockSize checksumSize .empty (versions ++ [last]) = .ok (repo, maps) ∧
      restoreFile pipe blockSize checksumSize repo last.content.length pgFile
        = .ok last.content := by
  have hblocks : ∀ version ∈ versions ++ [last], ∀ b ∈ chunks blockSize version.content,
      b ∈ (versions ++ [last]).flatMap (fun version => chunks blockSize version.content) ++
        chunks blockSize ((pgFile.getD []).take last.content.length) :=
    fun version hversion b hb =>
      mem_append_left _ (mem_flatMap.mpr ⟨version, hversion, hb⟩)
  obtain ⟨repo, maps, prior, reference, hchain, hinv, hsome, hrep⟩ :=
    backupChain_represents hpipe hblockSize hchecksumSize hcollide (versions ++ [last])
      (fun version hversion => ⟨(hversions version hversion).1, (hversions version hversion).2,
        hblocks version hversion⟩)
      hincreasing .empty none [] 0 trivial (by simp) (by simp) (fun _ _ => Nat.zero_le _)
  refine ⟨repo, maps, hchain, ?_⟩
  have hmem : last ∈ versions ++ [last] := by simp
  obtain ⟨map, rfl⟩ : ∃ map, prior = some map :=
    Option.ne_none_iff_exists'.mp (hsome (.inr (by simp)))
  have hlast : ((versions ++ [last]).getLast?.map BlockVersion.content).getD [] = last.content := by
    rw [getLast?_append_of_ne_nil _ (by simp)]
    rfl
  have hrep := hrep map rfl
  rw [hlast] at hrep
  unfold ChainInv at hinv
  cases hplace : repo.map with
  | none =>
    rw [hplace] at hinv
    exact hinv.elim
  | some place =>
    rw [hplace] at hinv
    refine restoreFile_eq hpipe hblockSize hpos hchecksumSize (hversions last hmem).1.size hplace
      hinv.2 hrep pgFile (fun i hne hhash => ?_)
    have hi : ∀ {l : List UInt8}, chunk blockSize l i ≠ [] → i < total blockSize l.length := by
      intro l hne
      rw [lt_total_iff hblockSize]
      rw [← length_pos_iff, length_chunk] at hne
      omega
    have hstart : i < total blockSize ((pgFile.getD []).take last.content.length).length := hi hne
    have hlt : i < total blockSize last.content.length := by
      refine lt_of_lt_of_le hstart (total_mono hblockSize ?_)
      rw [length_take]
      exact Nat.min_le_left _ _
    exact hcollide _ (mem_append_right _ (chunk_mem_chunks hstart)) _
      (hblocks last hmem _ (chunk_mem_chunks hlt)) hhash

theorem restoreFile_backupChain_fullIncr :
    ∃ repo maps,
      backupChain blockPipeSample 3 8 .empty ([fullVersion] ++ [incrVersion]) = .ok (repo, maps) ∧
      restoreFile blockPipeSample 3 8 repo 10 (some [64, 88, 88, 88, 89, 90, 64])
        = .ok [65, 67, 67, 88, 89, 90, 49, 50, 51, 64] := by
  refine restoreFile_backupChain blockPipeSample blockPipeSample_valid 3 8 (by decide) (by decide)
    (by decide) [fullVersion] incrVersion ?_ (by decide) (some [64, 88, 88, 88, 89, 90, 64]) ?_
  · show ∀ version ∈ [fullVersion, incrVersion], _
    simp only [forall_mem_cons]
    exact ⟨⟨fullVersion_valid, by decide⟩, ⟨incrVersion_valid, by decide⟩, by simp⟩
  · unfold NoCollision
    decide +kernel

/-- A version whose reference is too large. -/
def largeReferenceVersion : BlockVersion := { fullVersion with reference := 2 ^ 29 }

/-- **A reference that does not fit** loses bits when the map is written, and
the blocks are looked for in another backup. -/
theorem restoreFile_largeReference :
    (match backupChain blockPipeSample 3 8 .empty [largeReferenceVersion] with
      | .ok (repo, _) => restoreFile blockPipeSample 3 8 repo 9 none
      | .error e => .error e) = .ok [] ∧
    largeReferenceVersion.content = [65, 66, 67, 88, 89, 90, 49, 50, 51] := by
  decide +kernel

end Chain

end PgxBackup
