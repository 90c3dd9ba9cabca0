import PgxBackup.BlockMap
import PgxBackup.Runs

/-!
# Reading a block map that was written

Writer and reader keep the same information about references, so the proof
follows the format from the inside out: the size of a super block, the
number of its blocks, the checksums; then a super block, the super blocks of
a reference and the references. At each level what was written is read back,
the rest of the stream is left, and both sides end with the same
information.

What the reader relies on is stated for the map as a whole (`MapValid`).
Besides the conditions on adjacent items, a reference that returns after
another one must either go on in its last super block or start one that lies
behind it: the writer leaves the offset out unless there is a gap.
-/

namespace PgxBackup

open List Base128 Runs

/-! ## Valid items -/

/-- **The values that the format can hold.** -/
structure ItemValid (x : BlockMapItem) : Prop where
  reference : x.reference < 2 ^ 29
  superBlockSize_pos : 0 < x.superBlockSize
  superBlockSize : x.superBlockSize < 2 ^ 59
  bundleId : x.bundleId < 2 ^ 64
  offset : x.offset < 2 ^ 64
  size_pos : 0 < x.size
  size : x.size < 2 ^ 59
  block : x.block < 2 ^ 64
  checksum : x.checksum.length = XX_HASH_SIZE_MAX

/-- The next block of the same super block. -/
structure NextBlock (a b : BlockMapItem) : Prop where
  reference : b.reference = a.reference
  superBlockSize : b.superBlockSize = a.superBlockSize
  bundleId : b.bundleId = a.bundleId
  offset : b.offset = a.offset
  size : b.size = a.size
  block : b.block = a.block + 1

/-- A block of the super block behind. -/
structure NextSuperBlock (a b : BlockMapItem) : Prop where
  reference : b.reference = a.reference
  bundleId : b.bundleId = a.bundleId
  offset : b.offset = a.offset + a.size

def BlockMapItem.stored (checksumSize : ℕ) (x : BlockMapItem) : BlockMapItem :=
  { x with
    checksum := x.checksum.take checksumSize
      ++ replicate (XX_HASH_SIZE_MAX - checksumSize) 0 }

/-- The item that the reader fills in is in the super block of `x`. -/
structure ReadItem (checksumSize : ℕ) (item x : BlockMapItem) : Prop where
  reference : item.reference = x.reference
  superBlockSize : item.superBlockSize = x.superBlockSize
  bundleId : item.bundleId = x.bundleId
  offset : item.offset = x.offset
  size : item.size = x.size
  checksum : item.checksum.drop checksumSize
    = replicate (XX_HASH_SIZE_MAX - checksumSize) 0

def checksumBytes (checksumSize : ℕ) (items : List BlockMapItem) : List UInt8 :=
  items.flatMap (fun x => x.checksum.take checksumSize)

theorem ioWriteVarIntIf_ok {value : ℕ} (h : value < 2 ^ 64) (condition : Bool) :
    ioWriteVarIntIf condition value = .ok (varIntIf condition value) := by
  unfold ioWriteVarIntIf varIntIf
  split
  · exact ioWriteVarIntU64_ok h
  · rfl

theorem run_ioReadVarIntIf {value : ℕ} (h : value < 2 ^ 64) (condition : Bool)
    (rest : List UInt8) :
    (ioReadVarIntIf condition).run (varIntIf condition value ++ rest)
      = .ok (if condition then value else 0, rest) := by
  unfold ioReadVarIntIf varIntIf
  split
  · exact run_ioReadVarIntU64 h rest
  · rfl

section SuperBlock

variable (blockSize : ℕ) {checksumSize : ℕ} {x item : BlockMapItem} {blocks : List BlockMapItem}

/-! ## Checksums -/

theorem blockMapWriteChecksum_ok (hchain : (x :: blocks).IsChain NextBlock)
    (hvalid : ∀ b ∈ x :: blocks, ItemValid b) :
    blockMapWriteChecksum checksumSize x blocks = .ok (checksumBytes checksumSize blocks) := by
  induction blocks generalizing x with
  | nil => rfl
  | cons b blocks ih =>
    rw [isChain_cons_cons] at hchain
    have hb : b.block = u64 (x.block + 1) := by
      rw [u64_of_lt, hchain.1.block]
      rw [← hchain.1.block]
      exact (hvalid b (by simp)).block
    unfold blockMapWriteChecksum
    rw [ASSERT_of_true (by simpa using hb),
      ih hchain.2 (fun c hc => hvalid c (mem_cons_of_mem _ hc))]
    rfl

section

variable (hsize : checksumSize ≤ XX_HASH_SIZE_MAX) (hx : ItemValid x)
include hsize hx

theorem memcpy_stored (hitem : item.checksum.drop checksumSize
      = replicate (XX_HASH_SIZE_MAX - checksumSize) 0) :
    memcpy item.checksum (x.checksum.take checksumSize) = (x.stored checksumSize).checksum := by
  unfold memcpy BlockMapItem.stored
  rw [length_take, hx.checksum, Nat.min_eq_left hsize, hitem]

theorem stored_drop :
    (x.stored checksumSize).checksum.drop checksumSize
      = replicate (XX_HASH_SIZE_MAX - checksumSize) 0 := by
  refine drop_left' ?_
  rw [length_take, hx.checksum, Nat.min_eq_left hsize]

theorem ReadItem.stored_self : ReadItem checksumSize (x.stored checksumSize) x :=
  ⟨rfl, rfl, rfl, rfl, rfl, stored_drop hsize hx⟩

end

theorem ReadItem.next {b : BlockMapItem} (hitem : ReadItem checksumSize item x)
    (hnext : NextBlock x b) : ReadItem checksumSize item b :=
  ⟨hitem.reference.trans hnext.reference.symm, hitem.superBlockSize.trans hnext.superBlockSize.symm,
    hitem.bundleId.trans hnext.bundleId.symm, hitem.offset.trans hnext.offset.symm,
    hitem.size.trans hnext.size.symm, hitem.checksum⟩

theorem ReadItem.prior {b : BlockMapItem} (hitem : ReadItem checksumSize item b)
    (hnext : NextBlock x b) : ReadItem checksumSize item x :=
  ⟨hitem.reference.trans hnext.reference, hitem.superBlockSize.trans hnext.superBlockSize,
    hitem.bundleId.trans hnext.bundleId, hitem.offset.trans hnext.offset,
    hitem.size.trans hnext.size, hitem.checksum⟩

theorem run_blockMapReadChecksum_step (hsize : checksumSize ≤ XX_HASH_SIZE_MAX)
    (hx : ItemValid x) (hitem : ReadItem checksumSize item x) (blockTotal : ℕ)
    (rest : List UInt8) :
    (blockMapReadChecksum checksumSize (blockTotal + 1) x.block item).run
        (x.checksum.take checksumSize ++ rest)
      = (blockMapReadChecksum checksumSize blockTotal (x.block + 1) (x.stored checksumSize)
          >>= fun (items, itemLast) => pure (x.stored checksumSize :: items, itemLast)).run rest := by
  have hlen : (x.checksum.take checksumSize).length = checksumSize := by
    rw [length_take, hx.checksum, Nat.min_eq_left hsize]
  have hfilled : { item with
      block := u64 x.block
      checksum := memcpy item.checksum (x.checksum.take checksumSize) }
        = x.stored checksumSize := by
    rw [memcpy_stored hsize hx hitem.checksum, u64_of_lt hx.block]
    unfold BlockMapItem.stored
    rw [hitem.reference, hitem.superBlockSize, hitem.bundleId, hitem.offset, hitem.size]
  rw [blockMapReadChecksum, StateT.run_bind, run_ioRead _ _ hlen, ok_bind]
  rw [hfilled]

/-- **The checksums are read back** into items of the super block. -/
theorem run_blockMapReadChecksum (hsize : checksumSize ≤ XX_HASH_SIZE_MAX)
    (hchain : (x :: blocks).IsChain NextBlock) (hvalid : ∀ b ∈ x :: blocks, ItemValid b)
    (hitem : ReadItem checksumSize item x) (rest : List UInt8) :
    ∃ itemLast, ReadItem checksumSize itemLast x ∧
      (blockMapReadChecksum checksumSize (blocks.length + 1) x.block item).run
          (checksumBytes checksumSize (x :: blocks) ++ rest)
        = .ok (((x :: blocks).map (BlockMapItem.stored checksumSize), itemLast), rest) := by
  induction blocks generalizing x item with
  | nil =>
    have hx := hvalid x (by simp)
    refine ⟨x.stored checksumSize, .stored_self hsize hx, ?_⟩
    have hbytes : checksumBytes checksumSize [x] ++ rest
        = x.checksum.take checksumSize ++ rest := by
      simp [checksumBytes]
    rw [hbytes, run_blockMapReadChecksum_step hsize hx hitem]
    rfl
  | cons b blocks ih =>
    have hx := hvalid x (by simp)
    rw [isChain_cons_cons] at hchain
    obtain ⟨itemLast, hlast, hrun⟩ := ih hchain.2
      (fun c hc => hvalid c (mem_cons_of_mem _ hc))
      ((ReadItem.stored_self hsize hx).next hchain.1)
    refine ⟨itemLast, hlast.prior hchain.1, ?_⟩
    have hbytes : checksumBytes checksumSize (x :: b :: blocks) ++ rest
        = x.checksum.take checksumSize ++ (checksumBytes checksumSize (b :: blocks) ++ rest) := by
      simp [checksumBytes]
    rw [hbytes, length_cons, run_blockMapReadChecksum_step hsize hx hitem, StateT.run_bind,
      ← hchain.1.block, hrun]
    rfl

/-! ## Size and number of blocks -/

def sizeNumber (size : ℕ) (sizeLast : ℤ) : ℕ :=
  if sizeLast = 0 then size else cvtInt64ToZigZag (size - sizeLast)

variable {size : ℕ} {sizeLast : ℤ} {d : BlockMapReference}

section

variable (hsize : size < 2 ^ 59) (h0 : 0 ≤ sizeLast) (h59 : sizeLast < 2 ^ 59)
include hsize h0 h59

theorem sizeNumber_lt : sizeNumber size sizeLast < 2 ^ 60 := by
  unfold sizeNumber
  split
  · omega
  · exact cvtInt64ToZigZag_lt (by omega) (by omega)

theorem sizeNumber_spec :
    (if sizeLast ≠ 0 then
        u64Cast (cvtInt64FromZigZag (sizeNumber size sizeLast) + sizeLast)
      else sizeNumber size sizeLast) = size := by
  unfold sizeNumber
  by_cases hzero : sizeLast = 0
  · rw [if_neg (by simpa using hzero), if_pos hzero]
  · rw [if_pos hzero, if_neg hzero, cvtInt64FromZigZag_to (by omega) (by omega),
      Int.sub_add_cancel, u64Cast_natCast (by omega)]

end

def superBlockFlags (last total change : Bool) : ℕ :=
  flagIf last BLOCK_MAP_FLAG_LAST ||| flagIf total BLOCK_MAP_FLAG_SUPER_BLOCK_TOTAL_OFFSET |||
    flagIf change BLOCK_MAP_FLAG_SUPER_BLOCK_CHANGE

theorem superBlockFlags_spec (last total change : Bool) :
    superBlockFlags last total change < 2 ^ BLOCK_MAP_SUPER_BLOCK_SHIFT ∧
      (decide (superBlockFlags last total change &&& BLOCK_MAP_FLAG_LAST ≠ 0) = last) ∧
      (decide (superBlockFlags last total change &&&
        BLOCK_MAP_FLAG_SUPER_BLOCK_TOTAL_OFFSET ≠ 0) = total) ∧
      (decide (superBlockFlags last total change &&&
        BLOCK_MAP_FLAG_SUPER_BLOCK_CHANGE ≠ 0) = change) := by
  cases last <;> cases total <;> cases change <;> decide

/-- The varint of the size with the flags. -/
def superBlockNumber (last total change : Bool) (size : ℕ) (sizeLast : ℤ) : ℕ :=
  superBlockFlags last total change ||| sizeNumber size sizeLast <<< BLOCK_MAP_SUPER_BLOCK_SHIFT

theorem superBlockNumber_spec (last total change : Bool)
    (hsize : size < 2 ^ 59) (h0 : 0 ≤ sizeLast) (h59 : sizeLast < 2 ^ 59) :
    superBlockNumber last total change size sizeLast < 2 ^ 64 ∧
      superBlockNumber last total change size sizeLast >>> BLOCK_MAP_SUPER_BLOCK_SHIFT
        = sizeNumber size sizeLast ∧
      decide (superBlockNumber last total change size sizeLast &&& BLOCK_MAP_FLAG_LAST ≠ 0)
        = last ∧
      decide (superBlockNumber last total change size sizeLast &&&
        BLOCK_MAP_FLAG_SUPER_BLOCK_TOTAL_OFFSET ≠ 0) = total ∧
      decide (superBlockNumber last total change size sizeLast &&&
        BLOCK_MAP_FLAG_SUPER_BLOCK_CHANGE ≠ 0) = change := by
  obtain ⟨hflags, hlast, htotal, hflag⟩ := superBlockFlags_spec last total change
  have hnumber := sizeNumber_lt hsize h0 h59
  unfold superBlockNumber
  refine ⟨?_, shiftRight_or_shiftLeft hflags, ?_, ?_, ?_⟩
  · rw [or_shiftLeft_eq hflags]
    have hflags : superBlockFlags last total change < 8 := hflags
    show sizeNumber size sizeLast * 2 ^ 3 + superBlockFlags last total change < 2 ^ 64
    omega
  · rw [and_or_shiftLeft (by decide)]
    exact hlast
  · rw [and_or_shiftLeft (by decide)]
    exact htotal
  · rw [and_or_shiftLeft (by decide)]
    exact hflag

def superBlockSizeNumber (blockSize superBlockSize : ℕ) : ℕ :=
  u64 ((superBlockSize / blockSize) <<< BLOCK_MAP_SUPER_BLOCK_SIZE_SHIFT) |||
    flagIf (superBlockSize % blockSize ≠ 0) BLOCK_MAP_FLAG_SUPER_BLOCK_SIZE_REMAINDER

theorem superBlockSizeNumber_spec {superBlockSize : ℕ} (hsize : superBlockSize < 2 ^ 59) :
    superBlockSizeNumber blockSize superBlockSize < 2 ^ 64 ∧
      superBlockSizeNumber blockSize superBlockSize >>> BLOCK_MAP_SUPER_BLOCK_SIZE_SHIFT
        = superBlockSize / blockSize ∧
      (superBlockSizeNumber blockSize superBlockSize &&&
        BLOCK_MAP_FLAG_SUPER_BLOCK_SIZE_REMAINDER ≠ 0 ↔ superBlockSize % blockSize ≠ 0) := by
  have hdiv : superBlockSize / blockSize < 2 ^ 59 :=
    lt_of_le_of_lt (Nat.div_le_self _ _) hsize
  have hshift : (superBlockSize / blockSize) <<< BLOCK_MAP_SUPER_BLOCK_SIZE_SHIFT < 2 ^ 64 := by
    rw [Nat.shiftLeft_eq]
    show superBlockSize / blockSize * 2 ^ 1 < 2 ^ 64
    omega
  have hflag : flagIf (superBlockSize % blockSize ≠ 0) BLOCK_MAP_FLAG_SUPER_BLOCK_SIZE_REMAINDER
      < 2 ^ BLOCK_MAP_SUPER_BLOCK_SIZE_SHIFT := by
    unfold flagIf
    split
    · decide
    · decide
  unfold superBlockSizeNumber
  rw [u64_of_lt hshift, Nat.or_comm]
  refine ⟨?_, shiftRight_or_shiftLeft hflag, ?_⟩
  · rw [or_shiftLeft_eq hflag]
    rw [Nat.shiftLeft_eq] at hshift
    have hflag : flagIf (superBlockSize % blockSize ≠ 0)
      BLOCK_MAP_FLAG_SUPER_BLOCK_SIZE_REMAINDER < 2 := hflag
    show superBlockSize / blockSize * 2 ^ 1 + _ < 2 ^ 64
    omega
  · rw [and_or_shiftLeft (by decide)]
    unfold flagIf
    by_cases hrem : superBlockSize % blockSize = 0
    · simp [hrem]
    · simp [hrem, BLOCK_MAP_FLAG_SUPER_BLOCK_SIZE_REMAINDER]

/-- **The size of a super block is read back**, along with its flags. -/
theorem blockMapWriteSize_spec (hx : ItemValid x) (d : BlockMapReference) (h0 : 0 ≤ sizeLast) (h59 : sizeLast < 2 ^ 59)
    (last total : Bool) :
    ∃ bytes encoded,
      blockMapWriteSize blockSize (flagIf last BLOCK_MAP_FLAG_LAST |||
          flagIf total BLOCK_MAP_FLAG_SUPER_BLOCK_TOTAL_OFFSET) x d sizeLast
        = .ok (bytes, { d with
            superBlockSize := x.superBlockSize, offset := x.offset, size := x.size, block := 0 }) ∧
      bytes ≠ [] ∧
      decide (encoded &&& BLOCK_MAP_FLAG_LAST ≠ 0) = last ∧
      decide (encoded &&& BLOCK_MAP_FLAG_SUPER_BLOCK_TOTAL_OFFSET ≠ 0) = total ∧
      ∀ (s : BlockMapReadState) (first : Bool) (rest : List UInt8), s.sizeLast = sizeLast →
        s.item.superBlockSize = d.superBlockSize →
        s.referenceData.superBlockSize = d.superBlockSize →
        (blockMapReadSize blockSize first s).run (bytes ++ rest)
          = .ok ((encoded, { s with
              item := { s.item with size := x.size, superBlockSize := x.superBlockSize }
              referenceData := { s.referenceData with
                superBlockSize := x.superBlockSize
                offset := if first then s.item.offset
                  else u64 (s.referenceData.offset + u64Cast s.sizeLast)
                size := x.size
                block := 0 } }), rest) := by
  generalize hchange : decide (x.superBlockSize ≠ d.superBlockSize) = change
  obtain ⟨hlt, hshift, hlast, htotal, hflag⟩ :=
    superBlockNumber_spec last total change hx.size h0 h59
  have hencoded : (flagIf last BLOCK_MAP_FLAG_LAST |||
      flagIf total BLOCK_MAP_FLAG_SUPER_BLOCK_TOTAL_OFFSET |||
      flagIf change BLOCK_MAP_FLAG_SUPER_BLOCK_CHANGE) |||
      u64 ((if sizeLast = 0 then x.size else cvtInt64ToZigZag (x.size - sizeLast))
        <<< BLOCK_MAP_SUPER_BLOCK_SHIFT) = superBlockNumber last total change x.size sizeLast := by
    have hnumber := sizeNumber_lt hx.size h0 h59
    have hsmall : sizeNumber x.size sizeLast <<< BLOCK_MAP_SUPER_BLOCK_SHIFT < 2 ^ 64 := by
      rw [Nat.shiftLeft_eq]
      show sizeNumber x.size sizeLast * 2 ^ 3 < 2 ^ 64
      omega
    show superBlockFlags last total change |||
      u64 (sizeNumber x.size sizeLast <<< BLOCK_MAP_SUPER_BLOCK_SHIFT) = _
    rw [u64_of_lt hsmall]
    rfl
  unfold blockMapWriteSize
  dsimp only
  rw [hchange, hencoded, ioWriteVarIntU64_ok hlt, ok_bind]
  have hsize := sizeNumber_spec hx.size h0 h59
  cases change with
  | false =>
    have hsame : x.superBlockSize = d.superBlockSize := by simpa using hchange
    have hno : ¬(superBlockNumber last total false x.size sizeLast &&&
        BLOCK_MAP_FLAG_SUPER_BLOCK_CHANGE ≠ 0) := of_decide_eq_false hflag
    refine ⟨varInt (superBlockNumber last total false x.size sizeLast),
      superBlockNumber last total false x.size sizeLast, ?_, varInt_ne_nil hlt, hlast, htotal,
      fun s first rest hs hitem hdata => ?_⟩
    · rw [hsame]
      rfl
    · unfold blockMapReadSize
      rw [StateT.run_bind, run_ioReadVarIntU64 hlt, ok_bind]
      dsimp only
      unfold blockMapReadSuperBlockSize
      rw [hshift, hs, hsize, if_neg hno, hsame]
      simp only [pure_bind, Option.getD_none, hitem, hdata]
      rfl
  | true =>
    obtain ⟨hlt', hshift', hflag'⟩ := superBlockSizeNumber_spec blockSize
      hx.superBlockSize
    have hyes : superBlockNumber last total true x.size sizeLast &&&
        BLOCK_MAP_FLAG_SUPER_BLOCK_CHANGE ≠ 0 := of_decide_eq_true hflag
    have hmul : u64 (x.superBlockSize / blockSize * blockSize)
        = x.superBlockSize / blockSize * blockSize := by
      refine u64_of_lt (lt_of_le_of_lt (Nat.div_mul_le_self _ _) ?_)
      exact lt_trans hx.superBlockSize (by decide)
    have hremlt : x.superBlockSize % blockSize < 2 ^ 64 :=
      lt_of_le_of_lt (Nat.mod_le _ _) (lt_trans hx.superBlockSize (by decide))
    have hrem : (if decide (x.superBlockSize % blockSize ≠ 0) = true then
        x.superBlockSize % blockSize else 0) = x.superBlockSize % blockSize := by
      by_cases hzero : x.superBlockSize % blockSize = 0
      · simp [hzero]
      · simp [hzero]
    have hsum : u64 (x.superBlockSize / blockSize * blockSize + x.superBlockSize % blockSize)
        = x.superBlockSize := by
      rw [Nat.div_add_mod']
      exact u64_of_lt (lt_trans hx.superBlockSize (by decide))
    have hsbs : u64 ((x.superBlockSize / blockSize) <<< BLOCK_MAP_SUPER_BLOCK_SIZE_SHIFT) |||
        flagIf (x.superBlockSize % blockSize ≠ 0) BLOCK_MAP_FLAG_SUPER_BLOCK_SIZE_REMAINDER
          = superBlockSizeNumber blockSize x.superBlockSize := rfl
    rw [if_pos rfl, hsbs, ioWriteVarIntU64_ok hlt', ok_bind, ioWriteVarIntIf_ok hremlt, ok_bind]
    refine ⟨_, superBlockNumber last total true x.size sizeLast, rfl, ?_, hlast, htotal,
      fun s first rest hs hitem hdata => ?_⟩
    · rw [append_assoc]
      exact append_ne_nil_of_left_ne_nil (varInt_ne_nil hlt) _
    · unfold blockMapReadSize
      rw [append_assoc, append_assoc, StateT.run_bind, run_ioReadVarIntU64 hlt, ok_bind]
      dsimp only
      unfold blockMapReadSuperBlockSize
      rw [hshift, hs, hsize, if_pos hyes]
      simp only [bind_assoc]
      rw [StateT.run_bind, run_ioReadVarIntU64 hlt', ok_bind]
      rw [StateT.run_bind, decide_eq_decide.mpr hflag', run_ioReadVarIntIf hremlt, ok_bind]
      rw [hrem, hshift', hmul, hsum]
      simp only [pure_bind, Option.getD_some]
      rfl

/-- **The number of blocks is read back**, along with the first of them. -/
theorem blockMapWriteTotal_spec (hx : ItemValid x)
    (hd : d.block ≤ x.block) {total : ℕ} (hpos : 0 < total) (htotal : total ≤ 2 ^ 31) :
    ∃ bytes, blockMapWriteTotal true total x d = .ok (bytes, { d with block := x.block }) ∧
      bytes ≠ [] ∧
      ∀ (blockSize encoded superBlockSize : ℕ) (rest : List UInt8),
        encoded &&& BLOCK_MAP_FLAG_SUPER_BLOCK_TOTAL_OFFSET ≠ 0 →
        (blockMapReadTotal blockSize encoded superBlockSize d.block).run (bytes ++ rest)
          = .ok ((total, x.block), rest) := by
  have hgap : u64Sub x.block d.block = x.block - d.block := u64Sub_of_le hd hx.block
  have hgap64 : x.block - d.block < 2 ^ 64 := lt_of_le_of_lt (Nat.sub_le _ _) hx.block
  have hshift : (total - 1) <<< BLOCK_MAP_BLOCK_TOTAL_SHIFT < 2 ^ 32 := by
    rw [Nat.shiftLeft_eq]
    show (total - 1) * 2 ^ 1 < 2 ^ 32
    omega
  have hflag : flagIf (x.block - d.block > 0) BLOCK_MAP_FLAG_BLOCK_TOTAL_OFFSET
      < 2 ^ BLOCK_MAP_BLOCK_TOTAL_SHIFT := by
    unfold flagIf
    split
    · decide
    · decide
  have hback : (flagIf (x.block - d.block > 0) BLOCK_MAP_FLAG_BLOCK_TOTAL_OFFSET |||
      (total - 1) <<< BLOCK_MAP_BLOCK_TOTAL_SHIFT) >>> BLOCK_MAP_BLOCK_TOTAL_SHIFT + 1 = total := by
    rw [shiftRight_or_shiftLeft hflag]
    omega
  have hlt : flagIf (x.block - d.block > 0) BLOCK_MAP_FLAG_BLOCK_TOTAL_OFFSET |||
      (total - 1) <<< BLOCK_MAP_BLOCK_TOTAL_SHIFT < 2 ^ 64 := by
    rw [or_shiftLeft_eq hflag]
    have hflag : flagIf (x.block - d.block > 0) BLOCK_MAP_FLAG_BLOCK_TOTAL_OFFSET < 2 := hflag
    show (total - 1) * 2 ^ 1 + _ < 2 ^ 64
    omega
  have hbit : ((flagIf (x.block - d.block > 0) BLOCK_MAP_FLAG_BLOCK_TOTAL_OFFSET |||
      (total - 1) <<< BLOCK_MAP_BLOCK_TOTAL_SHIFT) &&& BLOCK_MAP_FLAG_BLOCK_TOTAL_OFFSET ≠ 0)
        ↔ x.block - d.block > 0 := by
    rw [and_or_shiftLeft (by decide)]
    unfold flagIf
    by_cases hpos : x.block - d.block > 0
    · simp [hpos, BLOCK_MAP_FLAG_BLOCK_TOTAL_OFFSET]
    · simp [hpos]
  have hblock : u64 (d.block + if decide (x.block - d.block > 0) = true then x.block - d.block else 0)
      = x.block := by
    have hsum : (d.block + if decide (x.block - d.block > 0) = true then x.block - d.block else 0)
        = x.block := by
      by_cases hpos : x.block - d.block > 0
      · rw [if_pos (decide_eq_true hpos)]
        omega
      · rw [if_neg (by simpa using hpos)]
        omega
    rw [hsum, u64_of_lt hx.block]
  have hdata : (if x.block - d.block > 0 then { d with block := x.block } else d)
      = { d with block := x.block } := by
    split
    · rfl
    · have heq : x.block = d.block := by omega
      rw [heq]
  unfold blockMapWriteTotal
  dsimp only
  rw [if_pos rfl, hgap, u32_of_lt hshift, Nat.or_comm, ioWriteVarIntU64_ok hlt, ok_bind,
    ioWriteVarIntIf_ok hgap64, ok_bind, hdata]
  refine ⟨_, rfl, append_ne_nil_of_left_ne_nil (varInt_ne_nil hlt) _,
    fun blockSize encoded superBlockSize rest h => ?_⟩
  unfold blockMapReadTotal
  rw [if_pos h, append_assoc, StateT.run_bind, run_ioReadVarIntU64 hlt, ok_bind]
  rw [StateT.run_bind, decide_eq_decide.mpr hbit, run_ioReadVarIntIf hgap64, ok_bind]
  rw [hback, hblock]
  rfl

/-! ## A super block -/

/-- What is known of the reference of an item after the item. -/
def BlockMapItem.referenceData (x : BlockMapItem) (blocks : ℕ) : BlockMapReference :=
  ⟨x.reference, x.superBlockSize, x.bundleId, x.offset, x.size, u64 (x.block + blocks)⟩

/-- The state of the reader after a super block. -/
structure ReadAfter (checksumSize : ℕ) (s : BlockMapReadState) (x : BlockMapItem) (blocks : ℕ) :
    Prop where
  reference : s.item.reference = x.reference
  superBlockSize : s.item.superBlockSize = x.superBlockSize
  bundleId : s.item.bundleId = x.bundleId
  offset : s.item.offset = u64 (x.offset + x.size)
  checksum : s.item.checksum.drop checksumSize
    = replicate (XX_HASH_SIZE_MAX - checksumSize) 0
  referenceData : s.referenceData = x.referenceData blocks
  sizeLast : s.sizeLast = x.size

/-- The state of the reader before a super block that is not continued. -/
structure ReadBefore (checksumSize : ℕ) (s : BlockMapReadState) (first : Bool)
    (d : BlockMapReference) (x : BlockMapItem) : Prop where
  reference : s.item.reference = x.reference
  bundleId : s.item.bundleId = x.bundleId
  offset : s.item.offset = x.offset
  superBlockSize : s.item.superBlockSize = d.superBlockSize
  checksum : s.item.checksum.drop checksumSize
    = replicate (XX_HASH_SIZE_MAX - checksumSize) 0
  dataReference : s.referenceData.reference = x.reference
  dataBundleId : s.referenceData.bundleId = x.bundleId
  dataSuperBlockSize : s.referenceData.superBlockSize = d.superBlockSize
  next : first = false → u64 (s.referenceData.offset + u64Cast s.sizeLast) = x.offset

/-- What comes after the size of a super block: the number of blocks, if it
is needed, and the checksums. -/
theorem superBlock_end (hx : ItemValid x) (blocks : List BlockMapItem)
    (htotal : blocks.length + 1 ≤ 2 ^ 31) (hd : d.block ≤ x.block)
    (flag : Bool)
    (hflag : flag = false → d.block = x.block ∧
      blocks.length + 1 = superBlockTotal blockSize x.superBlockSize) :
    ∃ bytes,
      blockMapWriteTotal flag (blocks.length + 1) x d
        = .ok (bytes, { d with block := x.block }) ∧
      (flag = true → bytes ≠ []) ∧
      ∀ (encoded : ℕ) (rest : List UInt8),
        decide (encoded &&& BLOCK_MAP_FLAG_SUPER_BLOCK_TOTAL_OFFSET ≠ 0) = flag →
        (blockMapReadTotal blockSize encoded x.superBlockSize d.block).run (bytes ++ rest)
          = .ok ((blocks.length + 1, x.block), rest) := by
  cases flag with
  | true =>
    obtain ⟨bytes, hok, hne, hread⟩ :=
      blockMapWriteTotal_spec hx hd (Nat.succ_pos blocks.length) htotal
    exact ⟨bytes, hok, fun _ => hne, fun encoded rest h =>
      hread blockSize encoded x.superBlockSize rest (of_decide_eq_true h)⟩
  | false =>
    obtain ⟨heq, hcount⟩ := hflag rfl
    refine ⟨[], by rw [← heq]; rfl, by simp, fun encoded rest h => ?_⟩
    unfold blockMapReadTotal
    rw [if_neg (of_decide_eq_false h), hcount, heq]
    rfl

theorem checksumBytes_cons (checksumSize : ℕ) (x : BlockMapItem) (blocks : List BlockMapItem) :
    checksumBytes checksumSize (x :: blocks)
      = x.checksum.take checksumSize ++ checksumBytes checksumSize blocks := by
  simp [checksumBytes]

section

variable (hsize : checksumSize ≤ XX_HASH_SIZE_MAX) (hchain : (x :: blocks).IsChain NextBlock)
  (hvalid : ∀ b ∈ x :: blocks, ItemValid b)
include hsize hchain hvalid

theorem run_blockMapReadSuperBlock {referenceEncoded encoded : ℕ} {referenceContinue first : Bool}
    {s s₁ : BlockMapReadState} (begin : List UInt8) {total : List UInt8}
    (hbegin : ∀ rest, (blockMapReadBegin blockSize referenceEncoded referenceContinue first s).run
      (begin ++ rest) = .ok ((encoded, s₁), rest))
    (htotal : ∀ rest, (blockMapReadTotal blockSize encoded x.superBlockSize
      s₁.referenceData.block).run (total ++ rest) = .ok ((blocks.length + 1, x.block), rest))
    (hitem : ReadItem checksumSize s₁.item x)
    (hdata : { s₁.referenceData with block := u64 (x.block + (blocks.length + 1)) }
      = x.referenceData (blocks.length + 1)) (rest : List UInt8) :
    ∃ s', ReadAfter checksumSize s' x (blocks.length + 1) ∧
      (blockMapReadSuperBlock blockSize checksumSize referenceEncoded referenceContinue first s).run
          (begin ++ (total ++ (checksumBytes checksumSize (x :: blocks) ++ rest)))
        = .ok (((x :: blocks).map (BlockMapItem.stored checksumSize), s',
            decide (encoded &&& BLOCK_MAP_FLAG_LAST ≠ 0)), rest) := by
  have hx := hvalid x (by simp)
  obtain ⟨itemLast, hlast, hrun⟩ := run_blockMapReadChecksum hsize hchain hvalid hitem rest
  refine ⟨⟨{ itemLast with offset := u64 (itemLast.offset + itemLast.size) },
    x.referenceData (blocks.length + 1), i64 itemLast.size⟩, ?_, ?_⟩
  · refine ⟨hlast.reference, hlast.superBlockSize, hlast.bundleId, ?_, hlast.checksum, rfl, ?_⟩
    · show u64 (itemLast.offset + itemLast.size) = _
      rw [hlast.offset, hlast.size]
    · show i64 itemLast.size = _
      rw [hlast.size, i64_of_lt (lt_trans hx.size (by decide))]
  · unfold blockMapReadSuperBlock
    rw [StateT.run_bind, hbegin, ok_bind]
    rw [StateT.run_bind, hitem.superBlockSize, htotal, ok_bind]
    rw [StateT.run_bind, hrun, ok_bind]
    rw [hdata]
    rfl

/-- **A super block is read back** when it is not continued. -/
theorem superBlock_new (htotal : blocks.length + 1 ≤ 2 ^ 31) {reference : BlockMapItem}
    (hreference : 0 < reference.superBlockSize) (hdref : d.reference = x.reference)
    (hdbundle : d.bundleId = x.bundleId) (h0 : 0 ≤ sizeLast) (h59 : sizeLast < 2 ^ 59) (last : Bool) :
    ∃ bytes,
      blockMapWriteSuperBlock blockSize checksumSize reference none last x blocks d sizeLast
        = .ok (bytes, x.referenceData (blocks.length + 1)) ∧
      bytes ≠ [] ∧
      ∀ (referenceEncoded : ℕ) (s : BlockMapReadState) (first : Bool) (rest : List UInt8),
        ReadBefore checksumSize s first d x → s.sizeLast = sizeLast →
        ∃ s', ReadAfter checksumSize s' x (blocks.length + 1) ∧
          (blockMapReadSuperBlock blockSize checksumSize referenceEncoded false first s).run
              (bytes ++ rest)
            = .ok (((x :: blocks).map (BlockMapItem.stored checksumSize), s', last), rest) := by
  have hx := hvalid x (by simp)
  generalize hflag : ((none : Option ℕ).isSome || decide (x.block ≠ 0) ||
    decide (blocks.length + 1 ≠ superBlockTotal blockSize x.superBlockSize)) = flag
  have hcomplete : flag = false → 0 = x.block ∧
      blocks.length + 1 = superBlockTotal blockSize x.superBlockSize := by
    intro h
    rw [h] at hflag
    simp only [Option.isSome_none, Bool.false_or, Bool.or_eq_false_iff, decide_eq_false_iff_not,
      not_not] at hflag
    exact ⟨hflag.1.symm, hflag.2⟩
  obtain ⟨begin, encoded, hbegin, hne, hlast, hflag', hreadBegin⟩ :=
    blockMapWriteSize_spec blockSize hx d h0 h59 last flag
  obtain ⟨total, hend, -, hreadEnd⟩ := superBlock_end blockSize
    (d := { d with superBlockSize := x.superBlockSize, offset := x.offset, size := x.size, block := 0 })
    hx blocks htotal (Nat.zero_le x.block) flag hcomplete
  refine ⟨begin ++ total ++ x.checksum.take checksumSize ++ checksumBytes checksumSize blocks,
    ?_, by simp [hne], fun referenceEncoded s first rest hbefore hlastSize => ?_⟩
  · unfold blockMapWriteSuperBlock
    dsimp only
    rw [hflag, ASSERT_of_true (by simpa using hreference), ok_bind, hbegin, ok_bind]
    rw [hend, ok_bind]
    rw [ASSERT_of_true (by simp), ok_bind, blockMapWriteChecksum_ok hchain hvalid, ok_bind, hdref,
      hdbundle]
    rfl
  · have hoffset : (if first then s.item.offset
        else u64 (s.referenceData.offset + u64Cast s.sizeLast)) = x.offset := by
      cases first with
      | true => exact hbefore.offset
      | false => exact hbefore.next rfl
    have hread := fun more => hreadBegin s first more hlastSize hbefore.superBlockSize
      hbefore.dataSuperBlockSize
    rw [hoffset] at hread
    obtain ⟨s', hafter, hrun⟩ := run_blockMapReadSuperBlock blockSize hsize hchain hvalid
      begin (fun more => show (blockMapReadBegin blockSize referenceEncoded false first s).run
        (begin ++ more) = _ from hread more)
      (fun more => hreadEnd encoded more hflag')
      ⟨hbefore.reference, rfl, hbefore.bundleId, hbefore.offset, rfl, hbefore.checksum⟩
      (by
        dsimp only
        rw [hbefore.dataReference, hbefore.dataBundleId]
        rfl) rest
    refine ⟨s', hafter, ?_⟩
    rw [checksumBytes_cons, hlast] at hrun
    simp only [append_assoc] at hrun ⊢
    exact hrun

/-- **A continued super block is read back**, after the reference. -/
theorem superBlock_continued (htotal : blocks.length + 1 ≤ 2 ^ 31) {reference : BlockMapItem}
    {flags : ℕ} {last : Bool}
    (hencoded : referenceWithFlags (flags ||| flagIf last BLOCK_MAP_FLAG_CONTINUE_LAST)
      reference.reference < 2 ^ 64) (hd : { d with block := u64 (x.block + (blocks.length + 1)) }
      = x.referenceData (blocks.length + 1)) (hblock : d.block ≤ x.block) (sizeLast : ℤ) :
    ∃ bytes,
      blockMapWriteSuperBlock blockSize checksumSize reference (some flags) last x blocks d sizeLast
        = .ok (varInt (referenceWithFlags (flags ||| flagIf last BLOCK_MAP_FLAG_CONTINUE_LAST)
            reference.reference) ++ bytes, x.referenceData (blocks.length + 1)) ∧
      bytes ≠ [] ∧
      ∀ (referenceEncoded : ℕ) (s : BlockMapReadState) (first : Bool) (rest : List UInt8),
        decide (referenceEncoded &&& BLOCK_MAP_FLAG_CONTINUE_LAST ≠ 0) = last →
        ReadItem checksumSize s.item x → s.referenceData = d →
        ∃ s', ReadAfter checksumSize s' x (blocks.length + 1) ∧
          (blockMapReadSuperBlock blockSize checksumSize referenceEncoded true first s).run
              (bytes ++ rest)
            = .ok (((x :: blocks).map (BlockMapItem.stored checksumSize), s', last), rest) := by
  have hx := hvalid x (by simp)
  have hsbs : x.superBlockSize = d.superBlockSize := by
    have := congrArg BlockMapReference.superBlockSize hd
    exact this.symm
  obtain ⟨total, hend, hne, hreadEnd⟩ := superBlock_end blockSize hx blocks htotal hblock
    true (by simp)
  refine ⟨total ++ x.checksum.take checksumSize ++ checksumBytes checksumSize blocks, ?_,
    by simp [hne rfl], fun referenceEncoded s first rest hlast hitem hdata => ?_⟩
  · unfold blockMapWriteSuperBlock
    simp only [Option.isSome_some, Bool.true_or]
    rw [ASSERT_of_true (by simpa using hsbs), ok_bind, ioWriteVarIntU64_ok hencoded, ok_bind]
    dsimp only [pure, Except.pure]
    rw [ok_bind]
    rw [hend, ok_bind]
    rw [ASSERT_of_true (by simp), ok_bind, blockMapWriteChecksum_ok hchain hvalid, ok_bind, hd]
    simp only [append_assoc]
  · have hflag : decide ((flagIf last BLOCK_MAP_FLAG_LAST |||
        BLOCK_MAP_FLAG_SUPER_BLOCK_TOTAL_OFFSET) &&& BLOCK_MAP_FLAG_SUPER_BLOCK_TOTAL_OFFSET ≠ 0)
          = true := by
      cases last <;> decide
    have hflag' : decide ((flagIf last BLOCK_MAP_FLAG_LAST |||
        BLOCK_MAP_FLAG_SUPER_BLOCK_TOTAL_OFFSET) &&& BLOCK_MAP_FLAG_LAST ≠ 0) = last := by
      cases last <;> decide
    have hbegin : ∀ more, (blockMapReadBegin blockSize referenceEncoded true first s).run
        ([] ++ more) = .ok ((flagIf last BLOCK_MAP_FLAG_LAST |||
          BLOCK_MAP_FLAG_SUPER_BLOCK_TOTAL_OFFSET, s), more) := by
      intro more
      unfold blockMapReadBegin
      rw [if_pos rfl, hlast]
      rfl
    obtain ⟨s', hafter, hrun⟩ := run_blockMapReadSuperBlock blockSize hsize hchain hvalid [] hbegin
      (fun more => by
        rw [hdata]
        exact hreadEnd _ more hflag) hitem (by rw [hdata, hd]) rest
    refine ⟨s', hafter, ?_⟩
    rw [checksumBytes_cons, hflag'] at hrun
    simp only [append_assoc, nil_append] at hrun ⊢
    exact hrun

end

end SuperBlock

/-! ## The super blocks of a reference -/

/-- A run of blocks of one super block. -/
structure RunValid (run : List BlockMapItem) : Prop where
  chain : run.IsChain NextBlock
  valid : ∀ b ∈ run, ItemValid b
  length : run.length ≤ 2 ^ 31

theorem RunValid.getLast {x a : BlockMapItem} {blocks : List BlockMapItem}
    (h : RunValid (x :: blocks)) (ha : a ∈ (x :: blocks).getLast?) :
    a.referenceData 1 = x.referenceData (blocks.length + 1) ∧ a.size = x.size ∧
      a.offset = x.offset := by
  obtain ⟨hchain, -, -⟩ := h
  induction blocks generalizing x with
  | nil =>
    have hxa : x = a := by simpa using ha
    rw [← hxa]
    exact ⟨rfl, rfl, rfl⟩
  | cons b blocks ih =>
    rw [isChain_cons_cons] at hchain
    rw [getLast?_cons_cons] at ha
    obtain ⟨hdata, hsize, hoffset⟩ := ih ha hchain.2
    refine ⟨?_, hsize.trans hchain.1.size, hoffset.trans hchain.1.offset⟩
    rw [hdata]
    unfold BlockMapItem.referenceData
    rw [hchain.1.reference, hchain.1.superBlockSize, hchain.1.bundleId, hchain.1.offset,
      hchain.1.size, hchain.1.block, length_cons]
    have hcount : x.block + 1 + (blocks.length + 1) = x.block + (blocks.length + 1 + 1) := by omega
    rw [hcount]

section SuperBlocks

variable (blockSize : ℕ) {checksumSize : ℕ} {x : BlockMapItem} {blocks : List BlockMapItem}

theorem ReadAfter.before {s : BlockMapReadState} {x b : BlockMapItem} {n : ℕ}
    (h : ReadAfter checksumSize s x n) (hnext : NextSuperBlock x b) (hb : ItemValid b)
    (hx : ItemValid x) :
    ReadBefore checksumSize s false (x.referenceData n) b where
  reference := h.reference.trans hnext.reference.symm
  bundleId := h.bundleId.trans hnext.bundleId.symm
  offset := by
    rw [h.offset, ← hnext.offset, u64_of_lt hb.offset]
  superBlockSize := h.superBlockSize
  checksum := h.checksum
  dataReference := by
    rw [h.referenceData]
    exact hnext.reference.symm
  dataBundleId := by
    rw [h.referenceData]
    exact hnext.bundleId.symm
  dataSuperBlockSize := by rw [h.referenceData]
  next := by
    intro _
    rw [h.referenceData, h.sizeLast, u64Cast_natCast (lt_trans hx.size (by decide))]
    show u64 (x.offset + x.size) = _
    rw [← hnext.offset, u64_of_lt hb.offset]

theorem follows_first {run : List BlockMapItem} {b : BlockMapItem}
    (hrun : RunValid (x :: blocks)) (hnext : Follows NextSuperBlock (x :: blocks) run) (hb : b ∈ run.head?) :
    NextSuperBlock x b := by
  obtain ⟨a, ha⟩ : ∃ a, a ∈ (x :: blocks).getLast? :=
    ⟨_, getLast?_eq_some_getLast (cons_ne_nil x blocks)⟩
  obtain ⟨hdata, hsize, hoffset⟩ := hrun.getLast ha
  have hnext := hnext a ha b hb
  have hreference : a.reference = x.reference := congrArg BlockMapReference.reference hdata
  have hbundleId : a.bundleId = x.bundleId := congrArg BlockMapReference.bundleId hdata
  refine ⟨hnext.reference.trans hreference, hnext.bundleId.trans hbundleId, ?_⟩
  rw [hnext.offset, hsize, hoffset]

section

variable {reference : BlockMapItem} (hsize : checksumSize ≤ XX_HASH_SIZE_MAX)
  (hreference : 0 < reference.superBlockSize) (runs : List (List BlockMapItem))
  (hvalid : ∀ run ∈ (x :: blocks) :: runs, RunValid run) (hne : [] ∉ runs)
  (hnext : ((x :: blocks) :: runs).IsChain (Follows NextSuperBlock))
include hsize hreference runs hvalid hne hnext

/-- **The super blocks of a reference are read back** when the first one is
not continued. -/
theorem superBlocks_new {d : BlockMapReference} (hdref : d.reference = x.reference)
    (hdbundle : d.bundleId = x.bundleId) {sizeLast : ℤ} (h0 : 0 ≤ sizeLast)
    (h59 : sizeLast < 2 ^ 59) :
    ∃ bytes a, a ∈ ((x :: blocks) :: runs).flatten.getLast? ∧
      blockMapWriteSuperBlocks blockSize checksumSize reference none ((x :: blocks) :: runs) d
          sizeLast
        = .ok (bytes, a.referenceData 1, a.size) ∧
      runs.length + 1 ≤ bytes.length ∧
      ∀ (referenceEncoded : ℕ) (s : BlockMapReadState) (first : Bool) (rounds : ℕ)
        (rest : List UInt8), ReadBefore checksumSize s first d x → s.sizeLast = sizeLast →
        runs.length + 1 ≤ rounds →
        ∃ s', s'.referenceData = a.referenceData 1 ∧ s'.sizeLast = (a.size : ℤ) ∧
          (blockMapReadSuperBlocks blockSize checksumSize referenceEncoded rounds false first s).run
              (bytes ++ rest)
            = .ok ((((x :: blocks) :: runs).flatten.map (BlockMapItem.stored checksumSize), s'),
                rest) := by
  induction runs generalizing x blocks d sizeLast with
  | nil =>
    have hrun := hvalid (x :: blocks) (by simp)
    obtain ⟨a, ha⟩ : ∃ a, a ∈ (x :: blocks).getLast? :=
      ⟨_, getLast?_eq_some_getLast (cons_ne_nil x blocks)⟩
    obtain ⟨hdata, hasize, -⟩ := hrun.getLast ha
    obtain ⟨bytes, hok, hne, hread⟩ := superBlock_new blockSize hsize hrun.chain
      hrun.valid hrun.length hreference hdref hdbundle h0 h59 true
    refine ⟨bytes, a, by simpa using ha, ?_, ?_, fun enc s first rounds rest hs hlast hrounds => ?_⟩
    · unfold blockMapWriteSuperBlocks
      rw [isEmpty_nil, hok, ok_bind]
      dsimp only
      unfold blockMapWriteSuperBlocks
      rw [ok_bind, hdata, hasize]
      rw [append_nil]
      rfl
    · exact length_pos_iff.mpr hne
    · obtain ⟨s', hafter, hrun⟩ := hread enc s first rest hs hlast
      refine ⟨s', by rw [hafter.referenceData, hdata], by rw [hafter.sizeLast, hasize], ?_⟩
      obtain ⟨n, rfl⟩ : ∃ n, rounds = n + 1 := ⟨rounds - 1, by simp at hrounds; omega⟩
      unfold blockMapReadSuperBlocks
      rw [StateT.run_bind, hrun, ok_bind]
      simp
      rfl
  | cons run runs ih =>
    cases run with
    | nil => exact absurd mem_cons_self hne
    | cons y blocks' =>
      have hrun := hvalid (x :: blocks) (by simp)
      have hrun' := hvalid (y :: blocks') (by simp)
      have hx := hrun.valid x (by simp)
      have hy := hrun'.valid y (by simp)
      rw [isChain_cons_cons] at hnext
      have hxy : NextSuperBlock x y := follows_first hrun hnext.1 (by simp)
      obtain ⟨bytes, hok, hbytes, hread⟩ := superBlock_new blockSize hsize hrun.chain
        hrun.valid hrun.length hreference hdref hdbundle h0 h59 false
      obtain ⟨bytes', a, ha, hok', hlen, hread'⟩ := ih (x := y)
        (fun r hr => hvalid r (mem_cons_of_mem _ hr))
        (fun h => hne (mem_cons_of_mem _ h)) hnext.2
        (d := x.referenceData (blocks.length + 1)) hxy.reference.symm hxy.bundleId.symm
        (Int.natCast_nonneg x.size) (by exact_mod_cast hx.size)
      refine ⟨bytes ++ bytes', a, ?_, ?_, ?_, fun enc s first rounds rest hs hlast hrounds => ?_⟩
      · rw [flatten_cons, getLast?_append_of_ne_nil _ (by simp)]
        exact ha
      · rw [blockMapWriteSuperBlocks, isEmpty_cons, hok, ok_bind]
        dsimp only
        rw [hok', ok_bind]
        rfl
      · have := length_pos_iff.mpr hbytes
        rw [length_append, length_cons]
        omega
      · obtain ⟨s₁, hafter, hrun₁⟩ := hread enc s first (bytes' ++ rest) hs hlast
        obtain ⟨n, rfl⟩ : ∃ n, rounds = n + 1 := ⟨rounds - 1, by omega⟩
        obtain ⟨s', hdata, hsizeLast, hrun₂⟩ := hread' enc s₁ false n rest
          (hafter.before hxy hy hx) hafter.sizeLast (by simpa using hrounds)
        refine ⟨s', hdata, hsizeLast, ?_⟩
        rw [blockMapReadSuperBlocks, append_assoc, StateT.run_bind, hrun₁, ok_bind]
        dsimp only
        have hflat : ((x :: blocks) :: (y :: blocks') :: runs).flatten
            = (x :: blocks) ++ ((y :: blocks') :: runs).flatten := rfl
        rw [if_neg (by simp), StateT.run_bind, hrun₂, ok_bind, hflat, map_append]
        rfl

/-- **The super blocks of a reference are read back** when the first one is
continued. -/
theorem superBlocks_continued {flags : ℕ} (hencoded : referenceWithFlags
      (flags ||| flagIf runs.isEmpty BLOCK_MAP_FLAG_CONTINUE_LAST) reference.reference < 2 ^ 64)
    {d : BlockMapReference} (hd : { d with block := u64 (x.block + (blocks.length + 1)) }
      = x.referenceData (blocks.length + 1)) (hblock : d.block ≤ x.block) (sizeLast : ℤ) :
    ∃ bytes a, a ∈ ((x :: blocks) :: runs).flatten.getLast? ∧
      blockMapWriteSuperBlocks blockSize checksumSize reference (some flags)
          ((x :: blocks) :: runs) d sizeLast
        = .ok (varInt (referenceWithFlags
            (flags ||| flagIf runs.isEmpty BLOCK_MAP_FLAG_CONTINUE_LAST) reference.reference)
            ++ bytes, a.referenceData 1, a.size) ∧
      runs.length + 1 ≤ bytes.length ∧
      ∀ (referenceEncoded : ℕ) (s : BlockMapReadState) (rounds : ℕ) (rest : List UInt8),
        decide (referenceEncoded &&& BLOCK_MAP_FLAG_CONTINUE_LAST ≠ 0) = runs.isEmpty →
        ReadItem checksumSize s.item x → s.referenceData = d → runs.length + 1 ≤ rounds →
        ∃ s', s'.referenceData = a.referenceData 1 ∧ s'.sizeLast = (a.size : ℤ) ∧
          (blockMapReadSuperBlocks blockSize checksumSize referenceEncoded rounds true true s).run
              (bytes ++ rest)
            = .ok ((((x :: blocks) :: runs).flatten.map (BlockMapItem.stored checksumSize), s'),
                rest) := by
  have hrun := hvalid (x :: blocks) (by simp)
  have hx := hrun.valid x (by simp)
  obtain ⟨bytes, hok, hbytes, hread⟩ := superBlock_continued blockSize hsize
    hrun.chain hrun.valid hrun.length hencoded hd hblock sizeLast
  have hpos := length_pos_iff.mpr hbytes
  cases runs with
  | nil =>
    obtain ⟨a, ha⟩ : ∃ a, a ∈ (x :: blocks).getLast? :=
      ⟨_, getLast?_eq_some_getLast (cons_ne_nil x blocks)⟩
    obtain ⟨hdata, hasize, -⟩ := hrun.getLast ha
    refine ⟨bytes, a, by simpa using ha, ?_, hpos, fun enc s rounds rest henc hs hsd hrounds => ?_⟩
    · rw [blockMapWriteSuperBlocks, hok, ok_bind]
      dsimp only
      rw [blockMapWriteSuperBlocks, ok_bind, hdata, hasize]
      rw [append_nil]
      rfl
    · obtain ⟨s', hafter, hrun⟩ := hread enc s true rest henc hs hsd
      refine ⟨s', by rw [hafter.referenceData, hdata], by rw [hafter.sizeLast, hasize], ?_⟩
      obtain ⟨n, rfl⟩ : ∃ n, rounds = n + 1 := ⟨rounds - 1, by simp at hrounds; omega⟩
      rw [blockMapReadSuperBlocks, StateT.run_bind, hrun, ok_bind]
      simp
      rfl
  | cons run runs =>
    cases run with
    | nil => exact absurd mem_cons_self hne
    | cons y blocks' =>
      have hy := (hvalid (y :: blocks') (by simp)).valid y (by simp)
      rw [isChain_cons_cons] at hnext
      have hxy : NextSuperBlock x y := follows_first hrun hnext.1 (by simp)
      obtain ⟨bytes', a, ha, hok', hlen, hread'⟩ := superBlocks_new blockSize
        (x := y) hsize hreference runs
        (fun r hr => hvalid r (mem_cons_of_mem _ hr))
        (fun h => hne (mem_cons_of_mem _ h)) hnext.2
        (d := x.referenceData (blocks.length + 1)) hxy.reference.symm hxy.bundleId.symm
        (Int.natCast_nonneg x.size) (by exact_mod_cast hx.size)
      refine ⟨bytes ++ bytes', a, ?_, ?_, ?_, fun enc s rounds rest henc hs hsd hrounds => ?_⟩
      · rw [flatten_cons, getLast?_append_of_ne_nil _ (by simp)]
        exact ha
      · rw [blockMapWriteSuperBlocks, hok, ok_bind]
        dsimp only
        rw [hok', ok_bind]
        rw [append_assoc]
        rfl
      · rw [length_append, length_cons]
        omega
      · obtain ⟨s₁, hafter, hrun₁⟩ := hread enc s true (bytes' ++ rest) henc hs hsd
        obtain ⟨n, rfl⟩ : ∃ n, rounds = n + 1 := ⟨rounds - 1, by omega⟩
        obtain ⟨s', hdata, hsizeLast, hrun₂⟩ := hread' enc s₁ false n rest
          (hafter.before hxy hy hx) hafter.sizeLast (by simpa using hrounds)
        refine ⟨s', hdata, hsizeLast, ?_⟩
        rw [blockMapReadSuperBlocks, append_assoc, StateT.run_bind, hrun₁, ok_bind]
        dsimp only
        have hflat : ((x :: blocks) :: (y :: blocks') :: runs).flatten
            = (x :: blocks) ++ ((y :: blocks') :: runs).flatten := rfl
        rw [if_neg (by simp), StateT.run_bind, hrun₂, ok_bind, hflat, map_append]
        rfl

end

end SuperBlocks

end PgxBackup
