import PgxBackup.BlockMapSuperBlock

/-!
# Reading a block map that was written

The references of a map, one run of items after the other. Writer and reader
keep the same list of references: for each of them what its last item says
(`RefInv`). A run of items either sees its reference for the first time, or
goes on in the last super block of the reference, or starts a super block
behind it.
-/

namespace PgxBackup

open List Base128 Runs

/-! ## Valid maps -/

/-- What the assertions of the writer ask for: the items of a reference are
in order, they agree where they share a super block, and adjacent ones are
in consecutive blocks or in super blocks that touch. -/
structure MapOrdered (map : List BlockMapItem) : Prop where
  length : map.length ≤ 2 ^ 31
  item : ∀ x ∈ map, ItemValid x
  increasing : map.Pairwise (fun a b => a.reference = b.reference →
    a.offset < b.offset ∨ a.offset = b.offset ∧ a.block < b.block)
  bundleId : map.Pairwise (fun a b => a.reference = b.reference → a.bundleId = b.bundleId)
  superBlock : map.Pairwise (fun a b => a.reference = b.reference → a.offset = b.offset →
    a.size = b.size ∧ a.superBlockSize = b.superBlockSize)
  adjacent : map.IsChain (fun a b => a.reference = b.reference →
    a.offset = b.offset ∧ b.block = a.block + 1 ∨ b.offset = a.offset + a.size)

/-- **The maps that the format can hold.** A reference that returns after
another one must either go on in its last super block or start one that lies
behind it: the writer leaves the offset out unless there is a gap. -/
structure MapValid (map : List BlockMapItem) : Prop extends MapOrdered map where
  behind : map.Pairwise (fun a b => a.reference = b.reference →
    a.offset = b.offset ∨ a.offset + a.size ≤ b.offset)

/-- What is known of the last item of a reference when it returns. -/
structure Returns (a x : BlockMapItem) : Prop where
  reference : a.reference = x.reference
  bundleId : a.bundleId = x.bundleId
  place : a.offset = x.offset ∧ a.size = x.size ∧ a.superBlockSize = x.superBlockSize ∧
    a.block < x.block ∨ a.offset + a.size ≤ x.offset

variable {map : List BlockMapItem} {a : BlockMapItem}

variable {x : BlockMapItem}

/-- An item that comes after another one of the same reference. -/
theorem MapValid.returns {done rest : List BlockMapItem}
    (h : MapValid map) (hmap : map = done ++ x :: rest) (ha : a ∈ done)
    (href : a.reference = x.reference) : Returns a x := by
  have hpair : ∀ {R : BlockMapItem → BlockMapItem → Prop}, map.Pairwise R → R a x := by
    intro R hR
    rw [hmap, pairwise_append] at hR
    exact hR.2.2 a ha x mem_cons_self
  refine ⟨href, hpair h.bundleId href, ?_⟩
  rcases hpair h.behind href with hoffset | hbehind
  · have hsuper := hpair h.superBlock href hoffset
    have hblock : a.block < x.block := by
      rcases hpair h.increasing href with hlt | hlt
      · exact absurd hoffset (Nat.ne_of_lt hlt)
      · exact hlt.2
    exact .inl ⟨hoffset, hsuper.1, hsuper.2, hblock⟩
  · exact .inr hbehind

theorem MapValid.isChain (h : MapValid map) :
    map.IsChain (fun a b => if decide (a.reference = b.reference) then
      (if decide (a.offset = b.offset) then NextBlock a b else NextSuperBlock a b) else True) := by
  have hall := isChain_and (isChain_and h.adjacent h.bundleId.isChain) h.superBlock.isChain
  have hitem : map.IsChain (fun a _ => 0 < a.size) := by
    rw [isChain_iff_forall_rel_of_append_cons_cons]
    rintro a b l₁ l₂ rfl
    exact (h.item a (by simp)).size_pos
  refine (isChain_and hall hitem).imp (fun a b hab => ?_)
  obtain ⟨⟨⟨hadjacent, hbundle⟩, hsuper⟩, hpos⟩ := hab
  by_cases href : a.reference = b.reference
  · rw [if_pos (decide_eq_true href)]
    by_cases hoffset : a.offset = b.offset
    · rw [if_pos (decide_eq_true hoffset)]
      have hblock : b.block = a.block + 1 := by
        rcases hadjacent href with hnext | hnext
        · exact hnext.2
        · omega
      obtain ⟨hsize, hsbs⟩ := hsuper href hoffset
      exact ⟨href.symm, hsbs.symm, (hbundle href).symm, hoffset.symm, hsize.symm, hblock⟩
    · rw [if_neg (by simpa using hoffset)]
      have hnext : b.offset = a.offset + a.size := by
        rcases hadjacent href with hnext | hnext
        · exact absurd hnext.1 hoffset
        · exact hnext
      exact ⟨href.symm, (hbundle href).symm, hnext⟩
  · rw [if_neg (by simpa using href)]
    trivial

/-! ## Runs -/

/-- A run of items of one reference. -/
structure RefRunValid (run : List BlockMapItem) : Prop where
  length : run.length ≤ 2 ^ 31
  item : ∀ x ∈ run, ItemValid x
  reference : run.IsChain (fun a b => a.reference = b.reference)
  chain : run.IsChain (fun a b =>
    if decide (a.offset = b.offset) then NextBlock a b else NextSuperBlock a b)

theorem MapValid.refRunValid {run : List BlockMapItem} (h : MapValid map)
    (hrun : run ∈ referenceRuns map) : RefRunValid run := by
  have hpart := isInfix_of_mem_splitBy hrun
  refine ⟨le_trans hpart.length_le h.length, fun x hx => h.item x (hpart.subset hx), ?_,
    isChain_of_mem h.isChain hrun⟩
  refine (isChain_of_mem_splitBy hrun).imp (fun a b hab => ?_)
  exact of_decide_eq_true hab

variable {items : List BlockMapItem}

section

variable (h : RefRunValid (x :: items))
include h

theorem RefRunValid.reference_eq (ha : a ∈ x :: items) : a.reference = x.reference := by
  rcases mem_cons.mp ha with rfl | hmem
  · rfl
  · exact (eq_of_isChain h.reference a hmem).symm

theorem RefRunValid.offset_le (ha : a ∈ items) : x.offset ≤ a.offset := by
  have hle : (x :: items).IsChain (fun a b => a.offset ≤ b.offset) := by
    refine h.chain.imp (fun a b hab => ?_)
    by_cases hoffset : a.offset = b.offset
    · exact hoffset.le
    · rw [if_neg (by simpa using hoffset)] at hab
      rw [hab.offset]
      exact Nat.le_add_right _ _
  have hpair : (x :: items).Pairwise (fun a b => a.offset ≤ b.offset) := by
    exact hle.pairwise
  rw [pairwise_cons] at hpair
  exact hpair.1 a ha

theorem RefRunValid.superBlocks :
    ∃ blocks runs, superBlockRuns (x :: items) = (x :: blocks) :: runs ∧
      ((x :: blocks) :: runs).flatten = x :: items ∧
      (∀ run ∈ (x :: blocks) :: runs, RunValid run) ∧ [] ∉ runs ∧
      ((x :: blocks) :: runs).IsChain (Follows NextSuperBlock) := by
  have hflat : (superBlockRuns (x :: items)).flatten = x :: items := flatten_splitBy _ _
  have hnil : [] ∉ superBlockRuns (x :: items) := nil_notMem_splitBy _ _
  have hvalid : ∀ run ∈ superBlockRuns (x :: items), RunValid run := by
    intro run hrun
    have hpart := isInfix_of_mem_splitBy hrun
    exact ⟨isChain_of_mem h.chain hrun, fun b hb => h.item b (hpart.subset hb),
      le_trans hpart.length_le h.length⟩
  have hfollows : (superBlockRuns (x :: items)).IsChain (Follows NextSuperBlock) :=
    isChain_follows h.chain
  obtain ⟨blocks, runs, hall⟩ := splitBy_cons _ x items
  have hall : superBlockRuns (x :: items) = (x :: blocks) :: runs := hall
  rw [hall] at hflat hnil hvalid hfollows
  exact ⟨blocks, runs, hall, hflat, hvalid, fun hmem => hnil (mem_cons_of_mem _ hmem), hfollows⟩

end

/-! ## A reference -/

theorem referenceWithFlags_spec {flags reference : ℕ} (hflags : flags < 2 ^ BLOCK_MAP_REFERENCE_SHIFT)
    (href : reference < 2 ^ 29) :
    referenceWithFlags flags reference < 2 ^ 64 ∧
      u32 (referenceWithFlags flags reference >>> BLOCK_MAP_REFERENCE_SHIFT) = reference ∧
      ∀ flag < 2 ^ BLOCK_MAP_REFERENCE_SHIFT, referenceWithFlags flags reference &&& flag = flags &&& flag := by
  have hshift : reference <<< BLOCK_MAP_REFERENCE_SHIFT < 2 ^ 32 := by
    rw [Nat.shiftLeft_eq]
    show reference * 2 ^ 3 < 2 ^ 32
    omega
  unfold referenceWithFlags
  rw [u32_of_lt hshift]
  refine ⟨?_, ?_, fun flag hflag => and_or_shiftLeft hflag⟩
  · rw [or_shiftLeft_eq hflags]
    have hflags : flags < 8 := hflags
    show reference * 2 ^ 3 + flags < 2 ^ 64
    omega
  · rw [shiftRight_or_shiftLeft hflags]
    exact u32_of_lt (by omega)

/-- The flags of a reference that is seen for the first time or is behind
its last super block. -/
def newFlags (last bundleId offset : Bool) : ℕ :=
  flagIf last BLOCK_MAP_FLAG_LAST ||| flagIf bundleId BLOCK_MAP_FLAG_BUNDLE_ID |||
    flagIf offset BLOCK_MAP_FLAG_OFFSET

theorem newFlags_spec (last bundleId offset : Bool) :
    newFlags last bundleId offset < 2 ^ BLOCK_MAP_REFERENCE_SHIFT ∧
      decide (newFlags last bundleId offset &&& BLOCK_MAP_FLAG_LAST ≠ 0) = last ∧
      decide (newFlags last bundleId offset &&& BLOCK_MAP_FLAG_BUNDLE_ID ≠ 0) = bundleId ∧
      decide (newFlags last bundleId offset &&& BLOCK_MAP_FLAG_OFFSET ≠ 0) = offset := by
  cases last <;> cases bundleId <;> cases offset <;> decide

/-- The flags of a reference that goes on in its last super block. -/
def continueFlags (last continueLast : Bool) : ℕ :=
  (flagIf last BLOCK_MAP_FLAG_LAST ||| BLOCK_MAP_FLAG_CONTINUE) |||
    flagIf continueLast BLOCK_MAP_FLAG_CONTINUE_LAST

theorem continueFlags_spec (last continueLast : Bool) :
    continueFlags last continueLast < 2 ^ BLOCK_MAP_REFERENCE_SHIFT ∧
      decide (continueFlags last continueLast &&& BLOCK_MAP_FLAG_LAST ≠ 0) = last ∧
      continueFlags last continueLast &&& BLOCK_MAP_FLAG_CONTINUE ≠ 0 ∧
      decide (continueFlags last continueLast &&& BLOCK_MAP_FLAG_CONTINUE_LAST ≠ 0)
        = continueLast := by
  cases last <;> cases continueLast <;> decide

section Reference

variable (blockSize checksumSize : ℕ) (refList : List BlockMapReference) (x : BlockMapItem)
variable (items : List BlockMapItem) (last : Bool) (sizeLast : ℤ)

/-- A run of items is written, and read back after the varint of its
reference. Both sides end with what the last item says. -/
def RunReadBack : Prop :=
  ∃ number bytes a, a ∈ (x :: items).getLast? ∧ number < 2 ^ 64 ∧
    decide (number &&& BLOCK_MAP_FLAG_LAST ≠ 0) = last ∧
    blockMapWriteRun blockSize checksumSize refList x items last sizeLast
      = .ok (varInt number ++ bytes, a.referenceData 1, a.size) ∧
    ∀ (rounds : ℕ) (rest : List UInt8), bytes.length ≤ rounds →
      ∃ s, s.referenceData = a.referenceData 1 ∧ s.sizeLast = (a.size : ℤ) ∧
        (blockMapReadRun blockSize checksumSize rounds refList number sizeLast).run (bytes ++ rest)
          = .ok (((x :: items).map (BlockMapItem.stored checksumSize), s), rest)

variable {blockSize checksumSize refList x items last sizeLast}

theorem varIntIf_pos {value : ℕ} (hvalue : value < 2 ^ 64) (rest : List UInt8) :
    (ioReadVarIntIf (decide (value > 0))).run (varIntIf (decide (value > 0)) value ++ rest)
      = .ok (value, rest) := by
  rw [run_ioReadVarIntIf hvalue]
  by_cases hpos : value > 0
  · rw [if_pos (decide_eq_true hpos)]
  · rw [if_neg (by simpa using hpos), Nat.eq_zero_of_not_pos hpos]

theorem RefRunValid.assert (h : RefRunValid (x :: items)) :
    ASSERT (items.all (fun item => decide (x.offset ≤ item.offset)))
      "reference->offset <= blockMapGet(this, referenceIdx)->offset" = .ok () := by
  refine ASSERT_of_true ?_ _
  rw [all_eq_true]
  exact fun a ha => decide_eq_true (h.offset_le ha)

/-- A run whose super blocks are all new. What comes before them (`begin`)
leaves the same information on both sides. -/
theorem runReadBack_new (hsize : checksumSize ≤ XX_HASH_SIZE_MAX) (h : RefRunValid (x :: items))
    (h0 : 0 ≤ sizeLast) (h59 : sizeLast < 2 ^ 59) {d data : BlockMapReference}
    {item : BlockMapItem} (hbefore : ReadBefore checksumSize ⟨item, data, sizeLast⟩ true d x)
    {number : ℕ} (begin : List UInt8)
    (hnumber : number < 2 ^ 64)
    (hlast : decide (number &&& BLOCK_MAP_FLAG_LAST ≠ 0) = last)
    (hdref : d.reference = x.reference) (hdbundle : d.bundleId = x.bundleId)
    (hwrite : blockMapWriteReference blockSize refList x last
      = .ok (varInt number ++ begin, none, d))
    (hread : ∀ rest, (blockMapReadReference blockSize refList number).run (begin ++ rest)
      = .ok ((false, item, data), rest)) :
    RunReadBack blockSize checksumSize refList x items last sizeLast := by
  obtain ⟨blocks, runs, hruns, hflat, hvalid, hnil, hnext⟩ := h.superBlocks
  have hx := h.item x (by simp)
  obtain ⟨bytes, a, ha, hok, hlen, hreadRuns⟩ := superBlocks_new blockSize hsize
    hx.superBlockSize_pos runs hvalid hnil hnext hdref hdbundle h0 h59
  rw [hflat] at ha hreadRuns
  refine ⟨number, begin ++ bytes, a, ha, hnumber, hlast, ?_, fun rounds rest hrounds => ?_⟩
  · unfold blockMapWriteRun
    rw [h.assert, ok_bind, hwrite, ok_bind]
    dsimp only
    rw [hruns, hok, ok_bind]
    rw [append_assoc]
    rfl
  · rw [length_append] at hrounds
    obtain ⟨s, hdata, hsizeLast, hrun⟩ := hreadRuns number ⟨item, data, sizeLast⟩ true rounds rest
      hbefore rfl (by omega)
    refine ⟨s, hdata, hsizeLast, ?_⟩
    unfold blockMapReadRun
    rw [append_assoc, StateT.run_bind, hread, ok_bind]
    exact hrun

theorem empty_drop (reference superBlockSize bundleId offset size : ℕ) :
    (BlockMapItem.empty reference superBlockSize bundleId offset size).checksum.drop checksumSize
      = replicate (XX_HASH_SIZE_MAX - checksumSize) 0 := drop_replicate

/-- **A reference that is seen for the first time.** -/
theorem runReadBack_first (hsize : checksumSize ≤ XX_HASH_SIZE_MAX)
    (h : RefRunValid (x :: items)) (h0 : 0 ≤ sizeLast) (h59 : sizeLast < 2 ^ 59)
    (hfind : refFind refList x.reference = none) :
    RunReadBack blockSize checksumSize refList x items last sizeLast := by
  have hx := h.item x (by simp)
  obtain ⟨hflags, hlast, hbundle, hoffset⟩ :=
    newFlags_spec last (decide (x.bundleId > 0)) (decide (x.offset > 0))
  obtain ⟨hnumber, hreference, hand⟩ := referenceWithFlags_spec hflags hx.reference
  have hbefore : ReadBefore checksumSize
      ⟨.empty x.reference blockSize x.bundleId x.offset 0,
        ⟨x.reference, blockSize, x.bundleId, x.offset, 0, 0⟩, sizeLast⟩ true
      ⟨x.reference, blockSize, x.bundleId, x.offset, 0, 0⟩ x :=
    ⟨rfl, rfl, rfl, rfl, empty_drop _ _ _ _ _, rfl, rfl, rfl, by simp⟩
  refine runReadBack_new hsize h h0 h59 hbefore (varIntIf (decide (x.bundleId > 0)) x.bundleId
    ++ varIntIf (decide (x.offset > 0)) x.offset) hnumber ?_ rfl rfl ?_ (fun rest => ?_)
  · rw [hand _ (by decide)]
    exact hlast
  · unfold blockMapWriteReference
    rw [hfind]
    dsimp only
    rw [← newFlags, ioWriteVarIntU64_ok hnumber, ok_bind, ioWriteVarIntIf_ok hx.bundleId, ok_bind,
      ioWriteVarIntIf_ok hx.offset, ok_bind, append_assoc]
    rfl
  · unfold blockMapReadReference
    dsimp only
    rw [hreference, hfind]
    rw [hand _ (by decide), hbundle, hand _ (by decide), hoffset, append_assoc,
      StateT.run_bind, varIntIf_pos hx.bundleId, ok_bind]
    rw [StateT.run_bind, varIntIf_pos hx.offset, ok_bind]
    rfl

variable {a : BlockMapItem}

section

variable (hsize : checksumSize ≤ XX_HASH_SIZE_MAX) (h : RefRunValid (x :: items))
include hsize h

/-- **A reference that returns behind its last super block.** -/
theorem runReadBack_behind (h0 : 0 ≤ sizeLast) (h59 : sizeLast < 2 ^ 59) (ha : ItemValid a)
    (href : a.reference = x.reference) (hbundle : a.bundleId = x.bundleId)
    (hbehind : a.offset + a.size ≤ x.offset)
    (hfind : refFind refList x.reference = some (a.referenceData 1)) :
    RunReadBack blockSize checksumSize refList x items last sizeLast := by
  have hx := h.item x (by simp)
  have hexpected : u64 (a.offset + a.size) = a.offset + a.size :=
    u64_of_lt (lt_of_le_of_lt hbehind hx.offset)
  have hgap : decide (x.offset > a.offset + a.size)
      = decide (x.offset - (a.offset + a.size) > 0) := by
    refine decide_eq_decide.mpr ?_
    exact Nat.sub_pos_iff_lt.symm
  have hgap64 : x.offset - (a.offset + a.size) < 2 ^ 64 :=
    lt_of_le_of_lt (Nat.sub_le _ _) hx.offset
  obtain ⟨hflags, hlast, -, hoffset⟩ :=
    newFlags_spec last false (decide (x.offset - (a.offset + a.size) > 0))
  obtain ⟨hnumber, hreference, hand⟩ := referenceWithFlags_spec hflags hx.reference
  have hnew : newFlags last false (decide (x.offset - (a.offset + a.size) > 0))
      &&& BLOCK_MAP_FLAG_CONTINUE = 0 := by
    cases last <;> cases decide (x.offset - (a.offset + a.size) > 0) <;> rfl
  have hbefore : ReadBefore checksumSize
      ⟨.empty x.reference a.superBlockSize a.bundleId x.offset 0,
        { a.referenceData 1 with offset := x.offset }, sizeLast⟩ true
      { a.referenceData 1 with offset := x.offset, size := x.size } x :=
    ⟨rfl, hbundle, rfl, rfl, empty_drop _ _ _ _ _, href, hbundle, rfl, by simp⟩
  refine runReadBack_new hsize h h0 h59 hbefore
    (varIntIf (decide (x.offset - (a.offset + a.size) > 0)) (x.offset - (a.offset + a.size)))
    hnumber ?_ href hbundle ?_ (fun rest => ?_)
  · rw [hand _ (by decide)]
    exact hlast
  · unfold blockMapWriteReference
    rw [hfind]
    dsimp only
    have hne : x.offset ≠ (a.referenceData 1).offset := by
      have hpos := ha.size_pos
      show x.offset ≠ a.offset
      omega
    rw [ASSERT_of_true
        (decide_eq_true (show x.bundleId = (a.referenceData 1).bundleId from hbundle.symm)), ok_bind,
      ASSERT_of_true (decide_eq_true (show (a.referenceData 1).offset ≤ x.offset from
        le_trans (Nat.le_add_right _ _) hbehind)), ok_bind,
      if_neg hne]
    show (do
      let bytes ← ioWriteVarIntU64 (referenceWithFlags (flagIf last BLOCK_MAP_FLAG_LAST |||
        flagIf (decide (x.offset > u64 (a.offset + a.size))) BLOCK_MAP_FLAG_OFFSET) x.reference)
      let offset ← ioWriteVarIntIf (decide (x.offset > u64 (a.offset + a.size)))
        (x.offset - u64 (a.offset + a.size))
      return (bytes ++ offset, none, _)) = _
    rw [hexpected, hgap]
    have hflagsEq : flagIf last BLOCK_MAP_FLAG_LAST |||
        flagIf (decide (x.offset - (a.offset + a.size) > 0)) BLOCK_MAP_FLAG_OFFSET
          = newFlags last false (decide (x.offset - (a.offset + a.size) > 0)) := by
      show _ = flagIf last BLOCK_MAP_FLAG_LAST ||| 0 ||| _
      rw [Nat.or_zero]
    rw [hflagsEq, ioWriteVarIntU64_ok hnumber, ok_bind, ioWriteVarIntIf_ok hgap64, ok_bind]
    rfl
  · unfold blockMapReadReference
    dsimp only
    rw [hreference, hfind]
    dsimp only
    rw [hand _ (by decide), hand _ (by decide), hnew, if_neg (by simp), hoffset, StateT.run_bind,
      varIntIf_pos hgap64, ok_bind]
    have hsum : u64 (a.offset + a.size + (x.offset - (a.offset + a.size))) = x.offset := by
      rw [Nat.add_sub_of_le hbehind, u64_of_lt hx.offset]
    show Except.ok ((false, BlockMapItem.empty x.reference a.superBlockSize a.bundleId
      (u64 (a.offset + a.size + (x.offset - (a.offset + a.size)))) 0,
        { a.referenceData 1 with
          offset := u64 (a.offset + a.size + (x.offset - (a.offset + a.size))) }), rest) = _
    rw [hsum]

/-- **A reference that goes on in its last super block.** -/
theorem runReadBack_continued (href : a.reference = x.reference) (hbundle : a.bundleId = x.bundleId)
    (hoffset : a.offset = x.offset) (hasize : a.size = x.size)
    (hsbs : a.superBlockSize = x.superBlockSize) (hblock : a.block < x.block)
    (hfind : refFind refList x.reference = some (a.referenceData 1)) :
    RunReadBack blockSize checksumSize refList x items last sizeLast := by
  have hx := h.item x (by simp)
  obtain ⟨blocks, runs, hruns, hflat, hvalid, hnil, hnext⟩ := h.superBlocks
  obtain ⟨hflags, hlast, hcontinue, hcontinueLast⟩ := continueFlags_spec last runs.isEmpty
  obtain ⟨hnumber, hreference, hand⟩ := referenceWithFlags_spec hflags hx.reference
  have hnextBlock : u64 (a.block + 1) = a.block + 1 :=
    u64_of_lt (lt_of_le_of_lt hblock hx.block)
  have hdata : { a.referenceData 1 with block := u64 (x.block + (blocks.length + 1)) }
      = x.referenceData (blocks.length + 1) := by
    unfold BlockMapItem.referenceData
    rw [href, hbundle, hoffset, hasize, hsbs]
  have hle : (a.referenceData 1).block ≤ x.block := by
    show u64 (a.block + 1) ≤ x.block
    rw [hnextBlock]
    exact hblock
  obtain ⟨bytes, b, hb, hok, hlen, hread⟩ := superBlocks_continued blockSize hsize
    hx.superBlockSize_pos runs hvalid hnil hnext hnumber hdata hle sizeLast
  rw [hflat] at hb hread
  refine ⟨referenceWithFlags (continueFlags last runs.isEmpty) x.reference, bytes, b, hb, hnumber,
    ?_, ?_, fun rounds rest hrounds => ?_⟩
  · rw [hand _ (by decide)]
    exact hlast
  · unfold blockMapWriteRun
    rw [h.assert, ok_bind]
    unfold blockMapWriteReference
    rw [hfind]
    dsimp only
    rw [ASSERT_of_true
        (decide_eq_true (show x.bundleId = (a.referenceData 1).bundleId from hbundle.symm)), ok_bind,
      ASSERT_of_true
        (decide_eq_true (show (a.referenceData 1).offset ≤ x.offset from hoffset.le)), ok_bind,
      if_pos (show x.offset = (a.referenceData 1).offset from hoffset.symm),
      ASSERT_of_true (decide_eq_true
        (show x.superBlockSize = (a.referenceData 1).superBlockSize from hsbs.symm)), ok_bind]
    dsimp only [pure, Except.pure]
    rw [ok_bind]
    rw [hruns, hok, ok_bind]
    rfl
  · have hitem : ReadItem checksumSize
        (.empty x.reference a.superBlockSize a.bundleId a.offset a.size) x :=
      ⟨rfl, hsbs, hbundle, hoffset, hasize, empty_drop _ _ _ _ _⟩
    obtain ⟨s, hsdata, hssize, hrun⟩ := hread
      (referenceWithFlags (continueFlags last runs.isEmpty) x.reference)
      ⟨.empty x.reference a.superBlockSize a.bundleId a.offset a.size, a.referenceData 1, sizeLast⟩
      rounds rest (by rw [hand _ (by decide)]; exact hcontinueLast) hitem rfl
      (le_trans hlen hrounds)
    refine ⟨s, hsdata, hssize, ?_⟩
    unfold blockMapReadRun blockMapReadReference
    dsimp only
    rw [hreference, hfind]
    dsimp only
    rw [hand _ (by decide), if_pos hcontinue, StateT.run_bind]
    exact hrun

theorem runReadBack_returns (h0 : 0 ≤ sizeLast) (h59 : sizeLast < 2 ^ 59) (ha : ItemValid a)
    (hreturns : Returns a x) (hfind : refFind refList x.reference = some (a.referenceData 1)) :
    RunReadBack blockSize checksumSize refList x items last sizeLast := by
  rcases hreturns.place with ⟨hoffset, hasize, hsbs, hblock⟩ | hbehind
  · exact runReadBack_continued hsize h hreturns.reference hreturns.bundleId hoffset hasize hsbs
      hblock hfind
  · exact runReadBack_behind hsize h h0 h59 ha hreturns.reference hreturns.bundleId hbehind hfind

end

end Reference

/-! ## The references -/

/-- **What both sides know of the references**: what the last item of each
says. -/
def RefInv (refList : List BlockMapReference) (done : List BlockMapItem) : Prop :=
  ∀ r, refFind refList r
    = ((done.filter (fun x => decide (x.reference = r))).getLast?).map
        (fun x => x.referenceData 1)

theorem refFind_reference {refList : List BlockMapReference} {r : ℕ} {data : BlockMapReference}
    (h : refFind refList r = some data) : data.reference = r := by
  have := find?_some h
  exact of_decide_eq_true this

theorem refFind_refSet (refList : List BlockMapReference) (data : BlockMapReference) (r : ℕ) :
    refFind (refSet refList data) r
      = if data.reference = r then some data else refFind refList r := by
  unfold refSet
  by_cases hknown : (refFind refList data.reference).isSome
  · -- an update does not change the reference of an entry
    have hupdate : (fun d : BlockMapReference => decide (d.reference = r))
        ∘ (fun d => if d.reference = data.reference then data else d)
        = fun d => decide (d.reference = r) := by
      funext d
      show decide ((if d.reference = data.reference then data else d).reference = r) = _
      split
      · rename_i heq
        rw [heq]
      · rfl
    rw [if_pos hknown]
    show find? _ (map _ refList) = _
    rw [find?_map, hupdate]
    show (refFind refList r).map _ = _
    by_cases hr : data.reference = r
    · rw [hr] at hknown
      obtain ⟨d, hd⟩ := Option.isSome_iff_exists.mp hknown
      rw [if_pos hr, hd, Option.map_some, if_pos ((refFind_reference hd).trans hr.symm)]
    · rw [if_neg hr]
      cases hd : refFind refList r with
      | none => rfl
      | some d =>
        rw [Option.map_some, if_neg (by rw [refFind_reference hd]; exact Ne.symm hr)]
  · rw [if_neg hknown]
    show find? _ (refList ++ [data]) = _
    rw [find?_append]
    show (refFind refList r).or _ = _
    by_cases hr : data.reference = r
    · rw [hr, Option.not_isSome_iff_eq_none] at hknown
      rw [if_pos hr, hknown, Option.none_or, find?_cons, hr]
      simp
    · rw [if_neg hr, find?_cons_of_neg (by simpa using hr), find?_nil, Option.or_none]

/-- A run of items leaves what its last item says. -/
theorem RefInv.step {refList : List BlockMapReference} {done : List BlockMapItem}
    {a : BlockMapItem} (hinv : RefInv refList done) (h : RefRunValid (x :: items))
    (ha : a ∈ (x :: items).getLast?) :
    RefInv (refSet refList (a.referenceData 1)) (done ++ x :: items) := by
  intro r
  have hmem : a ∈ x :: items := mem_of_getLast? ha
  rw [refFind_refSet, filter_append]
  by_cases hr : a.reference = r
  · have hall : (x :: items).filter (fun b => decide (b.reference = r)) = x :: items := by
      rw [filter_eq_self]
      intro b hb
      rw [h.reference_eq hb, ← h.reference_eq hmem]
      exact decide_eq_true hr
    rw [if_pos (show (a.referenceData 1).reference = r from hr), hall,
      getLast?_append_of_ne_nil _ (by simp), ha]
    rfl
  · have hnone : (x :: items).filter (fun b => decide (b.reference = r)) = [] := by
      rw [filter_eq_nil_iff]
      intro b hb
      rw [h.reference_eq hb, ← h.reference_eq hmem]
      simpa using hr
    rw [if_neg (show (a.referenceData 1).reference ≠ r from hr), hnone, append_nil]
    exact hinv r

section

variable {checksumSize : ℕ} (blockSize : ℕ) (hsize : checksumSize ≤ XX_HASH_SIZE_MAX)
  (hmap : MapValid map)
include blockSize hsize hmap

theorem runReadBack {done items after : List BlockMapItem} {x : BlockMapItem}
    (heq : map = done ++ (x :: items) ++ after) (h : RefRunValid (x :: items))
    {refList : List BlockMapReference} (hinv : RefInv refList done) {sizeLast : ℤ}
    (h0 : 0 ≤ sizeLast) (h59 : sizeLast < 2 ^ 59) (last : Bool) :
    RunReadBack blockSize checksumSize refList x items last sizeLast := by
  have hfind := hinv x.reference
  cases ha : (done.filter (fun b => decide (b.reference = x.reference))).getLast? with
  | none =>
    rw [ha] at hfind
    exact runReadBack_first hsize h h0 h59 hfind
  | some a =>
    rw [ha] at hfind
    obtain ⟨hmem, href⟩ := mem_filter.mp (mem_of_getLast? ha)
    have hdone : map = done ++ x :: (items ++ after) := by
      rw [heq, append_assoc, cons_append]
    have hitem : ItemValid a := hmap.item a (by rw [hdone]; exact mem_append_left _ hmem)
    exact runReadBack_returns hsize h h0 h59 hitem
      (hmap.returns hdone hmem (of_decide_eq_true href)) hfind

/-- **The references are read back.** The induction is on the runs that are
left; what both sides know of the runs before is `RefInv`. -/
theorem references_readBack (references : List (List BlockMapItem)) (hne : references ≠ [])
    (hnil : [] ∉ references) (hvalid : ∀ run ∈ references, RefRunValid run)
    (done : List BlockMapItem) (heq : map = done ++ references.flatten)
    (refList : List BlockMapReference) (hinv : RefInv refList done) (sizeLast : ℤ)
    (h0 : 0 ≤ sizeLast) (h59 : sizeLast < 2 ^ 59) :
    ∃ bytes, blockMapWriteReferences blockSize checksumSize references refList sizeLast
        = .ok bytes ∧
      ∀ (rounds : ℕ) (rest : List UInt8), bytes.length ≤ rounds →
        (blockMapReadReferences blockSize checksumSize rounds refList sizeLast).run (bytes ++ rest)
          = .ok (references.flatten.map (BlockMapItem.stored checksumSize), rest) := by
  induction references generalizing done refList sizeLast with
  | nil => exact absurd rfl hne
  | cons run references ih =>
    cases run with
    | nil => exact absurd mem_cons_self hnil
    | cons x items =>
      have hrun := hvalid (x :: items) mem_cons_self
      have heq' : map = done ++ (x :: items) ++ references.flatten := by
        rw [heq, flatten_cons, append_assoc]
      obtain ⟨number, bytes, a, ha, hnumber, hlast, hwrite, hread⟩ :=
        runReadBack blockSize hsize hmap heq' hrun hinv h0 h59 references.isEmpty
      have haitem : ItemValid a := hrun.item a (mem_of_getLast? ha)
      have hpos := length_pos_iff.mpr (varInt_ne_nil hnumber)
      -- the varint of the reference, then its items
      have hstep : ∀ (rounds : ℕ) (rest : List UInt8), bytes.length ≤ rounds →
          ∃ s : BlockMapReadState, s.referenceData = a.referenceData 1 ∧
            s.sizeLast = (a.size : ℤ) ∧
            (blockMapReadReferences blockSize checksumSize (rounds + 1) refList sizeLast).run
              (varInt number ++ (bytes ++ rest))
            = (if references.isEmpty then
                pure ((x :: items).map (BlockMapItem.stored checksumSize))
              else blockMapReadReferences blockSize checksumSize rounds
                (refSet refList s.referenceData) s.sizeLast >>= fun more =>
                  pure ((x :: items).map (BlockMapItem.stored checksumSize) ++ more)).run rest := by
        intro rounds rest hrounds
        obtain ⟨s, hdata, hsizeLast, hrunRead⟩ := hread rounds rest hrounds
        refine ⟨s, hdata, hsizeLast, ?_⟩
        rw [blockMapReadReferences, StateT.run_bind, run_ioReadVarIntU64 hnumber, ok_bind]
        rw [StateT.run_bind, hrunRead, ok_bind]
        rw [← hlast]
        simp only [decide_eq_true_eq]
      cases references with
      | nil =>
        refine ⟨varInt number ++ bytes, ?_, fun rounds rest hrounds => ?_⟩
        · rw [blockMapWriteReferences, hwrite, ok_bind]
          dsimp only
          rw [blockMapWriteReferences, ok_bind, append_nil]
          rfl
        · rw [length_append] at hrounds
          obtain ⟨n, rfl⟩ : ∃ n, rounds = n + 1 := ⟨rounds - 1, by omega⟩
          obtain ⟨s, -, -, hrunRead⟩ := hstep n rest (by omega)
          rw [append_assoc, hrunRead, flatten_cons, flatten_nil, append_nil]
          rfl
      | cons run references =>
        obtain ⟨bytes', hwrite', hread'⟩ := ih (by simp)
          (fun hmem => hnil (mem_cons_of_mem _ hmem))
          (fun r hr => hvalid r (mem_cons_of_mem _ hr)) (done ++ x :: items) heq'
          (refSet refList (a.referenceData 1)) (hinv.step hrun ha) a.size
          (Int.natCast_nonneg _) (by exact_mod_cast haitem.size)
        refine ⟨varInt number ++ bytes ++ bytes', ?_, fun rounds rest hrounds => ?_⟩
        · rw [blockMapWriteReferences, hwrite, ok_bind]
          dsimp only
          rw [hwrite', ok_bind]
          rfl
        · rw [length_append, length_append] at hrounds
          obtain ⟨n, rfl⟩ : ∃ n, rounds = n + 1 := ⟨rounds - 1, by omega⟩
          obtain ⟨s, hdata, hsizeLast, hrunRead⟩ := hstep n (bytes' ++ rest) (by omega)
          have hflat : ((x :: items) :: run :: references).flatten
              = (x :: items) ++ (run :: references).flatten := rfl
          rw [append_assoc, append_assoc, hrunRead, isEmpty_cons,
            if_neg (by simp), StateT.run_bind, hdata, hsizeLast, hread' n rest (by omega), ok_bind,
            hflat, map_append]
          rfl

end

/-- A valid map is written, no assertion fails, and its bytes give it
back. -/
theorem MapValid.readBack (hmap : MapValid map) (hne : map ≠ [])
    {blockSize checksumSize : ℕ} (hblockSize : 0 < blockSize)
    (hsize : checksumSize ≤ XX_HASH_SIZE_MAX) :
    ∃ bytes, blockMapWrite map blockSize checksumSize = .ok bytes ∧
      ∀ rest, (blockMapNewRead blockSize checksumSize).run (bytes ++ rest)
        = .ok (map.map (BlockMapItem.stored checksumSize), rest) := by
  have hflat : (referenceRuns map).flatten = map := flatten_splitBy _ _
  have hruns : referenceRuns map ≠ [] := by
    intro h
    rw [h] at hflat
    exact hne hflat.symm
  obtain ⟨bytes, hwrite, hread⟩ := references_readBack blockSize hsize hmap
    (referenceRuns map) hruns (nil_notMem_splitBy _ _) (fun run hrun => hmap.refRunValid hrun)
    [] (by rw [hflat, nil_append]) [] (fun r => rfl) 0 (by decide) (by decide)
  refine ⟨varInt 0 ++ bytes, ?_, fun rest => ?_⟩
  · unfold blockMapWrite
    rw [ASSERT_of_true (decide_eq_true (length_pos_iff.mpr hne)), ok_bind,
      ASSERT_of_true (decide_eq_true hblockSize), ok_bind, ioWriteVarIntU64_ok (by decide), ok_bind,
      hwrite, ok_bind]
    rfl
  · unfold blockMapNewRead
    rw [append_assoc, StateT.run_bind, run_ioReadVarIntU64 (by decide), ok_bind]
    dsimp only
    rw [if_neg (by decide), StateT.run_bind]
    show (blockMapReadReferences blockSize checksumSize (bytes ++ rest).length [] 0).run
      (bytes ++ rest) = _
    rw [hread _ rest (by rw [length_append]; exact Nat.le_add_right _ _), hflat]

/-- **Reading undoes writing**: all fields come back, checksums up to their
size, and exactly the bytes of the map are read. -/
theorem blockMapNewRead_blockMapWrite (map : List BlockMapItem) (hne : map ≠ [])
    (hmap : MapValid map) (blockSize checksumSize : ℕ) (hblockSize : 0 < blockSize)
    (hsize : checksumSize ≤ XX_HASH_SIZE_MAX) (rest : List UInt8) :
    (do
      let bytes ← blockMapWrite map blockSize checksumSize
      (blockMapNewRead blockSize checksumSize).run (bytes ++ rest))
      = .ok (map.map (BlockMapItem.stored checksumSize), rest) := by
  obtain ⟨bytes, hwrite, hread⟩ := hmap.readBack hne hblockSize hsize
  rw [hwrite, ok_bind]
  exact hread rest

def blockMapItemSample (reference offset size block : ℕ) : BlockMapItem :=
  { reference, superBlockSize := 20, bundleId := 0, offset, size, block,
    checksum := replicate XX_HASH_SIZE_MAX 7 }

theorem blockMapItemSample_valid {reference offset size block : ℕ} (href : reference < 2 ^ 29)
    (hoffset : offset < 2 ^ 64) (hpos : 0 < size) (hsize : size < 2 ^ 59) (hblock : block < 2 ^ 64) :
    ItemValid (blockMapItemSample reference offset size block) :=
  ⟨href, (by decide : 0 < 20), (by decide : 20 < 2 ^ 59), (by decide : 0 < 2 ^ 64), hoffset, hpos,
    hsize, hblock, length_replicate⟩

/-- A map where one reference is interrupted by another in the middle of a
super block. -/
def blockMapSample : List BlockMapItem :=
  [blockMapItemSample 0 0 15 0, blockMapItemSample 1 0 5 0, blockMapItemSample 0 0 15 1,
    blockMapItemSample 0 15 6 0]

theorem blockMapSample_valid : MapValid blockMapSample where
  length := by decide
  item := by
    unfold blockMapSample
    simp only [forall_mem_cons]
    refine ⟨?_, ?_, ?_, ?_, by simp⟩ <;> apply blockMapItemSample_valid <;> decide
  increasing := by decide
  bundleId := by decide
  superBlock := by decide
  adjacent := by decide
  behind := by decide

theorem blockMapNewRead_blockMapWrite_sample :
    (do
      let bytes ← blockMapWrite blockMapSample 10 8
      (blockMapNewRead 10 8).run (bytes ++ [1, 2, 3]))
      = .ok (blockMapSample.map (BlockMapItem.stored 8), [1, 2, 3]) :=
  blockMapNewRead_blockMapWrite blockMapSample (by decide) blockMapSample_valid 10 8 (by decide)
    (by decide) [1, 2, 3]

/-- A map where a reference returns with a super block that starts inside of
its last one. -/
def blockMapOverlap : List BlockMapItem :=
  [blockMapItemSample 1 0 10 0, blockMapItemSample 2 0 3 0, blockMapItemSample 1 5 10 0]

/-- The bytes of that map. The last reference has no offset. -/
def blockMapOverlapBytes : List UInt8 :=
  [0, 8, 87, 4, 0, 7, 7, 7, 7, 7, 7, 7, 7, 16, 111, 4, 0, 7, 7, 7, 7, 7, 7, 7, 7,
    9, 117, 0, 7, 7, 7, 7, 7, 7, 7, 7]

/-- **Super blocks that overlap are not read back**: there is no gap, so the
offset is left out, and the reader puts the super block behind the last
one. -/
theorem blockMapNewRead_overlap :
    MapOrdered blockMapOverlap ∧ blockMapWrite blockMapOverlap 10 8 = .ok blockMapOverlapBytes ∧
      (blockMapNewRead 10 8).run blockMapOverlapBytes
        = .ok ([blockMapItemSample 1 0 10 0, blockMapItemSample 2 0 3 0,
            blockMapItemSample 1 10 10 0].map (BlockMapItem.stored 8), []) ∧
      [blockMapItemSample 1 0 10 0, blockMapItemSample 2 0 3 0,
        blockMapItemSample 1 10 10 0].map (BlockMapItem.stored 8)
          ≠ blockMapOverlap.map (BlockMapItem.stored 8) := by
  refine ⟨⟨by decide, ?_, by decide, by decide, by decide, by decide⟩, by decide +kernel,
    by decide +kernel, by decide⟩
  unfold blockMapOverlap
  simp only [forall_mem_cons]
  refine ⟨?_, ?_, ?_, by simp⟩ <;> apply blockMapItemSample_valid <;> decide

end PgxBackup
