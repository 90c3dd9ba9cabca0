import PgxBackup.BlockChain
import PgxBackup.BlockIncrProcess

/-!
# A backup does not depend on the buffers

While there is input, what was copied so far is whole blocks, which are
backed up, and the block that is being filled. What was written and what is
ready are together the output of the whole blocks. Every turn keeps this,
however large the buffers are. When the file is done, what was written and
what is ready are together the output for the file.

Each call copies input, writes output or goes on to the next buffer of input,
so the calls come to an end.
-/

namespace PgxBackup

open List Chunks

variable {pipe : BlockPipe} {param : BlockIncrParam} {this : BlockIncr}
variable {mapBytes : BlockIncrState → Except Error (List UInt8)}

/-! ## Super blocks -/

section SuperBlock

variable {s : BlockIncrState}

theorem writeSuperBlock_none (done : Bool) (h : s.blockOutWrite = none) :
    s.writeSuperBlock pipe param done = (s, []) := by
  unfold BlockIncrState.writeSuperBlock
  rw [h]

theorem writeSuperBlock_cases (pipe : BlockPipe) (param : BlockIncrParam) (s : BlockIncrState)
    (done : Bool) :
    s.writeSuperBlock pipe param done = (s, []) ∨
      (s.writeSuperBlock pipe param done).1.blockOutWrite = none ∧
        s.writeSuperBlock pipe param done = s.writeSuperBlock pipe param true := by
  unfold BlockIncrState.writeSuperBlock
  cases s.blockOutWrite with
  | none => exact .inl rfl
  | some content =>
    dsimp only
    by_cases hclose : (done || decide (s.blockOutSize ≥ param.superBlockSize)) = true
    · rw [if_pos hclose, Bool.true_or, if_pos rfl]
      exact .inr ⟨rfl, rfl⟩
    · rw [if_neg hclose]
      exact .inl rfl

theorem writeSuperBlock_true_closed (s : BlockIncrState) :
    (s.writeSuperBlock pipe param true).1.blockOutWrite = none := by
  unfold BlockIncrState.writeSuperBlock
  cases hwrite : s.blockOutWrite with
  | none => exact hwrite
  | some content => rfl

/-- A super block that is complete is written once. -/
theorem writeSuperBlock_settled (s : BlockIncrState) :
    (s.writeSuperBlock pipe param false).1.writeSuperBlock pipe param false
      = ((s.writeSuperBlock pipe param false).1, []) := by
  rcases writeSuperBlock_cases pipe param s false with hsame | ⟨hnone, -⟩
  · rw [hsame]
    exact hsame
  · exact writeSuperBlock_none false hnone

/-- The last super block is closed together with the last block, or after
it. -/
theorem writeSuperBlock_true_after (pipe : BlockPipe) (param : BlockIncrParam)
    (s : BlockIncrState) :
    ((s.writeSuperBlock pipe param false).1.writeSuperBlock pipe param true).1
        = (s.writeSuperBlock pipe param true).1 ∧
      (s.writeSuperBlock pipe param false).2
          ++ ((s.writeSuperBlock pipe param false).1.writeSuperBlock pipe param true).2
        = (s.writeSuperBlock pipe param true).2 := by
  rcases writeSuperBlock_cases pipe param s false with hsame | ⟨hnone, htrue⟩
  · rw [hsame]
    exact ⟨rfl, nil_append _⟩
  · rw [writeSuperBlock_none true hnone, htrue]
    exact ⟨rfl, append_nil _⟩

theorem writeSuperBlock_open (h : (s.writeSuperBlock pipe param false).1.blockOutWrite ≠ none) :
    (s.writeSuperBlock pipe param false).2 = [] := by
  rcases writeSuperBlock_cases pipe param s false with hsame | ⟨hnone, -⟩
  · rw [hsame]
  · exact absurd hnone h

end SuperBlock

/-! ## Output that is ready -/

/-- Output that is ready and was not written. -/
def BlockIncr.ready (this : BlockIncr) : List UInt8 := this.blockOut.drop this.blockOutOffset

/-- The filter after its output was copied: either all of it was written, or
the filter asks for the same input. -/
structure BlockIncr.Flushed (this : BlockIncr) : Prop where
  offset_lt : this.blockOutOffset ≠ 0 → this.blockOutOffset < this.blockOut.length
  offset_closed : this.blockOutOffset ≠ 0 → this.state.blockOutWrite = none
  blockOut_nil : this.blockOutOffset = 0 → this.blockOut = []
  inputSame_iff : this.inputSame = true ↔ this.inputOffset ≠ 0 ∨ this.blockOutOffset ≠ 0

theorem BlockIncr.Flushed.ready_ne_nil (h : this.Flushed) (hoffset : this.blockOutOffset ≠ 0) :
    this.ready ≠ [] := by
  have hlt := h.offset_lt hoffset
  unfold BlockIncr.ready
  rw [← length_pos_iff, length_drop]
  omega

theorem BlockIncr.Flushed.ready_nil (h : this.Flushed) (hoffset : this.blockOutOffset = 0) :
    this.ready = [] := by
  unfold BlockIncr.ready
  rw [h.blockOut_nil hoffset, drop_nil]

/-- What copying to the output changes. -/
structure BlockIncr.Copied (this : BlockIncr) (out : List UInt8) (this' : BlockIncr) : Prop where
  state_eq : this'.state = this.state
  block_eq : this'.block = this.block
  inputOffset_eq : this'.inputOffset = this.inputOffset
  done_eq : this'.done = this.done
  size_eq : this'.blockMapOutSize = this.blockMapOutSize
  /-- Nothing is lost or written twice. -/
  ready_eq : out ++ this'.ready = this.ready
  progress : this.ready ≠ [] → out ≠ []
  flushed : this'.Flushed

variable {this' : BlockIncr} {bufRemains : ℕ} {full written : List UInt8}

/-- The filter asks for the same input only if it has copied a part of it or
has written. -/
theorem BlockIncr.Copied.inputSame (h : this.Copied [] this')
    (hinput : this.inputOffset = 0) : this'.inputSame = false := by
  have hready : this'.ready = [] := by
    by_contra hne
    refine h.progress ?_ rfl
    rw [← h.ready_eq]
    exact hne
  rw [← Bool.not_eq_true, h.flushed.inputSame_iff, h.inputOffset_eq, hinput]
  rintro (hne | hoffset)
  · exact hne rfl
  · exact h.flushed.ready_ne_nil hoffset hready

/-- **Copy to the output buffer.** -/
theorem copyOutput_copied (hremains : 0 < bufRemains)
    (hoffset : this.blockOutOffset ≠ 0 → this.blockOutOffset < this.blockOut.length)
    (hopen : this.state.blockOutWrite ≠ none → this.blockOutOffset = 0 ∧ this.blockOut = [])
    (hsame : this.blockOut = [] → (this.inputSame = true ↔ this.inputOffset ≠ 0)) :
    this.Copied (this.copyOutput bufRemains).2 (this.copyOutput bufRemains).1 := by
  -- nothing is ready
  have hnone (hblockOut : this.blockOut = []) (hzero : this.blockOutOffset = 0) :
      this.Copied [] this := by
    refine ⟨rfl, rfl, rfl, rfl, rfl, rfl, fun hready => absurd ?_ hready, ?_⟩
    · unfold BlockIncr.ready
      rw [hblockOut, drop_nil]
    · refine ⟨hoffset, fun h => absurd hzero h, fun _ => hblockOut, ?_⟩
      rw [hsame hblockOut]
      simp [hzero]
  unfold BlockIncr.copyOutput
  cases hwrite : this.state.blockOutWrite with
  | some content =>
    obtain ⟨hzero, hblockOut⟩ := hopen (by rw [hwrite]; exact Option.some_ne_none _)
    exact hnone hblockOut hzero
  | none =>
    by_cases hready : 0 < (this.blockOut.drop this.blockOutOffset).length
    · rw [if_pos hready]
      by_cases hfit : (this.blockOut.drop this.blockOutOffset).length ≤ bufRemains
      · -- the rest fits
        rw [if_pos hfit]
        refine ⟨rfl, rfl, rfl, rfl, rfl, append_nil _, fun h => h, ?_⟩
        exact ⟨fun h => absurd rfl h, fun h => absurd rfl h, fun _ => rfl, by simp⟩
      · -- as much as possible
        rw [if_neg hfit]
        rw [length_drop] at hfit
        refine ⟨rfl, rfl, rfl, rfl, rfl, ?_, fun h => ?_, ?_⟩
        · unfold BlockIncr.ready
          rw [← drop_drop]
          exact take_append_drop _ _
        · rw [← length_pos_iff, length_take]
          exact lt_min hremains hready
        · refine ⟨fun _ => ?_, fun _ => hwrite, fun h => ?_, by simp; omega⟩
          · show this.blockOutOffset + bufRemains < this.blockOut.length
            omega
          · exact absurd h (by show this.blockOutOffset + bufRemains ≠ 0; omega)
    · rw [if_neg hready]
      rw [length_drop] at hready
      have hzero : this.blockOutOffset = 0 := by
        by_contra h
        omega
      refine hnone ?_ hzero
      rw [← length_eq_zero_iff]
      omega

/-! ## While there is input -/

/-- The filter after whole blocks of the file, with what was written. -/
structure BlockIncr.FedBlocks (pipe : BlockPipe) (param : BlockIncrParam) (full : List UInt8)
    (written : List UInt8) (this : BlockIncr) : Prop where
  full_length : ∃ k, full.length = k * param.blockSize
  blocks_eq : blockIncrBlocks pipe param full = (this.state, written ++ this.ready)
  block_lt : this.block.length < param.blockSize
  /-- No super block is complete and still open. -/
  settled : this.state.writeSuperBlock pipe param false = (this.state, [])
  size_eq : this.blockMapOutSize = 0
  done_eq : this.done = false

/-- The same after the output was copied. -/
structure BlockIncr.Fed (pipe : BlockPipe) (param : BlockIncrParam) (full : List UInt8)
    (written : List UInt8) (this : BlockIncr) : Prop
    extends BlockIncr.FedBlocks pipe param full written this where
  flushed : this.Flushed

theorem BlockIncr.FedBlocks.copied {out : List UInt8}
    (h : this.FedBlocks pipe param full written) (hcopied : this.Copied out this') :
    this'.Fed pipe param full (written ++ out) := by
  refine ⟨⟨h.full_length, ?_, ?_, ?_, ?_, ?_⟩, hcopied.flushed⟩
  · rw [h.blocks_eq, hcopied.state_eq, append_assoc, hcopied.ready_eq]
  · rw [hcopied.block_eq]
    exact h.block_lt
  · rw [hcopied.state_eq]
    exact h.settled
  · rw [hcopied.size_eq]
    exact h.size_eq
  · rw [hcopied.done_eq]
    exact h.done_eq

/-- What is left of the input that was presented. -/
def BlockIncr.left (this : BlockIncr) (input : List UInt8) : List UInt8 :=
  if this.inputOffset = 0 then [] else input.drop this.inputOffset

/-- What a call still has to copy of the input that it gets. -/
def BlockIncr.toCopy (this : BlockIncr) (input : List UInt8) : List UInt8 :=
  if this.inputSame then this.left input else input

theorem BlockIncr.Flushed.toCopy_eq (h : this.Flushed) (hoffset : this.blockOutOffset = 0)
    (input : List UInt8) : this.toCopy input = input.drop this.inputOffset := by
  have hiff := h.inputSame_iff
  unfold BlockIncr.toCopy BlockIncr.left
  by_cases hinput : this.inputOffset = 0
  · rw [if_neg (by rw [hiff]; simp [hinput, hoffset]), hinput, drop_zero]
  · rw [if_pos (hiff.mpr (.inl hinput)), if_neg hinput]

theorem BlockIncr.Flushed.toCopy_left (h : this.Flushed) (hoffset : this.blockOutOffset ≠ 0)
    (input : List UInt8) : this.toCopy input = this.left input := by
  unfold BlockIncr.toCopy
  rw [if_pos (h.inputSame_iff.mpr (.inr hoffset))]

theorem BlockIncr.Flushed.toCopy_new (h : this.Flushed) (hsame : this.inputSame = false)
    (input : List UInt8) : this.toCopy input = input ∧ this.blockOutOffset = 0 := by
  have hiff := h.inputSame_iff
  rw [hsame] at hiff
  refine ⟨?_, ?_⟩
  · unfold BlockIncr.toCopy
    rw [hsame]
    rfl
  · by_contra hoffset
    cases hiff.mpr (.inr hoffset)

/-- The filter after input was copied: nothing is ready, and the block may be
full. -/
structure BlockIncr.Filled (pipe : BlockPipe) (param : BlockIncrParam) (full : List UInt8)
    (written : List UInt8) (this : BlockIncr) : Prop where
  full_length : ∃ k, full.length = k * param.blockSize
  blocks_eq : blockIncrBlocks pipe param full = (this.state, written)
  block_le : this.block.length ≤ param.blockSize
  settled : this.state.writeSuperBlock pipe param false = (this.state, [])
  size_eq : this.blockMapOutSize = 0
  done_eq : this.done = false
  offset_eq : this.blockOutOffset = 0
  blockOut_nil : this.blockOut = []
  inputSame_iff : this.inputSame = true ↔ this.inputOffset ≠ 0

theorem copyInput_eq (input : List UInt8) (hoffset : this.blockOutOffset = 0)
    (hlt : this.block.length < param.blockSize) :
    ∃ (inputOffset : ℕ) (inputSame : Bool) (piece : List UInt8),
      this.copyInput param input = { this with
        block := this.block ++ piece, inputOffset := inputOffset, inputSame := inputSame } ∧
      (inputSame = true ↔ inputOffset ≠ 0) ∧
      (this.block ++ piece).length ≤ param.blockSize ∧
      piece ++ (if inputOffset = 0 then [] else input.drop inputOffset)
        = input.drop this.inputOffset ∧
      (piece = [] → inputSame = false) := by
  unfold BlockIncr.copyInput
  rw [if_pos hoffset]
  by_cases hfit : input.length - this.inputOffset ≤ param.blockSize - this.block.length
  · rw [if_pos hfit]
    refine ⟨0, false, input.drop this.inputOffset, rfl, by simp, ?_, append_nil _,
      fun _ => rfl⟩
    rw [length_append, length_drop]
    omega
  · rw [if_neg hfit]
    have hne : this.inputOffset + (param.blockSize - this.block.length) ≠ 0 := by omega
    refine ⟨_, true, _, rfl, iff_of_true rfl hne, ?_, ?_, fun h => ?_⟩
    · rw [length_append, length_take]
      omega
    · rw [if_neg hne, ← drop_drop]
      exact take_append_drop _ _
    · rw [take_eq_nil_iff, drop_eq_nil_iff] at h
      omega

/-- **Copy input.** -/
theorem BlockIncr.Fed.copyInput (h : this.Fed pipe param full written)
    (hoffset : this.blockOutOffset = 0) (input : List UInt8) :
    (this.copyInput param input).Filled pipe param full written ∧
      ∃ piece, (this.copyInput param input).block = this.block ++ piece ∧
        piece ++ (this.copyInput param input).left input = this.toCopy input ∧
        (piece = [] → (this.copyInput param input).inputOffset = 0) := by
  obtain ⟨inputOffset, inputSame, piece, hcopy, hsame, hle, hpiece, hprogress⟩ :=
    copyInput_eq input hoffset h.block_lt
  have hblocks := h.blocks_eq
  rw [h.flushed.ready_nil hoffset, append_nil] at hblocks
  rw [hcopy]
  refine ⟨⟨h.full_length, hblocks, hle, h.settled, h.size_eq, h.done_eq, hoffset,
    h.flushed.blockOut_nil hoffset, hsame⟩, piece, rfl, ?_, fun hnil => ?_⟩
  · rw [h.flushed.toCopy_eq hoffset, ← hpiece]
    rfl
  · show inputOffset = 0
    by_contra hne
    exact Bool.false_ne_true ((hprogress hnil).symm.trans (hsame.mpr hne))

theorem endBlock_keep (hdone : this.done = false) (hlt : this.block.length < param.blockSize) :
    this.endBlock pipe param = this := by
  unfold BlockIncr.endBlock
  rw [hdone]
  exact if_neg (by simp; omega)

theorem endSuperBlock_keep
    (h : this.state.writeSuperBlock pipe param this.done = (this.state, [])) :
    this.endSuperBlock pipe param = this := by
  unfold BlockIncr.endSuperBlock
  rw [h]
  dsimp only
  rw [append_nil]

theorem endMap_keep (h : this.done = true → this.blockOutOffset ≠ 0) :
    this.endMap param mapBytes = .ok this := by
  exact if_neg (fun hmap => h hmap.1 hmap.2.1)

theorem endBlock_add (hblock : this.done = true ∧ 0 < this.block.length ∨
      this.block.length = param.blockSize) :
    this.endBlock pipe param
      = { this with state := this.state.addBlock pipe param this.block, block := [] } := by
  exact if_pos hblock

/-- **A block that is full is added**, and its super block is written if it is
complete. -/
theorem BlockIncr.Filled.endBlock
    (hsize : 0 < param.blockSize) (h : this.Filled pipe param full written)
    (hremains : 0 < bufRemains) {ended : BlockIncr}
    (hended : ended = (this.endBlock pipe param).endSuperBlock pipe param) :
    ended.inputOffset = this.inputOffset ∧
      ended.Copied (ended.copyOutput bufRemains).2 (ended.copyOutput bufRemains).1 ∧
      ∃ full', ended.FedBlocks pipe param full' written ∧
        full' ++ ended.block = full ++ this.block := by
  obtain ⟨k, hk⟩ := h.full_length
  by_cases hfull : this.block.length = param.blockSize
  · -- the block is full
    have hne : this.block ≠ [] := by
      rw [← length_pos_iff, hfull]
      exact hsize
    rw [endBlock_add (.inr hfull)] at hended
    unfold BlockIncr.endSuperBlock at hended
    dsimp only at hended
    rw [h.done_eq, h.blockOut_nil, nil_append] at hended
    have hblocks : blockIncrBlocks pipe param (full ++ this.block)
        = blockIncrBlock pipe param (blockIncrBlocks pipe param full) this.block :=
      blockIncrBlocks_concat hsize hk hne hfull.le
    rw [h.blocks_eq] at hblocks
    subst hended
    refine ⟨rfl, ?_, full ++ this.block, ⟨⟨k + 1, ?_⟩, ?_, hsize, writeSuperBlock_settled _,
      h.size_eq, rfl⟩, append_nil _⟩
    · exact copyOutput_copied hremains (fun hoffset => absurd h.offset_eq hoffset)
        (fun hopen => ⟨h.offset_eq, writeSuperBlock_open hopen⟩) (fun _ => h.inputSame_iff)
    · rw [length_append, hk, hfull, Nat.succ_mul]
    · rw [hblocks]
      rw [h.offset_eq]
      rfl
  · -- there is space in the block
    have hlt := lt_of_le_of_ne h.block_le hfull
    rw [endBlock_keep h.done_eq hlt, endSuperBlock_keep (by rw [h.done_eq]; exact h.settled)]
      at hended
    subst hended
    refine ⟨rfl, ?_, full, ⟨h.full_length, ?_, hlt, h.settled, h.size_eq, h.done_eq⟩, rfl⟩
    · exact copyOutput_copied hremains (fun hoffset => absurd h.offset_eq hoffset)
        (fun _ => ⟨h.offset_eq, h.blockOut_nil⟩) (fun _ => h.inputSame_iff)
    · rw [h.blocks_eq]
      unfold BlockIncr.ready
      rw [h.blockOut_nil, drop_nil, append_nil]

/-- **A turn with input.** What is copied follows what was copied before, and
is taken from what was to be copied. -/
theorem BlockIncr.Fed.turn
    (hsize : 0 < param.blockSize) (h : this.Fed pipe param full written) (input : List UInt8)
    (hremains : 0 < bufRemains) :
    ∃ (out : List UInt8) (this' : BlockIncr) (full' piece : List UInt8),
      this.turn pipe param mapBytes (some input) bufRemains = .ok (this', out) ∧
      this'.Fed pipe param full' (written ++ out) ∧
      full' ++ this'.block = full ++ this.block ++ piece ∧
      piece ++ this'.left input = this.toCopy input ∧
      (this'.inputSame = true → piece ≠ [] ∨ out ≠ []) := by
  unfold BlockIncr.turn
  dsimp only
  by_cases hoffset : this.blockOutOffset = 0
  · obtain ⟨hfilled, piece, hblock, hleft, hprogress⟩ := h.copyInput hoffset input
    obtain ⟨ended, hended⟩ : ∃ ended, ended
      = ((this.copyInput param input).endBlock pipe param).endSuperBlock pipe param := ⟨_, rfl⟩
    obtain ⟨hinput, hcopied, full', hfed, hfull'⟩ := hfilled.endBlock hsize hremains hended
    rw [← hended, endMap_keep
      (fun hdone => absurd (hfed.done_eq.symm.trans hdone) Bool.false_ne_true)]
    refine ⟨(ended.copyOutput bufRemains).2, (ended.copyOutput bufRemains).1, full', piece, rfl,
      hfed.copied hcopied, ?_, ?_, fun hsame => ?_⟩
    · rw [hcopied.block_eq, hfull', hblock, append_assoc]
    · rw [← hleft]
      unfold BlockIncr.left
      rw [hcopied.inputOffset_eq, hinput]
    · -- with nothing copied or written the input is consumed
      by_contra hnone
      rw [not_or, not_not, not_not] at hnone
      rw [hnone.2] at hcopied
      rw [hcopied.inputSame (hinput.trans (hprogress hnone.1))] at hsame
      exact Bool.false_ne_true hsame
  · -- flushing out
    have hcopy : this.copyInput param input = this := by
      exact if_neg hoffset
    have hcopied := copyOutput_copied hremains h.flushed.offset_lt
      (fun hopen => absurd (h.flushed.offset_closed hoffset) hopen)
      (fun hnil => absurd (h.flushed.offset_lt hoffset) (by simp [hnil]))
    rw [hcopy, endBlock_keep h.done_eq h.block_lt,
      endSuperBlock_keep (by rw [h.done_eq]; exact h.settled),
      endMap_keep (fun hdone => absurd (h.done_eq.symm.trans hdone) Bool.false_ne_true)]
    refine ⟨(this.copyOutput bufRemains).2, (this.copyOutput bufRemains).1, full, [], rfl,
      h.toFedBlocks.copied hcopied, ?_, ?_, fun _ => .inr ?_⟩
    · rw [hcopied.block_eq, append_nil]
    · rw [h.flushed.toCopy_left hoffset, nil_append]
      unfold BlockIncr.left
      rw [hcopied.inputOffset_eq]
    · exact hcopied.progress (h.flushed.ready_ne_nil hoffset)

theorem BlockIncr.length_left_le (this : BlockIncr) (input : List UInt8) :
    (this.left input).length ≤ input.length := by
  unfold BlockIncr.left
  split
  · exact Nat.zero_le _
  · rw [length_drop]
    exact Nat.sub_le _ _

section

variable (hsize : 0 < param.blockSize) (h : this.Fed pipe param full written) (input : List UInt8)
  (output : OutputBuffer)
include hsize h input output

/-- The turns of a call. What is left of the input is shorter after a turn
that does not end the loop. -/
theorem BlockIncr.Fed.loop {fuel : ℕ} (hfuel : (this.toCopy input).length < fuel) :
    ∃ (out : List UInt8) (this' : BlockIncr) (full' piece : List UInt8),
      blockIncrLoop pipe param mapBytes (some input) output fuel this = some (.ok (this', out)) ∧
      this'.Fed pipe param full' (written ++ out) ∧
      full' ++ this'.block = full ++ this.block ++ piece ∧
      piece ++ this'.left input = this.toCopy input ∧
      (this'.inputSame = true → piece ≠ [] ∨ out ≠ []) := by
  induction fuel generalizing this full written with
  | zero => exact absurd hfuel (Nat.not_lt_zero _)
  | succ fuel ih =>
    obtain ⟨out, this', full', piece, hturn, hfed, hcontent, hpiece, hprogress⟩ :=
      h.turn hsize input output.remains_pos
    unfold blockIncrLoop
    rw [hturn]
    dsimp only
    by_cases hagain : this'.inputSame = true ∧ output.used + out.length = 0
    · rw [if_pos hagain]
      have hout : out = [] := length_eq_zero_iff.mp (Nat.eq_zero_of_add_eq_zero hagain.2).2
      rw [hout] at hfed hprogress
      have hne : piece ≠ [] := (hprogress hagain.1).resolve_right (fun hne => hne rfl)
      have htoCopy : this'.toCopy input = this'.left input := by
        unfold BlockIncr.toCopy
        rw [if_pos hagain.1]
      have hless : (this'.toCopy input).length < fuel := by
        have hlen := congrArg length hpiece
        have hpos := length_pos_iff.mpr hne
        rw [length_append] at hlen
        rw [htoCopy]
        omega
      rw [append_nil] at hfed
      obtain ⟨out₂, this₂, full₂, piece₂, hloop, hfed₂, hcontent₂, hpiece₂, -⟩ := ih hfed hless
      refine ⟨out₂, this₂, full₂, piece ++ piece₂, hloop, hfed₂, ?_, ?_, fun _ => .inl ?_⟩
      · rw [hcontent₂, hcontent, append_assoc]
      · rw [append_assoc, hpiece₂, htoCopy, hpiece]
      · exact fun hnil => hne (append_eq_nil_iff.mp hnil).1
    · rw [if_neg hagain]
      exact ⟨out, this', full', piece, rfl, hfed, hcontent, hpiece, hprogress⟩

/-- **A call with input.** -/
theorem BlockIncr.Fed.process :
    ∃ (out : List UInt8) (this' : BlockIncr) (full' piece : List UInt8),
      blockIncrProcess pipe param mapBytes (some input) output this = some (.ok (this', out)) ∧
      this'.Fed pipe param full' (written ++ out) ∧
      full' ++ this'.block = full ++ this.block ++ piece ∧
      piece ++ this'.left input = this.toCopy input ∧
      (this'.inputSame = true → piece ≠ [] ∨ out ≠ []) := by
  have hdone : ({ this with done := false } : BlockIncr) = this := by rw [← h.done_eq]
  unfold blockIncrProcess
  rw [Option.isNone_some, hdone, Option.getD_some]
  refine h.loop hsize input output (Nat.lt_succ_of_le ?_)
  unfold BlockIncr.toCopy
  split
  · exact this.length_left_le input
  · exact le_refl _

end

/-! ## The end of the file -/

/-- The filter when the file is done, with what was written. -/
structure BlockIncr.Ended (result : List UInt8 × ℕ) (written : List UInt8) (this : BlockIncr) :
    Prop where
  block_nil : this.block = []
  closed : this.state.blockOutWrite = none
  written_eq : written ++ this.ready = result.1
  size_eq : this.blockMapOutSize = result.2
  inputOffset_eq : this.inputOffset = 0
  done_eq : this.done = true
  flushed : this.Flushed

theorem ended_copyOutput (this : BlockIncr) (result : List UInt8 × ℕ) (written : List UInt8)
    (hremains : 0 < bufRemains) (hblock : this.block = [])
    (hclosed : this.state.blockOutWrite = none) (hwritten : written ++ this.ready = result.1)
    (hmap : this.blockMapOutSize = result.2) (hinput : this.inputOffset = 0)
    (hdone : this.done = true)
    (hoffset : this.blockOutOffset ≠ 0 → this.blockOutOffset < this.blockOut.length)
    (hsame : this.blockOut = [] → this.inputSame = false) :
    (this.copyOutput bufRemains).1.Ended result
        (written ++ (this.copyOutput bufRemains).2) ∧
      ((this.copyOutput bufRemains).1.inputSame = true → (this.copyOutput bufRemains).2 ≠ []) := by
  have hcopied := copyOutput_copied hremains hoffset (fun hopen => absurd hclosed hopen)
    (fun hnil => by rw [hsame hnil, hinput]; simp)
  refine ⟨⟨hcopied.block_eq.trans hblock, ?_, ?_, hcopied.size_eq.trans hmap,
    hcopied.inputOffset_eq.trans hinput, hcopied.done_eq.trans hdone, hcopied.flushed⟩,
    fun hagain hnil => ?_⟩
  · rw [hcopied.state_eq]
    exact hclosed
  · rw [append_assoc, hcopied.ready_eq, hwritten]
  · rw [hnil] at hcopied
    exact Bool.false_ne_true ((hcopied.inputSame hinput).symm.trans hagain)

theorem BlockIncr.Ended.turn (pipe : BlockPipe)
    (mapBytes : BlockIncrState → Except Error (List UInt8)) {result : List UInt8 × ℕ}
    (hsize : 0 < param.blockSize) (h : this.Ended result written)
    (hoffset : this.blockOutOffset ≠ 0) (hremains : 0 < bufRemains) :
    ∃ (out : List UInt8) (this' : BlockIncr),
      this.turn pipe param mapBytes none bufRemains = .ok (this', out) ∧
      this'.Ended result (written ++ out) ∧ (this'.inputSame = true → out ≠ []) := by
  have hblock : this.endBlock pipe param = this := by
    unfold BlockIncr.endBlock
    rw [h.block_nil]
    exact if_neg (by simp; omega)
  unfold BlockIncr.turn
  dsimp only
  rw [hblock, endSuperBlock_keep (writeSuperBlock_none _ h.closed), endMap_keep (fun _ => hoffset)]
  obtain ⟨hended, hprogress⟩ := ended_copyOutput this result written hremains h.block_nil h.closed h.written_eq
    h.size_eq h.inputOffset_eq h.done_eq h.flushed.offset_lt
    (fun hnil => absurd (h.flushed.offset_lt hoffset) (by simp [hnil]))
  exact ⟨_, _, rfl, hended, hprogress⟩

theorem BlockIncr.Fed.endSuperBlock (hsize : 0 < param.blockSize)
    (h : this.Fed pipe param full written) (hoffset : this.blockOutOffset = 0) :
    ∃ out : List UInt8,
      (({ this with done := true }).endBlock pipe param).endSuperBlock pipe param
        = { this with
            state := (blockIncrEnd pipe param (full ++ this.block)).1
            block := []
            blockOut := out
            done := true } ∧
      written ++ out = (blockIncrEnd pipe param (full ++ this.block)).2 := by
  obtain ⟨k, hk⟩ := h.full_length
  have hblocks := h.blocks_eq
  rw [h.flushed.ready_nil hoffset, append_nil] at hblocks
  have hblockOut := h.flushed.blockOut_nil hoffset
  by_cases hblock : this.block = []
  · have hkeep : ({ this with done := true } : BlockIncr).endBlock pipe param
        = { this with done := true } := by
      unfold BlockIncr.endBlock
      rw [hblock]
      exact if_neg (by simp; omega)
    refine ⟨(this.state.writeSuperBlock pipe param true).2, ?_, ?_⟩
    · rw [hkeep, hblock, append_nil]
      unfold BlockIncr.endSuperBlock blockIncrEnd
      dsimp only
      rw [hblocks, hblockOut, nil_append]
    · rw [hblock, append_nil]
      unfold blockIncrEnd
      rw [hblocks]
  · have hadd : ({ this with done := true } : BlockIncr).endBlock pipe param
        = { this with
            state := this.state.addBlock pipe param this.block, block := [], done := true } :=
      endBlock_add (.inl ⟨rfl, length_pos_iff.mpr hblock⟩)
    rw [hadd]
    obtain ⟨hstate, hout⟩ := writeSuperBlock_true_after pipe param
      (this.state.addBlock pipe param this.block)
    refine ⟨((this.state.addBlock pipe param this.block).writeSuperBlock pipe param true).2,
      ?_, ?_⟩
    · unfold BlockIncr.endSuperBlock blockIncrEnd
      dsimp only
      rw [blockIncrBlocks_concat hsize hk hblock h.block_lt.le, hblocks, hblockOut,
        nil_append, ← hstate]
      rfl
    · unfold blockIncrEnd
      rw [blockIncrBlocks_concat hsize hk hblock h.block_lt.le, hblocks, ← hout]
      exact (append_assoc _ _ _).symm

/-- **The first turn after the end of the file.** The map is written, or the
filter fails as it does for a file in one piece. -/
theorem BlockIncr.Fed.turnEnd (mapBytes : BlockIncrState → Except Error (List UInt8))
    (hsize : 0 < param.blockSize) (h : this.Fed pipe param full written)
    (hsame : this.inputSame = false) (hremains : 0 < bufRemains) :
    match blockIncrOutcome pipe param mapBytes (full ++ this.block) with
    | .error e => ({ this with done := true }).turn pipe param mapBytes none bufRemains = .error e
    | .ok result => ∃ (out : List UInt8) (this' : BlockIncr),
        ({ this with done := true }).turn pipe param mapBytes none bufRemains = .ok (this', out) ∧
        this'.Ended result (written ++ out) ∧ (this'.inputSame = true → out ≠ []) := by
  have hoffset := (h.flushed.toCopy_new hsame []).2
  have hinput : this.inputOffset = 0 := by
    by_contra hne
    exact Bool.false_ne_true (hsame.symm.trans (h.flushed.inputSame_iff.mpr (.inl hne)))
  obtain ⟨out, hend, hout⟩ := h.endSuperBlock hsize hoffset
  unfold BlockIncr.turn
  dsimp only
  rw [hend]
  unfold blockIncrOutcome
  have hclosed : (blockIncrEnd pipe param (full ++ this.block)).1.blockOutWrite = none := by
    exact writeSuperBlock_true_closed _
  generalize blockIncrEnd pipe param (full ++ this.block) = run at hout hclosed ⊢
  obtain ⟨state, all⟩ := run
  -- what is ready at the end of the file follows what was written
  have hcopy (ready : List UInt8) (map : ℕ) := ended_copyOutput
    { this with
      state := state, block := [], blockOut := ready, done := true, blockMapOutSize := map }
    (written ++ ready, map) written hremains rfl hclosed
    (by unfold BlockIncr.ready; dsimp only; rw [hoffset, drop_zero]) rfl hinput rfl
    (fun hne => absurd hoffset hne) (fun _ => hsame)
  unfold BlockIncr.endMap
  dsimp only
  by_cases hmap : state.mapNeeded param = true
  · rw [if_pos hmap, if_pos ⟨rfl, hoffset, hmap⟩]
    cases hbytes : mapBytes state with
    | error e => rfl
    | ok bytes =>
      have hready := hcopy (out ++ bytes) bytes.length
      rw [← append_assoc, hout] at hready
      exact ⟨_, _, rfl, hready⟩
  · rw [if_neg hmap, if_neg (fun hneeded => hmap hneeded.2.2)]
    have hready := hcopy out 0
    rw [hout] at hready
    rw [h.size_eq]
    exact ⟨_, _, rfl, hready⟩

/-- A call without input is a single turn. -/
theorem process_none {output : OutputBuffer} {out : List UInt8}
    (hturn : ({ this with done := true }).turn pipe param mapBytes none output.remains = .ok (this', out))
    (hprogress : this'.inputSame = true → out ≠ []) :
    blockIncrProcess pipe param mapBytes none output this = some (.ok (this', out)) := by
  show blockIncrLoop pipe param mapBytes none output 1 { this with done := true } = _
  unfold blockIncrLoop
  rw [hturn]
  dsimp only
  rw [if_neg]
  rintro ⟨hsame, hempty⟩
  exact hprogress hsame (length_eq_zero_iff.mp (Nat.eq_zero_of_add_eq_zero hempty).2)

/-! ## All calls -/

section Calls

variable {outputs : ℕ → OutputBuffer}

variable {written full : List UInt8}

variable {result : List UInt8 × ℕ}

theorem BlockIncr.Ended.done_or (h : this.Ended result written) (hsame : this.inputSame = false) :
    (written, this.blockMapOutSize) = result := by
  have hready := h.flushed.ready_nil (h.flushed.toCopy_new hsame []).2
  have hwritten := h.written_eq
  rw [hready, append_nil] at hwritten
  rw [hwritten, h.size_eq]

/-- A call after the end of the file: it is the last one, or the output of the
calls that follow comes after its own. -/
theorem BlockIncr.Ended.call {written out : List UInt8}
    {this' : BlockIncr} (h : this'.Ended result (written ++ out)) {call : ℕ}
    (hprocess : blockIncrProcess pipe param mapBytes none (outputs call) this = some (.ok (this', out)))
    (hnext : this'.inputSame = true → ∃ fuel,
      blockIncrCalls pipe param mapBytes outputs fuel (call + 1) [] this' (written ++ out)
        = some (.ok result)) :
    ∃ fuel, blockIncrCalls pipe param mapBytes outputs fuel call [] this written = some (.ok result) := by
  have hdone : blockIncrDone this' = !this'.inputSame := by
    unfold blockIncrDone
    rw [h.done_eq, Bool.true_and]
  cases hsame : this'.inputSame with
  | false =>
    rw [hsame] at hdone
    refine ⟨1, ?_⟩
    unfold blockIncrCalls
    rw [head?_nil, hprocess]
    dsimp only
    rw [hdone, h.done_or hsame]
    rfl
  | true =>
    rw [hsame] at hdone
    obtain ⟨fuel, hfuel⟩ := hnext hsame
    refine ⟨fuel + 1, ?_⟩
    rw [← hfuel]
    conv_lhs => unfold blockIncrCalls
    rw [head?_nil, hprocess]
    dsimp only
    rw [hdone]
    unfold blockIncrInputSame
    rw [hsame]
    rfl

/-- The calls after the end of the file. Each one writes a part of what is
ready. -/
theorem BlockIncr.Ended.calls (hsize : 0 < param.blockSize) (n : ℕ)
    (h : this.Ended result written) (hsame : this.inputSame = true)
    (hn : this.ready.length ≤ n) (call : ℕ) :
    ∃ fuel, blockIncrCalls pipe param mapBytes outputs fuel call [] this written = some (.ok result) := by
  have hoffset : this.blockOutOffset ≠ 0 :=
    (h.flushed.inputSame_iff.mp hsame).resolve_left (fun hne => hne h.inputOffset_eq)
  induction n generalizing this written call with
  | zero =>
    exact absurd (length_eq_zero_iff.mp (Nat.le_zero.mp hn)) (h.flushed.ready_ne_nil hoffset)
  | succ n ih =>
    have hdone : ({ this with done := true } : BlockIncr) = this := by rw [← h.done_eq]
    obtain ⟨out, this', hturn, hended, hprogress⟩ :=
      h.turn pipe mapBytes hsize hoffset (outputs call).remains_pos
    rw [← hdone] at hturn
    refine hended.call (process_none hturn hprogress) (fun hagain => ?_)
    refine ih hended hagain ?_ (call + 1)
      ((hended.flushed.inputSame_iff.mp hagain).resolve_left (fun hne => hne hended.inputOffset_eq))
    have hlen := congrArg length (hended.written_eq.trans h.written_eq.symm)
    have hpos := length_pos_iff.mpr (hprogress hagain)
    rw [append_assoc, length_append, length_append, length_append] at hlen
    omega

theorem BlockIncr.Fed.callsEnd (hsize : 0 < param.blockSize)
    (h : this.Fed pipe param full written) (hsame : this.inputSame = false) (call : ℕ) :
    ∃ fuel, blockIncrCalls pipe param mapBytes outputs fuel call [] this written
      = some (blockIncrOutcome pipe param mapBytes (full ++ this.block)) := by
  have hend := h.turnEnd mapBytes hsize hsame (outputs call).remains_pos
  cases hresult : blockIncrOutcome pipe param mapBytes (full ++ this.block) with
  | error e =>
    rw [hresult] at hend
    have hprocess : blockIncrProcess pipe param mapBytes none (outputs call) this = some (.error e) := by
      show blockIncrLoop pipe param mapBytes none (outputs call) 1 { this with done := true } = _
      unfold blockIncrLoop
      rw [hend]
    refine ⟨1, ?_⟩
    unfold blockIncrCalls
    rw [head?_nil, hprocess]
  | ok result =>
    rw [hresult] at hend
    obtain ⟨out, this', hturn, hended, hprogress⟩ := hend
    exact hended.call (process_none hturn hprogress)
      (fun hagain => hended.calls hsize this'.ready.length hagain le_rfl (call + 1))

/-- What is still to be copied, with the input that is presented next. -/
def BlockIncr.rest (this : BlockIncr) : List (List UInt8) → List UInt8
  | [] => []
  | input :: inputs => this.toCopy input ++ inputs.flatten

theorem BlockIncr.Flushed.rest_new (h : this.Flushed) (hsame : this.inputSame = false)
    (inputs : List (List UInt8)) : this.rest inputs = inputs.flatten := by
  cases inputs with
  | nil => rfl
  | cons input inputs =>
    show this.toCopy input ++ inputs.flatten = input ++ inputs.flatten
    rw [(h.toCopy_new hsame input).1]

theorem prefix_foldl_blockIncrBlock (pipe : BlockPipe) (param : BlockIncrParam)
    (run : BlockIncrState × List UInt8) (blocks : List (List UInt8)) :
    run.2 <+: (blocks.foldl (blockIncrBlock pipe param) run).2 := by
  induction blocks generalizing run with
  | nil => exact prefix_rfl
  | cons block blocks ih =>
    have hblock : run.2 <+: (blockIncrBlock pipe param run block).2 := prefix_append _ _
    exact hblock.trans (ih _)

theorem BlockIncr.Fed.length_written_le {more : List UInt8}
    (hsize : 0 < param.blockSize) (h : this.Fed pipe param full written) :
    written.length ≤ (blockIncrBlocks pipe param (full ++ more)).2.length := by
  obtain ⟨k, hk⟩ := h.full_length
  have hprefix := prefix_foldl_blockIncrBlock pipe param
    (blockIncrBlocks pipe param full) (chunks param.blockSize more)
  rw [← blockIncrBlocks_append hsize hk, h.blocks_eq] at hprefix
  exact ((prefix_append _ _).trans hprefix).length_le

/-- **The calls from any call on.** A call copies input, writes output or goes
on to the next buffer, so what is still to be done gets less. -/
theorem BlockIncr.Fed.calls {content : List UInt8} (hsize : 0 < param.blockSize) (n : ℕ)
    {inputs : List (List UInt8)}
    (h : this.Fed pipe param full written)
    (hcontent : full ++ this.block ++ this.rest inputs = content)
    (hnil : inputs = [] → this.inputSame = false)
    (hn : (this.rest inputs).length + inputs.length
      + ((blockIncrBlocks pipe param content).2.length - written.length) ≤ n) (call : ℕ) :
    ∃ fuel, blockIncrCalls pipe param mapBytes outputs fuel call inputs this written
      = some (blockIncrOutcome pipe param mapBytes content) := by
  induction n generalizing this full written inputs call with
  | zero =>
    cases inputs with
    | nil =>
      rw [show this.rest [] = [] from rfl, append_nil] at hcontent
      rw [← hcontent]
      exact h.callsEnd hsize (hnil rfl) call
    | cons input inputs => exact absurd hn (by rw [length_cons]; omega)
  | succ n ih =>
    cases inputs with
    | nil =>
      rw [show this.rest [] = [] from rfl, append_nil] at hcontent
      rw [← hcontent]
      exact h.callsEnd hsize (hnil rfl) call
    | cons input inputs =>
      rw [show this.rest (input :: inputs) = this.toCopy input ++ inputs.flatten from rfl]
        at hcontent hn
      obtain ⟨out, this', full', piece, hprocess, hfed, hfull, hpiece, hprogress⟩ :=
        h.process hsize input (outputs call)
      rw [← hpiece] at hcontent hn
      have hcontent' : full' ++ this'.block ++ (this'.left input ++ inputs.flatten) = content := by
        rw [hfull, ← hcontent]
        simp only [append_assoc]
      have hwritten : (written ++ out).length ≤ (blockIncrBlocks pipe param content).2.length := by
        rw [← hcontent', append_assoc]
        exact hfed.length_written_le hsize
      have hnotDone : blockIncrDone this' = false := by
        unfold blockIncrDone
        rw [hfed.done_eq, Bool.false_and]
      rw [length_append] at hwritten
      simp only [length_append, length_cons] at hn
      cases hsame : this'.inputSame with
      | false =>
        -- the buffer was consumed
        have hleft : this'.left input = [] := by
          refine if_pos ?_
          by_contra hne
          exact Bool.false_ne_true
            (hsame.symm.trans (hfed.flushed.inputSame_iff.mpr (.inl hne)))
        have hrest := hfed.flushed.rest_new hsame inputs
        rw [hleft, nil_append, ← hrest] at hcontent'
        obtain ⟨fuel, hfuel⟩ := ih hfed hcontent' (fun _ => hsame)
          (by rw [hrest, length_append]; omega) (call + 1)
        refine ⟨fuel + 1, ?_⟩
        rw [← hfuel]
        conv_lhs => unfold blockIncrCalls
        rw [head?_cons, hprocess]
        dsimp only
        rw [hnotDone]
        unfold blockIncrInputSame
        rw [hsame]
        rfl
      | true =>
        -- the same buffer is presented again
        have hrest : this'.rest (input :: inputs) = this'.left input ++ inputs.flatten := by
          show this'.toCopy input ++ inputs.flatten = _
          unfold BlockIncr.toCopy
          rw [hsame]
          rfl
        have hless : 0 < piece.length + out.length := by
          rcases hprogress hsame with hne | hne
          · exact Nat.add_pos_left (length_pos_iff.mpr hne) _
          · exact Nat.add_pos_right _ (length_pos_iff.mpr hne)
        rw [← hrest] at hcontent'
        obtain ⟨fuel, hfuel⟩ := ih hfed hcontent' (fun hnil => absurd hnil (cons_ne_nil _ _))
          (by rw [hrest]; simp only [length_append, length_cons]; omega) (call + 1)
        refine ⟨fuel + 1, ?_⟩
        rw [← hfuel]
        conv_lhs => unfold blockIncrCalls
        rw [head?_cons, hprocess]
        dsimp only
        rw [hnotDone]
        unfold blockIncrInputSame
        rw [hsame]
        rfl

end Calls

/-- Nothing is copied or written before the first call. -/
theorem fed_new (pipe : BlockPipe) (hsize : 0 < param.blockSize) :
    (BlockIncr.new param).Fed pipe param [] [] := by
  have hstate : (BlockIncrState.new param).blockOutWrite = none := rfl
  refine ⟨⟨⟨0, (Nat.zero_mul _).symm⟩, ?_, hsize, writeSuperBlock_none false hstate, rfl, rfl⟩, ?_⟩
  · unfold blockIncrBlocks
    rw [chunks_nil]
    rfl
  · exact ⟨fun h => absurd rfl h, fun h => absurd rfl h, fun _ => rfl, by simp [BlockIncr.new]⟩

theorem blockIncrCalls_outcome (pipe : BlockPipe)
    (mapBytes : BlockIncrState → Except Error (List UInt8)) (hsize : 0 < param.blockSize)
    (inputs : List (List UInt8)) (outputs : ℕ → OutputBuffer) :
    ∃ calls, blockIncrCalls pipe param mapBytes outputs calls 0 inputs (.new param) []
      = some (blockIncrOutcome pipe param mapBytes inputs.flatten) := by
  have hfed := fed_new pipe hsize
  refine hfed.calls hsize _ ?_ (fun _ => rfl) le_rfl 0
  rw [hfed.flushed.rest_new rfl]
  rfl

theorem blockIncrOutcome_ok (pipe : BlockPipe) (param : BlockIncrParam)
    (mapBytes : BlockIncrState → Except Error (List UInt8)) (content : List UInt8)
    (hmap : ∀ s, ∃ bytes, mapBytes s = .ok bytes) :
    ∃ result, blockIncrOutcome pipe param mapBytes content = .ok result := by
  unfold blockIncrOutcome
  dsimp only
  split
  · obtain ⟨bytes, hbytes⟩ := hmap (blockIncrEnd pipe param content).1
    rw [hbytes]
    exact ⟨_, rfl⟩
  · exact ⟨_, rfl⟩

/-- **A backup of a file does not depend on the buffers.** However the file is
cut into buffers of input and whatever space the buffers of output have, the
calls come to an end, with the same output and size of the map: those of the
file in one piece, hence also those of any other buffers for the file. They
fail only if the map cannot be written. -/
theorem blockIncrProcess_buffers (pipe : BlockPipe) (param : BlockIncrParam)
    (mapBytes : BlockIncrState → Except Error (List UInt8)) (hsize : 0 < param.blockSize)
    (inputs : List (List UInt8)) (outputs : ℕ → OutputBuffer) :
    ∃ outcome calls,
      blockIncrCalls pipe param mapBytes outputs calls 0 inputs (.new param) [] = some outcome ∧
      outcome = blockIncrOutcome pipe param mapBytes inputs.flatten ∧
      (∀ (inputs' : List (List UInt8)) (outputs' : ℕ → OutputBuffer),
        inputs'.flatten = inputs.flatten → ∃ calls',
          blockIncrCalls pipe param mapBytes outputs' calls' 0 inputs' (.new param) []
            = some outcome) ∧
      ((∀ s, ∃ bytes, mapBytes s = .ok bytes) → ∃ result, outcome = .ok result) := by
  obtain ⟨calls, hcalls⟩ := blockIncrCalls_outcome pipe mapBytes hsize inputs outputs
  refine ⟨_, calls, hcalls, rfl, fun inputs' outputs' hsame => ?_, fun hmap => ?_⟩
  · rw [← hsame]
    exact blockIncrCalls_outcome pipe mapBytes hsize inputs' outputs'
  · exact blockIncrOutcome_ok pipe param mapBytes _ hmap

/-- Super blocks of two blocks, written after five bytes of a bundle. -/
def blockIncrParamSample : BlockIncrParam :=
  { superBlockSize := 6, blockSize := 3, checksumSize := 8, reference := 2, bundleId := 4
    bundleOffset := 5, blockMapPrior := none }

/-- Three buffers of input, and one or two bytes of output at each call. -/
theorem blockIncrProcess_buffers_sample :
    ∃ outcome calls,
      blockIncrCalls blockPipeSample blockIncrParamSample
          (BlockIncrState.mapBytes blockPipeSample blockIncrParamSample)
          (fun call => ⟨0, 1 + call % 2, Nat.add_pos_left Nat.one_pos _⟩) calls 0
          [[65, 66], [67, 88, 89, 90, 49, 50], [51]] (.new blockIncrParamSample) []
        = some outcome ∧
      (outcome.toOption.map (fun result => (result.1.take 10, result.1.length, result.2)))
        = some ([65, 66, 67, 88, 89, 90, 49, 50, 51, 0], 41, 32) := by
  obtain ⟨outcome, calls, hcalls, houtcome, -⟩ := blockIncrProcess_buffers blockPipeSample
    blockIncrParamSample (BlockIncrState.mapBytes blockPipeSample blockIncrParamSample) (by decide)
    [[65, 66], [67, 88, 89, 90, 49, 50], [51]]
    (fun call => ⟨0, 1 + call % 2, Nat.add_pos_left Nat.one_pos _⟩)
  refine ⟨outcome, calls, hcalls, ?_⟩
  rw [houtcome]
  decide +kernel

end PgxBackup
