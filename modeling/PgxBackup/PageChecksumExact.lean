import Mathlib.Algebra.BigOperators.Ring.List
import PgxBackup.Chunks
import PgxBackup.PageChecksumPack

/-!
# Page checksums are exact

What is taken over from the filter is compared with the bad pages of a segment,
which are told without buffers: the pages that are not zero and fail the test
of the header or of the checksum, and that are still the same in the file.

Whatever the buffers are, the filter lists the bad pages in their order, and a
partial page at the end. The result cannot be read if a page is listed that is
among the last blocks a relation can have, and then there is no result at all.
-/

namespace PgxBackup

open List Chunks

/-- The size of a segment (`PG_SEGMENT_SIZE_DEFAULT`). -/
def PG_SEGMENT_SIZE_DEFAULT : ℕ := 1 * 1024 * 1024 * 1024

/-- **A segment of a relation** as it is fed to the filter: in buffers of whole
pages and a last one. The number `2 ^ 32 - 1` is not a block of a relation. -/
structure RelationSegment where
  source : PageSource
  pageSize : PgPageSize
  headerCheck : Bool
  segmentNo : UInt32
  whole : List (List UInt8)
  last : List UInt8
  whole_dvd : ∀ buffer ∈ whole, pageSize.bytes ∣ buffer.length
  size_le : (whole.flatten ++ last).length ≤ PG_SEGMENT_SIZE_DEFAULT
  blocks_lt : u32 (segmentNo.toNat * (PG_SEGMENT_SIZE_DEFAULT / pageSize.bytes))
    + total pageSize.bytes (whole.flatten ++ last).length < 2 ^ 32

namespace RelationSegment

variable (seg : RelationSegment)

def content : List UInt8 := seg.whole.flatten ++ seg.last

/-- Pages per segment. -/
def segmentPageTotal : ℕ := PG_SEGMENT_SIZE_DEFAULT / seg.pageSize.bytes

/-- The block number of the first page. -/
def blockOffset : ℕ := u32 (seg.segmentNo.toNat * seg.segmentPageTotal)

def page (i : ℕ) : List UInt8 := chunk seg.pageSize.bytes seg.content i

/-- **Is the page bad?** It is not zero, fails the test of the header or of the
checksum, and does not change. -/
def PageBad (i : ℕ) : Prop :=
  ¬ (∀ byte ∈ seg.page i, byte = 0) ∧
    (pageUnset seg.headerCheck (seg.page i) = true ∨
      pdChecksum (seg.page i) ≠ seg.source.pgPageChecksum (seg.page i) (seg.blockOffset + i) seg.pageSize) ∧
    seg.source.storageGet (i * seg.pageSize.bytes) = seg.page i

instance (i : ℕ) : Decidable (seg.PageBad i) := inferInstanceAs (Decidable (_ ∧ _ ∧ _))

/-- The bad blocks among the first pages. -/
def badBlocksTo (pageTotal : ℕ) : List ℕ :=
  ((range pageTotal).filter (fun i => decide (seg.PageBad i))).map (seg.blockOffset + ·)

/-- The bad blocks among some pages after others. -/
def badBlocksAfter (n k : ℕ) : List ℕ :=
  ((range k).filter (fun j => decide (seg.PageBad (n + j)))).map (fun j => seg.blockOffset + (n + j))

/-- The number of complete pages. -/
def pageTotal : ℕ := seg.content.length / seg.pageSize.bytes

/-- The bytes after the complete pages. -/
def pageRemainder : ℕ := seg.content.length % seg.pageSize.bytes

/-- **The bad blocks**, in ascending order. -/
def badBlocks : List ℕ := seg.badBlocksTo seg.pageTotal

/-- The blocks that the filter lists: the pages in the last buffer are not
looked at if it ends with less than 512 bytes of a page, and if it ends with
more the partial page is listed. -/
def listedBlocks : List ℕ :=
  if seg.pageRemainder = 0 then seg.badBlocks
  else if 512 ≤ seg.pageRemainder then seg.badBlocks ++ [seg.blockOffset + seg.pageTotal]
  else seg.badBlocksTo (seg.whole.flatten.length / seg.pageSize.bytes)

/-- The result of the job for the segment. -/
def run : Except Error (Bool × Option (List Variant)) :=
  pageChecksumRun seg.source seg.segmentNo.toNat seg.segmentPageTotal seg.pageSize seg.headerCheck
    (seg.whole ++ [seg.last])

/-- **The result is exact**: there is an error if the size is not a multiple of
the page size or some page is bad, and the list has the bad blocks in maximal
ranges unless the segment is misaligned. -/
structure Exact (error : Bool) (errorList : Option (List Variant)) : Prop where
  error : error = true ↔ seg.pageRemainder ≠ 0 ∨ seg.badBlocks ≠ []
  misaligned : seg.pageRemainder ≠ 0 → errorList = none
  ranges : seg.pageRemainder = 0 → ∃ ranges, Ranges.Maximal ranges ∧ Ranges.expand ranges = seg.badBlocks ∧
    errorList = if ranges = [] then none else some (ranges.map rangeVariant)

/-! ## The blocks of the segment -/

section

variable (pageSize : PgPageSize)

theorem bytes_pos : 0 < pageSize.bytes := by
  cases pageSize <;> decide

theorem bytes_lt : pageSize.bytes < 2 ^ 32 := by
  cases pageSize <;> decide

/-- A page is compared with zero in words, which make up the page. -/
theorem bytes_words : pageSize.bytes / 8 * 8 = pageSize.bytes := by
  cases pageSize <;> rfl

end

/-- The block numbers are counted without overflow from the first page, which is
at a multiple of the segment. -/
theorem blockOffset_mod : seg.blockOffset % seg.segmentPageTotal = 0 := by
  have hdvd : seg.segmentPageTotal ∣ 2 ^ 32 := by
    unfold segmentPageTotal
    cases seg.pageSize <;> decide
  exact Nat.mod_eq_zero_of_dvd ((Nat.dvd_mod_iff hdvd).mpr (Dvd.intro_left _ rfl))

theorem block_mod {i : ℕ} (h : i < seg.pageTotal) : (seg.blockOffset + i) % seg.segmentPageTotal = i := by
  have hlt : i < seg.segmentPageTotal :=
    lt_of_lt_of_le h (Nat.div_le_div_right seg.size_le)
  rw [Nat.add_mod, seg.blockOffset_mod, Nat.zero_add, Nat.mod_mod, Nat.mod_eq_of_lt hlt]

theorem total_eq : total seg.pageSize.bytes seg.content.length
    = seg.pageTotal + if seg.pageRemainder = 0 then 0 else 1 := rfl

theorem block_lt {i : ℕ} (h : i < total seg.pageSize.bytes seg.content.length) : seg.blockOffset + i + 1 < 2 ^ 32 := by
  have hlt : seg.blockOffset + total seg.pageSize.bytes seg.content.length < 2 ^ 32 := seg.blocks_lt
  omega

theorem mem_badBlocksTo {n block : ℕ} (h : block ∈ seg.badBlocksTo n) : ∃ i < n, block = seg.blockOffset + i := by
  obtain ⟨i, hi, rfl⟩ := mem_map.mp h
  exact ⟨i, mem_range.mp (mem_of_mem_filter hi), rfl⟩

theorem badBlocksTo_ascending (n : ℕ) : (seg.badBlocksTo n).Pairwise (· < ·) := by
  unfold badBlocksTo
  rw [pairwise_map]
  exact (pairwise_lt_range.filter _).imp (fun h => Nat.add_lt_add_left h _)

theorem badBlocksTo_add (n k : ℕ) : seg.badBlocksTo (n + k) = seg.badBlocksTo n ++ seg.badBlocksAfter n k := by
  unfold badBlocksTo badBlocksAfter
  rw [range_add, filter_append, map_append, filter_map, map_map]
  rfl

theorem errorsFit_badBlocksTo {n : ℕ} (h : n ≤ total seg.pageSize.bytes seg.content.length) :
    ErrorsFit 0 (seg.badBlocksTo n) := by
  refine ⟨seg.badBlocksTo_ascending n, fun _ _ => Nat.zero_le _, fun block hmem => ?_⟩
  obtain ⟨i, hi, rfl⟩ := seg.mem_badBlocksTo hmem
  exact seg.block_lt (lt_of_lt_of_le hi h)

theorem mem_listedBlocks (hzero : seg.pageRemainder = 0) {i : ℕ} (hi : i < seg.pageTotal) (hbad : seg.PageBad i) :
    seg.blockOffset + i ∈ seg.listedBlocks := by
  unfold listedBlocks badBlocks badBlocksTo
  rw [if_pos hzero]
  exact mem_map.mpr ⟨i, mem_filter.mpr ⟨mem_range.mpr hi, decide_eq_true hbad⟩, rfl⟩

/-! ## A page -/

theorem pageHeader16_zero {page : List UInt8} (h : ∀ byte ∈ page, byte = 0) (offset : ℕ) :
    pageHeader16 page offset = 0 := by
  have hbyte : ∀ i, page.getD i 0 = 0 := by
    intro i
    rw [getD_eq_getElem?_getD]
    cases hget : page[i]? with
    | none => rfl
    | some byte => exact h byte (mem_of_getElem? hget)
  unfold pageHeader16
  rw [hbyte, hbyte]
  rfl

theorem pageUnset_zero {page : List UInt8} (h : ∀ byte ∈ page, byte = 0) (headerCheck : Bool) :
    pageUnset headerCheck page = true := by
  unfold pageUnset pdUpper pdChecksum
  rw [pageHeader16_zero h, pageHeader16_zero h]
  cases headerCheck <;> rfl

/-- **A page of the segment is tested as it should be.** -/
theorem pageChecksumPage_eq {i : ℕ} (h : i < seg.pageTotal) {this : PageChecksum}
    (hthis : this.segmentPageTotal = seg.segmentPageTotal ∧ this.pageSize = seg.pageSize ∧
      this.headerCheck = seg.headerCheck) :
    pageChecksumPage seg.source this (seg.page i) (seg.blockOffset + i) = decide (seg.PageBad i) := by
  obtain ⟨hsegment, hpageSize, hheaderCheck⟩ := hthis
  have hlength : (seg.page i).length ≤ seg.pageSize.bytes := length_chunk_le _ _ _
  have hzero : pageZero seg.pageSize (seg.page i) = true ↔ ∀ byte ∈ seg.page i, byte = 0 := by
    unfold pageZero
    rw [bytes_words, take_of_length_le hlength, all_eq_true]
    simp only [decide_eq_true_eq]
  refine Bool.eq_iff_iff.mpr (Iff.trans ?_ decide_eq_true_iff.symm)
  unfold pageChecksumPage PageBad
  rw [hsegment, hpageSize, hheaderCheck, seg.block_mod h]
  cases hunset : pageUnset seg.headerCheck (seg.page i) with
  | true =>
    cases hpage : pageZero seg.pageSize (seg.page i) with
    | true => exact ⟨nofun, fun hbad => absurd (hzero.mp hpage) hbad.1⟩
    | false =>
      have hall : ¬ ∀ byte ∈ seg.page i, byte = 0 := fun hall => Bool.noConfusion (hpage.symm.trans (hzero.mpr hall))
      exact ⟨fun hsame => ⟨hall, .inl rfl, of_decide_eq_true hsame⟩, fun hbad => decide_eq_true hbad.2.2⟩
  | false =>
    have hall : ¬ ∀ byte ∈ seg.page i, byte = 0 :=
      fun hall => Bool.noConfusion (hunset.symm.trans (pageUnset_zero hall _))
    by_cases hchecksum : pdChecksum (seg.page i)
        = seg.source.pgPageChecksum (seg.page i) (seg.blockOffset + i) seg.pageSize
    · rw [decide_eq_true hchecksum]
      exact ⟨nofun, fun hbad => (hbad.2.1.elim Bool.noConfusion (fun hne => hne hchecksum)).elim⟩
    · rw [decide_eq_false hchecksum]
      exact ⟨fun hsame => ⟨hall, .inr hchecksum, of_decide_eq_true hsame⟩, fun hbad => decide_eq_true hbad.2.2⟩

/-! ## The buffers -/

theorem foldlM_errors {pageTotal : ℕ} {p : ℕ → Bool} {g : ℕ → ℕ} {error : Option PackWrite} :
    (range pageTotal).foldlM (fun error i => if p i then pageChecksumError error (g i) else .ok error) error
      = (((range pageTotal).filter p).map g).foldlM pageChecksumError error := by
  rw [foldlM_map, foldlM_filter]
  rfl

theorem page_of_buffer {before input rest : List UInt8} {n k j : ℕ} (hcontent : seg.content = before ++ (input ++ rest))
    (hbefore : before.length = n * seg.pageSize.bytes) (hinput : k * seg.pageSize.bytes ≤ input.length) (hj : j < k) :
    (input.drop (j * seg.pageSize.bytes)).take seg.pageSize.bytes = seg.page (n + j) := by
  have htake : (input.take (k * seg.pageSize.bytes)).length = k * seg.pageSize.bytes := by
    rw [length_take]
    exact min_eq_left hinput
  unfold page
  rw [hcontent, chunk_append_add hbefore, ← take_append_drop (k * seg.pageSize.bytes) input, append_assoc,
    chunk_append_left htake hj]
  exact chunk_append_left htake hj

section Pages

variable {seg} {before input rest : List UInt8} {n k : ℕ} {this : PageChecksum}

/-- A buffer that begins at a page of the segment, and has some pages at least. -/
structure BufferAt (seg : RelationSegment) (before input rest : List UInt8) (n k : ℕ) : Prop where
  content : seg.content = before ++ (input ++ rest)
  before : before.length = n * seg.pageSize.bytes
  input : k * seg.pageSize.bytes ≤ input.length

theorem BufferAt.le (h : BufferAt seg before input rest n k) : n + k ≤ seg.pageTotal := by
  unfold pageTotal
  rw [Nat.le_div_iff_mul_le (bytes_pos _), h.content, length_append, length_append, h.before, Nat.add_mul]
  have := h.input
  omega

structure FilterAt (seg : RelationSegment) (n : ℕ) (this : PageChecksum) : Prop where
  segmentPageTotal : this.segmentPageTotal = seg.segmentPageTotal
  pageSize : this.pageSize = seg.pageSize
  headerCheck : this.headerCheck = seg.headerCheck
  pageNoOffset : this.pageNoOffset = seg.blockOffset + n

section

variable (hbuffer : BufferAt seg before input rest n k) (hthis : FilterAt seg n this)
include hbuffer hthis

theorem blockNo_eq {j : ℕ} (hj : j < k) :
    u32 (this.pageNoOffset + j) = seg.blockOffset + (n + j) := by
  have hle := hbuffer.le
  have htotal := seg.total_eq
  have hlt := @block_lt seg (n + j) (by omega)
  rw [hthis.pageNoOffset, Nat.add_assoc, u32_of_lt (by omega)]

theorem pageChecksumPage_buffer {j : ℕ} (hj : j < k) :
    pageChecksumPage seg.source this ((input.drop (j * this.pageSize.bytes)).take this.pageSize.bytes)
      (u32 (this.pageNoOffset + j)) = decide (seg.PageBad (n + j)) := by
  have hlt : n + j < seg.pageTotal := lt_of_lt_of_le (Nat.add_lt_add_left hj n) hbuffer.le
  rw [blockNo_eq hbuffer hthis hj, hthis.pageSize, seg.page_of_buffer hbuffer.content hbuffer.before hbuffer.input hj]
  exact seg.pageChecksumPage_eq hlt ⟨hthis.segmentPageTotal, hthis.pageSize, hthis.headerCheck⟩

/-- **The pages of a buffer** while the segment is aligned. -/
theorem pageChecksumPages_whole (halign : this.align = true) :
    pageChecksumPages seg.source this input k = (seg.badBlocksAfter n k).foldlM pageChecksumError this.error := by
  unfold pageChecksumPages
  rw [foldlM_errors]
  congr 1
  have hfilter : ∀ j ∈ range k, (!(this.align || decide (j < k - 1)) || pageChecksumPage seg.source this
      ((input.drop (j * this.pageSize.bytes)).take this.pageSize.bytes) (u32 (this.pageNoOffset + j)))
        = decide (seg.PageBad (n + j)) := by
    intro j hj
    rw [halign, Bool.true_or, Bool.not_true, Bool.false_or,
      pageChecksumPage_buffer hbuffer hthis (mem_range.mp hj)]
  rw [filter_congr hfilter]
  exact map_congr_left (fun j hj => blockNo_eq hbuffer hthis (mem_range.mp (mem_of_mem_filter hj)))

/-- **The pages of a buffer with a partial page** at its end, which is listed
without a look. -/
theorem pageChecksumPages_last (halign : this.align = false)
    (hlt : seg.blockOffset + (n + k) < 2 ^ 32) :
    pageChecksumPages seg.source this input (k + 1)
      = (seg.badBlocksAfter n k ++ [seg.blockOffset + (n + k)]).foldlM pageChecksumError this.error := by
  unfold pageChecksumPages
  rw [foldlM_errors, range_succ, filter_append, map_append]
  congr 2
  · have hfilter : ∀ j ∈ range k, (!(this.align || decide (j < k + 1 - 1)) || pageChecksumPage seg.source this
        ((input.drop (j * this.pageSize.bytes)).take this.pageSize.bytes) (u32 (this.pageNoOffset + j)))
          = decide (seg.PageBad (n + j)) := by
      intro j hj
      have hj : j < k := mem_range.mp hj
      rw [halign, Nat.add_sub_cancel, decide_eq_true hj, Bool.or_true, Bool.not_true, Bool.false_or,
        pageChecksumPage_buffer hbuffer hthis hj]
    rw [filter_congr hfilter]
    exact map_congr_left (fun j hj => blockNo_eq hbuffer hthis (mem_range.mp (mem_of_mem_filter hj)))
  · have hfilter : ∀ j ∈ [k], (!(this.align || decide (j < k + 1 - 1)) || pageChecksumPage seg.source this
        ((input.drop (j * this.pageSize.bytes)).take this.pageSize.bytes) (u32 (this.pageNoOffset + j))) = true := by
      intro j hj
      rw [mem_singleton.mp hj, halign, Nat.add_sub_cancel, decide_eq_false (lt_irrefl k)]
      rfl
    rw [filter_eq_self.mpr hfilter, map_cons, map_nil, hthis.pageNoOffset, Nat.add_assoc, u32_of_lt hlt]

end

/-! ## The filter -/

/-- The filter after some pages, of which it has listed the bad ones. -/
structure Fed (seg : RelationSegment) (n : ℕ) (this : PageChecksum) : Prop extends FilterAt seg n this where
  valid : this.valid = true
  align : this.align = true
  errors : (seg.badBlocksTo n).foldlM pageChecksumError none = .ok this.error

theorem FilterAt.align (h : FilterAt seg n this) (align : Bool) : FilterAt seg n { this with align := align } :=
  ⟨h.segmentPageTotal, h.pageSize, h.headerCheck, h.pageNoOffset⟩

theorem pageChecksumErrors_ok {blocks : List ℕ} (hfit : ErrorsFit 0 blocks) :
    ∃ error, blocks.foldlM pageChecksumError none = .ok error := by
  cases blocks with
  | nil => exact ⟨none, rfl⟩
  | cons blockNo blocks =>
    obtain ⟨w₀, hbegin, hw₀⟩ := pckWriteBegin_ok room_new (.inl rfl : PackTypeMap.array = .array ∨ _)
    obtain ⟨w₁, hall, -⟩ := foldlM_pageChecksumError hw₀.tagStack hfit
    have hfirst : pageChecksumError none blockNo = pageChecksumError (some w₀) blockNo := by
      unfold pageChecksumError pckWriteArrayBegin
      rw [hbegin]
    refine ⟨some w₁, ?_⟩
    rw [foldlM_cons, hfirst]
    exact hall

theorem Fed.start (seg : RelationSegment) :
    Fed seg 0 (pageChecksumNew seg.segmentNo.toNat seg.segmentPageTotal seg.pageSize seg.headerCheck) :=
  ⟨⟨rfl, rfl, rfl, rfl⟩, rfl, rfl, rfl⟩

/-- **One buffer of whole pages.** -/
theorem Fed.process (h : Fed seg n this) (hbuffer : BufferAt seg before input rest n k)
    (hlength : input.length = k * seg.pageSize.bytes) :
    ∃ this', pageChecksumProcess seg.source this input = .ok this' ∧ Fed seg (n + k) this' := by
  have htotal := seg.total_eq
  have hle := hbuffer.le
  have hlt : seg.blockOffset + total seg.pageSize.bytes seg.content.length < 2 ^ 32 := seg.blocks_lt
  have hk : u32 (input.length / this.pageSize.bytes) = k := by
    rw [h.pageSize, hlength, Nat.mul_div_cancel _ (bytes_pos _), u32_of_lt (by omega)]
  have hremainder : u32 (input.length % this.pageSize.bytes) = 0 := by
    rw [h.pageSize, hlength, Nat.mul_mod_left]
    rfl
  obtain ⟨error, herror⟩ := pageChecksumErrors_ok (seg.errorsFit_badBlocksTo (le_trans hle (by omega)))
  have hpages : pageChecksumPages seg.source this input k = .ok error := by
    rw [pageChecksumPages_whole hbuffer h.toFilterAt h.align, ← herror, badBlocksTo_add, foldlM_append, h.errors]
    rfl
  refine ⟨{ this with error := error, pageNoOffset := u32 (this.pageNoOffset + k) }, ?_, ?_⟩
  · unfold pageChecksumProcess
    rw [hk, hremainder]
    show (Except.ok this >>= _) = _
    rw [ok_bind, h.valid, if_pos rfl, if_neg (by decide), hpages, ok_bind]
  · refine ⟨⟨h.segmentPageTotal, h.pageSize, h.headerCheck, ?_⟩, h.valid, h.align, herror⟩
    show u32 (this.pageNoOffset + k) = _
    rw [h.pageNoOffset, Nat.add_assoc, u32_of_lt (by omega)]

/-- **All buffers of whole pages.** -/
theorem Fed.foldlM (h : Fed seg n this) {buffers : List (List UInt8)}
    (hdvd : ∀ buffer ∈ buffers, seg.pageSize.bytes ∣ buffer.length)
    (hbefore : before.length = n * seg.pageSize.bytes) (hcontent : seg.content = before ++ (buffers.flatten ++ rest)) :
    ∃ this', buffers.foldlM (pageChecksumProcess seg.source) this = .ok this' ∧
      Fed seg (n + buffers.flatten.length / seg.pageSize.bytes) this' := by
  induction buffers generalizing this n before with
  | nil => exact ⟨this, rfl, by simpa using h⟩
  | cons input buffers ih =>
    obtain ⟨k, hk⟩ := hdvd input mem_cons_self
    have hk : input.length = k * seg.pageSize.bytes := by rw [hk, Nat.mul_comm]
    rw [flatten_cons, append_assoc] at hcontent
    obtain ⟨this₁, hone, h₁⟩ := h.process ⟨hcontent, hbefore, hk.ge⟩ hk
    have hbefore₁ : (before ++ input).length = (n + k) * seg.pageSize.bytes := by
      rw [length_append, hbefore, hk, Nat.add_mul]
    obtain ⟨this', hall, h'⟩ := ih h₁ (fun buffer hmem => hdvd buffer (mem_cons_of_mem _ hmem)) hbefore₁
      (by rw [hcontent, append_assoc])
    refine ⟨this', ?_, ?_⟩
    · rw [foldlM_cons, hone]
      exact hall
    · have hlength : (input :: buffers).flatten.length / seg.pageSize.bytes
          = k + buffers.flatten.length / seg.pageSize.bytes := by
        rw [flatten_cons, length_append, hk, Nat.mul_comm, Nat.mul_add_div (bytes_pos _)]
      rw [hlength, ← Nat.add_assoc]
      exact h'

end Pages

/-- The filter after all buffers. -/
structure Ended (seg : RelationSegment) (this : PageChecksum) : Prop where
  errors : seg.listedBlocks.foldlM pageChecksumError none = .ok this.error
  align : this.align = decide (seg.pageRemainder = 0)
  valid : this.valid = decide (seg.pageRemainder = 0 ∨ 512 ≤ seg.pageRemainder)

theorem pageTotal_eq {n k r : ℕ} (hcontent : seg.content.length = (n + k) * seg.pageSize.bytes + r)
    (hr : r < seg.pageSize.bytes) : seg.pageTotal = n + k ∧ seg.pageRemainder = r := by
  unfold pageTotal pageRemainder
  rw [hcontent, Nat.mul_comm, Nat.mul_add_div (bytes_pos _), Nat.mul_add_mod, Nat.div_eq_of_lt hr, Nat.mod_eq_of_lt hr]
  exact ⟨rfl, rfl⟩

theorem errorsFit_listedBlocks : ErrorsFit 0 seg.listedBlocks := by
  have htotal := seg.total_eq
  unfold listedBlocks
  by_cases hzero : seg.pageRemainder = 0
  · rw [if_pos hzero]
    exact seg.errorsFit_badBlocksTo (by omega)
  · rw [if_neg hzero] at htotal
    rw [if_neg hzero]
    by_cases hlarge : 512 ≤ seg.pageRemainder
    · rw [if_pos hlarge]
      have hbad : ErrorsFit 0 seg.badBlocks := seg.errorsFit_badBlocksTo (by omega)
      refine ⟨pairwise_append.mpr ⟨hbad.ascending, pairwise_singleton _ _, ?_⟩, fun _ _ => Nat.zero_le _, ?_⟩
      · intro block hmem other hother
        obtain ⟨i, hi, rfl⟩ := seg.mem_badBlocksTo hmem
        rw [mem_singleton.mp hother]
        exact Nat.add_lt_add_left hi _
      · intro block hmem
        rcases mem_append.mp hmem with hmem | hmem
        · exact hbad.lt block hmem
        · rw [mem_singleton.mp hmem]
          exact seg.block_lt (by omega)
    · rw [if_neg hlarge]
      refine seg.errorsFit_badBlocksTo ?_
      have hle : seg.whole.flatten.length / seg.pageSize.bytes ≤ seg.pageTotal := by
        refine Nat.div_le_div_right ?_
        unfold content
        rw [length_append]
        exact Nat.le_add_right _ _
      omega

section Last

variable {seg} {before input : List UInt8} {n k r : ℕ} {this : PageChecksum}

section

variable (h : Fed seg n this) (hbuffer : BufferAt seg before input [] n k)
include h hbuffer

/-- What is computed for the last buffer, if it ends with a part of a page. -/
theorem Fed.last (hlength : input.length = k * seg.pageSize.bytes + r) (hzero : r ≠ 0)
    (hr : r < seg.pageSize.bytes) :
    seg.pageTotal = n + k ∧ seg.pageRemainder = r ∧ seg.blockOffset + (n + k) + 1 < 2 ^ 32 ∧
      u32 (input.length / this.pageSize.bytes) = k ∧ u32 (input.length % this.pageSize.bytes) = r ∧
      ¬ (!this.align) = true := by
  have hcontent : seg.content.length = (n + k) * seg.pageSize.bytes + r := by
    rw [hbuffer.content, append_nil, length_append, hbuffer.before, hlength, Nat.add_mul, Nat.add_assoc]
  obtain ⟨hpages, hremainder⟩ := seg.pageTotal_eq hcontent hr
  have hlt : seg.blockOffset + total seg.pageSize.bytes seg.content.length < 2 ^ 32 := seg.blocks_lt
  have hbytes := bytes_lt seg.pageSize
  rw [seg.total_eq, if_neg (hremainder ▸ hzero), hpages] at hlt
  refine ⟨hpages, hremainder, hlt, ?_, ?_, ?_⟩
  · rw [h.pageSize, hlength, Nat.mul_comm, Nat.mul_add_div (bytes_pos _), Nat.div_eq_of_lt hr, Nat.add_zero,
      u32_of_lt (by omega)]
  · rw [h.pageSize, hlength, Nat.mul_comm, Nat.mul_add_mod, Nat.mod_eq_of_lt hr, u32_of_lt (by omega)]
  · rw [h.align]
    exact Bool.noConfusion

/-- **A last buffer of whole pages.** -/
theorem Fed.ended_whole (hlength : input.length = k * seg.pageSize.bytes) :
    ∃ this', pageChecksumProcess seg.source this input = .ok this' ∧ Ended seg this' := by
  obtain ⟨this', hprocess, h'⟩ := h.process hbuffer hlength
  have hcontent : seg.content.length = (n + k) * seg.pageSize.bytes + 0 := by
    rw [hbuffer.content, append_nil, length_append, hbuffer.before, hlength, Nat.add_mul, Nat.add_zero]
  obtain ⟨hpages, hremainder⟩ := seg.pageTotal_eq hcontent (bytes_pos _)
  refine ⟨this', hprocess, ?_, ?_, ?_⟩
  · unfold listedBlocks badBlocks
    rw [if_pos hremainder, hpages]
    exact h'.errors
  · rw [h'.align, decide_eq_true hremainder]
  · rw [h'.valid, decide_eq_true (.inl hremainder)]

/-- **A last buffer that ends with a partial page**, which is listed. -/
theorem Fed.ended_listed (hlength : input.length = k * seg.pageSize.bytes + r) (hlarge : 512 ≤ r)
    (hr : r < seg.pageSize.bytes) :
    ∃ this', pageChecksumProcess seg.source this input = .ok this' ∧ Ended seg this' := by
  have hzero : r ≠ 0 := by omega
  obtain ⟨hpages, hremainder, hlt, htotal, hrest, hflag⟩ := h.last hbuffer hlength hzero hr
  have hlisted : seg.listedBlocks = seg.badBlocksTo n ++ (seg.badBlocksAfter n k ++ [seg.blockOffset + (n + k)]) := by
    unfold listedBlocks badBlocks
    rw [if_neg (hremainder ▸ hzero), hremainder, if_pos hlarge, hpages, badBlocksTo_add, append_assoc]
  obtain ⟨error, herror⟩ := pageChecksumErrors_ok seg.errorsFit_listedBlocks
  have hsplit := herror
  rw [hlisted, foldlM_append, h.errors, ok_bind] at hsplit
  have hpages : pageChecksumPages seg.source { this with align := false } input (k + 1) = .ok error :=
    (pageChecksumPages_last hbuffer (h.toFilterAt.align false) rfl (Nat.lt_of_succ_lt hlt)).trans hsplit
  refine ⟨{ this with
    align := false
    error := error
    pageNoOffset := u32 (this.pageNoOffset + (k + 1)) }, ?_, herror, ?_, ?_⟩
  · unfold pageChecksumProcess pageChecksumRemainder
    dsimp only
    rw [htotal, hrest, if_neg hzero, if_neg hflag, if_pos hlarge, ok_bind]
    rw [if_pos h.valid, if_pos hlarge, u32_of_lt (n := k + 1) (by omega), hpages, ok_bind]
  · rw [hremainder, decide_eq_false hzero]
  · rw [hremainder, decide_eq_true (.inr hlarge)]
    exact h.valid

/-- **A last buffer that ends with less**: its pages are not looked at. -/
theorem Fed.ended_short (hlength : input.length = k * seg.pageSize.bytes + r) (hzero : r ≠ 0)
    (hsmall : ¬ 512 ≤ r) (hr : r < seg.pageSize.bytes)
    (hn : seg.whole.flatten.length / seg.pageSize.bytes = n) :
    ∃ this', pageChecksumProcess seg.source this input = .ok this' ∧ Ended seg this' := by
  obtain ⟨-, hremainder, -, htotal, hrest, hflag⟩ := h.last hbuffer hlength hzero hr
  refine ⟨{ this with align := false, valid := false }, ?_, ?_, ?_, ?_⟩
  · unfold pageChecksumProcess pageChecksumRemainder
    dsimp only
    rw [htotal, hrest, if_neg hzero, if_neg hflag, if_neg hsmall, ok_bind]
    rfl
  · unfold listedBlocks
    rw [if_neg (hremainder ▸ hzero), hremainder, if_neg hsmall, hn]
    exact h.errors
  · rw [hremainder, decide_eq_false hzero]
  · rw [hremainder, decide_eq_false (fun h => h.elim hzero hsmall)]

end

end Last

/-- **All buffers.** -/
theorem ended : ∃ this, (seg.whole ++ [seg.last]).foldlM (pageChecksumProcess seg.source)
    (pageChecksumNew seg.segmentNo.toNat seg.segmentPageTotal seg.pageSize seg.headerCheck) = .ok this ∧
      seg.Ended this := by
  have hdvd : seg.pageSize.bytes ∣ seg.whole.flatten.length := by
    rw [length_flatten]
    refine dvd_sum (fun length hmem => ?_)
    obtain ⟨buffer, hbuffer, rfl⟩ := mem_map.mp hmem
    exact seg.whole_dvd buffer hbuffer
  obtain ⟨this, hwhole, hthis⟩ := @Fed.foldlM seg [] seg.last 0 _ (Fed.start seg) seg.whole seg.whole_dvd
    (Nat.zero_mul _).symm rfl
  rw [Nat.zero_add] at hthis
  generalize hn : seg.whole.flatten.length / seg.pageSize.bytes = n at hthis
  generalize hk : seg.last.length / seg.pageSize.bytes = k
  generalize hr : seg.last.length % seg.pageSize.bytes = r
  have hrlt : r < seg.pageSize.bytes := hr ▸ Nat.mod_lt _ (bytes_pos _)
  have hlast : seg.last.length = k * seg.pageSize.bytes + r := by
    rw [← hk, ← hr, Nat.mul_comm, Nat.div_add_mod]
  have hbuffer : BufferAt seg seg.whole.flatten seg.last [] n k := by
    refine ⟨?_, by rw [← hn, Nat.div_mul_cancel hdvd], hlast ▸ Nat.le_add_right _ _⟩
    rw [append_nil]
    rfl
  have hprocess : ∃ this', pageChecksumProcess seg.source this seg.last = .ok this' ∧ Ended seg this' := by
    by_cases hzero : r = 0
    · exact hthis.ended_whole hbuffer (by rw [hlast, hzero, Nat.add_zero])
    · by_cases hlarge : 512 ≤ r
      · exact hthis.ended_listed hbuffer hlast hlarge hrlt
      · exact hthis.ended_short hbuffer hlast hzero hlarge hrlt hn
  obtain ⟨this', hprocess, hended⟩ := hprocess
  refine ⟨this', ?_, hended⟩
  rw [foldlM_append, hwhole, ok_bind, foldlM_cons, hprocess]
  rfl

/-! ## The result -/

theorem exact_of_listed (hne : seg.listedBlocks ≠ []) :
    seg.Exact true (if decide (seg.pageRemainder = 0) then some (rangeVariants seg.listedBlocks) else none) := by
  by_cases hzero : seg.pageRemainder = 0
  · have hlisted : seg.listedBlocks = seg.badBlocks := if_pos hzero
    rw [hlisted] at hne ⊢
    refine ⟨iff_of_true rfl (.inr hne), fun h => absurd hzero h, fun _ => ⟨Ranges.compact seg.badBlocks,
      Ranges.maximal_compact (seg.badBlocksTo_ascending _), Ranges.expand_compact _, ?_⟩⟩
    rw [decide_eq_true hzero, if_pos rfl, if_neg (fun h => hne (Ranges.compact_eq_nil.mp h))]
    rfl
  · refine ⟨iff_of_true rfl (.inl hzero), fun _ => ?_, fun h => absurd h hzero⟩
    rw [decide_eq_false hzero]
    rfl

theorem exact_of_nil (hnil : seg.listedBlocks = []) :
    seg.Exact (!decide (seg.pageRemainder = 0 ∨ 512 ≤ seg.pageRemainder)) none := by
  have hsmall : ¬ 512 ≤ seg.pageRemainder := by
    intro hlarge
    have hzero : ¬ seg.pageRemainder = 0 := by omega
    unfold listedBlocks at hnil
    rw [if_neg hzero, if_pos hlarge] at hnil
    exact append_ne_nil_of_right_ne_nil _ (cons_ne_nil _ _) hnil
  by_cases hzero : seg.pageRemainder = 0
  · have hbad : seg.badBlocks = [] := (if_pos hzero).symm.trans hnil
    refine ⟨?_, fun h => absurd hzero h, fun _ => ⟨[], ⟨nofun, List.IsChain.nil⟩, hbad.symm, rfl⟩⟩
    rw [decide_eq_true (.inl hzero)]
    exact iff_of_false Bool.noConfusion (fun h => h.elim (fun h => h hzero) (fun h => h hbad))
  · refine ⟨?_, fun _ => rfl, fun h => absurd h hzero⟩
    rw [decide_eq_false (fun h => h.elim hzero hsmall)]
    exact iff_of_true rfl (.inl hzero)

/-- **The result of the job is exact if and only if no block is listed that is
among the last ones a relation can have**, whatever the buffers are. -/
theorem pageChecksumRun_exact :
    (∃ error errorList, seg.run = .ok (error, errorList) ∧ seg.Exact error errorList) ↔
      ∀ block ∈ seg.listedBlocks, block < 2 ^ 32 - 3 := by
  obtain ⟨this, hall, hended⟩ := seg.ended
  have hfit := seg.errorsFit_listedBlocks
  have hrun : seg.run = (pageChecksumResult this >>= fun result => backupJobResultPage (pckReadNew none result)) := by
    unfold run pageChecksumRun
    rw [hall]
    rfl
  by_cases hnil : seg.listedBlocks = []
  · have herror : this.error = none := by
      have herrors := hended.errors
      rw [hnil] at herrors
      exact (Except.ok.inj herrors).symm
    have hvalid : this.valid = false → this.align = false := by
      rw [hended.valid, hended.align, decide_eq_false_iff_not, decide_eq_false_iff_not]
      exact fun h hzero => h (.inl hzero)
    rw [hrun, pageChecksumResult_none herror, ok_bind, backupJobResultPage_none hvalid, hended.valid, hnil]
    exact iff_of_true ⟨_, none, rfl, seg.exact_of_nil hnil⟩ nofun
  · have hlast : errorLast 0 seg.listedBlocks < UINT_MAX - 1 ↔ ∀ block ∈ seg.listedBlocks, block < 2 ^ 32 - 3 := by
      rw [errorLast_lt_iff hfit, and_iff_right (by show 0 < 2 ^ 32 - 1 - 1; decide)]
      exact forall₂_congr (fun block _ => by show block + 1 < 2 ^ 32 - 1 - 1 ↔ _; omega)
    rw [hrun, pageChecksumResult_errors hnil hfit hended.errors, ok_bind, ← hlast]
    by_cases hbefore : errorLast 0 seg.listedBlocks < UINT_MAX - 1
    · rw [backupJobResultPage_errors hnil hfit hbefore, hended.align]
      exact iff_of_true ⟨true, _, rfl, seg.exact_of_listed hnil⟩ hbefore
    · rw [backupJobResultPage_error hnil hfit (not_lt.mp hbefore)]
      exact iff_of_false (fun ⟨_, _, h, _⟩ => by cases h) hbefore

end RelationSegment

/-! ## The last blocks -/

/-- A page that was damaged: its header looks like that of a new page. -/
def damagedPage : List UInt8 := 1 :: List.replicate 8191 0

/-- The last segment of a relation with as many blocks as there can be but
two, of which only the last one is damaged. -/
def lastSegment : RelationSegment where
  source := ⟨fun _ _ _ => 1, fun _ => damagedPage⟩
  pageSize := .pgPageSize8
  headerCheck := true
  segmentNo := 32767
  whole := [replicate (131069 * 8192) 0]
  last := damagedPage
  whole_dvd := by
    intro buffer hmem
    rw [mem_singleton.mp hmem, length_replicate]
    exact Nat.dvd_mul_left _ _
  size_le := by
    rw [flatten_singleton, length_append, length_replicate, damagedPage, length_cons,
      length_replicate]
    unfold PG_SEGMENT_SIZE_DEFAULT
    omega
  blocks_lt := by
    rw [flatten_singleton, length_append, length_replicate, damagedPage, length_cons,
      length_replicate]
    decide +kernel

theorem length_lastSegment : lastSegment.content.length = (131069 + 1) * lastSegment.pageSize.bytes + 0 := by
  have hlength : (flatten [replicate (131069 * 8192) (0 : UInt8)] ++ damagedPage).length = (131069 + 1) * 8192 := by
    rw [flatten_singleton, length_append, length_replicate, damagedPage, length_cons,
      length_replicate]
  exact hlength

/-- **A damaged page is not reported** but ends the backup, where it is among the
last blocks of a relation. -/
theorem pageChecksumRun_lastSegment :
    ¬ ∃ error errorList, lastSegment.run = .ok (error, errorList) ∧ lastSegment.Exact error errorList := by
  rw [lastSegment.pageChecksumRun_exact]
  intro hlt
  have hpage : lastSegment.page 131069 = damagedPage := by
    show Chunks.chunk 8192 (flatten [replicate (131069 * 8192) (0 : UInt8)] ++ damagedPage) 131069 = _
    rw [flatten_singleton]
    refine Chunks.chunk_append_right (length_replicate ..) ?_
    rw [damagedPage, length_cons, length_replicate]
  have hoffset : lastSegment.blockOffset = 2 ^ 32 - 131072 := by decide +kernel
  have hbad : lastSegment.PageBad 131069 := by
    unfold RelationSegment.PageBad
    rw [hpage]
    refine ⟨fun hzero => absurd (hzero 1 mem_cons_self) (by decide), .inl ?_, rfl⟩
    show ((true && decide (pdUpper damagedPage = 0)) || _) = true
    rw [show pdUpper damagedPage = 0 by decide +kernel]
    rfl
  obtain ⟨htotal, hremainder⟩ := lastSegment.pageTotal_eq length_lastSegment (RelationSegment.bytes_pos _)
  have hblock := hlt _ (lastSegment.mem_listedBlocks hremainder (by rw [htotal]; decide) hbad)
  rw [hoffset] at hblock
  omega

end PgxBackup
