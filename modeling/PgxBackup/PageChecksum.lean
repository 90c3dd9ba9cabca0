import PgxBackup.Pack
import PgxBackup.Variant

/-!
# Page checksums

A relation file is fed to a filter in buffers, and the filter checks each of its
pages (`command/backup/pageChecksum.c`). The errors are listed in a pack, each
as an empty object whose id is one more than the block number. The pack is read
again where the result of the backup job is taken over, and neighbouring blocks
are put together in ranges there (`command/backup/backup.c`).

Alignment, validity and the number of the next page are kept from one buffer to
the next. A page that fails is read from the file once more, and it is only an
error if it is still the same.
-/

namespace PgxBackup

inductive PgPageSize
  | pgPageSize1
  | pgPageSize2
  | pgPageSize4
  | pgPageSize8
  | pgPageSize16
  | pgPageSize32
  deriving DecidableEq, Repr

def PgPageSize.bytes : PgPageSize → ℕ
  | pgPageSize1 => 1 * 1024
  | pgPageSize2 => 2 * 1024
  | pgPageSize4 => 4 * 1024
  | pgPageSize8 => 8 * 1024
  | pgPageSize16 => 16 * 1024
  | pgPageSize32 => 32 * 1024

/-- What the filter uses: the checksum of a page with a block number, and what
is read from the file at an offset, as long as a page. -/
structure PageSource where
  pgPageChecksum : List UInt8 → ℕ → PgPageSize → ℕ
  storageGet : ℕ → List UInt8

/-! ## The filter -/

/-- The object of the filter (`PageChecksum`). -/
structure PageChecksum where
  segmentPageTotal : ℕ
  pageSize : PgPageSize
  /-- Page number offset for subsequent buffers. -/
  pageNoOffset : ℕ
  headerCheck : Bool
  /-- Is the relation structure valid? -/
  valid : Bool
  /-- Is the relation alignment valid? -/
  align : Bool
  /-- List of checksum errors. -/
  error : Option PackWrite

/-- Two bytes of the page header. -/
def pageHeader16 (page : List UInt8) (offset : ℕ) : ℕ :=
  (page.getD offset 0).toNat + 2 ^ 8 * (page.getD (offset + 1) 0).toNat

/-- The field `pd_checksum` of `PageHeaderData`. -/
def pdChecksum (page : List UInt8) : ℕ := pageHeader16 page 8

/-- The field `pd_upper` of `PageHeaderData`. -/
def pdUpper (page : List UInt8) : ℕ := pageHeader16 page 14

/-- Is the entire page zero? It is compared in words of eight bytes. -/
def pageZero (pageSize : PgPageSize) (page : List UInt8) : Bool :=
  (page.take (pageSize.bytes / 8 * 8)).all (fun byte => byte = 0)

/-- Is the page one that is only valid if it is new? -/
def pageUnset (headerCheck : Bool) (page : List UInt8) : Bool :=
  (headerCheck && pdUpper page = 0) || (!headerCheck && pdChecksum page = 0)

/-- Is there an error in a complete page? -/
def pageChecksumPage (source : PageSource) (this : PageChecksum) (page : List UInt8) (blockNo : ℕ) : Bool :=
  -- new all-zero pages are skipped
  if pageUnset this.headerCheck page && pageZero this.pageSize page then false
  -- the checksum is only validated if the header is valid
  else if !pageUnset this.headerCheck page && pdChecksum page = source.pgPageChecksum page blockNo this.pageSize then
    false
  -- on error the page is read again, and it is valid if it has changed
  else decide (source.storageGet (blockNo % this.segmentPageTotal * this.pageSize.bytes) = page)

/-- Add a block to the list of errors, which is created for the first one. -/
def pageChecksumError (error : Option PackWrite) (blockNo : ℕ) : Except Error (Option PackWrite) := do
  let error ←
    match error with
    | none => pckWriteArrayBegin (pckWriteNew none) 0
    | some error => .ok error
  let error ← pckWriteObjBegin error (u32 (blockNo + 1))
  let error ← pckWriteObjEnd error
  .ok (some error)

/-- The pages of a buffer. A page that is not complete is an error. -/
def pageChecksumPages (source : PageSource) (this : PageChecksum) (input : List UInt8) (pageTotal : ℕ) :
    Except Error (Option PackWrite) :=
  (List.range pageTotal).foldlM (fun error pageIdx =>
    let blockNo := u32 (this.pageNoOffset + pageIdx)
    let page := (input.drop (pageIdx * this.pageSize.bytes)).take this.pageSize.bytes
    if !(this.align || decide (pageIdx < pageTotal - 1)) || pageChecksumPage source this page blockNo then
      pageChecksumError error blockNo
    else .ok error) this.error

/-- What a partial page at the end of a buffer does to the flags. -/
def pageChecksumRemainder (this : PageChecksum) (pageRemainder : ℕ) : Except Error PageChecksum :=
  if pageRemainder = 0 then .ok this
  -- misaligned blocks, if any, should only be at the end of the file
  else if !this.align then
    .error ⟨.assertError, "should not be possible to see two misaligned pages in a row".toList⟩
  -- at least 512 bytes are treated as a partial write
  else if pageRemainder ≥ 512 then .ok { this with align := false }
  -- else this appears to be a corrupted file and page checksums are stopped
  else .ok { this with align := false, valid := false }

/-- `pageChecksumProcess`. -/
def pageChecksumProcess (source : PageSource) (this : PageChecksum) (input : List UInt8) : Except Error PageChecksum := do
  let pageTotal := u32 (input.length / this.pageSize.bytes)
  let pageRemainder := u32 (input.length % this.pageSize.bytes)
  let this ← pageChecksumRemainder this pageRemainder
  let pageTotal := if pageRemainder ≥ 512 then u32 (pageTotal + 1) else pageTotal
  if this.valid then
    let error ← pageChecksumPages source this input pageTotal
    .ok { this with error := error, pageNoOffset := u32 (this.pageNoOffset + pageTotal) }
  else .ok this

/-- The list of errors as it is given back, and whether the file is valid. -/
def pageChecksumErrorEnd (this : PageChecksum) : Except Error (PackWrite × Bool) :=
  match this.error with
  | some error => do .ok (← pckWriteArrayEnd error, false)
  | none => .ok (pckWriteNull (pckWriteNew none), this.valid)

/-- `pageChecksumResult`. -/
def pageChecksumResult (this : PageChecksum) : Except Error (List UInt8) := do
  let (error, valid) ← pageChecksumErrorEnd this
  let error ← pckWriteBool error valid 0 true 0
  let error ← pckWriteBool error this.align 0 true 0
  .ok (pckWriteResult (← pckWriteEnd error))

/-- `pageChecksumNew`. -/
def pageChecksumNew (segmentNo segmentPageTotal : ℕ) (pageSize : PgPageSize) (headerCheck : Bool) : PageChecksum :=
  ⟨segmentPageTotal, pageSize, u32 (segmentNo * segmentPageTotal), headerCheck, true, true, none⟩

/-! ## The result of the job -/

/-- `backupJobResultPageChecksumOut`: add a page or a range of pages. -/
def backupJobResultPageChecksumOut (result : List Variant) (pageBegin pageEnd : ℕ) : List Variant :=
  if pageBegin = pageEnd then result ++ [.uint64 (UInt64.ofNat pageBegin)]
  else result ++ [.varLst [.uint64 (UInt64.ofNat pageBegin), .uint64 (UInt64.ofNat pageEnd)]]

/-- The pages that are not in the result yet, once there was an error, and the
result so far. -/
structure PageRange where
  first : Bool
  pageBegin : ℕ
  pageEnd : ℕ
  result : List Variant

/-- Take the next page into a range. -/
def PageRange.next (range : PageRange) (pageId : ℕ) : PageRange :=
  if !range.first then { range with first := true, pageBegin := pageId, pageEnd := pageId }
  else if pageId = u32 (range.pageEnd + 1) then { range with pageEnd := pageId }
  else
    { range with
      result := backupJobResultPageChecksumOut range.result range.pageBegin range.pageEnd
      pageBegin := pageId
      pageEnd := pageId }

/-- The loop of `backupJobResultPageChecksum`. Every turn reads a tag, so the
bytes that are left bound the number of turns. -/
def backupJobResultPageChecksumLoop : ℕ → PageRange → PackRead → Except Error (PageRange × PackRead)
  | 0, _, _ => .error ⟨.formatError, "unexpected EOF".toList⟩
  | fuel + 1, range, checksumPageResult => do
    let (next, checksumPageResult) ← pckReadTagNext checksumPageResult
    if next then
      let pageId := u32 (checksumPageResult.tagNextId + (2 ^ 32 - 1))
      let checksumPageResult ← pckReadObjBegin checksumPageResult (u32 (pageId + 1))
      let checksumPageResult ← pckReadObjEnd checksumPageResult
      backupJobResultPageChecksumLoop fuel (range.next pageId) checksumPageResult
    else .ok (range, checksumPageResult)

/-- `CHECK`. -/
def checkFormat (condition : Bool) (message : String) : Except Error Unit :=
  if condition then .ok () else .error ⟨.formatError, message.toList⟩

/-- `backupJobResultPageChecksum`. -/
def backupJobResultPageChecksum (checksumPageResult : PackRead) : Except Error (Option (List Variant) × PackRead) := do
  let (null, checksumPageResult) ← pckReadNull checksumPageResult 0
  if null then .ok (none, checksumPageResult)
  else
    let checksumPageResult ← pckReadArrayBegin checksumPageResult 0
    let (range, checksumPageResult) ←
      backupJobResultPageChecksumLoop (checksumPageResult.bytes.length + 1) ⟨false, 0, 0, []⟩ checksumPageResult
    checkFormat range.first "page checksum result array is empty"
    let result := backupJobResultPageChecksumOut range.result range.pageBegin range.pageEnd
    let checksumPageResult ← pckReadArrayEnd checksumPageResult
    .ok (some result, checksumPageResult)

/-- The part of `backupJobResult` that finds out `checksumPageError` and
`checksumPageErrorList`. -/
def backupJobResultPage (checksumPageResult : PackRead) : Except Error (Bool × Option (List Variant)) := do
  let (checksumPageErrorList, checksumPageResult) ← backupJobResultPageChecksum checksumPageResult
  let (valid, checksumPageResult) ← pckReadBool checksumPageResult 0 0
  if valid then .ok (false, checksumPageErrorList)
  else
    let (align, _) ← pckReadBool checksumPageResult 0 0
    if align then
      checkFormat checksumPageErrorList.isSome "page checksum error list is missing"
      checkFormat (!(checksumPageErrorList.getD []).isEmpty) "page checksum error list is empty"
      .ok (true, checksumPageErrorList)
    -- page misalignment
    else .ok (true, none)

/-- A file is fed to the filter in these buffers, and the result is taken
over. -/
def pageChecksumRun (source : PageSource) (segmentNo segmentPageTotal : ℕ) (pageSize : PgPageSize)
    (headerCheck : Bool) (buffers : List (List UInt8)) : Except Error (Bool × Option (List Variant)) := do
  let this ← buffers.foldlM (pageChecksumProcess source)
    (pageChecksumNew segmentNo segmentPageTotal pageSize headerCheck)
  backupJobResultPage (pckReadNew none (← pageChecksumResult this))

end PgxBackup
