import PgxBackup.PackReader

/-!
# The parameters of a restore job

A restore job is sent to a process as a pack: parameters that are common to
its files, then the files. The number of files is not stored, the process
reads files until there is no further field.

The records are over the type of strings, buffers and string lists: what is
put into a job has strings that fit a pack, what is read has plain bytes.
-/

namespace PgxBackup

open List

/-- The parameters that are common to the files of a job. -/
structure RestoreParam (σ ℓ : Type) where
  repoFile : Option σ
  repoIdx : UInt32
  repoFileCompressType : UInt32
  copyTimeBegin : Int64
  delta : Bool
  deltaForce : Bool
  bundleRaw : Bool
  cipherPass : Option σ
  referenceList : Option ℓ
  deriving DecidableEq

/-- A file of a job (`RestoreFile`). -/
structure RestoreFile (σ β : Type) where
  name : Option σ
  checksum : Option β
  size : UInt64
  timeModified : Int64
  mode : UInt32
  zero : Bool
  user : Option σ
  group : Option σ
  offset : UInt64
  limit : Option UInt64
  blockIncrMapSize : UInt64
  blockIncrSize : UInt64
  blockIncrChecksumSize : UInt64
  manifestFile : Option σ
  deriving DecidableEq

/-- The parameters as they are read. -/
def RestoreParam.bytes (param : RestoreParam ByteStr StringList) :
    RestoreParam Bytes (List (Option Bytes)) :=
  { param with
    repoFile := param.repoFile.map ByteStr.bytes
    cipherPass := param.cipherPass.map ByteStr.bytes
    referenceList := param.referenceList.map (fun list => list.strs.map (fun s => some s.bytes)) }

def RestoreFile.bytes (file : RestoreFile ByteStr Buffer) : RestoreFile Bytes Bytes :=
  { file with
    name := file.name.map ByteStr.bytes
    checksum := file.checksum.map Buffer.bytes
    user := file.user.map ByteStr.bytes
    group := file.group.map ByteStr.bytes
    manifestFile := file.manifestFile.map ByteStr.bytes }

/-! ## Writing -/

/-- The calls that write the common parameters. -/
def restoreParamWrite (param : RestoreParam ByteStr StringList) : List PckWriteCall :=
  [.str param.repoFile false none,
    .u32 param.repoIdx false 0,
    .u32 param.repoFileCompressType false 0,
    .time param.copyTimeBegin false 0,
    .bool param.delta false 0,
    .bool param.deltaForce false 0,
    .bool param.bundleRaw false 0,
    .str param.cipherPass false none,
    .strLst param.referenceList]

/-- Where the file, or its map, is in the repo file, if it is not all of it. -/
def restoreLimitWrite (file : RestoreFile ByteStr Buffer) : List PckWriteCall :=
  match file.limit with
  | some limit => [.bool true false 0, .u64 file.offset false 0, .u64 limit false 0]
  | none => [.bool false false 0]

def restoreBlockIncrWrite (file : RestoreFile ByteStr Buffer) : List PckWriteCall :=
  .u64 file.blockIncrMapSize false 0 ::
    if file.blockIncrMapSize ≠ 0 then
      [.u64 file.blockIncrSize false 0, .u64 file.blockIncrChecksumSize false 0]
    else []

def restoreFileWrite (file : RestoreFile ByteStr Buffer) : List PckWriteCall :=
  [.str file.name false none,
    .bin file.checksum,
    .u64 file.size false 0,
    .time file.timeModified false 0,
    .mode file.mode false 0,
    .bool file.zero false 0,
    .str file.user false none,
    .str file.group false none] ++
  (restoreLimitWrite file ++
  (restoreBlockIncrWrite file ++
  [.str file.manifestFile false none]))

/-- The calls that write the parameters of a job. -/
def restoreJobWrite (param : RestoreParam ByteStr StringList)
    (fileList : List (RestoreFile ByteStr Buffer)) : List PckWriteCall :=
  restoreParamWrite param ++ fileList.flatMap restoreFileWrite

/-! ## Reading -/

/-- Read the common parameters. -/
def restoreParamRead (this : PackRead) :
    Except Error (RestoreParam Bytes (List (Option Bytes)) × PackRead) := do
  let (repoFile, this) ← pckReadStr this 0 none
  let (repoIdx, this) ← pckReadU32 this 0 0
  let (repoFileCompressType, this) ← pckReadU32 this 0 0
  let (copyTimeBegin, this) ← pckReadTime this 0 0
  let (delta, this) ← pckReadBool this 0 0
  let (deltaForce, this) ← pckReadBool this 0 0
  let (bundleRaw, this) ← pckReadBool this 0 0
  let (cipherPass, this) ← pckReadStr this 0 none
  let (referenceList, this) ← pckReadStrLst this 0
  .ok (⟨repoFile, repoIdx, repoFileCompressType, copyTimeBegin, delta, deltaForce, bundleRaw,
    cipherPass, referenceList⟩, this)

/-- Read the offset and the limit if there are any. -/
def restoreLimitRead (this : PackRead) : Except Error ((UInt64 × Option UInt64) × PackRead) := do
  let (limited, this) ← pckReadBool this 0 0
  if limited then do
    let (offset, this) ← pckReadU64 this 0 0
    let (limit, this) ← pckReadU64 this 0 0
    .ok ((offset, some limit), this)
  else .ok ((0, none), this)

def restoreBlockIncrRead (this : PackRead) :
    Except Error ((UInt64 × UInt64 × UInt64) × PackRead) := do
  let (blockIncrMapSize, this) ← pckReadU64 this 0 0
  if blockIncrMapSize ≠ 0 then do
    let (blockIncrSize, this) ← pckReadU64 this 0 0
    let (blockIncrChecksumSize, this) ← pckReadU64 this 0 0
    .ok ((blockIncrMapSize, blockIncrSize, blockIncrChecksumSize), this)
  else .ok ((blockIncrMapSize, 0, 0), this)

def restoreFileRead (this : PackRead) : Except Error (RestoreFile Bytes Bytes × PackRead) := do
  let (name, this) ← pckReadStr this 0 none
  let (checksum, this) ← pckReadBin this 0
  let (size, this) ← pckReadU64 this 0 0
  let (timeModified, this) ← pckReadTime this 0 0
  let (mode, this) ← pckReadMode this 0 0
  let (zero, this) ← pckReadBool this 0 0
  let (user, this) ← pckReadStr this 0 none
  let (group, this) ← pckReadStr this 0 none
  let ((offset, limit), this) ← restoreLimitRead this
  let ((blockIncrMapSize, blockIncrSize, blockIncrChecksumSize), this) ← restoreBlockIncrRead this
  let (manifestFile, this) ← pckReadStr this 0 none
  .ok (⟨name, checksum, size, timeModified, mode, zero, user, group, offset, limit,
    blockIncrMapSize, blockIncrSize, blockIncrChecksumSize, manifestFile⟩, this)

/-- Read files until there are no more. Every file has a tag, so the bytes
of the pack bound the number of files. -/
def restoreFileListRead : ℕ → PackRead → Except Error (List (RestoreFile Bytes Bytes) × PackRead)
  | 0, _ => .error ⟨.formatError, "unexpected EOF".toList⟩
  | fuel + 1, this => do
    let (result, this) ← pckReadNull this 0
    if result then .ok ([], this)
    else do
      let (file, this) ← restoreFileRead this
      let (fileList, this) ← restoreFileListRead fuel this
      .ok (file :: fileList, this)

/-- What `restoreFileProtocol` passes to `restoreFile`. -/
def restoreFileProtocol (this : PackRead) :
    Except Error (RestoreParam Bytes (List (Option Bytes)) × List (RestoreFile Bytes Bytes)) := do
  let fuel := this.bytes.length + 1
  let (param, this) ← restoreParamRead this
  let (fileList, _) ← restoreFileListRead fuel this
  .ok (param, fileList)

/-! ## What was put into a job is read -/

section Read

variable {calls : List PckWriteCall} {r : PackRead}

theorem restoreParamRead_ok {param : RestoreParam ByteStr StringList}
    (h : Reading (restoreParamWrite param ++ calls) r) :
    ∃ r', restoreParamRead r = .ok (param.bytes, r') ∧ Reading calls r' := by
  obtain ⟨r₁, hrepoFile, h⟩ := Reading.str h
  obtain ⟨r₂, hrepoIdx, h⟩ := h.u32
  obtain ⟨r₃, hcompress, h⟩ := h.u32
  obtain ⟨r₄, htime, h⟩ := h.time
  obtain ⟨r₅, hdelta, h⟩ := h.bool
  obtain ⟨r₆, hforce, h⟩ := h.bool
  obtain ⟨r₇, hraw, h⟩ := h.bool
  obtain ⟨r₈, hcipher, h⟩ := h.str
  obtain ⟨r₉, hlist, h⟩ := h.strLst
  refine ⟨r₉, ?_, h⟩
  unfold restoreParamRead
  simp only [hrepoFile, hrepoIdx, hcompress, htime, hdelta, hforce, hraw, hcipher, hlist, ok_bind]
  rfl

/-- The fields of a file that may be left out are not set then. -/
structure RestoreFile.Put (file : RestoreFile ByteStr Buffer) : Prop where
  name : ∃ name, file.name = some name
  offset : file.limit = none → file.offset = 0
  blockIncr : file.blockIncrMapSize = 0 → file.blockIncrSize = 0 ∧ file.blockIncrChecksumSize = 0

variable {file : RestoreFile ByteStr Buffer}

theorem restoreLimitRead_ok (hput : file.Put) (h : Reading (restoreLimitWrite file ++ calls) r) :
    ∃ r', restoreLimitRead r = .ok ((file.offset, file.limit), r') ∧ Reading calls r' := by
  unfold restoreLimitWrite at h
  unfold restoreLimitRead
  cases hlimit : file.limit with
  | none =>
    rw [hlimit] at h
    obtain ⟨r₁, hbool, h⟩ := Reading.bool h
    refine ⟨r₁, ?_, h⟩
    rw [hbool, ok_bind, hput.offset hlimit]
    rfl
  | some limit =>
    rw [hlimit] at h
    obtain ⟨r₁, hbool, h⟩ := Reading.bool h
    obtain ⟨r₂, hoffset, h⟩ := h.u64
    obtain ⟨r₃, hlimit, h⟩ := h.u64
    refine ⟨r₃, ?_, h⟩
    simp only [hbool, hoffset, hlimit, ok_bind, if_true]

theorem restoreBlockIncrRead_ok (hput : file.Put)
    (h : Reading (restoreBlockIncrWrite file ++ calls) r) :
    ∃ r', restoreBlockIncrRead r = .ok ((file.blockIncrMapSize, file.blockIncrSize,
      file.blockIncrChecksumSize), r') ∧ Reading calls r' := by
  obtain ⟨r₁, hmap, h⟩ := Reading.u64 h
  unfold restoreBlockIncrRead
  by_cases hzero : file.blockIncrMapSize = 0
  · rw [if_neg (not_not.mpr hzero)] at h
    obtain ⟨hsize, hchecksum⟩ := hput.blockIncr hzero
    refine ⟨r₁, ?_, h⟩
    rw [hmap, ok_bind, hsize, hchecksum]
    exact if_neg (not_not.mpr hzero)
  · rw [if_pos hzero] at h
    obtain ⟨r₂, hsize, h⟩ := Reading.u64 h
    obtain ⟨r₃, hchecksum, h⟩ := h.u64
    refine ⟨r₃, ?_, h⟩
    rw [hmap, ok_bind]
    refine (if_pos hzero).trans ?_
    simp only [hsize, hchecksum, ok_bind]

theorem restoreFileRead_ok (hput : file.Put) (h : Reading (restoreFileWrite file ++ calls) r) :
    ∃ r', restoreFileRead r = .ok (file.bytes, r') ∧ Reading calls r' := by
  unfold restoreFileWrite at h
  simp only [cons_append, nil_append, append_assoc] at h
  obtain ⟨r₁, hname, h⟩ := h.str
  obtain ⟨r₂, hchecksum, h⟩ := h.bin
  obtain ⟨r₃, hsize, h⟩ := h.u64
  obtain ⟨r₄, htime, h⟩ := h.time
  obtain ⟨r₅, hmode, h⟩ := h.mode
  obtain ⟨r₆, hzero, h⟩ := h.bool
  obtain ⟨r₇, huser, h⟩ := h.str
  obtain ⟨r₈, hgroup, h⟩ := h.str
  obtain ⟨r₉, hlimit, h⟩ := restoreLimitRead_ok hput h
  obtain ⟨r₁₀, hblockIncr, h⟩ := restoreBlockIncrRead_ok hput h
  obtain ⟨r₁₁, hmanifest, h⟩ := h.str
  refine ⟨r₁₁, ?_, h⟩
  unfold restoreFileRead
  simp only [hname, hchecksum, hsize, htime, hmode, hzero, huser, hgroup, hlimit, hblockIncr,
    hmanifest, ok_bind]
  rfl

/-- **The files are read up to the last one.** -/
theorem restoreFileListRead_ok (fileList : List (RestoreFile ByteStr Buffer))
    (hput : ∀ file ∈ fileList, file.Put) (fuel : ℕ) (hfuel : fileList.length < fuel)
    (h : Reading (fileList.flatMap restoreFileWrite ++ [.null]) r) :
    ∃ r', restoreFileListRead fuel r = .ok (fileList.map RestoreFile.bytes, r') := by
  induction fileList generalizing fuel r with
  | nil =>
    obtain ⟨fuel, rfl⟩ := Nat.exists_eq_add_of_le' hfuel
    obtain ⟨r₁, hnull, -⟩ := Reading.null h
    refine ⟨r₁, ?_⟩
    unfold restoreFileListRead
    rw [hnull, ok_bind]
    rfl
  | cons file fileList ih =>
    rw [length_cons] at hfuel
    obtain ⟨fuel, rfl⟩ := Nat.exists_eq_add_of_le' (Nat.one_le_of_lt hfuel)
    rw [forall_mem_cons] at hput
    obtain ⟨name, hname⟩ := hput.1.name
    rw [flatMap_cons, append_assoc] at h
    -- the name of the file is a field that is there
    have hemit : (PckWriteCall.str file.name false none).emit = .field (dataField .str name.bytes) := by
      rw [hname]
      rfl
    obtain ⟨r₁, hnull, h⟩ := Reading.more hemit h
    obtain ⟨r₂, hfile, h⟩ := restoreFileRead_ok hput.1 h
    obtain ⟨r₃, hrest⟩ := ih hput.2 fuel (by omega) h
    refine ⟨r₃, ?_⟩
    unfold restoreFileListRead
    rw [hnull, ok_bind]
    show (restoreFileRead r₁ >>= _) = _
    rw [hfile, ok_bind]
    dsimp only
    rw [hrest, ok_bind]
    rfl

end Read

/-! ### How many fields there are -/

theorem length_restoreFileWrite_le (file : RestoreFile ByteStr Buffer) :
    (restoreFileWrite file).length ≤ 15 := by
  unfold restoreFileWrite restoreLimitWrite restoreBlockIncrWrite
  split <;> split <;> simp

theorem isField_restoreFileWrite (file : RestoreFile ByteStr Buffer) :
    ∀ call ∈ restoreFileWrite file, call.isField = true := by
  unfold restoreFileWrite restoreLimitWrite restoreBlockIncrWrite
  split <;> split <;> simp [PckWriteCall.isField]

theorem isField_restoreParamWrite (param : RestoreParam ByteStr StringList) :
    ∀ call ∈ restoreParamWrite param, call.isField = true := by
  unfold restoreParamWrite
  simp [PckWriteCall.isField]

theorem length_restoreJobWrite_le (param : RestoreParam ByteStr StringList)
    (fileList : List (RestoreFile ByteStr Buffer)) :
    (restoreJobWrite param fileList).length ≤ 9 + 15 * fileList.length := by
  unfold restoreJobWrite
  rw [length_append]
  refine Nat.add_le_add (le_of_eq rfl) ?_
  induction fileList with
  | nil => exact le_rfl
  | cons file fileList ih =>
    have hfile := length_restoreFileWrite_le file
    rw [flatMap_cons, length_append, length_cons]
    omega

theorem length_le_countP_stores {fileList : List (RestoreFile ByteStr Buffer)}
    (hput : ∀ file ∈ fileList, file.Put) :
    fileList.length ≤ (fileList.flatMap restoreFileWrite).countP PckWriteCall.stores := by
  induction fileList with
  | nil => exact Nat.zero_le _
  | cons file fileList ih =>
    rw [forall_mem_cons] at hput
    have hrest := ih hput.2
    obtain ⟨name, hname⟩ := hput.1.name
    have hstores : (PckWriteCall.str file.name false none).stores = true := by
      rw [hname]
      rfl
    rw [flatMap_cons, countP_append, length_cons]
    have hfile : 0 < (restoreFileWrite file).countP PckWriteCall.stores :=
      countP_pos_iff.mpr ⟨_, mem_cons_self, hstores⟩
    omega

/-- **The process reads the files that were put into the job.** The ids of the
fields are 32 bits, which is room for the files of a job. -/
theorem restoreFileProtocol_ok (param : RestoreParam ByteStr StringList)
    (fileList : List (RestoreFile ByteStr Buffer)) (hput : ∀ file ∈ fileList, file.Put)
    (hroom : fileList.length < 2 ^ 28) :
    ∃ w, pckWriteCalls (pckWriteNew none) (restoreJobWrite param fileList) = .ok w ∧
      restoreFileProtocol (pckReadNew none (pckWriteResult w)) =
        .ok (param.bytes, fileList.map RestoreFile.bytes) := by
  have hfields : ∀ call ∈ restoreJobWrite param fileList, call.isField = true := by
    intro call hmem
    rcases mem_append.mp hmem with hmem | hmem
    · exact isField_restoreParamWrite param call hmem
    · obtain ⟨file, -, hmem⟩ := mem_flatMap.mp hmem
      exact isField_restoreFileWrite file call hmem
  have hlength := length_restoreJobWrite_le param fileList
  have hallowed : CallsAllowed ((.obj, 0), []) (restoreJobWrite param fileList) :=
    callsAllowed_fields hfields (by unfold UINT_MAX; omega)
  have hnull : CallsAllowed ((.obj, 0), []) (restoreJobWrite param fileList ++ [.null]) := by
    refine callsAllowed_fields (fun call hmem => ?_) ?_
    · rcases mem_append.mp hmem with hmem | hmem
      · exact hfields call hmem
      · obtain rfl := mem_singleton.mp hmem
        rfl
    · rw [length_append, length_singleton]
      unfold UINT_MAX
      omega
  obtain ⟨w, hwrite, hresult, hreading⟩ := reading_pckWriteCalls none none _ hallowed hnull
  refine ⟨w, hwrite, ?_⟩
  unfold restoreJobWrite at hreading
  rw [append_assoc] at hreading
  obtain ⟨r₁, hparam, hreading⟩ := restoreParamRead_ok hreading
  have hfuel : fileList.length < (pckWriteResult w).length + 1 := by
    have hcount := countP_stores_le [] (restoreJobWrite param fileList) .bottom
    have hfiles := length_le_countP_stores hput
    unfold restoreJobWrite at hcount hresult
    rw [countP_append] at hcount
    rw [hresult]
    omega
  obtain ⟨r₂, hfiles⟩ := restoreFileListRead_ok fileList hput _ hfuel hreading
  unfold restoreFileProtocol
  rw [hparam, ok_bind]
  show (restoreFileListRead ((pckWriteResult w).length + 1) r₁ >>= _) = _
  rw [hfiles, ok_bind]

end PgxBackup
