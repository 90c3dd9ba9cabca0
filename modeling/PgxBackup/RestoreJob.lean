import PgxBackup.BackupJob
import PgxBackup.RestoreProtocol

/-!
# The jobs of a restore

The files of a manifest are put into queues, one for each target. The callback
of the parallel executor takes a job from the head of a queue: one file, or
the files of one bundle of one backup. Whether a job ends is only decided by
comparing a file with the one the job was begun with, so that the files of a
bundle must follow one another in the queue.
-/

namespace PgxBackup

/-! ## The order of a queue -/

/-- Compare two files for the order of a queue: does the assertion on the way to
the result hold, and the result. -/
def restoreProcessQueueCompare (file1 file2 : ManifestFile) : Bool × ℤ :=
  -- zero length files should be ordered at the end
  if file1.size = 0 ∧ file2.size ≠ 0 then (true, 1)
  else if file1.size ≠ 0 ∧ file2.size = 0 then (true, -1)
  else if file1.bundleId < file2.bundleId then (true, -1)
  else if file1.bundleId > file2.bundleId then (true, 1)
  else if file1.bundleId = 0 then
    if file1.size < file2.size then (true, 1)
    else if file1.size > file2.size then (true, -1)
    else (file1.name ≠ file2.name, strCmp file2.name file1.name)
  else
    match file1.reference, file2.reference with
    | none, some _ => (true, 1)
    | some _, none => (true, -1)
    | some reference1, some reference2 =>
      if strCmp reference2 reference1 * -1 ≠ 0 then (true, strCmp reference2 reference1 * -1)
      else offset
    | none, none => offset
where
  /-- Finally order by bundle offset. -/
  offset : Bool × ℤ :=
    (file1.bundleOffset ≠ file2.bundleOffset,
      if file1.bundleOffset < file2.bundleOffset then -1 else 1)

/-- `restoreProcessQueueComparator`. -/
def restoreProcessQueueComparator (file1 file2 : ManifestFile) : ℤ :=
  (restoreProcessQueueCompare file1 file2).2

/-- Do the assertions of `restoreProcessQueueComparator` hold? -/
def restoreProcessQueueComparatorAssert (file1 file2 : ManifestFile) : Bool :=
  (restoreProcessQueueCompare file1 file2).1

/-- Sort a queue (`lstSort`). A file is moved before another one only if it
compares less. -/
def restoreProcessQueueSort (queue : List ManifestFile) : List ManifestFile :=
  queue.insertionSort (fun file1 file2 => ¬ restoreProcessQueueComparator file2 file1 < 0)

/-! ## The queues -/

/-- The queue for a file: that of the target that contains it. -/
def restoreProcessQueueIdx (manifest : Manifest) (file : ManifestFile) : Except Error ℕ :=
  match manifest.targetPathList.findIdx? (strBeginsWith file.name) with
  | some targetIdx => .ok targetIdx
  | none => .error ⟨.formatError, "backup target not found".toList⟩

/-- Put a file into its queue. -/
def restoreProcessQueueAdd (manifest : Manifest) (queueList : List (List ManifestFile))
    (file : ManifestFile) : Except Error (List (List ManifestFile)) := do
  let targetIdx ← restoreProcessQueueIdx manifest file
  .ok (queueList.modify targetIdx (fun queue => queue ++ [file]))

/-- Put the files into the queues and sort these (`restoreProcessQueue`). The
result has the total size of the files. -/
def restoreProcessQueue (manifest : Manifest) :
    Except Error (ℕ × List (List ManifestFile)) := do
  let queueList ← manifest.fileList.foldlM (restoreProcessQueueAdd manifest)
    (List.replicate manifest.targetPathList.length [])
  .ok (u64 (manifest.fileList.map ManifestFile.size).sum, queueList.map restoreProcessQueueSort)

/-! ## The parameters of a job -/

/-- What does not change in `RestoreJobData` during a restore, with the options
that are read while jobs are made. -/
structure RestoreJobConfig where
  repoIdx : UInt32
  manifest : Manifest
  /-- Identify files that should be sparse zeroed: the match of the expression,
  if there is one. -/
  zeroExp : Option (Str → Bool)
  cipherSubPass : Option Str
  rootReplaceUser : Option Str
  rootReplaceGroup : Option Str
  userRoot : Bool
  delta : Bool
  force : Bool

/-- The state of the callback (`RestoreJobData`). -/
structure RestoreJobData where
  config : RestoreJobConfig
  queueList : List (List ManifestFile)

/-- The `String` of a text: its bytes up to a zero, if they fit. -/
def byteStr (s : Str) : ByteStr where
  bytes := ((s.flatMap String.utf8EncodeChar).takeWhile (fun byte => byte ≠ 0)).take STRING_SIZE_MAX
  zeroFree := by
    intro hmem
    have hne := List.mem_takeWhile_imp (List.mem_of_mem_take hmem)
    simp at hne
  size_le := List.length_take_le _ _

/-- The `StringList` of a list of texts. -/
def stringList (list : List Str) : StringList where
  strs := (list.map byteStr).take (2 ^ 31)
  size_le := List.length_take_le _ _

/-- The base target, i.e. the data directory (`manifestTargetBase`). -/
def manifestTargetBase (manifest : Manifest) : Except Error ManifestTarget :=
  match manifest.targetList.find? (fun target => target.name = "pg_data".toList) with
  | some target => .ok target
  | none => .error ⟨.assertError, "unable to find 'pg_data' in manifest target list".toList⟩

/-- Should the file be zeroed? (`restoreFileZeroed`) -/
def restoreFileZeroed (manifestName : Str) (zeroExp : Option (Str → Bool)) : Bool :=
  match zeroExp with
  | none => false
  | some zeroExp => zeroExp manifestName && !"/PG_VERSION".toList.isSuffixOf manifestName

/-- The absolute path of a file. A temp extension is added to `pg_control` so a
partially restored cluster cannot be started (`restoreFilePgPath`). -/
def restoreFilePgPath (manifest : Manifest) (manifestName : Str) : Except Error Str := do
  let target ← manifestTargetBase manifest
  .ok (target.path ++ "/".toList ++ (manifestPathPg manifestName).getD [] ++
    if manifestName = pgControlName then ".pgxbackup.tmp".toList else [])

/-- `restoreManifestOwnerReplace`. -/
def restoreManifestOwnerReplace (userRoot : Bool) (owner ownerDefaultRoot : Option Str) :
    Option Str :=
  if userRoot then owner.orElse (fun _ => ownerDefaultRoot) else none

/-- The number of a compression type. -/
def compressTypeNum : CompressType → UInt32
  | .none => 0
  | .bz2 => 1
  | .gz => 2
  | .lz4 => 3
  | .zst => 4
  | .xz => 5

/-- The file in the repository that a file is restored from. -/
def restoreRepoFile (manifest : Manifest) (file : ManifestFile) : Str :=
  backupFileRepoPath (file.reference.getD manifest.data.backupLabel) file.name file.bundleId
    manifest.data.backupOptionCompressType (file.blockIncrMapSize ≠ 0)

/-- The common parameters, from the first file. -/
def restoreJobParam (config : RestoreJobConfig) (file : ManifestFile) :
    RestoreParam ByteStr StringList where
  repoFile := some (byteStr (restoreRepoFile config.manifest file))
  repoIdx := config.repoIdx
  repoFileCompressType := compressTypeNum config.manifest.data.backupOptionCompressType
  copyTimeBegin := Int64.ofInt config.manifest.data.backupTimestampCopyStart
  delta := config.delta
  deltaForce := config.delta && config.force
  bundleRaw := file.bundleId ≠ 0 && config.manifest.data.bundleRaw
  cipherPass := config.cipherSubPass.map byteStr
  referenceList := some (stringList config.manifest.referenceList)

/-- The first 20 bytes of a checksum, the size of a SHA1. -/
def checksumBuffer (checksum : Bytes) : Buffer where
  bytes := checksum.take 20
  size_lt := lt_of_le_of_lt (List.length_take_le _ _) (by decide)

/-- The parameters of a file. The manifest of a backup has a checksum for every
file. -/
def restoreJobFile (config : RestoreJobConfig) (file : ManifestFile) :
    Except Error (RestoreFile ByteStr Buffer) := do
  let pgPath ← restoreFilePgPath config.manifest file.name
  .ok
    { name := some (byteStr pgPath)
      checksum := some (checksumBuffer (file.checksumSha1.getD []))
      size := UInt64.ofNat file.size
      timeModified := Int64.ofInt file.timestamp
      mode := UInt32.ofNat file.mode
      zero := restoreFileZeroed file.name config.zeroExp
      user := (restoreManifestOwnerReplace config.userRoot file.user config.rootReplaceUser).map byteStr
      group :=
        (restoreManifestOwnerReplace config.userRoot file.group config.rootReplaceGroup).map byteStr
      -- if block incremental then modify offset and size to where the map is stored
      offset :=
        if UInt64.ofNat file.blockIncrMapSize ≠ 0 then
          UInt64.ofNat file.bundleOffset + UInt64.ofNat file.sizeRepo -
            UInt64.ofNat file.blockIncrMapSize
        else if file.bundleId ≠ 0 then UInt64.ofNat file.bundleOffset
        else 0
      limit :=
        if UInt64.ofNat file.blockIncrMapSize ≠ 0 then some (UInt64.ofNat file.blockIncrMapSize)
        else if file.bundleId ≠ 0 then some (UInt64.ofNat file.sizeRepo)
        else none
      blockIncrMapSize := UInt64.ofNat file.blockIncrMapSize
      blockIncrSize :=
        if UInt64.ofNat file.blockIncrMapSize ≠ 0 then UInt64.ofNat file.blockIncrSize else 0
      blockIncrChecksumSize :=
        if UInt64.ofNat file.blockIncrMapSize ≠ 0 then UInt64.ofNat file.blockIncrChecksumSize else 0
      manifestFile := some (byteStr file.name) }

/-! ## The callback -/

inductive RestoreJobKey
  | bundle (bundleId : ℕ)
  | file (fileName : Str)
  deriving DecidableEq

structure RestoreJob where
  key : RestoreJobKey
  param : RestoreParam ByteStr StringList
  fileList : List (RestoreFile ByteStr Buffer)

/-- The variables of the loop over the files of a queue. -/
structure RestoreJobState where
  param : Option (RestoreParam ByteStr StringList)
  fileList : List (RestoreFile ByteStr Buffer)
  fileAdded : Bool
  fileName : Option Str
  bundleId : ℕ
  reference : Option Str

/-- The variables when a queue is begun. -/
def restoreJobStateNew : RestoreJobState where
  param := none
  fileList := []
  fileAdded := false
  fileName := none
  bundleId := 0
  reference := none

/-- Add the common parameters before the first file. -/
def restoreJobBegin (config : RestoreJobConfig) (state : RestoreJobState) (file : ManifestFile) :
    RestoreJobState :=
  match state.param with
  | some _ => state
  | none =>
    { state with
      param := some (restoreJobParam config file)
      bundleId := if file.bundleId ≠ 0 then file.bundleId else state.bundleId
      reference := if file.bundleId ≠ 0 then file.reference else state.reference
      fileName := if file.bundleId ≠ 0 then state.fileName else some file.name
      fileAdded := true }

/-- The loop over the files of a queue. The result has the files that are left
in the queue. -/
def restoreJobQueueLoop (config : RestoreJobConfig) :
    RestoreJobState → List ManifestFile → Except Error (RestoreJobState × List ManifestFile)
  | state, [] => .ok (state, [])
  | state, file :: queue =>
    -- bundled files have been added and the bundle or the reference has changed
    if state.fileAdded && (state.bundleId ≠ file.bundleId || state.reference ≠ file.reference) then
      .ok (state, file :: queue)
    else do
      let state := restoreJobBegin config state file
      let jobFile ← restoreJobFile config file
      let state := { state with fileList := state.fileList ++ [jobFile] }
      if state.bundleId = 0 then .ok (state, queue)
      else restoreJobQueueLoop config state queue

/-- Take a job from a queue, if there is a file in it. -/
def restoreJobTake (data : RestoreJobData) (queueIdx : ℕ) :
    Option (Except Error (RestoreJob × RestoreJobData)) :=
  match restoreJobQueueLoop data.config restoreJobStateNew (data.queueList.getD queueIdx []) with
  | .error error => some (.error error)
  | .ok (state, left) =>
    match state.param with
    | none => none
    | some param =>
      some (.ok
        (⟨if state.bundleId ≠ 0 then .bundle state.bundleId else .file (state.fileName.getD []), param,
          state.fileList⟩,
        { data with queueList := data.queueList.set queueIdx left }))

/-- The next queue to scan (`restoreJobQueueNext`): clients with an odd index go
backward. -/
def restoreJobQueueNext (clientIdx : ℕ) (queueIdx : ℤ) (queueTotal : ℕ) : ℤ :=
  Queues.next (clientIdx % 2 ≠ 0) queueTotal queueIdx

/-- The callback of the parallel executor (`restoreJobCallback`). The result is
`none` when the loop over the queues has not ended after `fuel` of them. -/
def restoreJobCallback (fuel : ℕ) (data : RestoreJobData) (clientIdx : ℕ) :
    Option (Except Error (Option RestoreJob × RestoreJobData)) :=
  let queueTotal := data.queueList.length
  let queueEnd : ℤ := (clientIdx % queueTotal : ℕ)
  let next := fun queueIdx => restoreJobQueueNext clientIdx queueIdx queueTotal
  match Queues.scan next (fun queueIdx => restoreJobTake data queueIdx.toNat) queueEnd fuel queueEnd with
  | none => none
  | some none => some (.ok (none, data))
  | some (some (.error error)) => some (.error error)
  | some (some (.ok (job, data))) => some (.ok (some job, data))

end PgxBackup
