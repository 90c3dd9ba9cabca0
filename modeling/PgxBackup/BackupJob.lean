import PgxBackup.Manifest
import PgxBackup.Queues

/-!
# The jobs of a backup

The files of a backup that have to be copied are put into queues, one for each
target and, when the backup is made from a standby, one for the files that
must come from the primary. The callback of the parallel executor takes a job
from the queues: one file, or a bundle of small files.

Sizes are natural numbers. A file is only added to a bundle that is smaller than
`repo-bundle-size`, which is at most 1PiB, and a file has less than 2^63 bytes, so
the sums stay below 2^64.
-/

namespace PgxBackup

/-- The path of a file in the repository (`backupFileRepoPath`). -/
def backupFileRepoPath (backupLabel manifestName : Str) (bundleId : ℕ) (compressType : CompressType)
    (blockIncr : Bool) : Str :=
  "<REPO:BACKUP>/".toList ++ backupLabel ++ "/".toList ++
    if bundleId ≠ 0 then "bundle/".toList ++ Nat.toDigits 10 bundleId
    else manifestName ++ if blockIncr then ".pgbi".toList else compressExtStr compressType

/-- What does not change in `BackupJobData` during a backup, with the options
that are read while jobs are made. -/
structure BackupJobConfig where
  manifest : Manifest
  backupLabel : Str
  backupStandby : Bool
  /-- `pgXactPath` for the version of PostgreSQL. -/
  pgXactPath : Str
  compressType : CompressType
  compressLevel : ℤ
  cipherSubPass : Option Str
  pageSize : ℕ
  bundle : Bool
  bundleSize : ℕ
  bundleLimit : ℕ
  blockIncr : Bool
  blockIncrSizeSuper : ℕ
  pgVersionForce : Option Str
  pageHeaderCheck : Bool
  online : Bool

/-- The state of the callback (`BackupJobData`). -/
structure BackupJobData where
  config : BackupJobConfig
  bundleId : ℕ
  queueList : List (List ManifestFile)

/-- The name of `pg_control` in the manifest. -/
def pgControlName : Str := "pg_data/global/pg_control".toList

/-- Does the expression for files that can be copied from the standby match?
It is `^((pg_data/(base|global|%s|pg_multixact))|pg_tblspc)/`, with
`pgXactPath`. -/
def standbyExpMatch (pgXactPath name : Str) : Bool :=
  ["pg_data/base/".toList, "pg_data/global/".toList, "pg_data/".toList ++ pgXactPath ++ "/".toList,
    "pg_data/pg_multixact/".toList, "pg_tblspc/".toList].any (strBeginsWith name)

/-- Must the file be copied from the primary? (`backupProcessFilePrimary`) -/
def backupProcessFilePrimary (pgXactPath name : Str) : Bool :=
  name = pgControlName || !standbyExpMatch pgXactPath name

/-- `backupProcessQueueComparator`. -/
def backupProcessQueueComparator (bundle : Bool) (bundleLimit : ℕ) (file1 file2 : ManifestFile) : ℤ :=
  if (!bundle || file1.size > bundleLimit || file2.size > bundleLimit) && file1.size < file2.size then
    1
  else if (!bundle || file1.size > bundleLimit || file2.size > bundleLimit)
      && file1.size > file2.size then -1
  else if bundle && file1.timestamp > file2.timestamp then 1
  else if bundle && file1.timestamp < file2.timestamp then -1
  else strCmp file2.name file1.name

/-- Sort a queue (`lstSort`). -/
def backupProcessQueueSort (config : BackupJobConfig) (queue : List ManifestFile) :
    List ManifestFile :=
  queue.insertionSort (fun file1 file2 =>
    backupProcessQueueComparator config.bundle config.bundleLimit file1 file2 ≤ 0)

/-- The offset of the queues of the targets. -/
def backupQueueOffset (config : BackupJobConfig) : ℕ := if config.backupStandby then 1 else 0

def backupProcessQueueIdx (config : BackupJobConfig) (file : ManifestFile) : Except Error ℕ :=
  if config.backupStandby && backupProcessFilePrimary config.pgXactPath file.name then .ok 0
  else
    match config.manifest.targetPathList.findIdx? (strBeginsWith file.name) with
    | some targetIdx => .ok (targetIdx + backupQueueOffset config)
    | none => .error ⟨.assertError, "backup target not found".toList⟩

/-- Put a file into its queue. -/
def backupProcessQueueAdd (config : BackupJobConfig) (queueList : List (List ManifestFile))
    (file : ManifestFile) : Except Error (List (List ManifestFile)) := do
  let queueIdx ← backupProcessQueueIdx config file
  .ok (queueList.modify queueIdx (fun queue => queue ++ [file]))

/-- The files that have to be copied. -/
def backupCopyList (manifest : Manifest) : List ManifestFile :=
  manifest.fileList.filter (fun file => file.copy)

/-- Put the files into the queues and sort these (`backupProcessQueue`). -/
def backupProcessQueue (config : BackupJobConfig) : Except Error BackupJobData := do
  let copyList := backupCopyList config.manifest
  let queueList ← copyList.foldlM (backupProcessQueueAdd config)
    (List.replicate (config.manifest.targetPathList.length + backupQueueOffset config) [])
  if !copyList.any (fun file => file.name = pgControlName) && config.online then
    .error ⟨.fileMissingError, ("pg_control must be present in all online backups\n" ++
      "HINT: is something wrong with the clock or filesystem timestamps?").toList⟩
  else if copyList.isEmpty then
    .error ⟨.fileMissingError,
      "no files have changed since the last backup - this seems unlikely".toList⟩
  else .ok ⟨config, 1, queueList.map (backupProcessQueueSort config)⟩

/-- Where the map of a prior block incremental file is. -/
structure BackupJobBlockMap where
  repoFile : Str
  offset : ℕ
  size : ℕ

/-- The parameters for block incremental. -/
structure BackupJobBlockIncr where
  blockIncrSize : ℕ
  blockIncrChecksumSize : ℕ
  blockIncrSizeSuper : ℕ
  map : Option BackupJobBlockMap

/-- The parameters of one file of a job. -/
structure BackupJobFile where
  pgFile : Option Str
  delta : Bool
  ignoreMissing : Bool
  size : ℕ
  sizeOriginal : ℕ
  standby : Bool
  checksum : Option Bytes
  checksumPage : Bool
  pageHeaderCheck : Bool
  blockIncr : Option BackupJobBlockIncr
  manifestFile : Str
  repoChecksum : Option Bytes
  sizeRepo : ℕ
  resume : Bool
  reference : Bool

def backupJobBlockIncr (config : BackupJobConfig) (file : ManifestFile) : Bool :=
  config.blockIncr && file.blockIncrSize > 0

def backupJobFile (config : BackupJobConfig) (file : ManifestFile) : BackupJobFile where
  pgFile := manifestPathPg file.name
  delta := file.delta
  ignoreMissing := file.name ≠ pgControlName
  size := file.size
  sizeOriginal := file.sizeOriginal
  standby := !backupProcessFilePrimary config.pgXactPath file.name
  checksum := file.checksumSha1
  checksumPage := file.checksumPage
  pageHeaderCheck := config.pageHeaderCheck
  blockIncr :=
    if backupJobBlockIncr config file then
      some
        { blockIncrSize := file.blockIncrSize
          blockIncrChecksumSize := file.blockIncrChecksumSize
          blockIncrSizeSuper := config.blockIncrSizeSuper
          map :=
            -- the location of the prior map when available
            if file.blockIncrMapSize ≠ 0 && !file.resume then
              some
                { repoFile := backupFileRepoPath (file.reference.getD []) file.name file.bundleId
                    .none true
                  offset := file.bundleOffset + file.sizeRepo - file.blockIncrMapSize
                  size := file.blockIncrMapSize }
            else none }
    else none
  manifestFile := file.name
  repoChecksum := file.checksumRepoSha1
  sizeRepo := file.sizeRepo
  resume := file.resume
  reference := file.reference.isSome

/-- The parameters that are common to the files of a job. -/
structure BackupJobParam where
  repoFile : Str
  /-- 0 when the job is not a bundle. -/
  bundleId : ℕ
  /-- Only written for a bundle. -/
  bundleRaw : Option Bool
  reference : ℕ
  compressType : CompressType
  compressLevel : ℤ
  cipher : Bool
  cipherSubPass : Option Str
  pageSize : ℕ
  pgVersionForce : Option Str

inductive BackupJobKey
  | bundle (bundleId : ℕ)
  | file (fileName : Str)

structure BackupJob where
  key : BackupJobKey
  param : BackupJobParam
  fileList : List BackupJobFile

def BackupJob.bundleId? (job : BackupJob) : Option ℕ :=
  match job.key with
  | .bundle bundleId => some bundleId
  | .file _ => none

/-- The variables of the loop over the files of a queue. -/
structure BackupJobState where
  param : Option BackupJobParam
  fileList : List BackupJobFile
  fileTotal : ℕ
  fileSize : ℕ
  bundle : Bool
  fileName : Option Str

/-- The variables when a queue is begun. -/
def backupJobStateNew (config : BackupJobConfig) : BackupJobState where
  param := none
  fileList := []
  fileTotal := 0
  fileSize := 0
  bundle := config.bundle
  fileName := none

/-- The common parameters. -/
def backupJobParam (data : BackupJobData) (file : ManifestFile) (bundle : Bool) : BackupJobParam where
  repoFile :=
    if bundle then backupFileRepoPath data.config.backupLabel [] data.bundleId .none false
    else backupFileRepoPath data.config.backupLabel file.name 0 data.config.compressType
      (backupJobBlockIncr data.config file)
  bundleId := if bundle then data.bundleId else 0
  bundleRaw := if bundle then some data.config.manifest.data.bundleRaw else none
  reference := data.config.manifest.referenceList.length - 1
  compressType := data.config.compressType
  compressLevel := data.config.compressLevel
  cipher := data.config.cipherSubPass.isSome
  cipherSubPass := data.config.cipherSubPass
  pageSize := data.config.pageSize
  pgVersionForce := data.config.pgVersionForce

/-- Add the common parameters before the first file. -/
def backupJobBegin (data : BackupJobData) (state : BackupJobState) (file : ManifestFile) :
    Except Error BackupJobState :=
  match state.param with
  | some _ => .ok state
  | none =>
    if state.bundle && file.size ≤ data.config.bundleLimit then
      .ok { state with param := some (backupJobParam data file true) }
    else if state.fileTotal = 0 then
      .ok { state with
        param := some (backupJobParam data file false)
        fileName := some file.name
        bundle := false }
    else .error ⟨.assertError, "cannot bundle file".toList⟩

/-- The loop over the files of a queue. The result has the files that are left
in the queue. -/
def backupJobQueueLoop (data : BackupJobData) :
    BackupJobState → List ManifestFile → Except Error (BackupJobState × List ManifestFile)
  | state, [] => .ok (state, [])
  | state, file :: queue =>
    -- there may be a smaller one that will fit
    if state.fileTotal > 0 && state.fileSize + file.size ≥ data.config.bundleSize then do
      let (state, left) ← backupJobQueueLoop data state queue
      .ok (state, file :: left)
    else do
      let state ← backupJobBegin data state file
      let state :=
        { state with
          fileList := state.fileList ++ [backupJobFile data.config file]
          fileTotal := state.fileTotal + 1
          fileSize := state.fileSize + file.sizeOriginal }
      if !state.bundle || state.fileSize ≥ data.config.bundleSize then .ok (state, queue)
      else backupJobQueueLoop data state queue

/-- Take a job from a queue, if there is a file in it. -/
def backupJobTake (data : BackupJobData) (queueIdx : ℕ) :
    Option (Except Error (BackupJob × BackupJobData)) :=
  match backupJobQueueLoop data (backupJobStateNew data.config) (data.queueList.getD queueIdx []) with
  | .error error => some (.error error)
  | .ok (state, left) =>
    match state.param with
    | none => none
    | some param =>
      some (.ok
        (⟨if state.bundle then .bundle data.bundleId else .file (state.fileName.getD []), param,
          state.fileList⟩,
        { data with
          bundleId := if state.bundle then data.bundleId + 1 else data.bundleId
          queueList := data.queueList.set queueIdx left }))

/-- The next queue to scan (`backupJobQueueNext`): clients with an odd index go
backward. -/
def backupJobQueueNext (clientIdx : ℕ) (queueIdx : ℤ) (queueTotal : ℕ) : ℤ :=
  Queues.next (clientIdx % 2 ≠ 0) queueTotal queueIdx

/-- The offset of the queues that a client scans. -/
def backupJobQueueOffset (data : BackupJobData) (clientIdx : ℕ) : ℕ :=
  if data.config.backupStandby && clientIdx > 0 then 1 else 0

/-- The callback of the parallel executor (`backupJobCallback`). The result is
`none` when the loop over the queues has not ended after `fuel` of them. -/
def backupJobCallback (fuel : ℕ) (data : BackupJobData) (clientIdx : ℕ) :
    Option (Except Error (Option BackupJob × BackupJobData)) :=
  let queueOffset := backupJobQueueOffset data clientIdx
  let queueTotal := data.queueList.length - queueOffset
  let primary := data.config.backupStandby && clientIdx = 0
  let queueEnd : ℤ := if primary then 0 else (clientIdx % queueTotal : ℕ)
  -- the primary only has one queue
  let next := fun queueIdx =>
    if primary then queueIdx else backupJobQueueNext clientIdx queueIdx queueTotal
  match Queues.scan next (fun queueIdx => backupJobTake data (queueIdx.toNat + queueOffset)) queueEnd
    fuel queueEnd with
  | none => none
  | some none => some (.ok (none, data))
  | some (some (.error error)) => some (.error error)
  | some (some (.ok (job, data))) => some (.ok (some job, data))

end PgxBackup
