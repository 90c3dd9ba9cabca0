import PgxBackup.ArchivePush
import PgxBackup.WalSegmentFind

/-!
# Finding files for archive-get

`archiveGetCheck` looks for the requested files in the archives of all
repositories. A single request is found with an expression for its files. For
many requests the directories are listed once with an expression for all of
their files and the lists are kept.

A repository with an error is skipped, and the error is a warning of the file.
Only if all repositories have errors nothing more is looked for, and neither
after a file that is not found.
-/

namespace PgxBackup

/-- `ArchiveGetFile`. -/
structure ArchiveGetFile where
  file : Str
  repoIdx : ℕ
  archiveId : Str
  cipherType : Str
  cipherPassArchive : Option Str
  deriving DecidableEq

/-- `ArchiveFileMap`. -/
structure ArchiveFileMap where
  /-- Archive file requested by archive_command. -/
  request : Str
  /-- Actual files in various repos/archiveIds. -/
  actualList : List ArchiveGetFile
  /-- Warnings that need to be reported by the async process. -/
  warnList : List Str
  deriving DecidableEq

/-- `ArchiveGetCheckResult`. -/
structure ArchiveGetCheckResult where
  /-- List of mapped archive files, i.e. found in the repo. -/
  archiveFileMapList : List ArchiveFileMap
  errorType : Option ErrorType
  errorFile : Option Str
  errorMessage : Option Str
  warnList : List Str
  deriving DecidableEq

/-- `ArchiveGetFindCachePath`. -/
structure ArchiveGetFindCachePath where
  path : Str
  fileList : List Str

/-- `ArchiveGetFindCacheArchive`. -/
structure ArchiveGetFindCacheArchive where
  archiveId : Str
  pathList : List ArchiveGetFindCachePath

/-- `ArchiveGetFindCacheRepo`. -/
structure ArchiveGetFindCacheRepo where
  repoIdx : ℕ
  cipherType : Str
  cipherPassArchive : Option Str
  archiveList : List ArchiveGetFindCacheArchive
  warnList : List Str

/-- The repositories: what their archives hold, and their keys. -/
structure ArchiveGetStorage where
  /-- The files of a path of an archive. -/
  list : ℕ → Str → Str → Except Error (List Str)
  /-- Whether an archive has a file. -/
  fileExists : ℕ → Str → Str → Except Error Bool
  repoKey : ℕ → ℕ

/-- `cfgOptionGroupName`. -/
def ArchiveGetStorage.groupName (storage : ArchiveGetStorage) (repoIdx : ℕ) : Str :=
  "repo".toList ++ Nat.toDigits 10 (storage.repoKey repoIdx)

/-- `archiveGetErrorAdd`. -/
def archiveGetErrorAdd (storage : ArchiveGetStorage) (warnList : List Str) (repoIdx : ℕ) (error : Error) :
    List Str :=
  let warn := archivePushError (storage.groupName repoIdx) error
  if warn ∈ warnList then warnList else warnList ++ [warn]

/-- `[0-F]` as many times as given. -/
def isHexRange (size : ℕ) (s : Str) : Bool :=
  decide (s.length = size) && s.all fun c => '0' ≤ c && c ≤ 'F'

/-- `walIsSegment`. -/
def walIsSegment (walSegment : Str) : Bool :=
  isHexRange 24 (walSegment.take 24) && decide (walSegment.drop 24 ∈ [[], WAL_SEGMENT_PARTIAL_EXT])

/-- The expression for the files of all segments of a path. -/
def walPathMatch (path file : Str) : Bool :=
  path.isPrefixOf file && isHexRange 8 ((file.drop path.length).take 8)
    && isChecksumExt (file.drop (path.length + 8))

/-! ## Finding one file -/

section Find

variable (storage : ArchiveGetStorage) (single : Bool) (archiveFileRequest : Str)

def archiveGetFindSegment (repoIdx : ℕ) (cacheArchive : ArchiveGetFindCacheArchive) :
    Except Error (List Str × ArchiveGetFindCacheArchive) :=
  let path := strSubN archiveFileRequest 0 16
  -- if a single file is requested then optimize by adding a restrictive expression
  if single then do
    let files ← storage.list repoIdx cacheArchive.archiveId path
    .ok (files.filter (walSegmentFindMatch archiveFileRequest), cacheArchive)
  -- else multiple files will be requested so cache list results
  else
    match cacheArchive.pathList.find? (fun cachePath => cachePath.path = path) with
    | some cachePath =>
      .ok (cachePath.fileList.filter (fun file => strBeginsWith file archiveFileRequest), cacheArchive)
    | none => do
      let files ← storage.list repoIdx cacheArchive.archiveId path
      let fileList := files.filter (walPathMatch path)
      .ok (fileList.filter (fun file => strBeginsWith file archiveFileRequest),
        { cacheArchive with pathList := cacheArchive.pathList ++ [⟨path, fileList⟩] })

/-- A file that was found. -/
def archiveGetFileNew (cacheRepo : ArchiveGetFindCacheRepo) (archiveId file : Str) : ArchiveGetFile where
  file := archiveId ++ '/' :: file
  repoIdx := cacheRepo.repoIdx
  archiveId := archiveId
  cipherType := cacheRepo.cipherType
  cipherPassArchive := cacheRepo.cipherPassArchive

/-- The files that match in an archive. -/
def archiveGetFindArchive (cacheRepo : ArchiveGetFindCacheRepo) (cacheArchive : ArchiveGetFindCacheArchive) :
    Except Error (List ArchiveGetFile × ArchiveGetFindCacheArchive) := do
  -- if a WAL segment then search among the possible file names
  if walIsSegment archiveFileRequest then
    let (segmentList, cacheArchive) ←
      archiveGetFindSegment storage single archiveFileRequest cacheRepo.repoIdx cacheArchive
    .ok (segmentList.map fun segment => archiveGetFileNew cacheRepo cacheArchive.archiveId
      (strSubN archiveFileRequest 0 16 ++ '/' :: segment), cacheArchive)
  -- else if not a WAL segment, see if it exists in the archiveId path
  else if ← storage.fileExists cacheRepo.repoIdx cacheArchive.archiveId archiveFileRequest then
    .ok ([archiveGetFileNew cacheRepo cacheArchive.archiveId archiveFileRequest], cacheArchive)
  else .ok ([], cacheArchive)

/-- The files that match in the archives of a repository, up to an error. -/
def archiveGetFindArchives (cacheRepo : ArchiveGetFindCacheRepo) :
    List ArchiveGetFindCacheArchive →
      List ArchiveGetFile × List ArchiveGetFindCacheArchive × Option Error
  | [] => ([], [], none)
  | cacheArchive :: archiveList =>
    match archiveGetFindArchive storage single archiveFileRequest cacheRepo cacheArchive with
    | .error error => ([], cacheArchive :: archiveList, some error)
    | .ok (files, cacheArchive) =>
      let (matchList, archiveList, error) := archiveGetFindArchives cacheRepo archiveList
      (files ++ matchList, cacheArchive :: archiveList, error)

/-- What has been found in the repositories. -/
structure ArchiveGetFindState where
  matchList : List ArchiveGetFile
  fileWarnList : List Str
  repoErrorTotal : ℕ

/-- Check each repo. Errors are warnings. -/
def archiveGetFindRepos : List ArchiveGetFindCacheRepo → ArchiveGetFindState →
    ArchiveGetFindState × List ArchiveGetFindCacheRepo
  | [], state => (state, [])
  | cacheRepo :: cacheRepoList, state =>
    let (files, archiveList, error) :=
      archiveGetFindArchives storage single archiveFileRequest cacheRepo cacheRepo.archiveList
    let state := { state with matchList := state.matchList ++ files }
    let cacheRepo := { cacheRepo with archiveList := archiveList }
    match error with
    | none =>
      let (state, cacheRepoList) := archiveGetFindRepos cacheRepoList state
      (state, cacheRepo :: cacheRepoList)
    | some error =>
      let cacheRepo :=
        { cacheRepo with
          warnList := archiveGetErrorAdd storage cacheRepo.warnList cacheRepo.repoIdx error }
      let state :=
        { state with
          fileWarnList := archiveGetErrorAdd storage state.fileWarnList cacheRepo.repoIdx error
          repoErrorTotal := state.repoErrorTotal + 1 }
      let (state, cacheRepoList) := archiveGetFindRepos cacheRepoList state
      (state, cacheRepo :: cacheRepoList)

/-- A file in the message about duplicates. -/
def archiveGetDuplicateFile (state : ℕ × Bool × Str) (file : ArchiveGetFile) : ℕ × Bool × Str :=
  let repoKey := storage.repoKey file.repoIdx
  let (repoKeyLast, first, message) :=
    if repoKey ≠ state.1 then (repoKey, true, state.2.2 ++ '\n' :: storage.groupName file.repoIdx ++ [':'])
    else state
  let message := if first then message else message ++ [',']
  (repoKeyLast, false, message ++ ' ' :: file.file)

/-- The message about duplicates. -/
def archiveGetDuplicate (matchList : List ArchiveGetFile) : Str :=
  let matchList := matchList.insertionSort fun a b => a.file ≤ b.file
  let (_, _, message) := matchList.foldl (archiveGetDuplicateFile storage) (0, true, [])
  "duplicates found for WAL segment ".toList ++ archiveFileRequest ++ ':' :: message
    ++ "\nHINT: are multiple primaries archiving to this stanza?".toList

/-- Where the hash is taken from the name of a file. -/
def archiveGetHash (file : ArchiveGetFile) : Str := strSubN file.file 25 40

def archiveGetHashList (matchList : List ArchiveGetFile) : List Str :=
  matchList.foldl
    (fun hashList file =>
      if archiveGetHash file ∈ hashList then hashList else hashList ++ [archiveGetHash file]) []

/-- What has been found as a result. -/
def archiveGetFindResult (repoTotal : ℕ) (state : ArchiveGetFindState)
    (getCheckResult : ArchiveGetCheckResult) : Bool × ArchiveGetCheckResult :=
  -- if all repos errored out then set the global error
  if state.repoErrorTotal = repoTotal then
    (false,
      { getCheckResult with
        errorType := some .repoInvalidError
        errorFile := some archiveFileRequest
        errorMessage := some "unable to find a valid repository".toList
        warnList := state.fileWarnList })
  -- else if a file was found
  else if state.matchList ≠ [] then
    -- if there is more than one unique hash then there are duplicates
    if walIsSegment archiveFileRequest ∧ state.matchList.length > 1 ∧
        (archiveGetHashList state.matchList).length > 1 then
      (false,
        { getCheckResult with
          errorType := some .archiveDuplicateError
          errorFile := some archiveFileRequest
          errorMessage := some (archiveGetDuplicate storage archiveFileRequest state.matchList)
          warnList := state.fileWarnList })
    -- files are valid so add them to the map
    else
      (true,
        { getCheckResult with
          archiveFileMapList := getCheckResult.archiveFileMapList
            ++ [⟨archiveFileRequest, state.matchList, state.fileWarnList⟩] })
  else (false, getCheckResult)

/-- `archiveGetFind`, with the lists that are kept. -/
def archiveGetFind (warnList : List Str) (getCheckResult : ArchiveGetCheckResult)
    (cacheRepoList : List ArchiveGetFindCacheRepo) :
    (Bool × ArchiveGetCheckResult) × List ArchiveGetFindCacheRepo :=
  let (state, cacheRepoList') :=
    archiveGetFindRepos storage single archiveFileRequest cacheRepoList ⟨[], warnList, 0⟩
  (archiveGetFindResult storage archiveFileRequest cacheRepoList.length state getCheckResult, cacheRepoList')

end Find

/-- Find files in the list, up to one that is not found. -/
def archiveGetFindList (storage : ArchiveGetStorage) (single : Bool) (warnList : List Str) :
    List Str → ArchiveGetCheckResult → List ArchiveGetFindCacheRepo → ArchiveGetCheckResult
  | [], result, _ => result
  | archiveFileRequest :: archiveRequestList, result, cacheRepoList =>
    match archiveGetFind storage single archiveFileRequest warnList result cacheRepoList with
    | ((true, result), cacheRepoList) =>
      archiveGetFindList storage single warnList archiveRequestList result cacheRepoList
    | ((false, result), _) => result

/-! ## The repositories -/

/-- A configured repository. -/
structure ArchiveGetRepo where
  cipherType : Str
  /-- What loading the archive info comes to. -/
  info : Except Error InfoArchive
  /-- The archive ids of the archive. -/
  archivePathList : Except Error (List Str)

/-- The cluster that files are wanted for. -/
structure ArchiveGetCluster where
  pgControl : PgControl
  /-- Whether the checkpoint is the invalid one that restore writes. -/
  checkpointInvalid : Bool
  backupLabel : Bool

/-- The archive ids of the cluster, from a position of the history on. -/
def archiveGetArchiveList (controlInfo : PgControl) (archivePathList : Except Error (List Str)) :
    ℕ → List InfoPgData → Except Error (List ArchiveGetFindCacheArchive)
  | _, [] => .ok []
  | pgIdx, pgData :: history => do
    -- only use the archive id if it matches the current cluster
    if pgData.systemId = controlInfo.systemId ∧ pgData.version = controlInfo.version then
      -- if the archiveId is in the past make sure the path exists
      let found ← if pgIdx ≠ 0 then archivePathList.map fun list => decide (infoPgArchiveId pgData ∈ list)
        else .ok true
      let archiveList ← archiveGetArchiveList controlInfo archivePathList (pgIdx + 1) history
      .ok (if found then ⟨infoPgArchiveId pgData, []⟩ :: archiveList else archiveList)
    else archiveGetArchiveList controlInfo archivePathList (pgIdx + 1) history

/-- What is tried for a repository. -/
def archiveGetCacheRepo (controlInfo : PgControl) (repoIdx : ℕ) (repo : ArchiveGetRepo) :
    Except Error ArchiveGetFindCacheRepo := do
  let info ← repo.info
  let archiveList ← archiveGetArchiveList controlInfo repo.archivePathList 0 info.infoPg.history
  -- error if no archive id was found -- this indicates a mismatch with the current cluster
  if archiveList = [] then
    .error ⟨.archiveMismatchError, "unable to retrieve the archive id for database version '".toList
      ++ pgVersionToStr controlInfo.version ++ "' and system-id '".toList
      ++ Nat.toDigits 10 controlInfo.systemId ++ ['\'']⟩
  else .ok ⟨repoIdx, repo.cipherType, info.cipherPass, archiveList, []⟩

/-- Build list of repos/archiveIds where WAL may be found, from a position on. -/
def archiveGetCacheRepoList (storage : ArchiveGetStorage) (controlInfo : PgControl) (repo : Option ℕ) :
    ℕ → List ArchiveGetRepo → List Str → List Str × List ArchiveGetFindCacheRepo
  | _, [], warnList => (warnList, [])
  | repoIdx, next :: repos, warnList =>
    -- if a repo was specified then skip all other repos
    if repo.isSome ∧ repo ≠ some (storage.repoKey repoIdx) then
      archiveGetCacheRepoList storage controlInfo repo (repoIdx + 1) repos warnList
    else
      match archiveGetCacheRepo controlInfo repoIdx next with
      | .ok cacheRepo =>
        let (warnList, cacheRepoList) :=
          archiveGetCacheRepoList storage controlInfo repo (repoIdx + 1) repos warnList
        (warnList, cacheRepo :: cacheRepoList)
      | .error error =>
        archiveGetCacheRepoList storage controlInfo repo (repoIdx + 1) repos
          (archiveGetErrorAdd storage warnList repoIdx error)

/-- Sort the list to make searching for files faster. -/
def archiveFileMapSort (result : ArchiveGetCheckResult) : ArchiveGetCheckResult :=
  { result with
    archiveFileMapList := result.archiveFileMapList.insertionSort fun a b => a.request ≤ b.request }

/-- `archiveGetCheck`. -/
def archiveGetCheck (storage : ArchiveGetStorage) (cluster : ArchiveGetCluster) (repo : Option ℕ)
    (repos : List ArchiveGetRepo) (archiveRequestList : List Str) : Except Error ArchiveGetCheckResult :=
  -- error if the invalid checkpoint written by restore is detected and backup_label is not present
  if cluster.checkpointInvalid ∧ ¬ cluster.backupLabel then
    .error ⟨.formatError, ("pg_control from backup is not valid without backup_label\n" ++
      "HINT: was the backup_label file removed?").toList⟩
  else
    let (warnList, cacheRepoList) := archiveGetCacheRepoList storage cluster.pgControl repo 0 repos []
    -- error if there are no repos to check
    if cacheRepoList = [] then
      .ok ⟨[], some .repoInvalidError, none, some "unable to find a valid repository".toList, warnList⟩
    else
      .ok (archiveFileMapSort (archiveGetFindList storage (decide (archiveRequestList.length = 1)) warnList
        archiveRequestList ⟨[], none, none, none, warnList⟩ cacheRepoList))

/-- The first file that is missing in `cmdArchiveGetAsync`. -/
def archiveFileMissing (archiveRequestList : List Str) (checkResult : ArchiveGetCheckResult) : Option Str :=
  if checkResult.archiveFileMapList.length < archiveRequestList.length then
    archiveRequestList[checkResult.archiveFileMapList.length]?
  else none

end PgxBackup
