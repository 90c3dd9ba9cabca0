import PgxBackup.Text

/-!
# The backup manifest

The manifest of a backup lists the targets, paths, files, links and
databases that were backed up, along with the data and options of the
backup itself. The types follow the structures of `info/manifest`, field by
field: `time_t` is an integer, unsigned integers are natural numbers, a
`NULL` pointer or variant is `none`.
-/

namespace PgxBackup

/-- The type of a backup (`BackupType`). -/
inductive BackupType
  | full
  | diff
  | incr
  deriving DecidableEq, Repr

/-- Compression types (`CompressType`). -/
inductive CompressType
  | none
  | bz2
  | gz
  | lz4
  | zst
  | xz
  deriving DecidableEq, Repr

/-- The extension of a compressed file (`compressExtStr`). -/
def compressExtStr : CompressType → Str
  | .none => "".toList
  | .bz2 => ".bz2".toList
  | .gz => ".gz".toList
  | .lz4 => ".lz4".toList
  | .zst => ".zst".toList
  | .xz => ".xz".toList

/-- Annotations: keys and values of a `KeyValue`, in the order they were put. -/
abbrev Annotation := List (Str × Str)

/-- The data and options of a backup (`ManifestData`). -/
structure ManifestData where
  backrestVersion : Str
  backupLabel : Str
  backupLabelPrior : Option Str
  backupTimestampCopyStart : ℤ
  backupTimestampStart : ℤ
  backupTimestampStop : ℤ
  backupType : BackupType
  bundle : Bool
  bundleRaw : Bool
  blockIncr : Bool
  archiveStart : Option Str
  archiveStop : Option Str
  lsnStart : Option Str
  lsnStop : Option Str
  pgId : ℕ
  pgVersion : ℕ
  pgSystemId : ℕ
  pgCatalogVersion : ℕ
  annotation : Option Annotation
  backupOptionArchiveCheck : Bool
  backupOptionArchiveCopy : Bool
  backupOptionStandby : Option Bool
  backupOptionBufferSize : Option ℕ
  backupOptionChecksumPage : Option Bool
  backupOptionCompressType : CompressType
  backupOptionCompressLevel : Option ℤ
  backupOptionCompressLevelNetwork : Option ℤ
  backupOptionDelta : Option Bool
  backupOptionHardLink : Bool
  backupOptionOnline : Bool
  backupOptionProcessMax : Option ℕ
  deriving DecidableEq, Repr

/-- A database of the cluster (`ManifestDb`). -/
structure ManifestDb where
  name : Str
  id : ℕ
  lastSystemId : ℕ
  deriving DecidableEq, Repr

/-- A file (`ManifestFile`). -/
structure ManifestFile where
  name : Str
  copy : Bool
  delta : Bool
  resume : Bool
  checksumPage : Bool
  checksumPageError : Bool
  mode : ℕ
  checksumSha1 : Option Bytes
  checksumRepoSha1 : Option Bytes
  checksumPageErrorList : Option Str
  user : Option Str
  group : Option Str
  reference : Option Str
  bundleId : ℕ
  bundleOffset : ℕ
  blockIncrSize : ℕ
  blockIncrChecksumSize : ℕ
  blockIncrMapSize : ℕ
  size : ℕ
  sizeOriginal : ℕ
  sizeRepo : ℕ
  timestamp : ℤ
  deriving DecidableEq, Repr

/-- A link (`ManifestLink`). -/
structure ManifestLink where
  name : Str
  destination : Str
  user : Option Str
  group : Option Str
  deriving DecidableEq, Repr

/-- A path (`ManifestPath`). -/
structure ManifestPath where
  name : Str
  mode : ℕ
  user : Option Str
  group : Option Str
  deriving DecidableEq, Repr

/-- The type of a target (`ManifestTargetType`). -/
inductive ManifestTargetType
  | path
  | link
  deriving DecidableEq, Repr

/-- A target (`ManifestTarget`). -/
structure ManifestTarget where
  name : Str
  type : ManifestTargetType
  path : Str
  file : Option Str
  tablespaceId : ℕ
  tablespaceName : Option Str
  deriving DecidableEq, Repr

/-- **A manifest** (`Manifest`). -/
structure Manifest where
  data : ManifestData
  dbList : List ManifestDb
  fileList : List ManifestFile
  linkList : List ManifestLink
  pathList : List ManifestPath
  targetList : List ManifestTarget
  referenceList : List Str
  deriving DecidableEq, Repr

/-- The path in the data directory of a path of the manifest
(`manifestPathPg`). -/
def manifestPathPg (manifestPath : Str) : Option Str :=
  if strBeginsWith manifestPath "pg_data/".toList then some (manifestPath.drop 8)
  else if manifestPath ≠ "pg_data".toList then some manifestPath
  else none

/-- The targets that files are looked up in, the base and the tablespaces:
`pg_data/` and the names of the others with a slash. -/
def Manifest.targetPathList (manifest : Manifest) : List Str :=
  "pg_data/".toList :: (manifest.targetList.filter (fun target => target.tablespaceId ≠ 0)).map
    (fun target => target.name ++ "/".toList)

/-- The manifest of an empty backup of PostgreSQL 16 of which only the
dependencies are set. -/
def Manifest.plain (label : Str) (type : BackupType) (prior : Option Str)
    (reference : List Str) : Manifest where
  data :=
    { backrestVersion := "2.59.0".toList
      backupLabel := label
      backupLabelPrior := prior
      backupTimestampCopyStart := 0
      backupTimestampStart := 0
      backupTimestampStop := 0
      backupType := type
      bundle := false
      bundleRaw := false
      blockIncr := false
      archiveStart := none
      archiveStop := none
      lsnStart := none
      lsnStop := none
      pgId := 1
      pgVersion := 160000
      pgSystemId := 6569239123849665679
      pgCatalogVersion := 202307071
      annotation := none
      backupOptionArchiveCheck := false
      backupOptionArchiveCopy := false
      backupOptionStandby := none
      backupOptionBufferSize := none
      backupOptionChecksumPage := none
      backupOptionCompressType := .none
      backupOptionCompressLevel := none
      backupOptionCompressLevelNetwork := none
      backupOptionDelta := none
      backupOptionHardLink := false
      backupOptionOnline := false
      backupOptionProcessMax := none }
  dbList := []
  fileList := []
  linkList := []
  pathList := []
  targetList := []
  referenceList := reference

end PgxBackup
