import PgxBackup.Convert
import PgxBackup.ExpireClosed

/-!
# Expiring WAL archives

WAL segments are stored below the archive id of their cluster (version and
db id), in directories named by the first 16 characters of the segment
name. Archive retention picks, for every archive id, the backup from which
on all WAL is retained; of the WAL before it only the ranges that make
older backups consistent are kept. Whole directories are removed where
possible, and single files in the directories that hold both kinds.

Nothing here looks at the contents of the repository but for the names of
the directories and files below an archive id, so these are the model of
the disk, and the result is the list of removals.
-/

namespace PgxBackup

/-- A major WAL path and the names of the files in it. -/
structure WalPath where
  path : Str
  file : List Str
  deriving DecidableEq, Repr

/-- The directory of an archive id: major WAL paths and the files beside
them. -/
structure ArchivePath where
  archiveId : Str
  walPath : List WalPath
  file : List Str
  deriving DecidableEq, Repr

/-- A removal in the archive. -/
inductive ArchiveOp
  | pathRemove (archiveId : Str)
  | walPathRemove (archiveId walPath : Str)
  | walRemove (archiveId walPath wal : Str)
  | historyRemove (archiveId history : Str)
  deriving DecidableEq, Repr

/-- The archive id that a removal is below. -/
def ArchiveOp.archiveId : ArchiveOp → Str
  | .pathRemove archiveId => archiveId
  | .walPathRemove archiveId _ => archiveId
  | .walRemove archiveId _ _ => archiveId
  | .historyRemove archiveId _ => archiveId

/-! ## Archive ids -/

/-- A PostgreSQL version as text (`pgVersionToStr`). -/
def pgVersionToStr (version : ℕ) : Str :=
  if version ≥ 100000 then Nat.toDigits 10 (version / 10000)
  else Nat.toDigits 10 (version / 10000) ++ '.' :: Nat.toDigits 10 (version % 10000 / 100)

/-- The archive id of a cluster (`infoPgArchiveId`). -/
def infoPgArchiveId (pg : InfoPgData) : Str :=
  pgVersionToStr pg.version ++ '-' :: Nat.toDigits 10 pg.id

/-- The characters behind the last dash (`strrchr(archiveId, '-') + 1`). -/
def afterLastDash (s : Str) : Str := (s.reverse.takeWhile (· ≠ '-')).reverse

/-- The current cluster (`infoPgDataCurrent`). -/
def infoPgDataCurrent (infoPg : InfoPg) : Except Error InfoPgData :=
  lstGet infoPg.history infoPg.historyCurrent

/-- The archive directories are sorted by the number behind the first dash,
which must be an `int` when there are at least two directories to compare
(`archiveIdComparator`). The order itself is of no consequence. -/
def listArchiveDisk (disk : List ArchivePath) : Except Error Unit :=
  if 2 ≤ disk.length then
    disk.forM (fun a => do
      let _ ← cvtZToInt ((a.archiveId.dropWhile (· ≠ '-')).drop 1))
  else .ok ()

/-! ## Names -/

/-- A character of `[0-F]`. -/
def isWalChr (c : Char) : Bool := decide ('0' ≤ c ∧ c ≤ 'F')

/-- `WAL_SEGMENT_DIR_REGEXP`: `^[0-F]{16}$`. -/
def walSegmentDirRegExp (s : Str) : Bool := s.length == 16 && s.all isWalChr

/-- `^[0-F]{24}.*$`. -/
def walSegmentPrefixRegExp (s : Str) : Bool :=
  (s.take 24).length == 24 && (s.take 24).all isWalChr

/-- `WAL_TIMELINE_HISTORY_REGEXP`: `^[0-F]{8}.history$`. -/
def walTimelineHistoryRegExp (s : Str) : Bool :=
  s.length == 16 && (s.take 8).all isWalChr && s.drop 9 == "history".toList

def walSegment (file : Str) : Str := strSubN file 0 24

/-- The expression for the labels that count for archive retention. -/
def archiveRetentionRegExp : BackupType → BackupRegExpParam
  | .full => fullRegExp
  | .diff => fullDiffRegExp
  | .incr => { full := true, differential := true, incremental := true }

/-! ## The backup selected for retention -/

/-- From oldest to newest, the labels of the list that belong to the db id. -/
def localBackupRetentionList (info : InfoBackup) (globalBackupRetentionList : List Str)
    (archivePgId : ℕ) : List Str :=
  globalBackupRetentionList.reverse.flatMap (fun label =>
    (info.backup.filter (fun b =>
      decide (b.backupLabel = label ∧ b.backupPgId = archivePgId))).map
        InfoBackupData.backupLabel)

/-- From oldest to newest, the local backups that are part of archive
retention. -/
def localBackupArchiveRetentionList (globalBackupArchiveRetentionList : List Str)
    (localList : List Str) : List Str :=
  globalBackupArchiveRetentionList.reverse.flatMap (fun label =>
    localList.filter (fun l => decide (label = l)))

/-- The label of the backup selected for retention: the oldest local backup
that is part of archive retention, else the newest local backup. -/
def archiveRetentionLabel (globalBackupArchiveRetentionList : List Str)
    (localList : List Str) : Option Str :=
  match localBackupArchiveRetentionList globalBackupArchiveRetentionList localList with
  | [] => localList.getLast?
  | label :: _ => some label

/-- The backup data with a label: the last one of the list that has it. -/
def archiveRetentionBackup (info : InfoBackup) (label : Str) : Option InfoBackupData :=
  (info.backup.filter (fun b => decide (b.backupLabel = label))).getLast?

/-! ## Ranges to preserve -/

/-- A range of WAL, without end if there is no stop. -/
structure ArchiveRange where
  start : Str
  stop : Option Str
  deriving DecidableEq, Repr

def inRange (start : Str) (stop : Option Str) (name : Str) : Bool :=
  decide (start ≤ name) && stop.all (fun stop => decide (name ≤ stop))

/-- Does the range reach into the major WAL path? -/
def ArchiveRange.containsPath (range : ArchiveRange) (walPath : Str) : Bool :=
  inRange (strSubN range.start 0 16) (range.stop.map (fun stop => strSubN stop 0 16)) walPath

def ArchiveRange.containsSegment (range : ArchiveRange) (segment : Str) : Bool :=
  inRange range.start range.stop segment

/-- The ranges to preserve: of the retention backup from its start on, of
older backups their own range. -/
def archiveRangeList (archiveIdBackupList : List InfoBackupData)
    (retention : InfoBackupData) : List ArchiveRange :=
  archiveIdBackupList.filterMap (fun b =>
    if b.backupLabel ≤ retention.backupLabel then
      b.backupArchiveStart.map (fun start =>
        { start := start
          stop := if b.backupLabel ≠ retention.backupLabel then b.backupArchiveStop else none })
    else none)

/-- The archive start of the retention backup, where it is found among the
backups of the archive id. -/
def archiveExpireMax (archiveIdBackupList : List InfoBackupData)
    (retention : InfoBackupData) : Str :=
  ((archiveIdBackupList.filter (fun b =>
    decide (b.backupLabel = retention.backupLabel))).getLast?.bind
      InfoBackupData.backupArchiveStart).getD []

/-- The removals in one major WAL path: the path itself when no range
reaches into it, else the files outside the ranges, unless the path is
beyond the start of the retention backup. -/
def removeWalPath (archiveId : Str) (ranges : List ArchiveRange) (expireMax : Str)
    (w : WalPath) : List ArchiveOp :=
  if !ranges.any (fun range => range.containsPath w.path) then
    [.walPathRemove archiveId w.path]
  else if w.path ≤ strSubN expireMax 0 16 then
    ((strLstSort (w.file.filter walSegmentPrefixRegExp) .asc).filter (fun file =>
      !ranges.any (fun range => range.containsSegment (walSegment file)))).map
        (.walRemove archiveId w.path)
  else []

/-- History files of timelines before the one the retention backup starts
on are removed. -/
def removeHistory (archiveId start : Str) (files : List Str) : List ArchiveOp :=
  ((strLstSort (files.filter walTimelineHistoryRegExp) .asc).filter (fun file =>
    decide (strSubN file 0 8 < strSubN start 0 8))).map (.historyRemove archiveId)

/-- The removals below an archive id once the retention backup is known. -/
def removeArchiveRange (info : InfoBackup) (archivePgId : ℕ) (retention : InfoBackupData)
    (a : ArchivePath) : List ArchiveOp :=
  match retention.backupArchiveStart with
  | none => []
  | some start =>
    let archiveIdBackupList :=
      info.backup.filter (fun b => decide (b.backupPgId = archivePgId))
    let ranges := archiveRangeList archiveIdBackupList retention
    let expireMax := archiveExpireMax archiveIdBackupList retention
    (a.walPath.filter (fun w => walSegmentDirRegExp w.path)).flatMap
        (removeWalPath a.archiveId ranges expireMax)
      ++ removeHistory a.archiveId start a.file

/-- The removals below one archive id. -/
def removeArchiveId (info : InfoBackup) (infoArchivePg : InfoPg)
    (globalBackupRetentionList : List Str) (archiveRetention : ℕ) (a : ArchivePath) :
    Except Error (List ArchiveOp) := do
  let archivePgId ← cvtZToUInt (afterLastDash a.archiveId)
  let localList := localBackupRetentionList info globalBackupRetentionList archivePgId
  match archiveRetentionLabel (globalBackupRetentionList.take archiveRetention) localList with
  | none =>
    let currentPg ← infoPgDataCurrent infoArchivePg
    if currentPg.id ≠ archivePgId then .ok [.pathRemove a.archiveId] else .ok []
  | some label =>
    match archiveRetentionBackup info label with
    | none => .ok []
    | some retention => .ok (removeArchiveRange info archivePgId retention a)

/-- The loop over the archive history, from oldest to newest: an archive id
without a directory is skipped. -/
def removeArchiveLoop (remove : ArchivePath → Except Error (List ArchiveOp))
    (disk : List ArchivePath) : List InfoPgData → List ArchiveOp × Except Error Unit
  | [] => ([], .ok ())
  | pg :: history =>
    match disk.find? (fun a => decide (infoPgArchiveId pg = a.archiveId)) with
    | none => removeArchiveLoop remove disk history
    | some a =>
      match remove a with
      | .error e => ([], .error e)
      | .ok ops =>
        let (rest, result) := removeArchiveLoop remove disk history
        (ops ++ rest, result)

/-- Do the archive and backup histories match? -/
def historyCheck (infoArchivePg infoBackupPg : InfoPg) : Except Error Unit :=
  (List.range infoArchivePg.history.length).forM (fun idx => do
    let archiveInfoPgHistory ← lstGet infoArchivePg.history idx
    let backupInfoPgHistory ← lstGet infoBackupPg.history idx
    if archiveInfoPgHistory.id ≠ backupInfoPgHistory.id ∨
        archiveInfoPgHistory.systemId ≠ backupInfoPgHistory.systemId ∨
        archiveInfoPgHistory.version ≠ backupInfoPgHistory.version then
      throw (⟨.formatError, ("archive expiration cannot continue - archive and backup " ++
        "history lists do not match").toList⟩ : Error))

/-- **Process archive retention** (`removeExpiredArchive`): the removals and
whether an error ended them. -/
def removeExpiredArchive (info : InfoBackup) (option : RepoOption) (infoArchivePg : InfoPg)
    (disk : List ArchivePath) : List ArchiveOp × Except Error Unit :=
  let archiveRetention := option.retentionArchive.getD 0
  let globalBackupRetentionList := strLstSort
    (infoBackupDataLabelList info (some (archiveRetentionRegExp option.retentionArchiveType))) .desc
  if archiveRetention = 0 ∨ globalBackupRetentionList.length < archiveRetention then
    ([], .ok ())
  else
    match listArchiveDisk disk, historyCheck infoArchivePg info.infoPg with
    | .error e, _ => ([], .error e)
    | .ok (), .error e => ([], .error e)
    | .ok (), .ok () =>
      let (ops, result) := removeArchiveLoop
        (removeArchiveId info infoArchivePg globalBackupRetentionList archiveRetention)
        disk infoArchivePg.history.reverse
      (if option.dryRun then [] else ops, result)

end PgxBackup
