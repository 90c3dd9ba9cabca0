import PgxBackup.InfoBackup

/-!
# Expiring backups

The `expire` command drops backups from the list according to the retention
settings: full backups by count or by age, differential backups by count,
or one backup on request. Whatever picks the victim, the victim goes
together with every backup that depends on it (`expireBackup`), the newest
first, so that an interrupted run leaves no backup without its ancestors.

The state of a run is the backup list, the options of the repository (time
based retention sets one of them) and the storage operations performed so
far. A function that can fail returns the state it reached next to its
result: what was done before an error stays done.
-/

namespace PgxBackup

/-- The files of the repository that expiring backups touches. -/
inductive RepoFile
  | backupInfo
  | backupInfoCopy
  | manifest (label : Str)
  | manifestCopy (label : Str)
  deriving DecidableEq, Repr

inductive StorageOp
  | remove (file : RepoFile)
  | put (file : RepoFile) (info : InfoBackup)
  | pathRemove (label : Str)
  | linkLatest (label : Str)
  deriving DecidableEq, Repr

/-- The options of a repository that `expire` reads. -/
structure RepoOption where
  dryRun : Bool
  retentionFull : Option ℕ
  retentionFullTime : Bool
  retentionDiff : Option ℕ
  retentionArchive : Option ℕ
  retentionArchiveType : BackupType
  deriving DecidableEq, Repr

structure ExpireState where
  infoBackup : InfoBackup
  option : RepoOption
  storageOps : List StorageOp
  deriving DecidableEq, Repr

/-- The expression for the labels of full backups. -/
def fullRegExp : BackupRegExpParam := { full := true }

/-- The expression for the labels of full and differential backups. -/
def fullDiffRegExp : BackupRegExpParam := { full := true, differential := true }

/-- Remove the manifest files of a backup, unless this is a dry run, and
delete the backup from the list. -/
def expireOne (s : ExpireState) (label : Str) : ExpireState :=
  { s with
    infoBackup := infoBackupDataDelete s.infoBackup label
    storageOps :=
      if s.option.dryRun then s.storageOps
      else s.storageOps ++ [.remove (.manifest label), .remove (.manifestCopy label)] }

/-- **Expire a backup and all its dependents**, from newest to oldest, and
return the labels of the expired backups from oldest to newest. -/
def expireBackup (s : ExpireState) (label : Str) : ExpireState × List Str :=
  let backupList := strLstSort (infoBackupDataDependentList s.infoBackup label) .desc
  (backupList.foldl expireOne s, strLstSort backupList .asc)

/-- Expire the backups of a list one after the other and add up how many
backups that were. -/
def expireBackupList (s : ExpireState) (labels : List Str) : ExpireState × ℕ :=
  labels.foldl (fun (acc : ExpireState × ℕ) label =>
    let (s, backupExpired) := expireBackup acc.1 label
    (s, acc.2 + backupExpired.length)) (s, 0)

/-! ## Adhoc -/

/-- The last backup of the list. The index of an empty list wraps around. -/
def infoBackupDataLast (info : InfoBackup) : Except Error InfoBackupData :=
  lstGet info.backup (if info.backup.length = 0 then 2 ^ 32 - 1 else info.backup.length - 1)

/-- The latest full backup cannot be expired unless the full backup before
it is one of the same database. -/
def expireAdhocCheck (info : InfoBackup) (label : Str) : Except Error Unit := do
  let fullList := strLstSort (infoBackupDataLabelList info (some fullRegExp)) .desc
  let invalid : Error := ⟨.backupSetInvalidError, "full backup ".toList ++ label ++
    " cannot be expired until another full backup has been created on this repo".toList⟩
  if (← lstGet fullList 0) = label then
    if fullList.length = 1 then throw invalid
    let backup ← infoBackupDataByLabel info label
    let prior ← infoBackupDataByLabel info (← lstGet fullList 1)
    if backup.backupPgId ≠ prior.backupPgId then throw invalid

/-- **Expire a selected backup** and its dependents regardless of retention
(`expireAdhocBackup`). -/
def expireAdhocBackup (s : ExpireState) (label : Str) : ExpireState × Except Error ℕ :=
  match expireAdhocCheck s.infoBackup label, infoBackupDataLast s.infoBackup with
  | .error e, _ => (s, .error e)
  | .ok (), .error e => (s, .error e)
  | .ok (), .ok latestBackup =>
    let (s, backupExpired) := expireBackup s label
    if infoBackupLabelExists s.infoBackup latestBackup.backupLabel || s.option.dryRun then
      (s, .ok backupExpired.length)
    else
      -- the latest backup was removed, so the link to it is made anew
      match infoBackupDataLast s.infoBackup with
      | .error e => (s, .error e)
      | .ok latest =>
        ({ s with storageOps := s.storageOps ++ [.linkLatest latest.backupLabel] },
          .ok backupExpired.length)

/-! ## By count -/

/-- The labels of a list that are more than the number to retain. -/
def notRetained (currentBackupList : List Str) (retention : ℕ) : List Str :=
  currentBackupList.take (currentBackupList.length - retention)

/-- **Expire differential backups** (`expireDiffBackup`). Full backups only
count when deciding which differential backups to expire. -/
def expireDiffBackup (s : ExpireState) : ExpireState × ℕ :=
  let differentialRetention := s.option.retentionDiff.getD 0
  if differentialRetention > 0 then
    let currentBackupList := infoBackupDataLabelList s.infoBackup (some fullDiffRegExp)
    expireBackupList s
      ((notRetained currentBackupList differentialRetention).filter
        (fun label => !backupRegExp fullRegExp label))
  else (s, 0)

/-- **Expire full backups** by count (`expireFullBackup`). -/
def expireFullBackup (s : ExpireState) : ExpireState × ℕ :=
  let fullRetention := s.option.retentionFull.getD 0
  if fullRetention > 0 then
    let currentBackupList := infoBackupDataLabelList s.infoBackup (some fullRegExp)
    expireBackupList s (notRetained currentBackupList fullRetention)
  else (s, 0)

/-! ## By age -/

/-- From newest to oldest, the first full backup that stopped before the
time. -/
def retentionMet (info : InfoBackup) (minTimestamp : ℤ) : List Str → Except Error (Option Str)
  | [] => .ok none
  | label :: labels => do
    let backup ← infoBackupDataByLabel info label
    if backup.backupTimestampStop < minTimestamp then .ok (some backup.backupLabel)
    else retentionMet info minTimestamp labels

/-- Expire the first backup of the list until it is the one to retain,
counting the expired backups and the rounds. Each round removes the first
backup, so the length of the list bounds the number of rounds
(`expireUntil_eq`). -/
def expireUntil (retentionMetLabel : Str) :
    ℕ → ExpireState → ℕ × ℕ → ExpireState × Except Error (ℕ × ℕ)
  | fuel, s, (result, numFullExpired) =>
    match lstGet s.infoBackup.backup 0 with
    | .error e => (s, .error e)
    | .ok backup =>
      if backup.backupLabel = retentionMetLabel then (s, .ok (result, numFullExpired))
      else
        match fuel with
        | 0 => (s, .error ⟨.assertError, "out of fuel".toList⟩)
        | fuel + 1 =>
          let (s, backupExpired) := expireBackup s backup.backupLabel
          expireUntil retentionMetLabel fuel s
            (result + backupExpired.length, numFullExpired + 1)

/-- Set the archive retention, if it is not set, to the number of full
backups retained. -/
def archiveRetentionSet (option : RepoOption) (retained : ℕ) : RepoOption :=
  if option.retentionArchiveType = .full ∧ option.retentionArchive = none then
    { option with retentionArchive := some retained }
  else option

/-- **Expire backups based on time** (`expireTimeBasedBackup`). -/
def expireTimeBasedBackup (s : ExpireState) (minTimestamp : ℤ) :
    ExpireState × Except Error ℕ :=
  let currentBackupList :=
    strLstSort (infoBackupDataLabelList s.infoBackup (some fullRegExp)) .asc
  match retentionMet s.infoBackup minTimestamp currentBackupList.reverse with
  | .error e => (s, .error e)
  | .ok none => (s, .ok 0)
  | .ok (some retentionMetLabel) =>
    match expireUntil retentionMetLabel s.infoBackup.backup.length s (0, 0) with
    | (s, .error e) => (s, .error e)
    | (s, .ok (result, numFullExpired)) =>
      let retained := (currentBackupList.length + 2 ^ 32 - numFullExpired) % 2 ^ 32
      ({ s with option := archiveRetentionSet s.option retained }, .ok result)

end PgxBackup
