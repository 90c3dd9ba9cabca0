import PgxBackup.Expire

/-!
# An expire run on a repository

What an expire run does to the repository, as a list of storage operations:
the manifest files of the expired backups are removed, the new backup list
is saved with its copy, and the directories of backups that are not in the
list are removed. The list that a run starts from is the stored one brought
in line with the manifests on disk (`infoBackupLoadFileReconstruct`), which
is what makes up for a run that was cut short.

The repository is `backup.info`, its copy and the backup directories with
their manifest and its copy. The link to the latest backup is informational
only and is left out; so are the WAL archive and the backup history.
-/

namespace PgxBackup

/-- A backup directory: its manifest and the copy of it, where they exist. -/
structure BackupPath where
  label : Str
  manifest : Option Manifest
  manifestCopy : Option Manifest
  deriving DecidableEq, Repr

/-- The backup part of a repository. -/
structure Repo where
  backupInfo : InfoBackup
  backupInfoCopy : InfoBackup
  paths : List BackupPath
  deriving DecidableEq, Repr

/-- The contents of `backup.manifest` of a backup, if the file exists. -/
def Repo.manifest (repo : Repo) (label : Str) : Option Manifest :=
  (repo.paths.find? (fun p => decide (p.label = label))).bind BackupPath.manifest

/-- The contents of `backup.manifest.copy` of a backup, if the file exists. -/
def Repo.manifestCopy (repo : Repo) (label : Str) : Option Manifest :=
  (repo.paths.find? (fun p => decide (p.label = label))).bind BackupPath.manifestCopy

/-- Change the directory of a label. -/
def Repo.updatePath (repo : Repo) (label : Str) (f : BackupPath → BackupPath) : Repo :=
  { repo with paths := repo.paths.map (fun p => if p.label = label then f p else p) }

/-- The effect of a storage operation. Whether a list was updated is not
part of the file. -/
def Repo.apply (repo : Repo) : StorageOp → Repo
  | .remove (.manifest label) => repo.updatePath label (fun p => { p with manifest := none })
  | .remove (.manifestCopy label) =>
    repo.updatePath label (fun p => { p with manifestCopy := none })
  | .remove .backupInfo => repo
  | .remove .backupInfoCopy => repo
  | .put .backupInfo info => { repo with backupInfo := { info with updated := false } }
  | .put .backupInfoCopy info => { repo with backupInfoCopy := { info with updated := false } }
  | .put (.manifest _) _ => repo
  | .put (.manifestCopy _) _ => repo
  | .pathRemove label =>
    { repo with paths := repo.paths.filter (fun p => decide (p.label ≠ label)) }
  | .linkLatest _ => repo

/-- The repository after a sequence of operations. -/
def Repo.run (repo : Repo) (ops : List StorageOp) : Repo := ops.foldl Repo.apply repo

/-! ## Reconstructing the backup list -/

/-- The expression for the labels of all backups. -/
def backupAllRegExp : BackupRegExpParam :=
  { full := true, differential := true, incremental := true }

/-- The labels of the backup directories. -/
def Repo.diskLabels (repo : Repo) : List Str :=
  (repo.paths.map BackupPath.label).filter (backupRegExp backupAllRegExp)

/-- Remove a backup without a manifest and its dependents from the list. -/
def removeMissing (repo : Repo) (info : InfoBackup) (label : Str) : InfoBackup :=
  if (repo.manifest label).isNone && infoBackupLabelExists info label then
    (strLstSort (infoBackupDataDependentList info label) .desc).foldl infoBackupDataDelete info
  else info

def historyHas (infoPg : InfoPg) (manData : ManifestData) : Bool :=
  infoPg.history.any (fun pgHistory => decide (manData.pgId = pgHistory.id ∧
    manData.pgSystemId = pgHistory.systemId ∧ manData.pgVersion = pgHistory.version))

def priorListed (info : InfoBackup) (manData : ManifestData) : Bool :=
  match manData.backupLabelPrior with
  | none => true
  | some prior => infoBackupLabelExists info prior

/-- Add a backup of the repository that is not in the list if it is valid. -/
def addFound (repo : Repo) (backupCurrentList : List Str) (info : InfoBackup) (label : Str) :
    Except Error InfoBackup :=
  if label ∈ backupCurrentList then .ok info
  else
    match repo.manifest label with
    | none => .ok info
    | some manifest =>
      if historyHas info.infoPg manifest.data && priorListed info manifest.data then
        infoBackupDataAdd info manifest
      else .ok info

/-- Load the backup list (`infoBackupLoadFile`). -/
def infoBackupLoadFile (repo : Repo) : InfoBackup :=
  { repo.backupInfo with updated := false }

/-- **Load the backup list and bring it in line with the repository**
(`infoBackupLoadFileReconstruct`). -/
def infoBackupLoadFileReconstruct (repo : Repo) : Except Error InfoBackup :=
  let info := infoBackupLoadFile repo
  let info := (strLstSort (infoBackupDataLabelList info none) .asc).foldl
    (removeMissing repo) info
  let backupCurrentList := strLstSort (infoBackupDataLabelList info none) .asc
  (strLstSort repo.diskLabels .asc).foldlM (addFound repo backupCurrentList) info

/-! ## Removing directories -/

/-- Is the latest backup on disk resumable and not to be removed? It is when
it has only the copy of a manifest, unless it may depend on the backup that
was expired on request and its own prior is gone. -/
def resumableKept (repo : Repo) (info : InfoBackup) (adhocBackupLabel : Option Str)
    (latest : Str) : Bool :=
  match adhocBackupLabel, repo.manifest latest, repo.manifestCopy latest with
  | some adhoc, none, some manifestResume =>
    !strBeginsWith latest (strSubN adhoc 0 16) ||
      match manifestResume.data.backupLabelPrior with
      | none => false
      | some prior => infoBackupLabelExists info prior
  | _, _, _ => false

/-- **Remove the directories of backups that are not in the list**
(`removeExpiredBackup`). -/
def removeExpiredBackup (repo : Repo) (info : InfoBackup) (adhocBackupLabel : Option Str) :
    List StorageOp :=
  let backupList := strLstSort repo.diskLabels .desc
  let backupList :=
    match backupList with
    | [] => []
    | latest :: rest =>
      if resumableKept repo info adhocBackupLabel latest then rest else latest :: rest
  (backupList.filter (fun label => decide (label ∉ info.labels))).map .pathRemove

/-! ## The run -/

/-- What to expire: one backup on request (`--set`), or by retention, with
the oldest full backup on request (`--oldest`). -/
inductive ExpireMode
  | adhoc (label : Str)
  | retention (oldest : Bool)
  deriving DecidableEq, Repr

/-- The label given on request. -/
def ExpireMode.adhocLabel : ExpireMode → Option Str
  | .adhoc label => some label
  | .retention _ => none

/-- Seconds in a day (`SEC_PER_DAY`). -/
def SEC_PER_DAY : ℕ := 86400

/-- Lower retention so that the oldest full backup is expired. -/
def expireOldest (info : InfoBackup) (option : RepoOption) : RepoOption :=
  let fullLstSize := (infoBackupDataLabelList info (some fullRegExp)).length
  if fullLstSize > 1 then
    { option with
      retentionFull := some (fullLstSize - 1)
      retentionFullTime := false
      retentionArchive := some (fullLstSize - 1)
      retentionArchiveType := .full }
  else option

/-- Expire full backups by age or by count, as the options say. -/
def expireFullOrTime (s : ExpireState) (time : ℤ) : ExpireState × Except Error ℕ :=
  if s.option.retentionFullTime then
    match s.option.retentionFull with
    | some days => expireTimeBasedBackup s (time - (days * SEC_PER_DAY : ℕ))
    | none => (s, .ok 0)
  else
    let (s, result) := expireFullBackup s
    (s, .ok result)

/-- The part of a run that picks and expires backups. -/
def expireMode (s : ExpireState) (time : ℤ) : ExpireMode → ExpireState × Except Error ℕ
  | .adhoc label =>
    if infoBackupLabelExists s.infoBackup label then expireAdhocBackup s label
    else (s, .ok 0)
  | .retention oldest =>
    let s := if oldest then { s with option := expireOldest s.infoBackup s.option } else s
    match expireFullOrTime s time with
    | (s, .error e) => (s, .error e)
    | (s, .ok result) =>
      let (s, resultDiff) := expireDiffBackup s
      (s, .ok (result + resultDiff))

/-- Save the list and its copy if it was updated (`infoBackupSaveFile`). -/
def infoBackupSaveFile (info : InfoBackup) : List StorageOp :=
  if info.updated then [.put .backupInfo info, .put .backupInfoCopy info] else []

/-- **An expire run on one repository** (`cmdExpire`), as the storage
operations it performs. An error ends the run; the label given on request
must have the format of a label. -/
def cmdExpire (repo : Repo) (option : RepoOption) (time : ℤ) (mode : ExpireMode) :
    List StorageOp :=
  if mode.adhocLabel.all (backupRegExp backupAllRegExp) then
    match infoBackupLoadFileReconstruct repo with
    | .error _ => []
    | .ok info =>
      match expireMode ⟨info, option, []⟩ time mode with
      | (s, .error _) => s.storageOps
      | (s, .ok _) =>
        let ops := s.storageOps ++
          if option.dryRun then [] else infoBackupSaveFile s.infoBackup
        ops ++
          if option.dryRun then []
          else removeExpiredBackup (repo.run ops) s.infoBackup mode.adhocLabel
  else []

end PgxBackup
