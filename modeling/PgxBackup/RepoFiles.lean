import PgxBackup.ExpireRepo
import PgxBackup.KeyValue

/-!
# The files of a repository

`backup.info` is stored twice, and so is the manifest of a backup: when the
file cannot be loaded the copy is tried. How the contents of a file are
written and read, through encryption, are parameters (`InfoBackupIo`).

A list that was loaded is brought in line with the manifests that exist, and
a manifest is loaded when its backup is not in the list.
-/

namespace PgxBackup

/-- `backup.info` with the passphrase of the files of the backups. -/
structure InfoBackupLoaded extends InfoBackup where
  cipherPass : Option Str
  deriving DecidableEq, Repr

/-- A key is in the annotations of a backup at most once. -/
def AnnotationDistinct ( annotation : Option Annotation) : Prop :=
  ∀ kv, annotation = some kv → (kvKeyList kv).Nodup

def AnnotationsDistinct (backup : List InfoBackupData) : Prop :=
  ∀ b ∈ backup, AnnotationDistinct b.backupAnnotation

/-- Reading and writing the contents of files with a passphrase, if the
repository is encrypted. A file may be stored differently each time it is
written, hence the number. -/
structure InfoBackupIo where
  /-- Decrypt and `infoBackupNewLoad`. -/
  infoBackupNewLoad : Option Str → Bytes → Except Error InfoBackupLoaded
  /-- `infoBackupSave` and encrypt. -/
  infoBackupSave : ℕ → Option Str → InfoBackupLoaded → Except Error Bytes
  /-- Decrypt and `manifestNewLoad`. -/
  manifestNewLoad : Option Str → Bytes → Except Error Manifest
  infoBackup_distinct : ∀ {pass bytes info}, infoBackupNewLoad pass bytes = .ok info →
    AnnotationsDistinct info.backup
  manifest_distinct : ∀ {pass bytes manifest}, manifestNewLoad pass bytes = .ok manifest →
    AnnotationDistinct manifest.data.annotation

structure BackupFiles where
  label : Str
  manifest : Option Bytes
  manifestCopy : Option Bytes
  deriving DecidableEq, Repr

/-- The backup part of a repository. -/
structure RepoFiles where
  /-- Where the backups are. -/
  path : Str
  /-- `repo-cipher-pass`, if the repository is encrypted. -/
  cipherPass : Option Str
  backupInfo : Option Bytes
  backupInfoCopy : Option Bytes
  paths : List BackupFiles
  deriving DecidableEq, Repr

/-- `INFO_COPY_EXT`. -/
def INFO_COPY_EXT : Str := ".copy".toList

/-! ## Loading a file or its copy -/

/-- Read a file that must exist. -/
def storageGet (path : Str) (file : Option Bytes) : Except Error Bytes :=
  match file with
  | some bytes => .ok bytes
  | none => .error ⟨.fileMissingError,
      "unable to open missing file '".toList ++ path ++ "' for read".toList⟩

/-- Add an error to those of the files that were tried. The type that is kept
is one that is not file missing, or a generic one if they differ. -/
def infoLoadError (error : Str) (loadError : Option Error) (e : Error) : Error :=
  let message := "\n".toList ++ errorTypeName e.type ++ ": ".toList ++ e.message
  match loadError with
  | none => ⟨e.type, error ++ ":".toList ++ message⟩
  | some l =>
    let type :=
      if l.type ≠ e.type then
        if l.type = .fileMissingError then e.type
        else if e.type ≠ .fileMissingError then .fileOpenError
        else l.type
      else l.type
    ⟨type, l.message ++ message⟩

/-- The loop of `infoLoad`: the files are tried until one is loaded. -/
def infoLoadLoop {α : Type} (error : Str) : Option Error → List (Except Error α) → Except Error α
  | some loadError, [] => .error loadError
  | none, [] => .error ⟨.assertError, "file load must be attempted".toList⟩
  | _, .ok a :: _ => .ok a
  | loadError, .error e :: files =>
    infoLoadLoop error (some (infoLoadError error loadError e)) files

/-- **Load a file or its copy** (`infoLoad`). -/
def infoLoad {α : Type} (error : Str) (file copy : Except Error α) : Except Error α :=
  infoLoadLoop error none [file, copy]

/-- `infoBackupLoadFile`. -/
def RepoFiles.infoBackupLoadFile (io : InfoBackupIo) (repo : RepoFiles) :
    Except Error InfoBackupLoaded :=
  let fileName := repo.path ++ "/backup.info".toList
  let load := fun (name : Str) (file : Option Bytes) => do
    let bytes ← storageGet name file
    let info ← io.infoBackupNewLoad repo.cipherPass bytes
    return { info with updated := false }
  match infoLoad ("unable to load info file '".toList ++ fileName ++ "' or '".toList ++ fileName
      ++ INFO_COPY_EXT ++ "'".toList) (load fileName repo.backupInfo)
      (load (fileName ++ INFO_COPY_EXT) repo.backupInfoCopy) with
  | .ok info => .ok info
  | .error e => .error ⟨e.type, e.message ++
      ("\nHINT: backup.info cannot be opened and is required to perform a backup.\n" ++
        "HINT: has a stanza-create been performed?").toList⟩

def RepoFiles.find (repo : RepoFiles) (label : Str) : Option BackupFiles :=
  repo.paths.find? (fun p => decide (p.label = label))

/-- Does `backup.manifest` exist? -/
def RepoFiles.manifestExists (repo : RepoFiles) (label : Str) : Bool :=
  ((repo.find label).bind BackupFiles.manifest).isSome

/-- `manifestLoadFile`. -/
def RepoFiles.manifestLoadFile (io : InfoBackupIo) (repo : RepoFiles) (cipherPass : Option Str)
    (label : Str) : Except Error Manifest :=
  let fileName := repo.path ++ "/".toList ++ label ++ "/backup.manifest".toList
  let load := fun (name : Str) (file : Option Bytes) => do
    let bytes ← storageGet name file
    io.manifestNewLoad cipherPass bytes
  infoLoad ("unable to load backup manifest file '".toList ++ fileName ++ "' or '".toList ++ fileName
      ++ INFO_COPY_EXT ++ "'".toList)
    (load fileName ((repo.find label).bind BackupFiles.manifest))
    (load (fileName ++ INFO_COPY_EXT) ((repo.find label).bind BackupFiles.manifestCopy))

/-! ## Reconstructing the list -/

/-- The labels of the backup directories. -/
def RepoFiles.diskLabels (repo : RepoFiles) : List Str :=
  (repo.paths.map BackupFiles.label).filter (backupRegExp backupAllRegExp)

/-- Remove a backup without a manifest and its dependents from the list. -/
def RepoFiles.removeMissing (repo : RepoFiles) (info : InfoBackup) (label : Str) : InfoBackup :=
  if !repo.manifestExists label && infoBackupLabelExists info label then
    (strLstSort (infoBackupDataDependentList info label) .desc).foldl infoBackupDataDelete info
  else info

/-- Add a backup of the repository that is not in the list if it is valid. -/
def RepoFiles.addFound (io : InfoBackupIo) (repo : RepoFiles) (cipherPass : Option Str)
    (backupCurrentList : List Str) (info : InfoBackup) (label : Str) : Except Error InfoBackup :=
  if label ∈ backupCurrentList then .ok info
  else if repo.manifestExists label then do
    let manifest ← repo.manifestLoadFile io cipherPass label
    if historyHas info.infoPg manifest.data && priorListed info manifest.data then
      infoBackupDataAdd info manifest
    else return info
  else .ok info

/-- **Load the backup list and bring it in line with the repository**
(`infoBackupLoadFileReconstruct`). -/
def RepoFiles.infoBackupLoadFileReconstruct (io : InfoBackupIo) (repo : RepoFiles) :
    Except Error InfoBackupLoaded := do
  let loaded ← repo.infoBackupLoadFile io
  let info := (strLstSort (infoBackupDataLabelList loaded.toInfoBackup none) .asc).foldl
    repo.removeMissing loaded.toInfoBackup
  let backupCurrentList := strLstSort (infoBackupDataLabelList info none) .asc
  let info ← (strLstSort repo.diskLabels .asc).foldlM
    (repo.addFound io loaded.cipherPass backupCurrentList) info
  return { info with cipherPass := loaded.cipherPass }

/-! ## Saving the list -/

/-- Put the contents of `backup.info` and of the copy. -/
def RepoFiles.putInfo (repo : RepoFiles) (bytes : Bytes) : RepoFiles :=
  { repo with backupInfo := some bytes, backupInfoCopy := some bytes }

/-- **Save the list** (`infoBackupSaveFile`) to a repository if it was
updated, with the passphrase that is given. The output is written to a
buffer first, so nothing is stored if it cannot be written. -/
def RepoFiles.infoBackupSaveFile (storage : RepoFiles) (io : InfoBackupIo) (number : ℕ)
    (info : InfoBackupLoaded) (cipherPass : Option Str) : Except Error RepoFiles :=
  if info.updated then do
    let bytes ← io.infoBackupSave number cipherPass info
    return storage.putInfo bytes
  else return storage

/-! ## Annotations of a list that was loaded -/

section Distinct

variable {io : InfoBackupIo} {repo : RepoFiles}

theorem infoLoad_cases {α : Type} {error : Str} {file copy : Except Error α} {a : α}
    (h : infoLoad error file copy = .ok a) : file = .ok a ∨ copy = .ok a := by
  cases file with
  | ok b => exact .inl h
  | error e =>
    cases copy with
    | ok b => exact .inr h
    | error e' => cases h

theorem distinct_load {info : InfoBackupLoaded} (h : repo.infoBackupLoadFile io = .ok info) :
    AnnotationsDistinct info.backup := by
  -- both files go through `infoBackupNewLoad`
  have hload (name : Str) (file : Option Bytes)
      (hfile : (do
        let bytes ← storageGet name file
        let info ← io.infoBackupNewLoad repo.cipherPass bytes
        return { info with updated := false }) = .ok info) : AnnotationsDistinct info.backup := by
    cases hget : storageGet name file with
    | error e => rw [hget] at hfile; cases hfile
    | ok bytes =>
      rw [hget] at hfile
      cases hnew : io.infoBackupNewLoad repo.cipherPass bytes with
      | error e =>
        have herror : (Except.error e : Except Error InfoBackupLoaded) = .ok info := by
          rw [← hfile]
          show _ = (io.infoBackupNewLoad repo.cipherPass bytes).bind _
          rw [hnew]
          rfl
        cases herror
      | ok loaded =>
        have hok : (Except.ok { loaded with updated := false } : Except Error InfoBackupLoaded)
            = .ok info := by
          rw [← hfile]
          show _ = (io.infoBackupNewLoad repo.cipherPass bytes).bind _
          rw [hnew]
          rfl
        cases hok
        show AnnotationsDistinct loaded.backup
        exact io.infoBackup_distinct hnew
  unfold RepoFiles.infoBackupLoadFile at h
  dsimp only at h
  split at h
  · rename_i loaded hinfo
    rw [Except.ok.inj h] at hinfo
    rcases infoLoad_cases hinfo with hfile | hfile
    · exact hload _ _ hfile
    · exact hload _ _ hfile
  · cases h

theorem distinct_manifest {cipherPass : Option Str} {label : Str} {manifest : Manifest}
    (h : repo.manifestLoadFile io cipherPass label = .ok manifest) :
    AnnotationDistinct manifest.data.annotation := by
  have hload (name : Str) (file : Option Bytes)
      (hfile : (do
        let bytes ← storageGet name file
        io.manifestNewLoad cipherPass bytes) = .ok manifest) :
      AnnotationDistinct manifest.data.annotation := by
    cases hget : storageGet name file with
    | error e => rw [hget] at hfile; cases hfile
    | ok bytes =>
      rw [hget] at hfile
      exact io.manifest_distinct hfile
  rcases infoLoad_cases h with hfile | hfile
  · exact hload _ _ hfile
  · exact hload _ _ hfile

section

variable {info : InfoBackup} (h : AnnotationsDistinct info.backup)
include h

theorem distinct_delete (label : Str) :
    AnnotationsDistinct (infoBackupDataDelete info label).backup := by
  intro b hb
  exact h b ((deleteLoop_sublist label info.backup).subset hb)

theorem distinct_deletes (labels : List Str) :
    AnnotationsDistinct (labels.foldl infoBackupDataDelete info).backup := by
  induction labels generalizing info with
  | nil => exact h
  | cons label labels ih => exact ih (distinct_delete h label)

theorem distinct_removeMissing (label : Str) :
    AnnotationsDistinct (repo.removeMissing info label).backup := by
  unfold RepoFiles.removeMissing
  split
  · exact distinct_deletes h _
  · exact h

theorem distinct_addFound {cipherPass : Option Str} {current : List Str} {info' : InfoBackup}
    {label : Str} (hadd : repo.addFound io cipherPass current info label = .ok info') :
    AnnotationsDistinct info'.backup := by
  unfold RepoFiles.addFound at hadd
  split at hadd
  · cases hadd
    exact h
  · split at hadd
    · cases hload : repo.manifestLoadFile io cipherPass label with
      | error e => rw [hload] at hadd; cases hadd
      | ok manifest =>
        rw [hload] at hadd
        dsimp only [bind, Except.bind] at hadd
        split at hadd
        · unfold infoBackupDataAdd at hadd
          split at hadd
          · cases hadd
          · cases hadd
            intro b hb
            rw [List.mem_insertionSort, List.mem_append, List.mem_singleton] at hb
            rcases hb with hold | hnew
            · exact h b hold
            · rw [hnew]
              exact distinct_manifest hload
        · cases hadd
          exact h
    · cases hadd
      exact h

end

/-- **A key is in the annotations of a backup of the list at most once.** -/
theorem distinct_reconstruct {info : InfoBackupLoaded}
    (h : repo.infoBackupLoadFileReconstruct io = .ok info) : AnnotationsDistinct info.backup := by
  unfold RepoFiles.infoBackupLoadFileReconstruct at h
  cases hload : repo.infoBackupLoadFile io with
  | error e => rw [hload] at h; cases h
  | ok loaded =>
    rw [hload] at h
    dsimp only [bind, Except.bind] at h
    have hmissing : AnnotationsDistinct
        ((strLstSort (infoBackupDataLabelList loaded.toInfoBackup none) .asc).foldl
          repo.removeMissing loaded.toInfoBackup).backup := by
      generalize strLstSort (infoBackupDataLabelList loaded.toInfoBackup none) .asc = labels
      have hloaded := distinct_load hload
      generalize loaded.toInfoBackup = start at hloaded ⊢
      induction labels generalizing start with
      | nil => exact hloaded
      | cons label labels ih => exact ih _ (distinct_removeMissing hloaded label)
    generalize (strLstSort (infoBackupDataLabelList loaded.toInfoBackup none) .asc).foldl
      repo.removeMissing loaded.toInfoBackup = start at hmissing h
    split at h
    · cases h
    · rename_i final hfinal
      cases h
      show AnnotationsDistinct final.backup
      generalize strLstSort (infoBackupDataLabelList start none) .asc = current at hfinal
      generalize strLstSort repo.diskLabels .asc = labels at hfinal
      induction labels generalizing start with
      | nil =>
        cases hfinal
        exact hmissing
      | cons label labels ih =>
        rw [List.foldlM_cons] at hfinal
        cases hadd : repo.addFound io loaded.cipherPass current start label with
        | error e => rw [hadd] at hfinal; cases hfinal
        | ok next =>
          rw [hadd] at hfinal
          exact ih next (distinct_addFound hmissing hadd) hfinal

end Distinct

end PgxBackup
