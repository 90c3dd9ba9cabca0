import PgxBackup.BackupLabel
import PgxBackup.DepClosure
import PgxBackup.Manifest

/-!
# The list of backups

`backup.info` lists the backups of a repository in label order, each with
the label of the backup it is based on (`backupPrior`) and the labels of
the backups its files are stored in (`backupReference`). Commands add a
backup made from its manifest, delete backups by label and collect the
backups that depend on a given one.
-/

namespace PgxBackup

open List

/-- A PostgreSQL cluster of the stanza's history (`InfoPgData`). -/
structure InfoPgData where
  id : ℕ
  systemId : ℕ
  catalogVersion : ℕ
  version : ℕ
  controlVersion : ℕ
  deriving DecidableEq, Repr

/-- The history of clusters, the newest first, and which of them is the
current one (`InfoPg`). -/
structure InfoPg where
  history : List InfoPgData
  historyCurrent : ℕ
  deriving DecidableEq, Repr

/-- What `backup.info` records of a backup (`InfoBackupData`). -/
structure InfoBackupData where
  backupLabel : Str
  backrestFormat : ℕ
  backrestVersion : Str
  backupAnnotation : Option Annotation
  backupArchiveStart : Option Str
  backupArchiveStop : Option Str
  backupInfoRepoSize : ℕ
  backupInfoRepoSizeDelta : ℕ
  backupInfoRepoSizeMap : Option ℕ
  backupInfoRepoSizeMapDelta : Option ℕ
  backupInfoSize : ℕ
  backupInfoSizeDelta : ℕ
  backupLsnStart : Option Str
  backupLsnStop : Option Str
  backupPgId : ℕ
  backupPrior : Option Str
  backupReference : Option (List Str)
  backupTimestampStart : ℤ
  backupTimestampStop : ℤ
  backupType : BackupType
  backupError : Option Bool
  optionArchiveCheck : Bool
  optionArchiveCopy : Bool
  optionBackupStandby : Bool
  optionChecksumPage : Bool
  optionCompress : Bool
  optionHardlink : Bool
  optionOnline : Bool
  deriving DecidableEq, Repr

/-- The labels that a backup references, none when the list is `NULL`. -/
def InfoBackupData.references (b : InfoBackupData) : List Str :=
  b.backupReference.getD []

/-- A backup of database 1 of which only the dependencies are set. -/
def InfoBackupData.plain (label : Str) (type : BackupType) (prior : Option Str)
    (reference : Option (List Str)) : InfoBackupData where
  backupLabel := label
  backrestFormat := 5
  backrestVersion := "2.59.0".toList
  backupAnnotation := none
  backupArchiveStart := none
  backupArchiveStop := none
  backupInfoRepoSize := 0
  backupInfoRepoSizeDelta := 0
  backupInfoRepoSizeMap := none
  backupInfoRepoSizeMapDelta := none
  backupInfoSize := 0
  backupInfoSizeDelta := 0
  backupLsnStart := none
  backupLsnStop := none
  backupPgId := 1
  backupPrior := prior
  backupReference := reference
  backupTimestampStart := 0
  backupTimestampStop := 0
  backupType := type
  backupError := none
  optionArchiveCheck := false
  optionArchiveCopy := false
  optionBackupStandby := false
  optionChecksumPage := false
  optionCompress := false
  optionHardlink := false
  optionOnline := false

/-- The contents of `backup.info` (`InfoBackup`). -/
structure InfoBackup where
  infoPg : InfoPg
  backup : List InfoBackupData
  updated : Bool
  deriving DecidableEq, Repr

def InfoBackup.labels (info : InfoBackup) : List Str :=
  info.backup.map InfoBackupData.backupLabel

/-- `REPOSITORY_FORMAT`. -/
def REPOSITORY_FORMAT : ℕ := 5

def infoBackupLabelExists (info : InfoBackup) (label : Str) : Bool :=
  info.backup.any (fun b => b.backupLabel == label)

def infoBackupDataByLabel (info : InfoBackup) (label : Str) : Except Error InfoBackupData :=
  match info.backup.find? (fun b => b.backupLabel == label) with
  | some b => .ok b
  | none => .error ⟨.assertError,
      "assertion 'infoBackupLabelExists(this, backupLabel)' failed".toList⟩

/-! ## Adding a backup -/

/-- The size a file takes in the repository. -/
def repoSize (file : ManifestFile) : ℕ :=
  if file.sizeRepo > 0 then file.sizeRepo else file.size

/-- A sum over files in 64 bits. -/
def sumUInt64 (files : List ManifestFile) (f : ManifestFile → ℕ) : ℕ :=
  files.foldl (fun acc file => (acc + f file) % 2 ^ 64) 0

/-- The reference list of a diff or incr manifest without the backup itself,
which is its last item. -/
def backupReferenceNew (manifest : Manifest) : List Str :=
  (strLstSort manifest.referenceList .asc).dropLast

/-- The entry that `infoBackupDataAdd` makes from a manifest. -/
def infoBackupDataNew (manifest : Manifest) : InfoBackupData :=
  let manData := manifest.data
  let delta := manifest.fileList.filter (fun file => file.reference.isNone)
  { backupLabel := manData.backupLabel
    backrestFormat := REPOSITORY_FORMAT
    backrestVersion := manData.backrestVersion
    backupAnnotation := manData.annotation
    backupArchiveStart := manData.archiveStart
    backupArchiveStop := manData.archiveStop
    backupInfoRepoSize := sumUInt64 manifest.fileList repoSize
    backupInfoRepoSizeDelta := sumUInt64 delta repoSize
    backupInfoRepoSizeMap :=
      if manData.blockIncr then
        some (sumUInt64 manifest.fileList ManifestFile.blockIncrMapSize)
      else none
    backupInfoRepoSizeMapDelta :=
      if manData.blockIncr then some (sumUInt64 delta ManifestFile.blockIncrMapSize)
      else none
    backupInfoSize := sumUInt64 manifest.fileList ManifestFile.size
    backupInfoSizeDelta := sumUInt64 delta ManifestFile.size
    backupLsnStart := manData.lsnStart
    backupLsnStop := manData.lsnStop
    backupPgId := manData.pgId
    backupPrior := if manData.backupType = .full then none else manData.backupLabelPrior
    backupReference :=
      if manData.backupType = .full then none else some (backupReferenceNew manifest)
    backupTimestampStart := manData.backupTimestampStart
    backupTimestampStop := manData.backupTimestampStop
    backupType := manData.backupType
    backupError := some (manifest.fileList.any ManifestFile.checksumPageError)
    optionArchiveCheck := manData.backupOptionArchiveCheck
    optionArchiveCopy := manData.backupOptionArchiveCopy
    optionBackupStandby := manData.backupOptionStandby.getD false
    optionChecksumPage := manData.backupOptionChecksumPage.getD false
    optionCompress := manData.backupOptionCompressType ≠ .none
    optionHardlink := manData.backupOptionHardLink
    optionOnline := manData.backupOptionOnline }

/-- The order of the backup list. -/
def labelLe (a b : InfoBackupData) : Prop := a.backupLabel ≤ b.backupLabel

instance : DecidableRel labelLe := fun a b =>
  inferInstanceAs (Decidable (a.backupLabel ≤ b.backupLabel))

instance : Std.Total labelLe := ⟨fun a b => le_total a.backupLabel b.backupLabel⟩

instance : IsTrans InfoBackupData labelLe := ⟨fun _ _ _ hab hbc => le_trans hab hbc⟩

/-- **Add a backup to the list** (`infoBackupDataAdd`). The last reference of
a diff or incr must be the backup itself. -/
def infoBackupDataAdd (info : InfoBackup) (manifest : Manifest) : Except Error InfoBackup :=
  if manifest.data.backupType ≠ .full ∧
      (strLstSort manifest.referenceList .asc).getLast? ≠ some manifest.data.backupLabel then
    .error ⟨.assertError, ("assertion 'strEq( strLstGet(infoBackupData.backupReference, " ++
      "strLstSize(infoBackupData.backupReference) - 1), infoBackupData.backupLabel)' failed").toList⟩
  else
    .ok { info with
      backup := (info.backup ++ [infoBackupDataNew manifest]).insertionSort labelLe
      updated := true }

/-! ## Deleting a backup -/

/-- The loop of `infoBackupDataDelete`: after an entry is removed the index
still moves on, so the entry behind it is not looked at. -/
def deleteLoop (label : Str) : List InfoBackupData → List InfoBackupData
  | [] => []
  | [b] => if b.backupLabel = label then [] else [b]
  | b :: c :: l =>
    if b.backupLabel = label then c :: deleteLoop label l
    else b :: deleteLoop label (c :: l)

/-- **Delete a backup from the list** (`infoBackupDataDelete`). -/
def infoBackupDataDelete (info : InfoBackup) (label : Str) : InfoBackup :=
  { info with backup := deleteLoop label info.backup, updated := true }

/-! ## Labels and dependents -/

/-- The labels that match an expression, all of them without one
(`infoBackupDataLabelList`). -/
def infoBackupDataLabelList (info : InfoBackup) (expression : Option BackupRegExpParam) :
    List Str :=
  info.labels.filter (fun label =>
    match expression with
    | none => true
    | some param => backupRegExp param label)

/-- **A backup and the backups that depend on it**
(`infoBackupDataDependentList`): one pass over the list that adds each
backup whose prior has been added. -/
def infoBackupDataDependentList (info : InfoBackup) (label : Str) : List Str :=
  DepClosure.collect InfoBackupData.backupLabel InfoBackupData.backupPrior info.backup [label]

theorem infoBackupLabelExists_iff {info : InfoBackup} {label : Str} :
    infoBackupLabelExists info label = true ↔ label ∈ info.backup.map InfoBackupData.backupLabel := by
  unfold infoBackupLabelExists
  rw [any_eq_true, mem_map]
  exact exists_congr (fun b => and_congr_right (fun _ => beq_iff_eq))

@[simp] theorem infoBackupDataDelete_backup (info : InfoBackup) (label : Str) :
    (infoBackupDataDelete info label).backup = deleteLoop label info.backup := rfl

/-! ## Lists in label order -/

abbrev LabelSorted (l : List InfoBackupData) : Prop :=
  l.Pairwise (fun a b => a.backupLabel < b.backupLabel)

variable {l : List InfoBackupData}

theorem LabelSorted.labels (h : LabelSorted l) :
    (l.map InfoBackupData.backupLabel).Pairwise (· < ·) := by
  rw [pairwise_map]
  exact h

theorem LabelSorted.nodup_labels (h : LabelSorted l) :
    (l.map InfoBackupData.backupLabel).Nodup :=
  h.labels.imp (fun hlt => hlt.ne)

theorem LabelSorted.eq_of_label_eq (h : LabelSorted l)
    {a b : InfoBackupData} (ha : a ∈ l) (hb : b ∈ l)
    (hab : a.backupLabel = b.backupLabel) : a = b :=
  inj_on_of_nodup_map h.nodup_labels ha hb hab

theorem LabelSorted.eq_of_mem_iff {l' : List InfoBackupData} (h : LabelSorted l)
    (h' : LabelSorted l') (hmem : ∀ b, b ∈ l ↔ b ∈ l') : l = l' := by
  have hperm : l.Perm l' :=
    (perm_ext_iff_of_nodup (h.nodup_labels.of_map _) (h'.nodup_labels.of_map _)).mpr hmem
  refine hperm.eq_of_pairwise (fun a b _ _ hab hba => ?_) h h'
  exact absurd (hab.trans hba) (lt_irrefl _)

/-- In a list without equal neighbours the entry that the loop skips could
not have matched: the loop removes exactly the entries with the label. -/
theorem deleteLoop_eq_filter {label : Str} (h : LabelSorted l) :
    deleteLoop label l = l.filter (fun b => decide (b.backupLabel ≠ label)) := by
  fun_induction deleteLoop label l with
  | case1 => rfl
  | case2 b hb => simp [hb]
  | case3 b hb => simp [hb]
  | case4 b c l hb ih =>
    have hbc : b.backupLabel < c.backupLabel :=
      rel_of_pairwise_cons h mem_cons_self
    have hc : c.backupLabel ≠ label := hb ▸ hbc.ne'
    rw [filter_cons_of_neg (by simp [hb]), filter_cons_of_pos (by simp [hc]),
      ih h.of_cons.of_cons]
  | case5 b c l hb ih =>
    rw [filter_cons_of_pos (by simp [hb]), ih h.of_cons]

theorem deleteLoop_sublist (label : Str) (l : List InfoBackupData) :
    (deleteLoop label l).Sublist l := by
  fun_induction deleteLoop label l with
  | case1 | case3 => exact List.Sublist.refl _
  | case2 b hb => exact nil_sublist _
  | case4 b c l hb ih => exact (ih.cons_cons c).cons b
  | case5 b c l hb ih => exact ih.cons_cons b

/-- Deleting the label of the first entry removes an entry. -/
theorem length_deleteLoop_cons_lt (b : InfoBackupData) (l : List InfoBackupData) :
    (deleteLoop b.backupLabel (b :: l)).length < (b :: l).length := by
  cases l with
  | nil => simp [deleteLoop]
  | cons c l =>
    have h := (deleteLoop_sublist b.backupLabel l).length_le
    simp only [deleteLoop, if_true, length_cons]
    omega

end PgxBackup
