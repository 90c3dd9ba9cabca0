import PgxBackup.ExpireRepo

/-!
# Pruning the backup history

A compressed copy of every manifest is kept in `backup.history`, in a
directory for each year. The last step of an expire run on a repository
removes the copies that are older than `repo-retention-history` allows
(`removeExpiredHistory`): whole years before the year of the oldest label to
retain, and in that year the single files.

The years and files are listed from the storage of the default repository,
while the removal is done on the repository the run is for; and a year is
removed without a look at the backups in it. So the pruning is right exactly
when what is to be removed can be found in the default repository and no year
that is removed holds the manifest of a backup that has not expired
(`removeExpiredHistory_prunes_iff`).
-/

namespace PgxBackup

open List

/-- A directory of the backup history and the names of the files in it. -/
structure HistoryYear where
  year : Str
  files : List Str
  deriving DecidableEq, Repr

/-- **The backup history of a repository**, a directory for each year. -/
structure History where
  years : List HistoryYear
  /-- No two directories have the same name. -/
  nodup : (years.map HistoryYear.year).Nodup

namespace History

def Has (history : History) (year file : Str) : Prop :=
  ∃ d ∈ history.years, d.year = year ∧ file ∈ d.files

instance (history : History) (year file : Str) : Decidable (history.Has year file) :=
  inferInstanceAs (Decidable (∃ d ∈ history.years, d.year = year ∧ file ∈ d.files))

/-- The names in the directory of the year, none if there is no such
directory. -/
def list (history : History) (year : Str) : List Str :=
  (history.years.filter (fun d => decide (d.year = year))).flatMap HistoryYear.files

/-- Remove the directory of a year with all that is in it. -/
def pathRemove (history : History) (year : Str) : History where
  years := history.years.filter (fun d => decide (d.year ≠ year))
  nodup := history.nodup.sublist (filter_sublist.map HistoryYear.year)

def remove (history : History) (year file : Str) : History where
  years := history.years.map (fun d =>
    if d.year = year then { d with files := d.files.filter (fun f => decide (f ≠ file)) } else d)
  nodup := by
    have hyear : ∀ d : HistoryYear, (if d.year = year then
        { d with files := d.files.filter (fun f => decide (f ≠ file)) } else d).year = d.year := by
      intro d
      split
      · rfl
      · rfl
    rw [map_map]
    exact (congrArg (fun f => (history.years.map f).Nodup) (funext hyear)).mpr history.nodup

variable {history : History} {year file year' file' : Str}

theorem mem_list : file ∈ history.list year ↔ history.Has year file := by
  unfold list Has
  simp only [mem_flatMap, mem_filter, decide_eq_true_eq, and_assoc]

@[simp] theorem has_pathRemove :
    (history.pathRemove year').Has year file ↔ history.Has year file ∧ year ≠ year' := by
  unfold Has pathRemove
  simp only [mem_filter, decide_eq_true_eq]
  constructor
  · rintro ⟨d, ⟨hd, hne⟩, rfl, hfile⟩
    exact ⟨⟨d, hd, rfl, hfile⟩, hne⟩
  · rintro ⟨⟨d, hd, rfl, hfile⟩, hne⟩
    exact ⟨d, ⟨hd, hne⟩, rfl, hfile⟩

@[simp] theorem has_remove :
    (history.remove year' file').Has year file
      ↔ history.Has year file ∧ ¬ (year = year' ∧ file = file') := by
  unfold Has remove
  simp only [mem_map, exists_exists_and_eq_and]
  constructor
  · rintro ⟨d, hd, hyear, hfile⟩
    split at hyear
    · rename_i heq
      rw [if_pos heq] at hfile
      obtain ⟨hfile, hne⟩ := mem_filter.mp hfile
      exact ⟨⟨d, hd, hyear, hfile⟩, fun h => of_decide_eq_true hne h.2⟩
    · rename_i hne
      rw [if_neg hne] at hfile
      exact ⟨⟨d, hd, hyear, hfile⟩, fun h => hne (hyear.trans h.1)⟩
  · rintro ⟨⟨d, hd, hyear, hfile⟩, hnot⟩
    refine ⟨d, hd, ?_⟩
    by_cases heq : d.year = year'
    · have hne : file ≠ file' := fun h => hnot ⟨hyear.symm.trans heq, h⟩
      rw [if_pos heq]
      exact ⟨hyear, mem_filter.mpr ⟨hfile, decide_eq_true hne⟩⟩
    · rw [if_neg heq]
      exact ⟨hyear, hfile⟩

end History

/-- The history of every repository. -/
abbrev Histories : Type := ℕ → History

/-- Change the history of one repository. -/
def Histories.update (repos : Histories) (repoIdx : ℕ) (history : History) : Histories :=
  fun i => if i = repoIdx then history else repos i

@[simp] theorem Histories.update_self (repos : Histories) (repoIdx : ℕ) (history : History) :
    repos.update repoIdx history repoIdx = history := if_pos rfl

theorem Histories.update_ne (repos : Histories) {repoIdx i : ℕ} (history : History)
    (h : i ≠ repoIdx) : repos.update repoIdx history i = repos i := if_neg h

/-! ## Names -/

/-- `DATE_TIME_LEN`. -/
def DATE_TIME_LEN : ℕ := 15

/-- **Format a backup label** (`backupLabelFormat`). `strftime` formats a time
in the local time zone, `none` when it does not fit the buffer. -/
def backupLabelFormat (strftime : ℤ → Option Str) (type : BackupType)
    (backupLabelPrior : Option Str) (timestamp : ℤ) : Except Error Str := do
  if ¬ ((type = .full ∧ backupLabelPrior = none) ∨ (type ≠ .full ∧ backupLabelPrior ≠ none)) then
    throw ⟨.assertError, ("assertion '(type == backupTypeFull && backupLabelPrior == NULL) || " ++
      "(type != backupTypeFull && backupLabelPrior != NULL)' failed").toList⟩
  if ¬ timestamp > 0 then
    throw ⟨.assertError, "assertion 'timestamp > 0' failed".toList⟩
  match strftime timestamp with
  | none => throw ⟨.assertError, "buffer overflow".toList⟩
  | some buffer =>
    match backupLabelPrior with
    | none => return buffer ++ ['F']
    | some prior =>
      return prior.take (DATE_TIME_LEN + 1) ++ ['_'] ++ buffer ++
        (if type = .diff then ['D'] else ['I'])

/-- The expression of a year, `^2[0-9]{3}$`. -/
def historyYearRegExp : Str → Bool
  | ['2', a, b, c] => a.isDigit && b.isDigit && c.isDigit
  | _ => false

/-- What follows the label in the name of a history manifest. -/
def historyManifestExt : Str := ".manifest.gz".toList

/-- The expression of a history manifest: that of a label of any type without
the end, and the extensions. -/
def historyFileRegExp (file : Str) : Bool :=
  match (matchDateTime file).bind (matchChr 'F') with
  | none => false
  | some s =>
    decide (s = historyManifestExt) ||
      decide (matchDiffIncr { differential := true, incremental := true } s
        = some historyManifestExt)

/-- The label of a history manifest: its name up to the first period. -/
def historyBackupLabel (file : Str) : Str := file.takeWhile (fun c => decide (c ≠ '.'))

/-! ## Pruning -/

/-- The options of a repository that pruning the history reads. -/
structure HistoryOption where
  dryRun : Bool
  retentionHistory : Option ℕ

/-- Are history manifests of the label expired? Those of unexpired backups and
of backups newer than the oldest one to retain are not. -/
def historyExpired (currentBackupList : List Str) (minBackupLabel label : Str) : Bool :=
  decide (label ∉ currentBackupList ∧ label < minBackupLabel)

/-- What a run prunes and where it looks. -/
structure HistoryPrune where
  dryRun : Bool
  /-- The repository that is listed. -/
  indexDefault : ℕ
  /-- The repository that is pruned. -/
  repoIdx : ℕ
  currentBackupList : List Str
  minBackupLabel : Str

/-- The year of the oldest label to retain. -/
def HistoryPrune.minYear (prune : HistoryPrune) : Str := strSubN prune.minBackupLabel 0 4

/-- The history manifests of a year, the newest first. -/
def historyList (history : History) (year : Str) : List Str :=
  strLstSort ((history.list year).filter historyFileRegExp) .desc

/-- The years of a history, the oldest first. -/
def historyYearList (history : History) : List Str :=
  strLstSort ((history.years.map HistoryYear.year).filter historyYearRegExp) .asc

/-- Remove a file of the year if its backup is expired. -/
def removeHistoryFile (prune : HistoryPrune) (year : Str) (repos : Histories) (file : Str) :
    Histories :=
  if historyExpired prune.currentBackupList prune.minBackupLabel (historyBackupLabel file) then
    if prune.dryRun then repos
    else repos.update prune.repoIdx ((repos prune.repoIdx).remove year file)
  else repos

/-- The loop over the years. A year before that of the oldest label to retain
is removed as a whole; the loop ends with the first year after it. -/
def removeHistoryYears (prune : HistoryPrune) : List Str → Histories → Histories
  | [], repos => repos
  | historyYear :: historyYearList, repos =>
    if historyYear < prune.minYear then
      removeHistoryYears prune historyYearList
        (if prune.dryRun then repos
        else repos.update prune.repoIdx ((repos prune.repoIdx).pathRemove historyYear))
    else if historyYear = prune.minYear then
      removeHistoryYears prune historyYearList
        ((historyList (repos prune.indexDefault) historyYear).foldl
          (removeHistoryFile prune historyYear) repos)
    else repos

/-- The oldest time of which history is retained. -/
def historyMinTimestamp (time : ℤ) (days : ℕ) : ℤ := time - (days * SEC_PER_DAY : ℕ)

/-- **Remove expired history manifests** of a repository
(`removeExpiredHistory`). The current time and the default repository are
read from the environment. -/
def removeExpiredHistory (strftime : ℤ → Option Str) (time : ℤ) (indexDefault : ℕ)
    (option : HistoryOption) (info : InfoBackup) (repoIdx : ℕ) (repos : Histories) :
    Except Error Histories :=
  match option.retentionHistory with
  | none => .ok repos
  | some days => do
    let currentBackupList := strLstSort (infoBackupDataLabelList info none) .desc
    let minBackupLabel ← backupLabelFormat strftime .full none (historyMinTimestamp time days)
    return removeHistoryYears
      { dryRun := option.dryRun
        indexDefault := indexDefault
        repoIdx := repoIdx
        currentBackupList := currentBackupList
        minBackupLabel := minBackupLabel }
      (historyYearList (repos indexDefault)) repos

/-! ## What the loops remove -/

section Loops

variable {prune : HistoryPrune} {repos : Histories} {year file year' : Str}

theorem removeHistoryFile_other {i : ℕ} (hi : i ≠ prune.repoIdx) :
    removeHistoryFile prune year repos file i = repos i := by
  unfold removeHistoryFile
  split
  · split
    · rfl
    · exact repos.update_ne _ hi
  · rfl

theorem has_foldl_removeHistoryFile (hdry : prune.dryRun = false) (files : List Str) :
    (files.foldl (removeHistoryFile prune year') repos prune.repoIdx).Has year file
      ↔ (repos prune.repoIdx).Has year file ∧ ¬ (year = year' ∧ file ∈ files ∧
          historyExpired prune.currentBackupList prune.minBackupLabel (historyBackupLabel file)
            = true) := by
  induction files generalizing repos with
  | nil => simp
  | cons f files ih =>
    rw [foldl_cons, ih]
    unfold removeHistoryFile
    rw [hdry]
    by_cases hexp : historyExpired prune.currentBackupList prune.minBackupLabel
        (historyBackupLabel f) = true
    · rw [if_pos hexp, if_neg (by simp), Histories.update_self, History.has_remove,
        mem_cons, and_assoc]
      refine and_congr_right (fun _ => ?_)
      by_cases hf : file = f
      · subst hf
        by_cases hyear : year = year'
        · simp [hyear, hexp]
        · simp [hyear]
      · simp [hf]
    · rw [if_neg hexp, mem_cons]
      refine and_congr_right (fun _ => not_congr ?_)
      by_cases hf : file = f
      · subst hf
        simp [hexp]
      · simp [hf]

/-- The loop ends with the first year after that of the label. -/
theorem removeHistoryYears_of_lt {years : List Str} (h : ∀ y ∈ years, prune.minYear < y)
    (repos : Histories) : removeHistoryYears prune years repos = repos := by
  cases years with
  | nil => rfl
  | cons y years =>
    have hlt := h y mem_cons_self
    rw [removeHistoryYears, if_neg (not_lt.mpr hlt.le), if_neg hlt.ne']

theorem removeHistoryYears_other {i : ℕ} (hi : i ≠ prune.repoIdx) (years : List Str)
    (repos : Histories) : removeHistoryYears prune years repos i = repos i := by
  induction years generalizing repos with
  | nil => rfl
  | cons y years ih =>
    rw [removeHistoryYears]
    split
    · rw [ih]
      split
      · rfl
      · exact repos.update_ne _ hi
    · split
      · rw [ih]
        generalize historyList (repos prune.indexDefault) y = files
        induction files generalizing repos with
        | nil => rfl
        | cons f files ihf => exact (ihf _).trans (removeHistoryFile_other hi)
      · rfl

theorem mem_historyList_update {i : ℕ} (hne : year ≠ year') :
    file ∈ historyList (repos.update prune.repoIdx
        ((repos prune.repoIdx).pathRemove year') i) year
      ↔ file ∈ historyList (repos i) year := by
  unfold historyList
  rw [mem_strLstSort, mem_strLstSort, mem_filter, mem_filter, History.mem_list,
    History.mem_list]
  unfold Histories.update
  by_cases hi : i = prune.repoIdx
  · rw [if_pos hi, History.has_pathRemove, hi]
    simp [hne]
  · rw [if_neg hi]

/-- **What the loop over the years removes**: whole years before that of the
label, and the expired files of that year that the default repository has. -/
theorem has_removeHistoryYears (hdry : prune.dryRun = false) {years : List Str}
    (hsorted : years.Pairwise (· < ·)) :
    (removeHistoryYears prune years repos prune.repoIdx).Has year file
      ↔ (repos prune.repoIdx).Has year file ∧ ¬ (year ∈ years ∧ (year < prune.minYear ∨
          year = prune.minYear ∧ file ∈ historyList (repos prune.indexDefault) year ∧
            historyExpired prune.currentBackupList prune.minBackupLabel
              (historyBackupLabel file) = true)) := by
  induction years generalizing repos with
  | nil => simp [removeHistoryYears]
  | cons y years ih =>
    obtain ⟨hlt, hsorted⟩ := pairwise_cons.mp hsorted
    rw [removeHistoryYears]
    by_cases hy : y < prune.minYear
    · rw [if_pos hy, hdry, if_neg (by simp), ih hsorted, Histories.update_self,
        History.has_pathRemove, and_assoc]
      refine and_congr_right (fun _ => ?_)
      by_cases hyy : year = y
      · subst hyy
        simp [hy]
      · rw [mem_historyList_update hyy]
        simp [hyy]
    · rw [if_neg hy]
      by_cases heq : y = prune.minYear
      · rw [if_pos heq, removeHistoryYears_of_lt (fun z hz => heq ▸ hlt z hz),
          has_foldl_removeHistoryFile hdry]
        refine and_congr_right (fun _ => not_congr ?_)
        by_cases hyy : year = y
        · subst hyy
          simp [heq]
        · have hnot : ¬ (year ∈ years ∧ year < prune.minYear) :=
            fun h => absurd h.2 (not_lt.mpr (heq ▸ (hlt year h.1).le))
          have hne : year ≠ prune.minYear := fun h => hyy (h.trans heq.symm)
          simp only [hyy, false_and, mem_cons, false_or, hne, or_false]
          exact (iff_false_intro hnot).symm
      · rw [if_neg heq]
        have hgt : prune.minYear < y := lt_of_le_of_ne (not_lt.mp hy) (Ne.symm heq)
        have hnot : ¬ (year ∈ y :: years ∧ (year < prune.minYear ∨
            year = prune.minYear ∧ file ∈ historyList (repos prune.indexDefault) year ∧
              historyExpired prune.currentBackupList prune.minBackupLabel
                (historyBackupLabel file) = true)) := by
          rintro ⟨hmem, hor⟩
          have hyear : prune.minYear < year := by
            cases mem_cons.mp hmem with
            | inl h => exact h ▸ hgt
            | inr h => exact hgt.trans (hlt year h)
          cases hor with
          | inl h => exact absurd (hyear.trans h) (lt_irrefl _)
          | inr h => exact absurd h.1 hyear.ne'
        exact (and_iff_left hnot).symm

end Loops

/-! ## When the pruning is exact -/

def History.HasManifest (history : History) (year file : Str) : Prop :=
  history.Has year file ∧ historyFileRegExp file = true

/-- **Pruned exactly**: only one repository has changed, and of its history
manifests those are gone whose label is below the limit and whose backup is
not current. -/
structure HistoryPruned (repos repos' : Histories) (repoIdx : ℕ) (currentBackupList : List Str)
    (minBackupLabel : Str) : Prop where
  other : ∀ i, i ≠ repoIdx → repos' i = repos i
  kept : ∀ year file, (repos' repoIdx).Has year file → (repos repoIdx).Has year file
  manifest : ∀ year file, (repos repoIdx).HasManifest year file →
    (¬ (repos' repoIdx).Has year file ↔
      historyBackupLabel file < minBackupLabel ∧ historyBackupLabel file ∉ currentBackupList)

/-- **What the loops rely on.** -/
structure HistoryFound (repos : Histories) (indexDefault repoIdx : ℕ)
    (currentBackupList : List Str) (minBackupLabel : Str) : Prop where
  /-- A year that is removed as a whole holds no manifest to keep. -/
  keep : ∀ year file, (repos repoIdx).HasManifest year file →
    year ∈ historyYearList (repos indexDefault) → year < strSubN minBackupLabel 0 4 →
      historyBackupLabel file < minBackupLabel ∧ historyBackupLabel file ∉ currentBackupList
  /-- A manifest to remove is found in the default repository. -/
  found : ∀ year file, (repos repoIdx).HasManifest year file →
    historyBackupLabel file < minBackupLabel → historyBackupLabel file ∉ currentBackupList →
      year ∈ historyYearList (repos indexDefault) ∧ (year < strSubN minBackupLabel 0 4 ∨
        year = strSubN minBackupLabel 0 4 ∧ (repos indexDefault).Has year file)

section Exact

variable {repos : Histories} {indexDefault repoIdx : ℕ} {currentBackupList : List Str}
  {minBackupLabel year file : Str}

theorem mem_historyList {history : History} :
    file ∈ historyList history year ↔ history.HasManifest year file := by
  unfold historyList History.HasManifest
  rw [mem_strLstSort, mem_filter, History.mem_list]

theorem historyYearList_pairwise (history : History) :
    (historyYearList history).Pairwise (· < ·) := by
  have hnodup : (historyYearList history).Nodup :=
    (perm_insertionSort _ _).nodup_iff.mpr (history.nodup.filter _)
  have hle : (historyYearList history).Pairwise (· ≤ ·) := pairwise_insertionSort _ _
  exact hle.imp₂ (fun _ _ hle hne => lt_of_le_of_ne hle hne) hnodup

theorem historyExpired_iff {label : Str} :
    historyExpired currentBackupList minBackupLabel label = true
      ↔ label < minBackupLabel ∧ label ∉ currentBackupList := by
  unfold historyExpired
  rw [decide_eq_true_iff]
  exact and_comm

/-- The loop over the years prunes exactly when it finds what it has to. -/
theorem historyPruned_iff {prune : HistoryPrune} (hdry : prune.dryRun = false)
    (hcurrent : ∀ label, label ∈ prune.currentBackupList ↔ label ∈ currentBackupList) :
    HistoryPruned repos
        (removeHistoryYears prune (historyYearList (repos prune.indexDefault)) repos)
        prune.repoIdx currentBackupList prune.minBackupLabel
      ↔ HistoryFound repos prune.indexDefault prune.repoIdx currentBackupList
          prune.minBackupLabel := by
  have hhas : ∀ year file,
      (removeHistoryYears prune (historyYearList (repos prune.indexDefault)) repos
          prune.repoIdx).Has year file ↔ _ := fun year file =>
    has_removeHistoryYears hdry (historyYearList_pairwise (repos prune.indexDefault))
  simp only [historyExpired_iff, mem_historyList, hcurrent] at hhas
  constructor
  · intro hpruned
    refine ⟨fun year file hfile hyear hlt => ?_, fun year file hfile hlabel hnew => ?_⟩
    · refine (hpruned.manifest year file hfile).mp (fun hhas' => ?_)
      exact ((hhas year file).mp hhas').2 ⟨hyear, Or.inl hlt⟩
    · have hgone := (hpruned.manifest year file hfile).mpr ⟨hlabel, hnew⟩
      rw [hhas, not_and, not_not] at hgone
      obtain ⟨hyear, hor⟩ := hgone hfile.1
      exact ⟨hyear, hor.imp_right (fun h => ⟨h.1, h.2.1.1⟩)⟩
  · intro hfound
    refine ⟨fun i hi => removeHistoryYears_other hi _ _,
      fun year file hhas' => ((hhas year file).mp hhas').1, fun year file hfile => ?_⟩
    rw [hhas, not_and, not_not]
    constructor
    · intro hgone
      obtain ⟨hyear, hor⟩ := hgone hfile.1
      cases hor with
      | inl hlt => exact hfound.keep year file hfile hyear hlt
      | inr h => exact h.2.2
    · rintro ⟨hlabel, hnew⟩ -
      obtain ⟨hyear, hor⟩ := hfound.found year file hfile hlabel hnew
      exact ⟨hyear, hor.imp_right (fun h => ⟨h.1, ⟨h.2, hfile.2⟩, hlabel, hnew⟩)⟩

theorem removeExpiredHistory_of_label {strftime : ℤ → Option Str} {time : ℤ} {days : ℕ}
    {dryRun : Bool} {info : InfoBackup}
    (h : backupLabelFormat strftime .full none (historyMinTimestamp time days)
      = .ok minBackupLabel) :
    removeExpiredHistory strftime time indexDefault ⟨dryRun, some days⟩ info repoIdx repos
      = .ok (removeHistoryYears ⟨dryRun, indexDefault, repoIdx,
          strLstSort (infoBackupDataLabelList info none) .desc, minBackupLabel⟩
          (historyYearList (repos indexDefault)) repos) := by
  unfold removeExpiredHistory
  simp only [h]
  rfl

/-- **The history of a repository is pruned exactly if and only if** the
oldest time to retain can be formatted, no directory that is removed as a
whole holds a manifest to keep, and what is to be removed is found in the
default repository. -/
theorem removeExpiredHistory_prunes_iff (strftime : ℤ → Option Str) (time : ℤ)
    (indexDefault days : ℕ) (info : InfoBackup) (repoIdx : ℕ) (repos : Histories) :
    (∃ minBackupLabel repos',
        backupLabelFormat strftime .full none (historyMinTimestamp time days)
            = .ok minBackupLabel ∧
          removeExpiredHistory strftime time indexDefault
            { dryRun := false, retentionHistory := some days } info repoIdx repos = .ok repos' ∧
          HistoryPruned repos repos' repoIdx info.labels minBackupLabel)
      ↔ ∃ minBackupLabel,
          backupLabelFormat strftime .full none (historyMinTimestamp time days)
              = .ok minBackupLabel ∧
            HistoryFound repos indexDefault repoIdx info.labels minBackupLabel := by
  cases hlabel : backupLabelFormat strftime .full none (historyMinTimestamp time days) with
  | error e => simp
  | ok minBackupLabel =>
    have hcurrent : ∀ label,
        label ∈ strLstSort (infoBackupDataLabelList info none) .desc ↔ label ∈ info.labels := by
      intro label
      rw [mem_strLstSort]
      unfold infoBackupDataLabelList
      simp
    have hiff := @historyPruned_iff repos info.labels ⟨false, indexDefault, repoIdx,
      strLstSort (infoBackupDataLabelList info none) .desc, minBackupLabel⟩ rfl hcurrent
    constructor
    · rintro ⟨_, repos', heq, hrun, hpruned⟩
      rw [removeExpiredHistory_of_label hlabel] at hrun
      rw [← Except.ok.inj hrun, ← Except.ok.inj heq] at hpruned
      exact ⟨_, rfl, hiff.mp hpruned⟩
    · rintro ⟨_, heq, hfound⟩
      rw [← Except.ok.inj heq] at hfound
      exact ⟨_, _, rfl, removeExpiredHistory_of_label hlabel, hiff.mpr hfound⟩

end Exact

/-! ## An unexpired backup, and a second repository -/

/-- A full backup of June 2025. -/
def labelJune : Str := "20250601-000000F".toList

/-- The backup list of a repository where the full backup is the only one. -/
def infoJune : InfoBackup :=
  { infoPg := { history := [⟨1, 6569239123849665679, 202307071, 160000, 1300⟩], historyCurrent := 0 }
    backup := [.plain labelJune .full none none]
    updated := false }

def historyOne (year label : Str) : History where
  years := [⟨year, [label ++ historyManifestExt]⟩]
  nodup := by simp

def timeJanuary (_ : ℤ) : Option Str := some "20260115-000000".toList

/-- **Unexpired backups lose their history, and a second repository is not
pruned.** On January 15th 2026 without days to retain, the directory of 2025
goes though its backup is current; and an expired manifest of 2026 stays in a
repository when the default repository has no history. -/
theorem removeExpiredHistory_unexpired_and_second :
    (¬ ∃ minBackupLabel repos',
        backupLabelFormat timeJanuary .full none (historyMinTimestamp 1768435200 0)
            = .ok minBackupLabel ∧
          removeExpiredHistory timeJanuary 1768435200 0
            { dryRun := false, retentionHistory := some 0 } infoJune 0
            (fun _ => historyOne "2025".toList labelJune) = .ok repos' ∧
          HistoryPruned (fun _ => historyOne "2025".toList labelJune) repos' 0 infoJune.labels
            minBackupLabel) ∧
      ¬ ∃ minBackupLabel repos',
        backupLabelFormat timeJanuary .full none (historyMinTimestamp 1768435200 0)
            = .ok minBackupLabel ∧
          removeExpiredHistory timeJanuary 1768435200 0
            { dryRun := false, retentionHistory := some 0 } infoJune 1
            (fun i => if i = 0 then ⟨[], by simp⟩
              else historyOne "2026".toList "20260101-000000F".toList) = .ok repos' ∧
          HistoryPruned (fun i => if i = 0 then ⟨[], by simp⟩
              else historyOne "2026".toList "20260101-000000F".toList) repos' 1 infoJune.labels
            minBackupLabel := by
  constructor
  · rintro ⟨label, repos', hlabel, hrun, hpruned⟩
    rw [← Except.ok.inj hlabel, ← Except.ok.inj hrun] at hpruned
    have hgone := (hpruned.manifest "2025".toList (labelJune ++ historyManifestExt)
      ⟨by decide, by decide⟩).mp (by decide)
    exact absurd hgone (by decide)
  · rintro ⟨label, repos', hlabel, hrun, hpruned⟩
    rw [← Except.ok.inj hlabel, ← Except.ok.inj hrun] at hpruned
    have hkept := (hpruned.manifest "2026".toList
      ("20260101-000000F".toList ++ historyManifestExt) ⟨by decide, by decide⟩).mpr (by decide)
    exact absurd hkept (by decide)

end PgxBackup
