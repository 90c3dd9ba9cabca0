import PgxBackup.BackupLabelShape

/-!
# New labels are fresh

A label that was made is later than all labels that were looked at. Labels of
the history that are not looked at do no harm as long as each is at or before
one that is. This depends on the repository and the full backup of the prior
only, and it is also necessary: where it fails, the label that was not seen is
made again at its own time.
-/

namespace PgxBackup

open List

/-! ## The latest of some strings -/

/-- The latest of some strings, if there is one. -/
def Latest (labels : Set Str) : Option Str → Prop
  | none => labels = ∅
  | some label => IsGreatest labels label

theorem latest_head (l : List Str) : Latest {s | s ∈ l} (strLstSort l .desc).head? := by
  have hsorted : (strLstSort l .desc).Pairwise (· ≥ ·) := pairwise_insertionSort _ l
  cases hsort : strLstSort l .desc with
  | nil =>
    refine Set.eq_empty_of_forall_notMem (fun s hs => ?_)
    have hmem : s ∈ strLstSort l .desc := mem_strLstSort.mpr hs
    rw [hsort] at hmem
    cases hmem
  | cons label rest =>
    rw [hsort] at hsorted
    refine ⟨mem_strLstSort.mp (hsort ▸ mem_cons_self : label ∈ strLstSort l .desc), fun s hs => ?_⟩
    have hmem : s ∈ strLstSort l .desc := mem_strLstSort.mpr hs
    rw [hsort] at hmem
    rcases mem_cons.mp hmem with rfl | hmem
    · exact le_rfl
    · exact rel_of_pairwise_cons hsorted hmem

theorem Latest.unique {labels : Set Str} {o o' : Option Str} (h : Latest labels o) (h' : Latest labels o') : o = o' := by
  cases o with
  | none =>
    cases o' with
    | none => rfl
    | some label =>
      have hmem := h'.1
      rw [h] at hmem
      exact hmem.elim
  | some label =>
    cases o' with
    | none =>
      have hmem := h.1
      rw [h'] at hmem
      exact hmem.elim
    | some label' => rw [IsGreatest.unique h h']

/-! ## The repository -/

/-- **How times are formatted**: `strftime` with `%Y%m%d-%H%M%S` in the local
time zone, for a time that is not before the epoch. -/
structure LabelClock where
  strftime : ℤ → Option Str
  dateTime : ∀ timestamp, 0 < timestamp → ∀ s ∈ strftime timestamp, DateTime s

def HistoryLabel (history : History) (label : Str) : Prop :=
  backupRegExp backupAllRegExp label = true ∧ ∃ year, history.Has year (label ++ historyManifestExt)

/-- **A repository**: the names in its backup path and its history. The labels
in the history were formatted by the clock. -/
structure LabelRepo (clock : LabelClock) where
  backup : List Str
  history : History
  formatted : ∀ label, HistoryLabel history label →
    ∃ type prior timestamp, backupLabelFormat clock.strftime type prior timestamp = .ok label

def fullLabel (label : Str) : Str := label.take (DATE_TIME_LEN + 1)

namespace LabelRepo

variable {clock : LabelClock} (repo : LabelRepo clock)

def backupLabels : Set Str := {label | label ∈ repo.backup ∧ backupRegExp backupAllRegExp label = true}

def historyYears : Set Str := {year | year ∈ repo.history.years.map HistoryYear.year ∧ historyYearRegExp year = true}

def newestYearLabels : Set Str := {label | backupRegExp backupAllRegExp label = true ∧
  ∃ year, IsGreatest repo.historyYears year ∧ repo.history.Has year (label ++ historyManifestExt)}

/-- **The labels that are looked at**: those of the backups, and in the newest
year of the history all for a full backup, and for a backup with a prior those
that depend on the full backup of the newest backup. -/
def lookedAt (prior : Option Str) : Set Str :=
  repo.backupLabels ∪ {label | label ∈ repo.newestYearLabels ∧ (prior = none ∨ label ≠ fullLabel label ∧
    ∃ newest, IsGreatest repo.backupLabels newest ∧ fullLabel label = fullLabel newest)}

/-- **A fresh label**: it is later than the labels of the backups and is not in
the history, and for a diff or incr it is later than all labels of the same full
backup in the history. -/
structure Fresh (type : BackupType) (label : Str) : Prop where
  backup : ∀ other ∈ repo.backupLabels, other < label
  history : ∀ other, HistoryLabel repo.history other → other ≠ label
  sameFull : type ≠ .full → ∀ other, HistoryLabel repo.history other → fullLabel other = fullLabel label → other < label

/-- **Every label of the history that matters was seen**: a full label for a full
backup, and for a backup with a prior a label that depends on its full backup,
is at or before one that is looked at. Without a backup there is no label for a
backup with a prior. -/
def Seen : Option Str → Prop
  | none => ∀ label, HistoryLabel repo.history label → label = fullLabel label → ∃ other ∈ repo.lookedAt none, label ≤ other
  | some prior => (repo.backupLabels = ∅ ∧ repo.historyYears ≠ ∅) ∨
    ∀ label, HistoryLabel repo.history label → label ≠ fullLabel label → fullLabel label = fullLabel prior →
      ∃ other ∈ repo.lookedAt (some prior), label ≤ other

end LabelRepo

/-! ## Looking for the latest label -/

theorem historyLabelStrip_ok (label : Str) : historyLabelStrip (label ++ historyManifestExt) = .ok label := by
  have hsuffix : historyManifestExt <:+ label ++ historyManifestExt := suffix_append _ _
  have hgz : compressExtStr .gz <:+ label ++ historyManifestExt :=
    (show compressExtStr .gz <:+ historyManifestExt by decide).trans hsuffix
  have hbz2 : ¬ compressExtStr .bz2 <:+ label ++ historyManifestExt := by
    intro h
    have hshort := suffix_of_suffix_length_le h hsuffix (by decide)
    exact absurd hshort (by decide)
  have htype : compressTypeFromName (label ++ historyManifestExt) = .gz := by
    unfold compressTypeFromName
    rw [find?_cons_of_neg (by simpa using hbz2), find?_cons_of_pos (by simpa using hgz)]
  unfold historyLabelStrip compressExtStrip
  rw [htype, if_pos hgz, ok_bind]
  have hext : label ++ historyManifestExt = (label ++ BACKUP_MANIFEST_EXT) ++ compressExtStr .gz := by
    rw [append_assoc]
    rfl
  have hstrip : strSubN (label ++ historyManifestExt) 0
      ((label ++ historyManifestExt).length - (compressExtStr .gz).length) = label ++ BACKUP_MANIFEST_EXT := by
    unfold strSubN
    rw [drop_zero, hext, length_append, Nat.add_sub_cancel, take_left]
  have hlabel : strSubN (label ++ BACKUP_MANIFEST_EXT) 0
      ((label ++ BACKUP_MANIFEST_EXT).length - BACKUP_MANIFEST_EXT.length) = label := by
    unfold strSubN
    rw [drop_zero, length_append, Nat.add_sub_cancel, take_left]
  rw [hstrip, hlabel]

variable {label full tail : Str}

section

variable (h : LabelParts label full tail)
include h

theorem LabelParts.fullLabel_eq : fullLabel label = full ++ ['F'] := by
  have hlength : (full ++ ['F']).length = DATE_TIME_LEN + 1 := by
    rw [length_append, h.dateTime.length]
    rfl
  unfold fullLabel
  rw [h.eq, ← singleton_append, ← append_assoc, ← hlength, take_left]

theorem LabelParts.eq_fullLabel_iff : label = fullLabel label ↔ tail = [] := by
  rw [h.fullLabel_eq, h.eq, append_cancel_left_eq, cons.injEq, and_iff_right rfl]

theorem LabelParts.length : label.length = DATE_TIME_LEN + 1 + tail.length := by
  rw [h.eq, length_append, length_cons, h.dateTime.length]
  omega

end

/-- A label that depends on a full backup has a time and a letter more. -/
theorem LabelTail.length (h : LabelTail tail) (hne : tail ≠ []) : tail.length = DATE_TIME_LEN + 2 := by
  cases h with
  | full => exact absurd rfl hne
  | dependent hdateTime =>
    rw [length_cons, length_append, hdateTime.length]
    rfl

/-- **The latest label with some files of the history**, whose names are those of
the manifests of some labels. -/
theorem historyLabelLatest_ok {files : List Str} {labels backups : Set Str} {o : Option Str}
    (hfiles : ∀ file, file ∈ files ↔ ∃ label ∈ labels, file = label ++ historyManifestExt)
    (hlabels : ∀ label ∈ labels ∪ backups, backupRegExp backupAllRegExp label = true) (ho : Latest backups o) :
    ∃ o', historyLabelLatest files o = .ok o' ∧ Latest (backups ∪ labels) o' := by
  have hhead := latest_head files
  unfold historyLabelLatest
  cases hfile : (strLstSort files .desc).head? with
  | none =>
    rw [hfile] at hhead
    have hempty : labels = ∅ := by
      refine Set.eq_empty_of_forall_notMem (fun label hmem => ?_)
      have hnone : label ++ historyManifestExt ∈ {s | s ∈ files} := (hfiles _).mpr ⟨label, hmem, rfl⟩
      rw [show {s | s ∈ files} = ∅ from hhead] at hnone
      exact hnone
    exact ⟨o, rfl, by rw [hempty, Set.union_empty]; exact ho⟩
  | some file =>
    rw [hfile] at hhead
    obtain ⟨label, hlabel, rfl⟩ := (hfiles file).mp hhead.1
    obtain ⟨full, tail, hparts⟩ := backupRegExp_all_iff.mp (hlabels label (.inl hlabel))
    have hgreatest : ∀ other ∈ labels, other ≤ label := by
      intro other hother
      obtain ⟨full', tail', hparts'⟩ := backupRegExp_all_iff.mp (hlabels other (.inl hother))
      rw [← not_lt, ← hparts.file_lt_iff hparts', not_lt]
      exact hhead.2 ((hfiles _).mpr ⟨other, hother, rfl⟩)
    dsimp only
    rw [historyLabelStrip_ok]
    cases o with
    | none =>
      have hempty : backups = ∅ := ho
      refine ⟨some label, rfl, .inr hlabel, fun other hother => ?_⟩
      rw [hempty, Set.empty_union] at hother
      exact hgreatest other hother
    | some latest =>
      obtain ⟨full', tail', hparts'⟩ := backupRegExp_all_iff.mp (hlabels latest (.inr ho.1))
      dsimp only
      by_cases hlater : strCmp (label ++ historyManifestExt) latest > 0
      · rw [if_pos hlater]
        have hle : latest ≤ label := (hparts.lt_file_iff hparts').mp (strCmp_pos.mp hlater)
        refine ⟨some label, rfl, .inr hlabel, fun other hother => ?_⟩
        exact hother.elim (fun hother => (ho.2 hother).trans hle) (hgreatest other)
      · rw [if_neg hlater]
        have hle : label ≤ latest :=
          (not_le.mp (fun hle => hlater (strCmp_pos.mpr ((hparts.lt_file_iff hparts').mpr hle)))).le
        refine ⟨some latest, rfl, .inl ho.1, fun other hother => ?_⟩
        exact hother.elim (fun hother => ho.2 hother) (fun hother => (hgreatest other hother).trans hle)

namespace LabelRepo

variable {clock : LabelClock} {repo : LabelRepo clock} {type : BackupType} {prior : Option Str}

theorem latest_backupLabels :
    Latest repo.backupLabels (strLstSort (repo.backup.filter (backupRegExp backupAllRegExp)) .desc).head? := by
  have hset : repo.backupLabels = {label | label ∈ repo.backup.filter (backupRegExp backupAllRegExp)} := by
    ext label
    exact mem_filter.symm
  rw [hset]
  exact latest_head _

theorem latest_historyYears : Latest repo.historyYears
    (strLstSort ((repo.history.years.map HistoryYear.year).filter historyYearRegExp) .desc).head? := by
  have hset : repo.historyYears = {year | year ∈ (repo.history.years.map HistoryYear.year).filter historyYearRegExp} := by
    ext year
    exact mem_filter.symm
  rw [hset]
  exact latest_head _

theorem mem_list_full {year file : Str} (hyear : IsGreatest repo.historyYears year) :
    file ∈ (repo.history.list year).filter historyFileRegExp ↔
      ∃ label ∈ repo.newestYearLabels, file = label ++ historyManifestExt := by
  rw [mem_filter, History.mem_list, historyFileRegExp_iff]
  constructor
  · rintro ⟨hhas, label, rfl, hparts⟩
    exact ⟨label, ⟨backupRegExp_all_iff.mpr hparts, year, hyear, hhas⟩, rfl⟩
  · rintro ⟨label, ⟨hlabel, year', hyear', hhas⟩, rfl⟩
    rw [hyear'.unique hyear] at hhas
    exact ⟨hhas, label, rfl, backupRegExp_all_iff.mp hlabel⟩

theorem mem_list_dependent {year file newest : Str} (hyear : IsGreatest repo.historyYears year)
    (hnewest : IsGreatest repo.backupLabels newest) :
    file ∈ (repo.history.list year).filter (historyDependentRegExp newest) ↔
      ∃ label ∈ {label | label ∈ repo.newestYearLabels ∧ label ≠ fullLabel label ∧ fullLabel label = fullLabel newest},
        file = label ++ historyManifestExt := by
  obtain ⟨full, tail, hparts⟩ := backupRegExp_all_iff.mp hnewest.1.2
  rw [mem_filter, History.mem_list, historyDependentRegExp_iff hparts, hparts.fullLabel_eq]
  constructor
  · rintro ⟨hhas, dateTime, c, hdateTime, hc, rfl⟩
    have hlabel : LabelParts (full ++ 'F' :: ('_' :: (dateTime ++ [c]))) full ('_' :: (dateTime ++ [c])) :=
      ⟨rfl, hparts.dateTime, .dependent hdateTime hc⟩
    exact ⟨_, ⟨⟨backupRegExp_all_iff.mpr ⟨_, _, hlabel⟩, year, hyear, hhas⟩,
      fun h => absurd (hlabel.eq_fullLabel_iff.mp h) (cons_ne_nil _ _), hlabel.fullLabel_eq⟩, rfl⟩
  · rintro ⟨label, ⟨⟨hlabel, year', hyear', hhas⟩, hne, hfull⟩, rfl⟩
    obtain ⟨full', tail', hparts'⟩ := backupRegExp_all_iff.mp hlabel
    rw [hparts'.fullLabel_eq, append_left_inj] at hfull
    rw [hyear'.unique hyear] at hhas
    rw [Ne, hparts'.eq_fullLabel_iff] at hne
    subst hfull
    have htail := hparts'.labelTail
    cases htail with
    | full => exact absurd rfl hne
    | dependent hdateTime hc => exact ⟨hhas, _, _, hdateTime, hc, by rw [hparts'.eq]⟩

variable {label : Str} {timestamp : ℤ}

theorem label_of_newestYear (h : label ∈ repo.newestYearLabels ∪ repo.backupLabels) :
    backupRegExp backupAllRegExp label = true := h.elim And.left And.right

/-- A backup with a prior cannot be given a label if there is no backup but a
year of the history. -/
def NoLatest (repo : LabelRepo clock) (prior : Option Str) : Prop :=
  prior ≠ none ∧ repo.backupLabels = ∅ ∧ repo.historyYears ≠ ∅

/-- **The latest label that is looked at is found.** -/
theorem backupLabelLatest_ok (htype : type = .full ↔ prior = none) (hlatest : ¬ repo.NoLatest prior) :
    ∃ o, backupLabelLatest repo.backup repo.history type = .ok o ∧ Latest (repo.lookedAt prior) o := by
  have hbackups := @latest_backupLabels clock repo
  have hyears := @latest_historyYears clock repo
  unfold backupLabelLatest
  generalize hbackup : (strLstSort (repo.backup.filter (backupRegExp backupAllRegExp)) .desc).head? = o at hbackups ⊢
  cases hyear : (strLstSort ((repo.history.years.map HistoryYear.year).filter historyYearRegExp) .desc).head? with
  | none =>
    rw [hyear] at hyears
    have hnone : repo.newestYearLabels = ∅ := by
      refine Set.eq_empty_of_forall_notMem (fun label hmem => ?_)
      obtain ⟨-, year, hyear', -⟩ := hmem
      have hmem := hyear'.1
      rw [show repo.historyYears = ∅ from hyears] at hmem
      exact hmem
    have hlooked : repo.lookedAt prior = repo.backupLabels := by
      unfold lookedAt
      rw [hnone]
      exact Set.union_eq_left.mpr (fun label hmem => hmem.1.elim)
    exact ⟨o, rfl, by rw [hlooked]; exact hbackups⟩
  | some year =>
    rw [hyear] at hyears
    dsimp only
    unfold historyCreateRegExp
    by_cases hfull : type = .full
    · have hprior : prior = none := htype.mp hfull
      have hlooked : repo.lookedAt prior = repo.backupLabels ∪ repo.newestYearLabels := by
        unfold lookedAt
        congr 1
        ext label
        exact and_iff_left (.inl hprior)
      rw [if_pos hfull, ok_bind, hlooked]
      exact historyLabelLatest_ok (fun file => mem_list_full hyears) (fun label => label_of_newestYear) hbackups
    · have hprior : prior ≠ none := fun hprior => hfull (htype.mpr hprior)
      cases o with
      | none =>
        refine absurd ⟨hprior, hbackups, fun hempty => ?_⟩ hlatest
        have hmem := hyears.1
        rw [hempty] at hmem
        exact hmem
      | some newest =>
        have hlooked : repo.lookedAt prior = repo.backupLabels ∪ {label | label ∈ repo.newestYearLabels ∧
            label ≠ fullLabel label ∧ fullLabel label = fullLabel newest} := by
          unfold lookedAt
          congr 1
          ext label
          refine and_congr_right (fun _ => ?_)
          rw [or_iff_right hprior]
          refine and_congr_right (fun _ => ⟨fun ⟨newest', hnewest', heq⟩ => ?_, fun heq => ⟨newest, hbackups, heq⟩⟩)
          rw [hnewest'.unique hbackups] at heq
          exact heq
        rw [if_neg hfull, ok_bind, hlooked]
        exact historyLabelLatest_ok (fun file => mem_list_dependent hyears hbackups)
          (fun label hmem => label_of_newestYear (hmem.imp And.left id)) hbackups

theorem backupLabelLatest_error (htype : type = .full ↔ prior = none) (hlatest : repo.NoLatest prior) (o : Option Str) :
    backupLabelLatest repo.backup repo.history type ≠ .ok o := by
  obtain ⟨hprior, hempty, hne⟩ := hlatest
  have hbackups := @latest_backupLabels clock repo
  have hyears := @latest_historyYears clock repo
  have hnone : (strLstSort (repo.backup.filter (backupRegExp backupAllRegExp)) .desc).head? = none :=
    hbackups.unique hempty
  have hfull : ¬ type = .full := fun hfull => hprior (htype.mp hfull)
  unfold backupLabelLatest
  rw [hnone]
  cases hyear : (strLstSort ((repo.history.years.map HistoryYear.year).filter historyYearRegExp) .desc).head? with
  | none =>
    rw [hyear] at hyears
    exact absurd hyears hne
  | some year =>
    dsimp only
    unfold historyCreateRegExp
    rw [if_neg hfull]
    exact nofun

/-! ## Making the label -/

theorem type_iff (type : BackupType) (prior : Option Str) :
    ((type = .full ∧ prior = none) ∨ (type ≠ .full ∧ prior ≠ none)) ↔ (type = .full ↔ prior = none) := by
  by_cases htype : type = .full
  · simp [htype]
  · simp [htype]

/-- **A label that was made** is that of the time or of the next second, and
later than the latest label. -/
theorem backupLabelCreate_later
    (h : backupLabelCreate clock.strftime repo.backup repo.history type prior timestamp = .ok label) :
    (type = .full ↔ prior = none) ∧ ¬ repo.NoLatest prior ∧ (∀ other ∈ repo.lookedAt prior, other < label) ∧
      ∃ timestamp' > 0, backupLabelFormat clock.strftime type prior timestamp' = .ok label := by
  unfold backupLabelCreate at h
  by_cases hkind : (type = .full ∧ prior = none) ∨ (type ≠ .full ∧ prior ≠ none)
  · rw [if_neg (not_not.mpr hkind)] at h
    have htype := (type_iff type prior).mp hkind
    by_cases hpos : timestamp > 0
    · rw [if_neg (not_not.mpr hpos)] at h
      obtain ⟨o, ho, h⟩ := ok_of_bind h
      have hlatest : ¬ repo.NoLatest prior := fun hlatest => backupLabelLatest_error htype hlatest o ho
      obtain ⟨o', ho', hgreatest⟩ := backupLabelLatest_ok htype hlatest
      rw [ho] at ho'
      cases ho'
      refine ⟨htype, hlatest, ?_⟩
      cases o with
      | none =>
        have hempty : repo.lookedAt prior = ∅ := hgreatest
        rw [hempty]
        exact ⟨nofun, timestamp, hpos, h⟩
      | some latest =>
        have hlooked : ∀ result, ¬ strCmp result latest ≤ 0 → ∀ other ∈ repo.lookedAt prior, other < result := by
          intro result hlater other hother
          rw [strCmp_le_zero, not_le] at hlater
          exact lt_of_le_of_lt (hgreatest.2 hother) hlater
        obtain ⟨result, hformat, h⟩ := ok_of_bind h
        by_cases hlater : strCmp result latest ≤ 0
        · rw [if_pos hlater] at h
          obtain ⟨result', hformat', h⟩ := ok_of_bind h
          by_cases hlater' : strCmp result' latest ≤ 0
          · rw [if_pos hlater'] at h
            cases h
          · rw [if_neg hlater'] at h
            cases h
            exact ⟨hlooked _ hlater', timestamp + 1, by omega, hformat'⟩
        · rw [if_neg hlater] at h
          cases h
          exact ⟨hlooked _ hlater, timestamp, hpos, hformat⟩
    · rw [if_pos hpos] at h
      cases h
  · rw [if_pos hkind] at h
    cases h

/-- **A label is made** at its time if it is later than the latest label. -/
theorem backupLabelCreate_ok (htype : type = .full ↔ prior = none)
    (hlatest : ¬ repo.NoLatest prior) (hpos : timestamp > 0)
    (hformat : backupLabelFormat clock.strftime type prior timestamp = .ok label)
    (hlater : ∀ other ∈ repo.lookedAt prior, other < label) :
    backupLabelCreate clock.strftime repo.backup repo.history type prior timestamp = .ok label := by
  obtain ⟨o, ho, hgreatest⟩ := backupLabelLatest_ok htype hlatest
  unfold backupLabelCreate
  rw [if_neg (not_not.mpr ((type_iff type prior).mpr htype)), if_neg (not_not.mpr hpos), ho]
  simp only [ok_bind]
  cases o with
  | none => exact hformat
  | some latest =>
    dsimp only
    rw [hformat, ok_bind, if_neg]
    · rfl
    · rw [strCmp_le_zero, not_le]
      exact hlater latest hgreatest.1

theorem backupLabelFormat_iff :
    backupLabelFormat clock.strftime type prior timestamp = .ok label ↔
      (type = .full ↔ prior = none) ∧ 0 < timestamp ∧ ∃ dateTime, clock.strftime timestamp = some dateTime ∧
        label = match prior with
          | none => dateTime ++ ['F']
          | some prior => fullLabel prior ++ '_' :: (dateTime ++ [if type = .diff then 'D' else 'I']) := by
  unfold backupLabelFormat
  rw [← type_iff]
  by_cases hkind : (type = .full ∧ prior = none) ∨ (type ≠ .full ∧ prior ≠ none)
  · rw [if_neg (not_not.mpr hkind), and_iff_right hkind]
    by_cases hpos : timestamp > 0
    · rw [if_neg (not_not.mpr hpos), and_iff_right hpos]
      cases htime : clock.strftime timestamp with
      | none =>
        refine iff_of_false nofun ?_
        rintro ⟨dateTime, h, -⟩
        cases h
      | some dateTime =>
        have hsome : ∀ p : Str → Prop, (∃ dateTime', some dateTime = some dateTime' ∧ p dateTime') ↔ p dateTime := by
          intro p
          exact ⟨fun ⟨_, heq, hp⟩ => Option.some.inj heq ▸ hp, fun hp => ⟨dateTime, rfl, hp⟩⟩
        rw [hsome]
        cases prior with
        | none => exact ⟨fun h => (Except.ok.inj h).symm, fun h => congrArg Except.ok h.symm⟩
        | some prior =>
          have hletter : fullLabel prior ++ ['_'] ++ dateTime ++ (if type = .diff then ['D'] else ['I'])
              = fullLabel prior ++ '_' :: (dateTime ++ [if type = .diff then 'D' else 'I']) := by
            split <;> simp
          dsimp only
          rw [← hletter]
          exact ⟨fun h => (Except.ok.inj h).symm, fun h => congrArg Except.ok h.symm⟩
    · rw [if_pos hpos]
      exact iff_of_false nofun (fun h => hpos h.1)
  · rw [if_pos hkind]
    exact iff_of_false nofun (fun h => hkind h.1)

theorem parts_of_format {prior full tail : Str} (hprior : LabelParts prior full tail)
    (h : backupLabelFormat clock.strftime type (some prior) timestamp = .ok label) :
    ∃ tail', LabelParts label full tail' ∧ tail' ≠ [] := by
  obtain ⟨-, hpos, dateTime, htime, rfl⟩ := backupLabelFormat_iff.mp h
  have hletter : DependentLetter (if type = .diff then 'D' else 'I') := by
    split
    · exact .inl rfl
    · exact .inr rfl
  refine ⟨_, ⟨?_, hprior.dateTime, .dependent (clock.dateTime _ hpos _ htime) hletter⟩, cons_ne_nil _ _⟩
  dsimp only
  rw [hprior.fullLabel_eq, append_assoc, singleton_append]

theorem parts_of_format_full
    (h : backupLabelFormat clock.strftime type none timestamp = .ok label) : ∃ full, LabelParts label full [] := by
  obtain ⟨-, hpos, dateTime, htime, rfl⟩ := backupLabelFormat_iff.mp h
  exact ⟨dateTime, rfl, clock.dateTime _ hpos _ htime, .full⟩

/-- **What the history holds can be made again**: a label of the history is
formatted at its time for any prior with the same full backup. -/
theorem formatted_again (hlabel : HistoryLabel repo.history label)
    (hprior : prior = none ∧ label = fullLabel label ∨
      ∃ p, prior = some p ∧ label ≠ fullLabel label ∧ fullLabel label = fullLabel p) :
    ∃ type timestamp, backupLabelFormat clock.strftime type prior timestamp = .ok label := by
  obtain ⟨type, prior', timestamp, hformat⟩ := repo.formatted label hlabel
  obtain ⟨full, tail, hparts⟩ := backupRegExp_all_iff.mp hlabel.1
  obtain ⟨htype, hpos, dateTime, htime, heq⟩ := backupLabelFormat_iff.mp hformat
  have hlength := hparts.length
  have hdateTime := (clock.dateTime _ hpos _ htime).length
  refine ⟨type, timestamp, ?_⟩
  cases prior' with
  | none =>
    obtain ⟨rfl, -⟩ | ⟨p, -, hne, -⟩ := hprior
    · exact hformat
    · rw [Ne, hparts.eq_fullLabel_iff] at hne
      rw [heq, length_append, hdateTime] at hlength
      exact absurd (eq_nil_of_length_eq_zero (by simpa using hlength)) hne
  | some prior' =>
    have heq : label = fullLabel prior' ++ '_' :: (dateTime ++ [if type = .diff then 'D' else 'I']) := heq
    have hlengthEq : label.length = (fullLabel prior').length + (DATE_TIME_LEN + 2) := by
      rw [heq, length_append, length_cons, length_append, hdateTime]
      rfl
    obtain ⟨rfl, hfull⟩ | ⟨p, rfl, hne, hfull⟩ := hprior
    · rw [hparts.eq_fullLabel_iff.mp hfull, length_nil] at hlength
      omega
    · rw [hparts.labelTail.length (fun h => hne (hparts.eq_fullLabel_iff.mpr h))] at hlength
      have hsixteen : (fullLabel prior').length = DATE_TIME_LEN + 1 := by omega
      have hsame : fullLabel label = fullLabel prior' := by
        rw [heq]
        show take (DATE_TIME_LEN + 1) (fullLabel prior' ++ _) = _
        rw [← hsixteen, take_left]
      refine backupLabelFormat_iff.mpr ⟨⟨fun h => absurd (htype.mp h) nofun, nofun⟩, hpos, dateTime, htime, ?_⟩
      dsimp only
      rw [← hfull, hsame, ← heq]

/-- **Labels are fresh if and only if the history was seen**: whatever the type
and the time are, a label that is made for the prior is fresh, exactly if every
label in the history that matters is at or before one that is looked at. -/
theorem backupLabelCreate_fresh_iff (repo : LabelRepo clock)
    (prior : Option { prior : Str // backupRegExp backupAllRegExp prior = true }) :
    (∀ type timestamp label, backupLabelCreate clock.strftime repo.backup repo.history type (prior.map Subtype.val)
      timestamp = .ok label → repo.Fresh type label) ↔ repo.Seen (prior.map Subtype.val) := by
  constructor
  · -- a label that was not seen is made again
    intro hfresh
    have hseen : ∀ label, ¬ repo.NoLatest (prior.map Subtype.val) → HistoryLabel repo.history label →
        (prior.map Subtype.val = none ∧ label = fullLabel label ∨
          ∃ p, prior.map Subtype.val = some p ∧ label ≠ fullLabel label ∧ fullLabel label = fullLabel p) →
        ∃ other ∈ repo.lookedAt (prior.map Subtype.val), label ≤ other := by
      intro label hlatest hlabel hprior
      by_contra hnone
      obtain ⟨type, timestamp, hformat⟩ := formatted_again hlabel hprior
      obtain ⟨htype, hpos, -⟩ := backupLabelFormat_iff.mp hformat
      have hlater : ∀ other ∈ repo.lookedAt (prior.map Subtype.val), other < label :=
        fun other hother => not_le.mp (fun hle => hnone ⟨other, hother, hle⟩)
      exact (hfresh type timestamp label (backupLabelCreate_ok htype hlatest hpos hformat hlater)).history
        label hlabel rfl
    cases prior with
    | none => exact fun label hlabel hfull => hseen label (fun h => h.1 rfl) hlabel (.inl ⟨rfl, hfull⟩)
    | some prior =>
      by_cases hlatest : repo.NoLatest (some prior.val)
      · exact .inl hlatest.2
      · exact .inr (fun label hlabel hne hfull => hseen label hlatest hlabel (.inr ⟨_, rfl, hne, hfull⟩))
  · intro hseen type timestamp label h
    obtain ⟨htype, hlatest, hlater, timestamp', hpos, hformat⟩ := backupLabelCreate_later h
    have hbefore : ∀ other, (∃ m ∈ repo.lookedAt (prior.map Subtype.val), other ≤ m) → other < label :=
      fun other ⟨m, hm, hle⟩ => lt_of_le_of_lt hle (hlater m hm)
    have hbackup : ∀ other ∈ repo.backupLabels, other < label := fun other hother => hlater other (.inl hother)
    cases prior with
    | none =>
      obtain ⟨full, hparts⟩ := parts_of_format_full hformat
      refine ⟨hbackup, ?_, fun hne => absurd (htype.mpr rfl) hne⟩
      rintro other hother rfl
      exact lt_irrefl _ (hbefore other (hseen other hother (hparts.eq_fullLabel_iff.mpr rfl)))
    | some prior =>
      obtain ⟨pfull, ptail, hprior⟩ := backupRegExp_all_iff.mp prior.property
      obtain ⟨tail, hparts, hne⟩ := parts_of_format hprior hformat
      have hsame : ∀ other, HistoryLabel repo.history other → fullLabel other = fullLabel label → other < label := by
        intro other hother hfull
        by_cases heq : other = fullLabel other
        · obtain ⟨c, tail, rfl⟩ := exists_cons_of_ne_nil hne
          have hnil : ([] : Str) < c :: tail := nil_lt_cons _ _
          have hlt : (pfull ++ ['F']) ++ [] < (pfull ++ ['F']) ++ c :: tail := append_left_lt hnil
          rw [append_nil, append_assoc, singleton_append, ← hparts.eq, ← hparts.fullLabel_eq, ← hfull,
            ← heq] at hlt
          exact hlt
        · rw [hparts.fullLabel_eq, ← hprior.fullLabel_eq] at hfull
          exact hbefore other (hseen.resolve_left (fun h => hlatest ⟨nofun, h⟩) other hother heq hfull)
      refine ⟨hbackup, ?_, fun _ => hsame⟩
      rintro other hother rfl
      exact lt_irrefl _ (hsame other hother rfl)

end LabelRepo

/-! ## A label that is used again -/

/-- Three times in UTC. -/
def sampleClock : LabelClock where
  strftime timestamp :=
    if timestamp = 1704067200 then some "20240101-000000".toList
    else if timestamp = 1735689600 then some "20250101-000000".toList
    else if timestamp = 1735776000 then some "20250102-000000".toList
    else none
  dateTime := by
    intro timestamp _ s hs
    split at hs
    · cases hs
      rfl
    · split at hs
      · cases hs
        rfl
      · split at hs
        · cases hs
          rfl
        · cases hs

/-- A diff of a full backup of the year before. -/
def removedDiff : Str := "20240101-000000F_20250102-000000D".toList

/-- A repository where the last full backup and a diff of the one before were
removed: their manifests are in the history of two years. -/
def removedRepo : LabelRepo sampleClock where
  backup := ["20240101-000000F".toList]
  history :=
    { years := [⟨"2024".toList, ["20240101-000000F".toList ++ historyManifestExt, removedDiff ++ historyManifestExt]⟩,
        ⟨"2025".toList, ["20250101-000000F".toList ++ historyManifestExt]⟩]
      nodup := by decide }
  formatted := by
    rintro label ⟨-, year, d, hd, -, hfile⟩
    rcases mem_cons.mp hd with rfl | hd
    · rcases mem_cons.mp hfile with hfile | hfile
      · rw [append_cancel_right hfile]
        exact ⟨.full, none, 1704067200, rfl⟩
      · rw [append_cancel_right (mem_singleton.mp hfile)]
        exact ⟨.diff, some "20240101-000000F".toList, 1735776000, rfl⟩
    · obtain rfl := mem_singleton.mp hd
      rw [append_cancel_right (mem_singleton.mp hfile)]
      exact ⟨.full, none, 1735689600, rfl⟩

/-- **The label of the removed diff is used again** when the clock is set back. -/
theorem backupLabelCreate_removedRepo :
    backupLabelCreate sampleClock.strftime removedRepo.backup removedRepo.history .diff
      (some "20240101-000000F".toList) 1735776000 = .ok removedDiff ∧ ¬ removedRepo.Fresh .diff removedDiff := by
  refine ⟨by decide +kernel, fun hfresh => ?_⟩
  have hlabel : HistoryLabel removedRepo.history removedDiff := by
    refine ⟨by decide +kernel, "2024".toList, _, mem_cons_self, rfl, ?_⟩
    exact mem_cons_of_mem _ mem_cons_self
  exact hfresh.history removedDiff hlabel rfl

end PgxBackup
