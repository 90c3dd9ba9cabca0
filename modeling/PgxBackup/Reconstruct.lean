import Mathlib.Data.List.Induction
import PgxBackup.ExpireSurvive

/-!
# Reconstructing the backup list after a run was cut short

The reconstruction drops listed backups without a manifest, along with
their dependents, and adds the backups on disk that fit the list. When a
run was cut short, a set of labels that is closed under dependents has lost
its manifests. The reconstruction then finds the list that the run had
started from, less that set (`reconstruct_cut`), and once the shorter list
has been saved it finds that list again, whatever directories outside of it
are gone (`reconstruct_saved`).
-/

namespace PgxBackup

open List DepClosure

/-! ## Dropping backups without a manifest -/

section Missing

variable {repo : Repo} {info : InfoBackup}

theorem foldl_delete_backup (labels : List Str) (h : LabelSorted info.backup) :
    (labels.foldl infoBackupDataDelete info).backup = without info.backup labels := by
  induction labels generalizing info with
  | nil => simp
  | cons label labels ih =>
    have hdel : (infoBackupDataDelete info label).backup = without info.backup [label] := by
      rw [infoBackupDataDelete_backup, deleteLoop_eq_filter h]
      refine filter_congr (fun b _ => ?_)
      simp
    rw [foldl_cons, ih (by rw [hdel]; exact h.filter _), hdel, without_without]
    rfl

theorem foldl_delete_infoPg (labels : List Str) (info : InfoBackup) :
    (labels.foldl infoBackupDataDelete info).infoPg = info.infoPg := by
  induction labels generalizing info with
  | nil => rfl
  | cons label labels ih => exact ih _

theorem foldl_delete_updated (labels : List Str) (info : InfoBackup) :
    (labels.foldl infoBackupDataDelete info).updated = true ∨
      labels.foldl infoBackupDataDelete info = info := by
  induction labels generalizing info with
  | nil => exact Or.inr rfl
  | cons label labels ih =>
    left
    cases ih (infoBackupDataDelete info label) with
    | inl h => exact h
    | inr h => rw [foldl_cons, h]; rfl

variable (info) in
/-- The loop over the listed labels drops exactly the backups of a set that
is closed under dependents and that has lost its manifests. -/
theorem foldl_removeMissing {set : List Str} (h : DependencyClosed info.backup)
    (hset : ClosedSet info.backup set)
    (hmissing : ∀ b ∈ info.backup, repo.manifest b.backupLabel = none ↔ b.backupLabel ∈ set)
    (labels : List Str) :
    ∃ gone : List Str,
      (labels.foldl (removeMissing repo) info).backup = without info.backup gone ∧
      (labels.foldl (removeMissing repo) info).infoPg = info.infoPg ∧
      ((labels.foldl (removeMissing repo) info).updated = true ∨
        labels.foldl (removeMissing repo) info = info) ∧
      (∀ b ∈ info.backup, b.backupLabel ∈ gone → b.backupLabel ∈ set) ∧
      ∀ b ∈ info.backup, b.backupLabel ∈ labels → b.backupLabel ∈ set →
        b.backupLabel ∈ gone := by
  induction labels using reverseRecOn with
  | nil => exact ⟨[], by simp, rfl, Or.inr rfl, by simp, by simp⟩
  | append_singleton labels label ih =>
    obtain ⟨gone, hbackup, hpg, hupd, hsub, hall⟩ := ih
    rw [foldl_append, foldl_cons, foldl_nil]
    generalize labels.foldl (removeMissing repo) info = state at hbackup hpg hupd ⊢
    unfold removeMissing
    have hsorted : LabelSorted state.backup := by
      rw [hbackup]
      exact h.sorted.filter _
    split
    · rename_i hcond
      rw [Bool.and_eq_true, Option.isNone_iff_eq_none] at hcond
      obtain ⟨c, hc, hcl⟩ := mem_map.mp (infoBackupLabelExists_iff.mp hcond.2)
      rw [hbackup] at hc
      obtain ⟨hcinfo, hcgone⟩ := mem_without.mp hc
      have hcset : label ∈ set := by
        rw [← hcl]
        exact (hmissing c hcinfo).mp (hcl ▸ hcond.1)
      refine ⟨gone ++ strLstSort (infoBackupDataDependentList state label) .desc, ?_, ?_, ?_, ?_, ?_⟩
      · rw [foldl_delete_backup _ hsorted, hbackup, without_without]
      · exact (foldl_delete_infoPg _ state).trans hpg
      · cases foldl_delete_updated
          (strLstSort (infoBackupDataDependentList state label) .desc) state with
        | inl h => exact Or.inl h
        | inr heq => rw [heq]; exact hupd
      · intro b hb hmem
        cases mem_append.mp hmem with
        | inl hmem => exact hsub b hb hmem
        | inr hmem =>
          have hstate : ∀ a ∈ state.backup, a ∈ info.backup := by
            rw [hbackup]
            exact fun a ha => (mem_without.mp ha).1
          obtain ⟨k, hk, hreach⟩ :=
            reachable_of_mem_collect hstate (mem_strLstSort.mp hmem)
          rw [mem_singleton.mp hk] at hreach
          exact hset.mem_of_reachable h hcset hreach
      · intro b hb hmem hbset
        by_cases hbl : b.backupLabel = label
        · refine mem_append_right _ (mem_strLstSort.mpr ?_)
          rw [hbl]
          exact mem_collect_of_mem (mem_singleton_self _)
        · refine mem_append_left _ (hall b hb ?_ hbset)
          simpa [hbl] using hmem
    · rename_i hcond
      refine ⟨gone, hbackup, hpg, hupd, hsub, fun b hb hmem hbset => ?_⟩
      by_cases hbl : b.backupLabel = label
      · -- without a manifest and still not removed: it is not listed any more
        by_contra hnot
        refine hcond ?_
        rw [Bool.and_eq_true, Option.isNone_iff_eq_none, infoBackupLabelExists_iff, hbackup,
          ← hbl]
        exact ⟨(hmissing b hb).mpr hbset, mem_map_of_mem (mem_without.mpr ⟨hb, hnot⟩)⟩
      · exact hall b hb (by simpa [hbl] using hmem) hbset

end Missing

/-! ## Adding backups found on disk -/

/-- **A manifest as the backup command saves it**: it has the label of its
directory, a full backup has neither a prior nor a label of another type,
dependents sort after their prior and start with the same full, and the
last of the references of a dependent is the backup itself. -/
structure ManifestFits (label : Str) (manifest : Manifest) : Prop where
  label_eq : manifest.data.backupLabel = label
  prior : (infoBackupDataNew manifest).backupPrior = manifest.data.backupLabelPrior
  reference : manifest.data.backupType ≠ .full →
    (strLstSort manifest.referenceList .asc).getLast? = some manifest.data.backupLabel
  prior_lt : ∀ p ∈ manifest.data.backupLabelPrior, p < label
  full : backupRegExp fullRegExp label = true → manifest.data.backupLabelPrior = none
  diff : backupRegExp fullDiffRegExp label = true →
    ∀ p ∈ manifest.data.backupLabelPrior, backupRegExp fullRegExp p = true
  same : ∀ p ∈ manifest.data.backupLabelPrior, label.take 16 = p.take 16

/-- A backup added where its label belongs. -/
def insertLabel (l : List InfoBackupData) (b : InfoBackupData) : List InfoBackupData :=
  (l ++ [b]).insertionSort labelLe

/-- Can the backup of the manifest be added to the list? -/
def addable (infoPg : InfoPg) (l : List InfoBackupData) (manifest : Manifest) : Bool :=
  historyHas infoPg manifest.data &&
    manifest.data.backupLabelPrior.all
      (fun p => decide (p ∈ l.map InfoBackupData.backupLabel))

/-- One round of the loop over the backups on disk, on the list alone. -/
def addOne (repo : Repo) (infoPg : InfoPg) (current : List Str) (l : List InfoBackupData)
    (label : Str) : List InfoBackupData :=
  if label ∈ current then l
  else
    match repo.manifest label with
    | none => l
    | some manifest =>
      if addable infoPg l manifest then insertLabel l (infoBackupDataNew manifest) else l

section Insert

variable {l : List InfoBackupData} {b c : InfoBackupData} {set : List Str}

theorem mem_insertLabel : c ∈ insertLabel l b ↔ c ∈ l ∨ c = b := by
  unfold insertLabel
  rw [(perm_insertionSort _ _).mem_iff, mem_append, mem_singleton]

section

variable (h : LabelSorted l) (hb : b.backupLabel ∉ l.map InfoBackupData.backupLabel)
include h hb

theorem sorted_insertLabel : LabelSorted (insertLabel l b) := by
  have hle : (insertLabel l b).Pairwise labelLe := pairwise_insertionSort _ _
  have hnodup : ((insertLabel l b).map InfoBackupData.backupLabel).Nodup := by
    have hperm := (perm_insertionSort labelLe (l ++ [b])).map InfoBackupData.backupLabel
    unfold insertLabel
    rw [hperm.nodup_iff, map_append, nodup_append]
    refine ⟨h.nodup_labels, by simp, fun x hx y hy hxy => hb ?_⟩
    have hy : y = b.backupLabel := by simpa using hy
    exact hy ▸ hxy ▸ hx
  exact (hle.and (pairwise_map.mp hnodup)).imp (fun h => lt_of_le_of_ne h.1 h.2)

theorem without_insertLabel_of_mem (hset : b.backupLabel ∈ set) :
    without (insertLabel l b) set = without l set := by
  refine LabelSorted.eq_of_mem_iff ((sorted_insertLabel h hb).filter _) (h.filter _) (fun c => ?_)
  rw [mem_without, mem_without, mem_insertLabel]
  constructor
  · rintro ⟨hc | rfl, hnot⟩
    · exact ⟨hc, hnot⟩
    · exact absurd hset hnot
  · rintro ⟨hc, hnot⟩
    exact ⟨Or.inl hc, hnot⟩

theorem without_insertLabel_of_notMem (hset : b.backupLabel ∉ set) :
    without (insertLabel l b) set = insertLabel (without l set) b := by
  have hb' : b.backupLabel ∉ (without l set).map InfoBackupData.backupLabel := fun hmem => by
    obtain ⟨c, hc, hcb⟩ := mem_map.mp hmem
    exact hb (mem_map.mpr ⟨c, (mem_without.mp hc).1, hcb⟩)
  refine LabelSorted.eq_of_mem_iff ((sorted_insertLabel h hb).filter _)
    (sorted_insertLabel (h.filter _) hb') (fun c => ?_)
  rw [mem_insertLabel, mem_without, mem_without, mem_insertLabel]
  constructor
  · rintro ⟨hc | hc, hnot⟩
    · exact Or.inl ⟨hc, hnot⟩
    · exact Or.inr hc
  · rintro (⟨hc, hnot⟩ | rfl)
    · exact ⟨Or.inl hc, hnot⟩
    · exact ⟨Or.inr rfl, hset⟩

end

end Insert

section Found

variable {repo : Repo} {info : InfoBackup} {current : List Str} {l : List InfoBackupData}
  {label : Str} {infoPg : InfoPg}

variable (info current) in
theorem addFound_eq (hfits : ∀ m, repo.manifest label = some m → ManifestFits label m) :
    ∃ info', addFound repo current info label = .ok info' ∧
      info'.backup = addOne repo info.infoPg current info.backup label ∧
      info'.infoPg = info.infoPg ∧ (info'.updated = true ∨ info' = info) := by
  unfold addFound addOne
  split
  · exact ⟨info, rfl, rfl, rfl, Or.inr rfl⟩
  · cases hm : repo.manifest label with
    | none => exact ⟨info, rfl, rfl, rfl, Or.inr rfl⟩
    | some m =>
      have hprior : (historyHas info.infoPg m.data && priorListed info m.data)
          = addable info.infoPg info.backup m := by
        unfold addable priorListed
        cases m.data.backupLabelPrior with
        | none => rfl
        | some p =>
          have hbool : infoBackupLabelExists info p
              = decide (p ∈ info.backup.map InfoBackupData.backupLabel) := by
            rw [Bool.eq_iff_iff, infoBackupLabelExists_iff, decide_eq_true_iff]
          simp only [hbool, Option.all_some]
      dsimp only
      rw [hprior]
      split
      · unfold infoBackupDataAdd
        rw [if_neg (fun h => h.2 ((hfits m hm).reference h.1))]
        exact ⟨_, rfl, rfl, rfl, Or.inl rfl⟩
      · exact ⟨info, rfl, rfl, rfl, Or.inr rfl⟩

variable (info current) in
/-- The loop over the backups on disk does not fail. -/
theorem foldlM_addFound (labels : List Str)
    (hfits : ∀ label ∈ labels, ∀ m, repo.manifest label = some m → ManifestFits label m) :
    ∃ info', labels.foldlM (addFound repo current) info = .ok info' ∧
      info'.backup = labels.foldl (addOne repo info.infoPg current) info.backup ∧
      info'.infoPg = info.infoPg ∧ (info'.updated = true ∨ info' = info) := by
  induction labels generalizing info with
  | nil => exact ⟨info, rfl, rfl, rfl, Or.inr rfl⟩
  | cons label labels ih =>
    obtain ⟨info₁, hok₁, hb₁, hpg₁, hu₁⟩ :=
      addFound_eq info current (hfits label mem_cons_self)
    obtain ⟨info₂, hok₂, hb₂, hpg₂, hu₂⟩ :=
      ih info₁ (fun y hy => hfits y (mem_cons_of_mem _ hy))
    refine ⟨info₂, ?_, ?_, hpg₂.trans hpg₁, ?_⟩
    · rw [foldlM_cons, hok₁]
      exact hok₂
    · rw [hb₂, hb₁, hpg₁]
      rfl
    · cases hu₂ with
      | inl h => exact Or.inl h
      | inr h => rw [h]; exact hu₁

/-- What one round does: nothing, or it adds a backup that is not listed and
that fits the list. -/
theorem addOne_cases (repo : Repo) (infoPg : InfoPg) (current : List Str)
    (l : List InfoBackupData) (label : Str) :
    addOne repo infoPg current l label = l ∨
      ∃ m, repo.manifest label = some m ∧ label ∉ current ∧ addable infoPg l m = true ∧
        addOne repo infoPg current l label = insertLabel l (infoBackupDataNew m) := by
  unfold addOne
  split
  · exact Or.inl rfl
  · rename_i hcur
    split
    · exact Or.inl rfl
    · rename_i m hm
      split
      · rename_i hadd
        exact Or.inr ⟨m, hm, hcur, hadd, rfl⟩
      · exact Or.inl rfl

theorem subset_addOne {b : InfoBackupData} (hb : b ∈ l) :
    b ∈ addOne repo infoPg current l label := by
  cases addOne_cases repo infoPg current l label with
  | inl h => rw [h]; exact hb
  | inr h =>
    obtain ⟨m, -, -, -, heq⟩ := h
    rw [heq]
    exact mem_insertLabel.mpr (Or.inl hb)

variable {labels : List Str}

theorem subset_found {b : InfoBackupData} (hb : b ∈ l) :
    b ∈ labels.foldl (addOne repo infoPg current) l := by
  induction labels generalizing l with
  | nil => exact hb
  | cons label labels ih => exact ih (subset_addOne hb)

/-- Before a round: the list is in order, the labels to come are distinct
and those of them that are listed were so from the start. -/
structure FoundInv (current labels : List Str) (l : List InfoBackupData) : Prop where
  sorted : LabelSorted l
  nodup : labels.Nodup
  fresh : ∀ x ∈ labels, x ∈ l.map InfoBackupData.backupLabel → x ∈ current

theorem FoundInv.notMem (h : FoundInv current (label :: labels) l)
    (hcur : label ∉ current) : label ∉ l.map InfoBackupData.backupLabel :=
  fun hmem => hcur (h.fresh label mem_cons_self hmem)

/-- A round keeps the conditions for the next one. -/
theorem FoundInv.step {labels : List Str} (h : FoundInv current (label :: labels) l)
    (hfits : ∀ m, repo.manifest label = some m → ManifestFits label m) :
    FoundInv current labels (addOne repo infoPg current l label) := by
  have hnodup := nodup_cons.mp h.nodup
  cases addOne_cases repo infoPg current l label with
  | inl heq =>
    rw [heq]
    exact ⟨h.sorted, hnodup.2, fun x hx => h.fresh x (mem_cons_of_mem _ hx)⟩
  | inr hadd =>
    obtain ⟨m, hm, hcur, -, heq⟩ := hadd
    have hlabel : (infoBackupDataNew m).backupLabel = label := (hfits m hm).label_eq
    rw [heq]
    refine ⟨sorted_insertLabel h.sorted (hlabel ▸ h.notMem hcur), hnodup.2, fun x hx hmem => ?_⟩
    obtain ⟨b, hb, hbx⟩ := mem_map.mp hmem
    cases mem_insertLabel.mp hb with
    | inl hb => exact h.fresh x (mem_cons_of_mem _ hx) (mem_map.mpr ⟨b, hb, hbx⟩)
    | inr hb =>
      rw [hb, hlabel] at hbx
      exact absurd (hbx ▸ hx) hnodup.1

theorem sorted_found (h : FoundInv current labels l)
    (hfits : ∀ label ∈ labels, ∀ m, repo.manifest label = some m → ManifestFits label m) :
    LabelSorted (labels.foldl (addOne repo infoPg current) l) := by
  induction labels generalizing l with
  | nil => exact h.sorted
  | cons label labels ih =>
    exact ih (h.step (hfits label mem_cons_self))
      (fun y hy => hfits y (mem_cons_of_mem _ hy))

theorem mem_found {b : InfoBackupData}
    (hb : b ∈ labels.foldl (addOne repo infoPg current) l) :
    b ∈ l ∨ ∃ label ∈ labels, ∃ m, repo.manifest label = some m ∧ label ∉ current ∧
      b = infoBackupDataNew m ∧
      ∀ p ∈ m.data.backupLabelPrior, p ∈
        (labels.foldl (addOne repo infoPg current) l).map InfoBackupData.backupLabel := by
  induction labels generalizing l with
  | nil => exact Or.inl hb
  | cons label labels ih =>
    rw [foldl_cons] at hb ⊢
    cases ih hb with
    | inl hb =>
      cases addOne_cases repo infoPg current l label with
      | inl heq => rw [heq] at hb; exact Or.inl hb
      | inr hadd =>
        obtain ⟨m, hm, hcur, hok, heq⟩ := hadd
        rw [heq] at hb
        cases mem_insertLabel.mp hb with
        | inl hb => exact Or.inl hb
        | inr hb =>
          refine Or.inr ⟨label, mem_cons_self, m, hm, hcur, hb, fun p hp => ?_⟩
          have hpl : p ∈ l.map InfoBackupData.backupLabel := by
            unfold addable at hok
            rw [Bool.and_eq_true, hp] at hok
            exact of_decide_eq_true hok.2
          obtain ⟨c, hc, rfl⟩ := mem_map.mp hpl
          exact mem_map_of_mem (subset_found (subset_addOne hc))
    | inr h =>
      obtain ⟨y, hy, m, h⟩ := h
      exact Or.inr ⟨y, mem_cons_of_mem _ hy, m, h⟩

theorem mem_labels_found {x : Str}
    (hfits : ∀ label ∈ labels, ∀ m, repo.manifest label = some m → ManifestFits label m)
    (hx : x ∈ (labels.foldl (addOne repo infoPg current) l).map InfoBackupData.backupLabel) :
    x ∈ l.map InfoBackupData.backupLabel ∨ x ∈ labels := by
  obtain ⟨b, hb, rfl⟩ := mem_map.mp hx
  cases mem_found hb with
  | inl hb => exact Or.inl (mem_map_of_mem hb)
  | inr h =>
    obtain ⟨label, hlabel, m, hm, -, rfl, -⟩ := h
    have heq : (infoBackupDataNew m).backupLabel = label := (hfits label hlabel m hm).label_eq
    exact Or.inr (heq ▸ hlabel)

/-- **A backup on disk that was not added does not fit the list**, not even
with all that was added after it: its prior sorts before it. -/
theorem not_addable_of_notMem (hsorted : labels.Pairwise (· < ·))
    (hfits : ∀ label ∈ labels, ∀ m, repo.manifest label = some m → ManifestFits label m)
    (hlabel : label ∈ labels) {m : Manifest} (hm : repo.manifest label = some m)
    (hcur : label ∉ current)
    (hnot : label ∉
      (labels.foldl (addOne repo infoPg current) l).map InfoBackupData.backupLabel) :
    addable infoPg (labels.foldl (addOne repo infoPg current) l) m = false := by
  obtain ⟨before, after, rfl⟩ := append_of_mem hlabel
  have hafter := (pairwise_append.mp hsorted).2.1
  rw [foldl_append, foldl_cons] at hnot ⊢
  generalize before.foldl (addOne repo infoPg current) l = state at hnot ⊢
  cases addOne_cases repo infoPg current state label with
  | inr hadd =>
    obtain ⟨m', hm', -, -, heq⟩ := hadd
    have hmem : infoBackupDataNew m' ∈ addOne repo infoPg current state label :=
      heq ▸ mem_insertLabel.mpr (Or.inr rfl)
    have hlab : (infoBackupDataNew m').backupLabel = label := (hfits label hlabel m' hm').label_eq
    exact absurd (mem_map.mpr ⟨_, subset_found hmem, hlab⟩) hnot
  | inl heq =>
    rw [heq]
    have hno : addable infoPg state m = false := by
      by_contra hyes
      rw [Bool.not_eq_false] at hyes
      have hadd : addOne repo infoPg current state label
          = insertLabel state (infoBackupDataNew m) := by
        unfold addOne
        rw [if_neg hcur, hm]
        exact if_pos hyes
      have hmem : infoBackupDataNew m ∈ state := by
        rw [← heq, hadd]
        exact mem_insertLabel.mpr (Or.inr rfl)
      have hlab : (infoBackupDataNew m).backupLabel = label := (hfits label hlabel m hm).label_eq
      rw [heq] at hnot
      exact hnot (mem_map.mpr ⟨_, subset_found hmem, hlab⟩)
    unfold addable at hno ⊢
    cases hp : m.data.backupLabelPrior with
    | none => rw [hp] at hno; exact hno
    | some p =>
      rw [hp] at hno
      cases hh : historyHas infoPg m.data with
      | false => rfl
      | true =>
        rw [hh, Bool.true_and, Option.all_some] at hno
        rw [Bool.true_and, Option.all_some]
        refine decide_eq_false (fun hmem => of_decide_eq_false hno ?_)
        have hplt : p < label := (hfits label hlabel m hm).prior_lt p hp
        cases mem_labels_found (fun y hy => hfits y
          (mem_append_right _ (mem_cons_of_mem _ hy))) hmem with
        | inl hmem => exact hmem
        | inr hmem =>
          have := rel_of_pairwise_cons hafter hmem
          exact absurd (this.trans hplt) (lt_irrefl _)

theorem addOne_congr {current' : List Str} (h : label ∈ current ↔ label ∈ current') :
    addOne repo infoPg current l label = addOne repo infoPg current' l label := by
  unfold addOne
  by_cases hl : label ∈ current
  · rw [if_pos hl, if_pos (h.mp hl)]
  · rw [if_neg hl, if_neg (fun h' => hl (h.mpr h'))]

end Found

/-! ## A repository with well-formed manifests -/

/-- What the manifests on disk say of their backups. -/
def Repo.diskEntries (repo : Repo) : List InfoBackupData :=
  repo.paths.filterMap (fun p => p.manifest.map infoBackupDataNew)

/-- **A repository that an expire run can start from**: the list is closed,
every listed backup has a manifest that agrees with it, manifests are as the
backup command saves them and reference nothing outside of their chain. -/
structure RepoValid (repo : Repo) : Prop where
  nodup : (repo.paths.map BackupPath.label).Nodup
  loaded : repo.backupInfo.updated = false
  closed : DependencyClosed repo.backupInfo.backup
  valid : ∀ b ∈ repo.backupInfo.backup, backupRegExp backupAllRegExp b.backupLabel = true
  listed : ∀ b ∈ repo.backupInfo.backup, ∃ m, repo.manifest b.backupLabel = some m ∧
    (infoBackupDataNew m).backupPrior = b.backupPrior
  fits : ∀ label m, repo.manifest label = some m → ManifestFits label m
  reference : ∀ label m, repo.manifest label = some m →
    ∀ r ∈ (infoBackupDataNew m).references, PriorAncestor repo.diskEntries r label
  copy : ∀ label m c, repo.manifest label = some m → repo.manifestCopy label = some c →
    c.data.backupLabelPrior = m.data.backupLabelPrior

/-- The backups on disk in label order. -/
def Repo.diskSorted (repo : Repo) : List Str := strLstSort repo.diskLabels .asc

/-- **The list that a run starts from.** -/
def Repo.reconstructed (repo : Repo) : List InfoBackupData :=
  repo.diskSorted.foldl
    (addOne repo repo.backupInfo.infoPg (repo.backupInfo.backup.map InfoBackupData.backupLabel))
    repo.backupInfo.backup

section Valid

variable {repo cut : Repo} {set : List Str}

theorem RepoValid.manifest_path (h : RepoValid repo) {p : BackupPath} (hp : p ∈ repo.paths) :
    repo.manifest p.label = p.manifest := by
  have hfind : repo.paths.find? (fun q => decide (q.label = p.label)) = some p := by
    cases hf : repo.paths.find? (fun q => decide (q.label = p.label)) with
    | none =>
      have hnot := find?_eq_none.mp hf p hp
      simp at hnot
    | some q =>
      have hq : q.label = p.label := by simpa using find?_some hf
      rw [inj_on_of_nodup_map h.nodup (mem_of_find?_eq_some hf) hp hq]
  unfold Repo.manifest
  rw [hfind]
  rfl

theorem mem_diskSorted {x : Str} :
    x ∈ repo.diskSorted ↔ (∃ p ∈ repo.paths, p.label = x) ∧
      backupRegExp backupAllRegExp x = true := by
  unfold Repo.diskSorted Repo.diskLabels
  rw [mem_strLstSort, mem_filter, mem_map]

theorem pairwise_diskSorted (h : (repo.paths.map BackupPath.label).Nodup) :
    repo.diskSorted.Pairwise (· < ·) := by
  have hle : repo.diskSorted.Pairwise (· ≤ ·) := pairwise_insertionSort _ _
  have hnodup : repo.diskSorted.Nodup :=
    (perm_insertionSort _ _).nodup_iff.mpr (h.filter _)
  exact (hle.and hnodup).imp (fun h => lt_of_le_of_ne h.1 h.2)

section

variable (h : RepoValid repo)
include h

theorem RepoValid.foundInv :
    FoundInv (repo.backupInfo.backup.map InfoBackupData.backupLabel) repo.diskSorted
      repo.backupInfo.backup :=
  ⟨h.closed.sorted, (pairwise_diskSorted h.nodup).imp (fun hlt => hlt.ne), fun _ _ hx => hx⟩

theorem RepoValid.sorted_reconstructed : LabelSorted repo.reconstructed :=
  sorted_found h.foundInv (fun label _ m hm => h.fits label m hm)

theorem RepoValid.manifest_of_mem {b : InfoBackupData} (hb : b ∈ repo.reconstructed) :
    ∃ m, repo.manifest b.backupLabel = some m ∧
      (infoBackupDataNew m).backupPrior = b.backupPrior := by
  cases mem_found hb with
  | inl hb => exact h.listed b hb
  | inr hfound =>
    obtain ⟨label, -, m, hm, -, rfl, -⟩ := hfound
    have hlabel : (infoBackupDataNew m).backupLabel = label := (h.fits label m hm).label_eq
    exact ⟨m, hlabel ▸ hm, rfl⟩

theorem RepoValid.prior_of_mem {b : InfoBackupData} (hb : b ∈ repo.reconstructed) :
    ∃ m, repo.manifest b.backupLabel = some m ∧ m.data.backupLabelPrior = b.backupPrior ∧
      ManifestFits b.backupLabel m := by
  obtain ⟨m, hm, hprior⟩ := h.manifest_of_mem hb
  exact ⟨m, hm, (h.fits _ m hm).prior ▸ hprior, h.fits _ m hm⟩

theorem RepoValid.closed_prior :
    Closed InfoBackupData.backupLabel InfoBackupData.backupPrior repo.reconstructed where
  sorted := h.sorted_reconstructed
  parent_lt := by
    intro b hb p hp
    obtain ⟨m, -, hprior, hfits⟩ := h.prior_of_mem hb
    exact hfits.prior_lt p (hprior.trans hp)
  parent_mem := by
    intro b hb p hp
    cases mem_found hb with
    | inl hb =>
      obtain ⟨c, hc, hcp⟩ := h.closed.parent_mem b hb p hp
      exact ⟨c, subset_found hc, hcp⟩
    | inr hfound =>
      obtain ⟨label, -, m, hm, -, rfl, hprior⟩ := hfound
      exact mem_map.mp (hprior p ((h.fits label m hm).prior ▸ hp))

/-- **The list that a run starts from is closed**, added backups included. -/
theorem RepoValid.closed_reconstructed :
    DependencyClosed repo.reconstructed where
  toClosed := h.closed_prior
  reference_ancestor := by
    intro b hb r hr
    cases mem_found hb with
    | inl hb => exact (h.closed.reference_ancestor b hb r hr).mono (fun a ha => subset_found ha)
    | inr hfound =>
      obtain ⟨label, -, m, hm, -, rfl, -⟩ := hfound
      have hlabel : (infoBackupDataNew m).backupLabel = label := (h.fits label m hm).label_eq
      refine Ancestor.transfer h.closed_prior ?_ ⟨_, hb, rfl⟩ (hlabel ▸ h.reference label m hm r hr)
      -- a backup of the list has the prior that its manifest on disk says
      intro a ha c hc hac
      obtain ⟨p, hp, hpa⟩ := mem_filterMap.mp ha
      obtain ⟨ma, hma, rfl⟩ := Option.map_eq_some_iff.mp hpa
      have hman : repo.manifest p.label = some ma := (h.manifest_path hp).trans hma
      have hpl : (infoBackupDataNew ma).backupLabel = p.label := (h.fits _ ma hman).label_eq
      obtain ⟨mc, hmc, hprior⟩ := h.manifest_of_mem hc
      rw [← hac, hpl, hman] at hmc
      rw [Option.some.inj hmc]
      exact hprior

theorem RepoValid.labels_reconstructed : LabelsValid repo.reconstructed where
  valid := by
    intro b hb
    cases mem_found hb with
    | inl hb => exact h.valid b hb
    | inr hfound =>
      obtain ⟨label, hlabel, m, hm, -, rfl, -⟩ := hfound
      rw [show (infoBackupDataNew m).backupLabel = label from (h.fits label m hm).label_eq]
      exact (mem_diskSorted.mp hlabel).2
  full := by
    intro b hb hfull
    obtain ⟨m, -, hprior, hfits⟩ := h.prior_of_mem hb
    exact hprior ▸ hfits.full hfull
  diff := by
    intro b hb hdiff p hp
    obtain ⟨m, -, hprior, hfits⟩ := h.prior_of_mem hb
    exact hfits.diff hdiff p (hprior.trans hp)
  same := by
    intro b hb p hp
    obtain ⟨m, -, hprior, hfits⟩ := h.prior_of_mem hb
    exact hfits.same p (hprior.trans hp)

end

/-! ## After a cut -/

/-- One round on a repository that has lost the manifests of a closed set. -/
theorem addOne_cut {infoPg : InfoPg} {current current' : List Str} {l final : List InfoBackupData}
    {label : Str} (hinv : LabelSorted l)
    (hnew : label ∉ current → label ∉ l.map InfoBackupData.backupLabel)
    (hfits : ∀ m, repo.manifest label = some m → ManifestFits label m)
    (hfinal : ∀ b ∈ addOne repo infoPg current l label, b ∈ final)
    (hset : ClosedSet final set)
    (hcur : label ∈ current' ↔ label ∈ current ∧ label ∉ set)
    (hman : cut.manifest label = if label ∈ set then none else repo.manifest label) :
    addOne cut infoPg current' (without l set) label
      = without (addOne repo infoPg current l label) set := by
  by_cases hin : label ∈ set
  · rw [if_pos hin] at hman
    have hleft : addOne cut infoPg current' (without l set) label = without l set := by
      unfold addOne
      rw [hman]
      split
      · rfl
      · rfl
    rw [hleft]
    cases addOne_cases repo infoPg current l label with
    | inl heq => rw [heq]
    | inr hadd =>
      obtain ⟨m, hm, hcur', -, heq⟩ := hadd
      have hlabel : (infoBackupDataNew m).backupLabel = label := (hfits m hm).label_eq
      rw [heq, without_insertLabel_of_mem hinv (hlabel ▸ hnew hcur') (hlabel ▸ hin)]
  · rw [if_neg hin] at hman
    by_cases hc : label ∈ current
    · unfold addOne
      rw [if_pos (hcur.mpr ⟨hc, hin⟩), if_pos hc]
    · have hc' : label ∉ current' := fun h => hc (hcur.mp h).1
      cases hm : repo.manifest label with
      | none =>
        unfold addOne
        simp only [hman, hm, if_neg hc, if_neg hc']
      | some m =>
        have hlabel : (infoBackupDataNew m).backupLabel = label := (hfits m hm).label_eq
        have hone : addOne repo infoPg current l label
            = if addable infoPg l m then insertLabel l (infoBackupDataNew m) else l := by
          unfold addOne
          simp only [hm, if_neg hc]
        -- the prior is left when the backup is
        have hadd : addable infoPg (without l set) m = addable infoPg l m := by
          unfold addable
          cases hp : m.data.backupLabelPrior with
          | none => rfl
          | some p =>
            simp only [Option.all_some]
            cases hh : historyHas infoPg m.data with
            | false => rfl
            | true =>
              simp only [Bool.true_and]
              refine decide_eq_decide.mpr ⟨fun hmem => ?_, fun hmem => ?_⟩
              · obtain ⟨b, hb, hbp⟩ := mem_map.mp hmem
                exact mem_map.mpr ⟨b, (mem_without.mp hb).1, hbp⟩
              · obtain ⟨b, hb, rfl⟩ := mem_map.mp hmem
                have hyes : addable infoPg l m = true := by
                  unfold addable
                  rw [hh, hp, Bool.true_and, Option.all_some]
                  exact decide_eq_true hmem
                rw [if_pos hyes] at hone
                rw [hone] at hfinal
                have hkeep := hset _ (hfinal _ (mem_insertLabel.mpr (Or.inr rfl)))
                  (decide_eq_true (hlabel ▸ hin)) b
                  (hfinal b (mem_insertLabel.mpr (Or.inl hb))) ((hfits m hm).prior.trans hp)
                exact mem_map_of_mem (mem_without.mpr ⟨hb, of_decide_eq_true hkeep⟩)
        have hcut : addOne cut infoPg current' (without l set) label
            = if addable infoPg (without l set) m
              then insertLabel (without l set) (infoBackupDataNew m) else without l set := by
          unfold addOne
          simp only [hman, hm, if_neg hc']
        rw [hcut, hone, hadd]
        split
        · exact (without_insertLabel_of_notMem hinv (hlabel ▸ hnew hc) (hlabel ▸ hin)).symm
        · rfl

/-- The loop on a repository that has lost the manifests of a closed set. -/
theorem found_cut {infoPg : InfoPg} {current current' labels : List Str}
    {l final : List InfoBackupData} (hinv : FoundInv current labels l)
    (hfits : ∀ label ∈ labels, ∀ m, repo.manifest label = some m → ManifestFits label m)
    (hfinal : ∀ b ∈ labels.foldl (addOne repo infoPg current) l, b ∈ final)
    (hset : ClosedSet final set)
    (hcur : ∀ label ∈ labels, label ∈ current' ↔ label ∈ current ∧ label ∉ set)
    (hman : ∀ label ∈ labels,
      cut.manifest label = if label ∈ set then none else repo.manifest label) :
    labels.foldl (addOne cut infoPg current') (without l set)
      = without (labels.foldl (addOne repo infoPg current) l) set := by
  induction labels generalizing l with
  | nil => rfl
  | cons label labels ih =>
    have hfitsl := hfits label mem_cons_self
    rw [foldl_cons] at hfinal
    have hround : ∀ b ∈ addOne repo infoPg current l label, b ∈ final :=
      fun b hb => hfinal b (subset_found hb)
    rw [foldl_cons, foldl_cons, addOne_cut hinv.sorted hinv.notMem hfitsl hround hset
      (hcur label mem_cons_self) (hman label mem_cons_self)]
    exact ih (hinv.step hfitsl) (fun y hy => hfits y (mem_cons_of_mem _ hy)) hfinal
      (fun y hy => hcur y (mem_cons_of_mem _ hy))
      (fun y hy => hman y (mem_cons_of_mem _ hy))

/-- The reconstruction in two steps: first the listed backups without a
manifest go, then the loop over the backups on disk. -/
theorem reconstruct_eq (hclosed : DependencyClosed repo.backupInfo.backup)
    (hset : ClosedSet repo.backupInfo.backup set)
    (hmissing : ∀ b ∈ repo.backupInfo.backup,
      repo.manifest b.backupLabel = none ↔ b.backupLabel ∈ set)
    (hfits : ∀ label m, repo.manifest label = some m → ManifestFits label m) :
    ∃ info, infoBackupLoadFileReconstruct repo = .ok info ∧
      info.backup = repo.diskSorted.foldl
        (addOne repo repo.backupInfo.infoPg
          ((without repo.backupInfo.backup set).map InfoBackupData.backupLabel))
        (without repo.backupInfo.backup set) ∧
      info.infoPg = repo.backupInfo.infoPg ∧
      (info.updated = true ∨ info = infoBackupLoadFile repo) := by
  obtain ⟨gone, hbackup, hpg, hupd, hsub, hall⟩ :=
    foldl_removeMissing (infoBackupLoadFile repo) hclosed hset hmissing
      (strLstSort (infoBackupDataLabelList (infoBackupLoadFile repo) none) .asc)
  have hgone : without repo.backupInfo.backup gone = without repo.backupInfo.backup set := by
    refine without_congr (fun b hb => ⟨hsub b hb, fun hbset => hall b hb ?_ hbset⟩)
    refine mem_strLstSort.mpr (mem_filter.mpr ⟨mem_map_of_mem hb, rfl⟩)
  have hbackup : ((strLstSort (infoBackupDataLabelList (infoBackupLoadFile repo) none) .asc).foldl
      (removeMissing repo) (infoBackupLoadFile repo)).backup
        = without repo.backupInfo.backup set := hbackup.trans hgone
  unfold infoBackupLoadFileReconstruct
  dsimp only
  generalize (strLstSort (infoBackupDataLabelList (infoBackupLoadFile repo) none) .asc).foldl
    (removeMissing repo) (infoBackupLoadFile repo) = state at hbackup hpg hupd ⊢
  obtain ⟨info, hok, hb, hpg', hupd'⟩ := foldlM_addFound state
    (strLstSort (infoBackupDataLabelList state none) .asc) repo.diskSorted
    (fun label _ m hm => hfits label m hm)
  refine ⟨info, hok, ?_, hpg'.trans hpg, ?_⟩
  · rw [hb, hbackup, show state.infoPg = repo.backupInfo.infoPg from hpg]
    refine foldl_ext _ _ _ (fun l label _ => addOne_congr ?_)
    unfold infoBackupDataLabelList InfoBackup.labels
    rw [hbackup, mem_strLstSort]
    simp
  · cases hupd' with
    | inl h => exact Or.inl h
    | inr h => rw [h]; exact hupd

section

variable (h : RepoValid repo) (hset : ClosedSet repo.reconstructed set)
include h hset

/-- **After a cut before the list was saved**, the reconstruction finds the
list that the run started from, less the backups that lost their manifest. -/
theorem reconstruct_cut (hinfo : cut.backupInfo = repo.backupInfo)
    (hdisk : cut.diskSorted = repo.diskSorted)
    (hman : ∀ label, cut.manifest label = if label ∈ set then none else repo.manifest label) :
    ∃ info, infoBackupLoadFileReconstruct cut = .ok info ∧
      info.backup = without repo.reconstructed set ∧
      info.infoPg = repo.backupInfo.infoPg ∧
      (info.updated = true ∨ info = infoBackupLoadFile cut) := by
  have hsub : ∀ b ∈ repo.backupInfo.backup, b ∈ repo.reconstructed := fun b hb => subset_found hb
  have hmissing : ∀ b ∈ cut.backupInfo.backup,
      cut.manifest b.backupLabel = none ↔ b.backupLabel ∈ set := by
    rw [hinfo]
    intro b hb
    obtain ⟨m, hm, -⟩ := h.listed b hb
    rw [hman]
    by_cases hin : b.backupLabel ∈ set
    · simp [hin]
    · simp [hin, hm]
  have hfits : ∀ label m, cut.manifest label = some m → ManifestFits label m := by
    intro label m hm
    rw [hman] at hm
    split at hm
    · cases hm
    · exact h.fits label m hm
  obtain ⟨info, hok, hbackup, hpg, hupd⟩ :=
    reconstruct_eq (hinfo ▸ h.closed) (hinfo ▸ hset.subset hsub) hmissing hfits
  refine ⟨info, hok, ?_, hinfo ▸ hpg, hupd⟩
  rw [hbackup, hinfo, hdisk]
  refine found_cut h.foundInv (fun label _ m hm => h.fits label m hm) (fun b hb => hb) hset
    (fun label _ => ?_) (fun label _ => hman label)
  constructor
  · intro hmem
    obtain ⟨b, hb, rfl⟩ := mem_map.mp hmem
    exact ⟨mem_map_of_mem (mem_without.mp hb).1, (mem_without.mp hb).2⟩
  · rintro ⟨hmem, hnot⟩
    obtain ⟨b, hb, rfl⟩ := mem_map.mp hmem
    exact mem_map_of_mem (mem_without.mpr ⟨hb, hnot⟩)

/-- **Once the list was saved**, the reconstruction finds it again: what is
on disk besides did not fit the longer list either. -/
theorem reconstruct_saved (hinfo : cut.backupInfo.backup = without repo.reconstructed set)
    (hpg : cut.backupInfo.infoPg = repo.backupInfo.infoPg)
    (hdisk : ∀ x ∈ cut.diskSorted, x ∈ repo.diskSorted)
    (hman : ∀ label m, cut.manifest label = some m →
      label ∉ set ∧ repo.manifest label = some m)
    (hleft : ∀ b ∈ without repo.reconstructed set, cut.manifest b.backupLabel ≠ none) :
    ∃ info, infoBackupLoadFileReconstruct cut = .ok info ∧
      info.backup = without repo.reconstructed set ∧
      info.infoPg = repo.backupInfo.infoPg ∧
      (info.updated = true ∨ info = infoBackupLoadFile cut) := by
  have hclosed : DependencyClosed cut.backupInfo.backup := by
    rw [hinfo]
    exact closed_without h.closed_reconstructed hset
  have hnone : ClosedSet cut.backupInfo.backup [] := fun _ _ _ _ _ _ => by simp
  obtain ⟨info, hok, hbackup, hpg', hupd⟩ := reconstruct_eq hclosed hnone
    (fun b hb => by simpa using hleft b (hinfo ▸ hb))
    (fun label m hm => h.fits label m (hman label m hm).2)
  refine ⟨info, hok, ?_, hpg'.trans hpg, hupd⟩
  rw [hbackup, without_nil, hinfo, hpg]
  -- no round adds anything
  have hround : ∀ label ∈ cut.diskSorted,
      addOne cut repo.backupInfo.infoPg
        ((without repo.reconstructed set).map InfoBackupData.backupLabel)
        (without repo.reconstructed set) label = without repo.reconstructed set := by
    intro label hlabel
    cases addOne_cases cut repo.backupInfo.infoPg
      ((without repo.reconstructed set).map InfoBackupData.backupLabel)
      (without repo.reconstructed set) label with
    | inl heq => exact heq
    | inr hadd =>
      obtain ⟨m, hm, hcur, hyes, -⟩ := hadd
      obtain ⟨hnot, hm'⟩ := hman label m hm
      have hout : label ∉ repo.reconstructed.map InfoBackupData.backupLabel := fun hmem => by
        obtain ⟨b, hb, rfl⟩ := mem_map.mp hmem
        exact hcur (mem_map_of_mem (mem_without.mpr ⟨hb, hnot⟩))
      have hno := not_addable_of_notMem (pairwise_diskSorted h.nodup)
        (fun y _ m hm => h.fits y m hm) (hdisk label hlabel) hm'
        (fun hmem => by
          obtain ⟨b, hb, rfl⟩ := mem_map.mp hmem
          exact hout (mem_map_of_mem (subset_found hb))) hout
      have hno' : addable repo.backupInfo.infoPg repo.reconstructed m = false := hno
      unfold addable at hyes hno'
      cases hp : m.data.backupLabelPrior with
      | none =>
        rw [hp, Option.all_none, Bool.and_true] at hyes hno'
        rw [hyes] at hno'
        cases hno'
      | some p =>
        rw [hp, Bool.and_eq_true, Option.all_some] at hyes
        rw [hp, hyes.1, Bool.true_and, Option.all_some] at hno'
        obtain ⟨b, hb, hbp⟩ := mem_map.mp (of_decide_eq_true hyes.2)
        exact absurd (mem_map.mpr ⟨b, (mem_without.mp hb).1, hbp⟩)
          (of_decide_eq_false hno')
  generalize cut.diskSorted = labels at hround
  induction labels with
  | nil => rfl
  | cons label labels ih =>
    rw [foldl_cons, hround label mem_cons_self]
    exact ih (fun y hy => hround y (mem_cons_of_mem _ hy))

end

end Valid

end PgxBackup
