import PgxBackup.ExpirePhases
import PgxBackup.Reconstruct

/-!
# Expire is crash safe

An expire run is cut after any number of its storage operations. What the
reconstruction then finds is a list in which every backup has its manifest,
its prior and all backups it references; and the same run, started again,
ends with the repository that the uninterrupted run would have left.

Up to the point where the list is saved a cut leaves the stored list as it
was and a prefix of the expired backups without their manifest; from there
on it leaves the new list and some directories still to be removed. Both
are covered by `Reconstruct`. The list that the second run leaves is the
same by `ExpirePhases`, and it decides which directories stay.
-/

namespace PgxBackup

open List DepClosure

/-! ## The effect of the operations -/

/-- The directories without the manifests and the copies of the labels. -/
def strip (paths : List BackupPath) (manifests copies : List Str) : List BackupPath :=
  paths.map (fun p =>
    { p with
      manifest := if p.label ∈ manifests then none else p.manifest
      manifestCopy := if p.label ∈ copies then none else p.manifestCopy })

/-- The repository without the manifests of the labels and their copies. -/
def Repo.stripped (repo : Repo) (labels : List Str) : Repo :=
  { repo with paths := strip repo.paths labels labels }

section Effect

variable {repo : Repo} {paths : List BackupPath}

theorem run_append (repo : Repo) (ops ops' : List StorageOp) :
    repo.run (ops ++ ops') = (repo.run ops).run ops' := foldl_append

section

variable (paths : List BackupPath)

theorem strip_nil : strip paths [] [] = paths := by
  unfold strip
  simp

theorem strip_strip (x y x' y' : List Str) :
    strip (strip paths x y) x' y' = strip paths (x ++ x') (y ++ y') := by
  unfold strip
  rw [map_map]
  refine map_congr_left (fun p _ => ?_)
  by_cases hx : p.label ∈ x
  · by_cases hy : p.label ∈ y
    · simp [hx, hy]
    · simp [hx, hy]
  · by_cases hy : p.label ∈ y
    · simp [hx, hy]
    · simp [hx, hy]

theorem map_label_strip (x y : List Str) :
    (strip paths x y).map BackupPath.label = paths.map BackupPath.label := by
  unfold strip
  rw [map_map]
  rfl

end

theorem apply_remove_manifest (repo : Repo) (label : Str) :
    repo.apply (.remove (.manifest label)) = { repo with paths := strip repo.paths [label] [] } := by
  show repo.updatePath label _ = _
  unfold Repo.updatePath strip
  congr 1
  refine map_congr_left (fun p _ => ?_)
  by_cases h : p.label = label
  · simp [h]
  · simp [h]

theorem apply_remove_manifestCopy (repo : Repo) (label : Str) :
    repo.apply (.remove (.manifestCopy label))
      = { repo with paths := strip repo.paths [] [label] } := by
  show repo.updatePath label _ = _
  unfold Repo.updatePath strip
  congr 1
  refine map_congr_left (fun p _ => ?_)
  by_cases h : p.label = label
  · simp [h]
  · simp [h]

/-- After `k` of the removals, every second of which is that of a copy. -/
theorem run_take_manifestOps (repo : Repo) (labels : List Str) (k : ℕ) :
    repo.run ((manifestOps labels).take k) = { repo with
      paths := strip repo.paths (labels.take ((k + 1) / 2)) (labels.take (k / 2)) } := by
  induction labels generalizing repo k with
  | nil => simp [manifestOps, Repo.run, strip_nil]
  | cons label labels ih =>
    have hcons : manifestOps (label :: labels)
        = .remove (.manifest label) :: .remove (.manifestCopy label) :: manifestOps labels := rfl
    rw [hcons]
    rcases k with _ | _ | k
    · simp [Repo.run, strip_nil]
    · show repo.apply (.remove (.manifest label)) = _
      rw [apply_remove_manifest]
      rfl
    · have hdiv : (k + 2 + 1) / 2 = (k + 1) / 2 + 1 := by omega
      have hdiv' : (k + 2) / 2 = k / 2 + 1 := by omega
      show ((repo.apply (.remove (.manifest label))).apply
        (.remove (.manifestCopy label))).run ((manifestOps labels).take k) = _
      rw [ih, apply_remove_manifest, apply_remove_manifestCopy, hdiv, hdiv']
      simp only [strip_strip, take_succ_cons]
      rfl

theorem length_manifestOps (labels : List Str) :
    (manifestOps labels).length = 2 * labels.length := by
  induction labels with
  | nil => rfl
  | cons label labels ih =>
    show (manifestOps labels).length + 1 + 1 = _
    rw [ih, length_cons]
    omega

theorem run_manifestOps (repo : Repo) (labels : List Str) :
    repo.run (manifestOps labels) = repo.stripped labels := by
  have hlen := length_manifestOps labels
  have h := run_take_manifestOps repo labels (2 * labels.length)
  rw [take_of_length_le (by omega), take_of_length_le (by omega),
    take_of_length_le (by omega)] at h
  exact h

theorem run_linkLatest (repo : Repo) (link : List Str) :
    repo.run (link.map StorageOp.linkLatest) = repo := by
  induction link generalizing repo with
  | nil => rfl
  | cons label link ih => exact ih repo

theorem run_save_paths (repo : Repo) (info : InfoBackup) :
    (repo.run (infoBackupSaveFile info)).paths = repo.paths := by
  unfold infoBackupSaveFile
  split
  · rfl
  · rfl

theorem run_pathRemove (repo : Repo) (labels : List Str) :
    repo.run (labels.map StorageOp.pathRemove)
      = { repo with paths := repo.paths.filter (fun p => decide (p.label ∉ labels)) } := by
  induction labels generalizing repo with
  | nil => simp [Repo.run]
  | cons label labels ih =>
    show (repo.apply (.pathRemove label)).run (labels.map StorageOp.pathRemove) = _
    rw [ih]
    unfold Repo.apply
    simp only [filter_filter]
    congr 1
    refine filter_congr (fun p _ => ?_)
    by_cases h : p.label = label
    · simp [h]
    · simp [h]

end Effect

/-! ## Which directories stay -/

/-- The latest directory on disk, if it is kept because it is resumable. -/
def keptLabel (repo : Repo) (info : InfoBackup) (adhoc : Option Str) : Option Str :=
  match strLstSort repo.diskLabels .desc with
  | [] => none
  | latest :: _ => if resumableKept repo info adhoc latest then some latest else none

/-- The directories that are removed. -/
def removeLabels (repo : Repo) (info : InfoBackup) (adhoc : Option Str) : List Str :=
  (match strLstSort repo.diskLabels .desc with
    | [] => []
    | latest :: rest =>
      if resumableKept repo info adhoc latest then rest else latest :: rest).filter
        (fun label => decide (label ∉ info.labels))

section Kept

variable {repo : Repo} {info : InfoBackup} {adhoc : Option Str} {x : Str}

theorem removeExpiredBackup_eq (repo : Repo) (info : InfoBackup) (adhoc : Option Str) :
    removeExpiredBackup repo info adhoc
      = (removeLabels repo info adhoc).map StorageOp.pathRemove := rfl

theorem keptLabel_eq_some :
    keptLabel repo info adhoc = some x
      ↔ (x ∈ repo.diskLabels ∧ ∀ y ∈ repo.diskLabels, y ≤ x) ∧
        resumableKept repo info adhoc x = true := by
  unfold keptLabel
  have hmem : ∀ y, y ∈ strLstSort repo.diskLabels .desc ↔ y ∈ repo.diskLabels :=
    fun y => mem_strLstSort
  have hsorted : (strLstSort repo.diskLabels .desc).Pairwise (· ≥ ·) :=
    pairwise_insertionSort _ _
  cases hlist : strLstSort repo.diskLabels .desc with
  | nil =>
    rw [hlist] at hmem
    simp [← hmem]
  | cons latest rest =>
    rw [hlist] at hmem hsorted
    have hnewest : ∀ y ∈ repo.diskLabels, y ≤ latest := by
      intro y hy
      cases mem_cons.mp ((hmem y).mpr hy) with
      | inl h => exact le_of_eq h
      | inr h => exact rel_of_pairwise_cons hsorted h
    have hlatest : latest ∈ repo.diskLabels := (hmem latest).mp mem_cons_self
    show (if resumableKept repo info adhoc latest = true then some latest else none) = some x ↔ _
    constructor
    · intro h
      by_cases hres : resumableKept repo info adhoc latest = true
      · rw [if_pos hres] at h
        rw [← Option.some.inj h]
        exact ⟨⟨hlatest, hnewest⟩, hres⟩
      · rw [if_neg hres] at h
        cases h
    · rintro ⟨⟨hx, hmax⟩, hres⟩
      have heq : latest = x := le_antisymm (hmax latest hlatest) (hnewest x hx)
      rw [heq, if_pos hres]

theorem mem_removeLabels (hnodup : repo.diskLabels.Nodup) :
    x ∈ removeLabels repo info adhoc
      ↔ x ∈ repo.diskLabels ∧ x ∉ info.labels ∧ keptLabel repo info adhoc ≠ some x := by
  unfold removeLabels keptLabel
  have hmem : ∀ y, y ∈ strLstSort repo.diskLabels .desc ↔ y ∈ repo.diskLabels :=
    fun y => mem_strLstSort
  have hnd : (strLstSort repo.diskLabels .desc).Nodup :=
    (perm_insertionSort _ _).nodup_iff.mpr hnodup
  cases hlist : strLstSort repo.diskLabels .desc with
  | nil =>
    rw [hlist] at hmem
    simp [← hmem]
  | cons latest rest =>
    rw [hlist] at hmem hnd
    rw [mem_filter, decide_eq_true_iff, ← hmem]
    dsimp only
    split
    · have hlr : latest ∉ rest := (nodup_cons.mp hnd).1
      constructor
      · rintro ⟨hx, hinfo⟩
        refine ⟨mem_cons_of_mem _ hx, hinfo, fun h => hlr ?_⟩
        rw [Option.some.inj h]
        exact hx
      · rintro ⟨hx, hinfo, hne⟩
        refine ⟨?_, hinfo⟩
        cases mem_cons.mp hx with
        | inl h => exact absurd (by rw [h]) hne
        | inr h => exact h
    · simp

end Kept

/-! ## The shape of a run -/

/-- The labels that a run removes, in order. -/
def modeSeq (option : RepoOption) (time : ℤ) (l : List InfoBackupData) : ExpireMode → List Str
  | .adhoc label => adhocSeq label l
  | .retention _ => retentionSeq option time l

/-- A backup to expire on request passes the check, if it is listed. -/
def ModeChecks (info : InfoBackup) : ExpireMode → Prop
  | .adhoc label =>
    infoBackupLabelExists info label = true → expireAdhocCheck info label = .ok ()
  | .retention _ => True

/-- **The operations of a run that does not fail**: the manifests of the
labels are removed, the list is saved unless it is the stored one, and the
directories that do not stay are removed. -/
def RunShape (repo : Repo) (final : InfoBackup) (adhoc : Option Str) (labels : List Str)
    (ops : List StorageOp) : Prop :=
  ∃ (link : List Str) (save : List StorageOp),
    ops = manifestOps labels ++ (link.map .linkLatest ++ (save ++
      (removeLabels (repo.stripped labels) final adhoc).map
        .pathRemove)) ∧
    (save = [.put .backupInfo final, .put .backupInfoCopy final] ∨
      save = [] ∧ repo.backupInfo = { final with updated := false })

section Shape

variable {repo repo' : Repo} {info info' : InfoBackup} {option : RepoOption} {time : ℤ}
  {mode : ExpireMode} {adhoc : Option Str}

section

variable (h : repo.paths = repo'.paths) (hi : info.backup = info'.backup)
include h hi

theorem resumableKept_congr (x : Str) :
    resumableKept repo info adhoc x = resumableKept repo' info' adhoc x := by
  unfold resumableKept Repo.manifest Repo.manifestCopy infoBackupLabelExists
  rw [h, hi]

theorem removeLabels_congr : removeLabels repo info adhoc = removeLabels repo' info' adhoc := by
  unfold removeLabels Repo.diskLabels InfoBackup.labels
  simp only [resumableKept_congr h hi]
  rw [h, hi]

end

theorem expireMode_error {s : ExpireState} (time : ℤ) (h : ¬ModeChecks s.infoBackup mode) :
    ∃ e, expireMode s time mode = (s, .error e) := by
  cases mode with
  | retention oldest => exact absurd trivial h
  | adhoc label =>
    unfold ModeChecks at h
    rw [Classical.not_imp] at h
    unfold expireMode expireAdhocBackup
    cases hcheck : expireAdhocCheck s.infoBackup label with
    | ok u => exact absurd hcheck h.2
    | error e =>
      dsimp only
      rw [if_pos h.1, hcheck]
      exact ⟨e, rfl⟩

theorem expireMode_ok {s : ExpireState} (time : ℤ) (h : DependencyClosed s.infoBackup.backup)
    (hl : LabelsValid s.infoBackup.backup) (hmode : mode ≠ .retention true)
    (hchecks : ModeChecks s.infoBackup mode) :
    ∃ s' n, expireMode s time mode = (s', .ok n) ∧
      ExpireOutcome s s' (modeSeq s.option time s.infoBackup.backup mode) := by
  cases mode with
  | adhoc label =>
    cases expireMode_adhoc h hl time label with
    | inl herr =>
      obtain ⟨e, -, hex, hcheck⟩ := herr
      rw [hchecks hex] at hcheck
      cases hcheck
    | inr hok => exact hok.2
  | retention oldest =>
    cases oldest with
    | true => exact absurd rfl hmode
    | false => exact expireMode_retention h hl time

theorem save_eq (s : ExpireState) (labels : List Str)
    (hupd : s.infoBackup.updated = true ∨ s.infoBackup = infoBackupLoadFile repo)
    (hloaded : repo.backupInfo.updated = false) :
    infoBackupSaveFile (expireSeq s labels).infoBackup
        = [.put .backupInfo (expireSeq s labels).infoBackup,
            .put .backupInfoCopy (expireSeq s labels).infoBackup] ∨
      infoBackupSaveFile (expireSeq s labels).infoBackup = [] ∧
        repo.backupInfo = { (expireSeq s labels).infoBackup with updated := false } := by
  unfold infoBackupSaveFile
  cases hu : (expireSeq s labels).infoBackup.updated with
  | true => exact Or.inl rfl
  | false =>
    refine Or.inr ⟨rfl, ?_⟩
    cases expireSeq_updated s labels with
    | inl h => rw [h] at hu; cases hu
    | inr heq =>
      rw [heq] at hu ⊢
      cases hupd with
      | inl h => rw [h] at hu; cases hu
      | inr hinfo =>
        rw [hinfo]
        unfold infoBackupLoadFile
        rw [← hloaded]

variable (time) in
/-- **A run that is not refused has the shape.** -/
theorem cmdExpire_shape (hlabel : mode.adhocLabel.all (backupRegExp backupAllRegExp) = true)
    (hdry : option.dryRun = false) (hmode : mode ≠ .retention true)
    (hok : infoBackupLoadFileReconstruct repo = .ok info)
    (hupd : info.updated = true ∨ info = infoBackupLoadFile repo)
    (hloaded : repo.backupInfo.updated = false)
    (hclosed : DependencyClosed info.backup) (hl : LabelsValid info.backup)
    (hchecks : ModeChecks info mode) :
    ∃ final : InfoBackup, final.infoPg = info.infoPg ∧
      final.backup = without info.backup (modeSeq option time info.backup mode) ∧
      RunShape repo final mode.adhocLabel (modeSeq option time info.backup mode)
        (cmdExpire repo option time mode) := by
  let s : ExpireState := ⟨info, option, []⟩
  obtain ⟨s', n, hrun, hfinal, link, hops⟩ :=
    expireMode_ok (s := s) time hclosed hl hmode hchecks
  have hsops : (expireSeq s (modeSeq option time info.backup mode)).storageOps
      = manifestOps (modeSeq option time info.backup mode) :=
    expireSeq_storageOps s _ hdry
  refine ⟨s'.infoBackup, ?_, ?_, link, infoBackupSaveFile s'.infoBackup, ?_, ?_⟩
  · rw [hfinal, expireSeq_infoPg]
  · rw [hfinal]
    exact expireSeq_backup (s := s) hclosed _
  · unfold cmdExpire
    rw [if_pos hlabel, hok]
    simp only [show (⟨info, option, []⟩ : ExpireState) = s from rfl, hrun, hdry,
      Bool.false_eq_true, if_false]
    rw [removeExpiredBackup_eq, hops, hsops]
    have hpaths : (repo.run ((manifestOps (modeSeq option time info.backup mode)
        ++ link.map StorageOp.linkLatest) ++ infoBackupSaveFile s'.infoBackup)).paths
          = strip repo.paths (modeSeq option time info.backup mode)
              (modeSeq option time info.backup mode) := by
      rw [run_append, run_append, run_save_paths, run_linkLatest, run_manifestOps]
      rfl
    have hremove : removeLabels (repo.run ((manifestOps (modeSeq option time info.backup mode)
        ++ link.map StorageOp.linkLatest) ++ infoBackupSaveFile s'.infoBackup)) s'.infoBackup
          mode.adhocLabel
        = removeLabels (repo.stripped (modeSeq option time info.backup mode)) s'.infoBackup
            mode.adhocLabel := removeLabels_congr hpaths rfl
    rw [hremove]
    simp only [append_assoc]
  · rw [hfinal]
    exact save_eq s _ hupd hloaded

theorem run_cmdExpire_refused (hok : infoBackupLoadFileReconstruct repo = .ok info)
    (hclosed : DependencyClosed info.backup) (hl : LabelsValid info.backup)
    (hmode : mode ≠ .retention true)
    (hno : ¬(mode.adhocLabel.all (backupRegExp backupAllRegExp) = true ∧
      option.dryRun = false ∧ ModeChecks info mode)) (k : ℕ) :
    repo.run ((cmdExpire repo option time mode).take k) = repo := by
  unfold cmdExpire
  by_cases hlabel : mode.adhocLabel.all (backupRegExp backupAllRegExp) = true
  · rw [if_pos hlabel, hok]
    dsimp only
    by_cases hchecks : ModeChecks info mode
    · have hdry : option.dryRun = true := by
        by_contra hdry
        exact hno ⟨hlabel, by simpa using hdry, hchecks⟩
      let s : ExpireState := ⟨info, option, []⟩
      obtain ⟨s', n, hrun, -, link, hops⟩ := expireMode_ok (s := s) time hclosed hl hmode hchecks
      have hsops : s'.storageOps = link.map StorageOp.linkLatest := by
        rw [hops, expireSeq_storageOps_dryRun s _ hdry]
        rfl
      simp only [show (⟨info, option, []⟩ : ExpireState) = s from rfl, hrun, hdry, if_true,
        append_nil, hsops]
      rw [← map_take]
      exact run_linkLatest repo _
    · obtain ⟨e, he⟩ := expireMode_error (s := ⟨info, option, []⟩) time hchecks
      rw [he]
      simp [Repo.run]
  · rw [if_neg hlabel]
    simp [Repo.run]

/-- **What a cut leaves**: either the list as it was and a prefix of the
labels without their manifests, or the new list and some of the directories
that the run removes gone. -/
theorem run_take_shape {final : InfoBackup} {labels : List Str} {ops : List StorageOp}
    (h : RunShape repo final adhoc labels ops) (k : ℕ) :
    (∃ i, (i = k ∨ i = 2 * labels.length) ∧ repo.run (ops.take k) = { repo with
      paths := strip repo.paths (labels.take ((i + 1) / 2)) (labels.take (i / 2)) }) ∨
    ∃ (copy : InfoBackup) (removed : List Str), (∀ x ∈ removed, x ∈
        removeLabels (repo.stripped labels) final adhoc) ∧
      repo.run (ops.take k) = ⟨{ final with updated := false }, copy,
        (strip repo.paths labels labels).filter (fun p => decide (p.label ∉ removed))⟩ := by
  obtain ⟨link, save, rfl, hsave⟩ := h
  generalize removeLabels (repo.stripped labels) final adhoc = gone
  rw [take_append, length_manifestOps]
  by_cases hk : k ≤ 2 * labels.length
  · left
    refine ⟨k, Or.inl rfl, ?_⟩
    rw [Nat.sub_eq_zero_of_le hk, take_zero, append_nil, run_take_manifestOps]
  · rw [take_of_length_le (by rw [length_manifestOps]; omega), run_append, run_manifestOps,
      take_append, run_append, ← map_take, run_linkLatest]
    generalize k - 2 * labels.length - (link.map StorageOp.linkLatest).length = k'
    -- the first `put` is where the new list takes over
    have hgone : ∀ (r : Repo) (n : ℕ), r.run ((gone.map StorageOp.pathRemove).take n)
        = { r with paths := r.paths.filter (fun p => decide (p.label ∉ gone.take n)) } :=
      fun r n => by rw [← map_take, run_pathRemove]
    cases hsave with
    | inr hsame =>
      obtain ⟨rfl, hinfo⟩ := hsame
      refine Or.inr ⟨repo.backupInfoCopy, gone.take k', fun x hx => mem_of_mem_take hx, ?_⟩
      rw [nil_append, hgone, ← hinfo]
      rfl
    | inl hput =>
      rw [hput]
      match k' with
      | 0 =>
        left
        have hall : labels.take ((2 * labels.length + 1) / 2) = labels :=
          take_of_length_le (by omega)
        have hall' : labels.take (2 * labels.length / 2) = labels :=
          take_of_length_le (by omega)
        refine ⟨2 * labels.length, Or.inr rfl, ?_⟩
        rw [hall, hall']
        rfl
      | 1 =>
        right
        refine ⟨repo.backupInfoCopy, [], by simp, ?_⟩
        simp [Repo.run, Repo.apply, Repo.stripped]
      | n + 2 =>
        right
        refine ⟨{ final with updated := false }, gone.take n,
          fun x hx => mem_of_mem_take hx, ?_⟩
        exact hgone _ n

theorem run_shape {final : InfoBackup} {labels : List Str} {ops : List StorageOp}
    (h : RunShape repo final adhoc labels ops) :
    (repo.run ops).backupInfo = { final with updated := false } ∧
      (repo.run ops).paths = (strip repo.paths labels labels).filter (fun p => decide (p.label ∉
        removeLabels (repo.stripped labels) final adhoc)) := by
  obtain ⟨link, save, rfl, hsave⟩ := h
  rw [run_append, run_append, run_append, run_manifestOps, run_linkLatest, run_pathRemove]
  cases hsave with
  | inr hsame =>
    rw [hsame.1]
    exact ⟨hsame.2, rfl⟩
  | inl hput =>
    rw [hput]
    exact ⟨rfl, rfl⟩

end Shape

end PgxBackup
