import PgxBackup.ExpireCrash

/-!
# Running expire again after a cut

A cut leaves a repository that `CutState` describes: which manifests, which
copies and which directories are gone, and what the reconstruction makes of
it. Two things follow. Every backup that the reconstruction lists has its
manifest, its directory, its prior and the backups it references. And the
same run, started again, ends with the list and the directories of the run
that was not cut.

For a run by retention the latter always holds. A run on request keeps the
newest directory when it looks like a backup that can be resumed, which is
how a backup looks whose manifest is gone and whose copy is not. When the
backup to expire is itself the newest on disk and has a prior, a cut right
after its manifest was removed leaves it in that state, and the second run
keeps the directory.
-/

namespace PgxBackup

open List DepClosure

/-! ## Looking up a directory -/

section Lookup

variable {repo cut : Repo} {manifests copies removed : List Str} {x : Str}

theorem find?_strip (paths : List BackupPath) (manifests copies removed : List Str) (x : Str) :
    ((strip paths manifests copies).filter (fun p => decide (p.label ∉ removed))).find?
        (fun p => decide (p.label = x))
      = if x ∈ removed then none
        else (paths.find? (fun p => decide (p.label = x))).map (fun p =>
          { p with
            manifest := if x ∈ manifests then none else p.manifest
            manifestCopy := if x ∈ copies then none else p.manifestCopy }) := by
  induction paths with
  | nil => simp [strip]
  | cons p paths ih =>
    have hcons : strip (p :: paths) manifests copies
        = { p with
            manifest := if p.label ∈ manifests then none else p.manifest
            manifestCopy := if p.label ∈ copies then none else p.manifestCopy }
          :: strip paths manifests copies := rfl
    rw [hcons]
    by_cases hx : p.label = x
    · subst hx
      by_cases hr : p.label ∈ removed
      · rw [filter_cons_of_neg (by simp [hr]), ih, if_pos hr, if_pos hr]
      · rw [filter_cons_of_pos (by simp [hr]), if_neg hr,
          find?_cons_of_pos (by simp), find?_cons_of_pos (by simp)]
        rfl
    · have hnext : (p :: paths).find? (fun q => decide (q.label = x))
          = paths.find? (fun q => decide (q.label = x)) := find?_cons_of_neg (by simp [hx])
      rw [hnext, ← ih]
      by_cases hr : p.label ∈ removed
      · rw [filter_cons_of_neg (by simp [hr])]
      · rw [filter_cons_of_pos (by simp [hr]), find?_cons_of_neg (by simp [hx])]

section

variable (h : cut.paths = (strip repo.paths manifests copies).filter (fun p => decide (p.label ∉ removed)))
include h

theorem manifest_cut (x : Str) :
    cut.manifest x = if x ∈ removed ∨ x ∈ manifests then none else repo.manifest x := by
  unfold Repo.manifest
  rw [h, find?_strip]
  by_cases hr : x ∈ removed
  · simp [hr]
  · cases repo.paths.find? (fun p => decide (p.label = x)) with
    | none => simp [hr]
    | some p => simp [hr]

theorem manifestCopy_cut (x : Str) :
    cut.manifestCopy x = if x ∈ removed ∨ x ∈ copies then none else repo.manifestCopy x := by
  unfold Repo.manifestCopy
  rw [h, find?_strip]
  by_cases hr : x ∈ removed
  · simp [hr]
  · cases repo.paths.find? (fun p => decide (p.label = x)) with
    | none => simp [hr]
    | some p => simp [hr]

theorem diskLabels_cut :
    cut.diskLabels = repo.diskLabels.filter (fun x => decide (x ∉ removed)) := by
  unfold Repo.diskLabels
  have hlabel : ∀ paths : List BackupPath,
      (paths.filter (fun p => decide (p.label ∉ removed))).map BackupPath.label
        = (paths.map BackupPath.label).filter (fun x => decide (x ∉ removed)) := by
    intro paths
    rw [filter_map]
    rfl
  rw [h, hlabel, map_label_strip, filter_filter, filter_filter]
  exact filter_congr (fun x _ => Bool.and_comm _ _)

end

theorem mem_paths_of_manifest {m : Manifest} (hm : repo.manifest x = some m) :
    ∃ p ∈ repo.paths, p.label = x ∧ p.manifest = some m := by
  obtain ⟨p, hp, hpm⟩ := Option.bind_eq_some_iff.mp hm
  exact ⟨p, mem_of_find?_eq_some hp, by simpa using find?_some hp, hpm⟩

theorem mem_diskLabels_of_manifest {m : Manifest} (hm : repo.manifest x = some m)
    (hx : backupRegExp backupAllRegExp x = true) : x ∈ repo.diskLabels := by
  obtain ⟨p, hp, hpx, -⟩ := mem_paths_of_manifest hm
  exact mem_filter.mpr ⟨mem_map.mpr ⟨p, hp, hpx⟩, hx⟩

end Lookup

/-! ## The labels that a run removes -/

section Seq

variable {l : List InfoBackupData} {option : RepoOption} {time : ℤ} {mode : ExpireMode} {x : Str}

section

variable (h : DependencyClosed l)
include h

theorem mem_of_mem_dependents {v : Str} (hx : x ∈ dependents l v) :
    x = v ∨ x ∈ l.map InfoBackupData.backupLabel := by
  cases ((mem_dependents h).mp hx).cases_tail with
  | inl heq => exact Or.inl heq
  | inr hlast =>
    obtain ⟨-, -, a, ha, -, rfl⟩ := hlast
    exact Or.inr (mem_map_of_mem ha)

theorem mem_of_mem_removalSeq {victims : List Str}
    (hv : ∀ v ∈ victims, v ∈ l.map InfoBackupData.backupLabel) (hx : x ∈ removalSeq l victims) :
    x ∈ l.map InfoBackupData.backupLabel := by
  have hgen : x ∈ l.map InfoBackupData.backupLabel ∨ x ∈ victims := by
    clear hv
    induction victims generalizing l with
    | nil => cases hx
    | cons v victims ih =>
      cases mem_append.mp hx with
      | inl hx =>
        cases mem_of_mem_dependents h (mem_expireLabels.mp hx) with
        | inl heq => exact Or.inr (heq ▸ mem_cons_self)
        | inr hmem => exact Or.inl hmem
      | inr hx =>
        cases ih (closed_without h (closedSet_expireLabels h)) hx with
        | inl hmem =>
          obtain ⟨b, hb, rfl⟩ := mem_map.mp hmem
          exact Or.inl (mem_map_of_mem (mem_without.mp hb).1)
        | inr hmem => exact Or.inr (mem_cons_of_mem _ hmem)
  exact hgen.elim id (hv x)

theorem mem_of_mem_adhocSeq {label : Str} (hx : x ∈ adhocSeq label l) :
    x ∈ l.map InfoBackupData.backupLabel := by
  unfold adhocSeq at hx
  split at hx
  · rename_i hlabel
    cases mem_of_mem_dependents h (mem_expireLabels.mp hx) with
    | inl heq => exact heq ▸ hlabel
    | inr hmem => exact hmem
  · cases hx

/-- A run removes listed labels only. -/
theorem mem_of_mem_modeSeq (hx : x ∈ modeSeq option time l mode) :
    x ∈ l.map InfoBackupData.backupLabel := by
  cases mode with
  | adhoc label => exact mem_of_mem_adhocSeq h hx
  | retention oldest =>
    have hfirst := (removable_removalSeq h (firstVictims option time l)).closedSet
    cases mem_append.mp hx with
    | inl hx => exact mem_of_mem_removalSeq h (fun v hv => mem_of_mem_firstVictims hv) hx
    | inr hx =>
      have hmem := mem_of_mem_removalSeq (closed_without h hfirst)
        (fun v hv => mem_of_mem_filter (mem_diffVictims hv).1) hx
      obtain ⟨b, hb, rfl⟩ := mem_map.mp hmem
      exact mem_map_of_mem (mem_without.mp hb).1

end

variable (option time mode) in
theorem removable_modeSeq (h : DependencyClosed l) : Removable l (modeSeq option time l mode) := by
  cases mode with
  | adhoc label => exact removable_adhocSeq h
  | retention oldest => exact removable_retentionSeq h

/-- **A run that starts where an earlier one was cut short leaves the same
list.** -/
theorem without_modeSeq_take (h : DependencyClosed l) (hl : LabelsValid l) (j : ℕ) :
    without (without l ((modeSeq option time l mode).take j))
        (modeSeq option time (without l ((modeSeq option time l mode).take j)) mode)
      = without l (modeSeq option time l mode) := by
  cases mode with
  | adhoc label => exact without_adhocSeq_take h j
  | retention oldest => exact without_retentionSeq_take h hl j

/-- The second run removes nothing that the first would not have removed. -/
theorem mem_modeSeq_of_take (h : DependencyClosed l) (hl : LabelsValid l) {j : ℕ}
    (hx : x ∈ modeSeq option time (without l ((modeSeq option time l mode).take j)) mode) :
    x ∈ modeSeq option time l mode := by
  have hclosed := closed_without h (removable_modeSeq option time mode h j)
  have hmem := mem_of_mem_modeSeq hclosed hx
  obtain ⟨b, hb, rfl⟩ := mem_map.mp hmem
  by_contra hnot
  have hleft : b ∈ without l (modeSeq option time l mode) :=
    mem_without.mpr ⟨(mem_without.mp hb).1, hnot⟩
  rw [← without_modeSeq_take h hl j] at hleft
  exact (mem_without.mp hleft).2 hx

/-- The check of the second run passes when that of the first did. -/
theorem modeChecks_take {info info' : InfoBackup} {j : ℕ} (h : DependencyClosed info.backup)
    (hl : LabelsValid info.backup)
    (hinfo : info'.backup
      = without info.backup ((modeSeq option time info.backup mode).take j))
    (hchecks : ModeChecks info mode) : ModeChecks info' mode := by
  cases mode with
  | retention oldest => trivial
  | adhoc label =>
    intro hex
    rw [infoBackupLabelExists_iff, hinfo] at hex
    obtain ⟨b, hb, hbl⟩ := mem_map.mp hex
    obtain ⟨hbinfo, hbset⟩ := mem_without.mp hb
    -- the label is there, so no full backup is gone
    have hfull : ∀ c ∈ info.backup, backupRegExp fullRegExp c.backupLabel = true →
        c.backupLabel ∉ (adhocSeq label info.backup).take j := by
      intro c hc hre hmem
      have heq := full_of_mem_adhocSeq h hl hc hre (mem_of_mem_take hmem)
      have hbc : b.backupLabel = c.backupLabel := hbl.trans heq.symm
      exact hbset (hbc ▸ hmem)
    rw [expireAdhocCheck_without hinfo hfull]
    exact hchecks (infoBackupLabelExists_iff.mpr (mem_map.mpr ⟨b, hbinfo, hbl⟩))

end Seq

/-! ## What a cut leaves -/

/-- **A repository after a cut**: the manifests of `i` and the copies of `j`
of the labels are gone and so are some directories; the reconstruction finds
the list of before, less the `i` labels. Only a cut between the removal of a
manifest and of its copy makes a difference between `i` and `j`. -/
structure CutState (repo cut : Repo) (final : InfoBackup) (adhoc : Option Str)
    (labels : List Str) (k i j : ℕ) (removed : List Str) (info : InfoBackup) : Prop where
  loaded : cut.backupInfo.updated = false
  paths : cut.paths = (strip repo.paths (labels.take i) (labels.take j)).filter
    (fun p => decide (p.label ∉ removed))
  removed_mem : ∀ x ∈ removed, x ∈ removeLabels (repo.stripped labels) final adhoc
  saved : removed = [] ∨ i = labels.length
  half : i = j ∨ removed = [] ∧ (j = 0 → k = 1)
  reconstruct : infoBackupLoadFileReconstruct cut = .ok info
  backup : info.backup = without repo.reconstructed (labels.take i)
  infoPg : info.infoPg = repo.backupInfo.infoPg
  updated : info.updated = true ∨ info = infoBackupLoadFile cut

/-- **A backup with all that it needs**: its manifest, its directory, its
prior and the backups it references. -/
structure BackupIntact (repo : Repo) (info : InfoBackup) (b : InfoBackupData) : Prop where
  manifest : ∃ m, repo.manifest b.backupLabel = some m
  directory : b.backupLabel ∈ repo.diskLabels
  prior : ∀ p ∈ b.backupPrior, p ∈ info.labels
  reference : ∀ r ∈ b.references, r ∈ info.labels

section Cut

variable {repo cut : Repo} {final info : InfoBackup} {adhoc : Option Str} {labels : List Str}
  {ops : List StorageOp} {k i j : ℕ} {removed : List Str}

theorem nodup_diskLabels (h : RepoValid repo) : repo.diskLabels.Nodup := h.nodup.filter _

theorem nodup_diskLabels_stripped (h : RepoValid repo) (labels : List Str) :
    (repo.stripped labels).diskLabels.Nodup := by
  unfold Repo.diskLabels Repo.stripped
  rw [map_label_strip]
  exact h.nodup.filter _

theorem diskLabels_stripped (repo : Repo) (labels : List Str) :
    (repo.stripped labels).diskLabels = repo.diskLabels := by
  unfold Repo.diskLabels Repo.stripped
  rw [map_label_strip]

/-- The list that the reconstruction of an untouched repository finds. -/
theorem reconstruct_valid (h : RepoValid repo) :
    ∃ info, infoBackupLoadFileReconstruct repo = .ok info ∧
      info.backup = repo.reconstructed ∧ info.infoPg = repo.backupInfo.infoPg ∧
      (info.updated = true ∨ info = infoBackupLoadFile repo) := by
  have hset : ClosedSet repo.reconstructed [] := fun _ _ _ _ _ _ => by simp
  obtain ⟨info, hok, hbackup, hpg, hupd⟩ :=
    reconstruct_cut h hset rfl rfl (fun label => by simp)
  exact ⟨info, hok, by rw [hbackup, without_nil], hpg, hupd⟩

section

variable (h : RepoValid repo) (hremovable : Removable repo.reconstructed labels)
  (hfinal : final.backup = without repo.reconstructed labels)
include h hremovable hfinal

/-- **Every cut leaves such a repository.** -/
theorem exists_cutState (hpg : final.infoPg = repo.backupInfo.infoPg)
    (hshape : RunShape repo final adhoc labels ops) (k : ℕ) :
    ∃ i j removed info,
      CutState repo (repo.run (ops.take k)) final adhoc labels k i j removed info := by
  cases run_take_shape hshape k with
  | inl hbefore =>
    obtain ⟨n, hn, hrun⟩ := hbefore
    have hpaths : (repo.run (ops.take k)).paths
        = (strip repo.paths (labels.take ((n + 1) / 2)) (labels.take (n / 2))).filter
            (fun p => decide (p.label ∉ ([] : List Str))) := by
      rw [hrun]
      simp
    have hdisk : (repo.run (ops.take k)).diskSorted = repo.diskSorted := by
      unfold Repo.diskSorted
      rw [diskLabels_cut hpaths]
      simp
    have hman := manifest_cut hpaths
    simp only [not_mem_nil, false_or] at hman
    obtain ⟨info, hok, hbackup, hinfoPg, hupd⟩ :=
      reconstruct_cut h (hremovable ((n + 1) / 2)) (by rw [hrun]) hdisk hman
    refine ⟨(n + 1) / 2, n / 2, [], info, ?_, hpaths, by simp, Or.inl rfl, ?_, hok, hbackup,
      hinfoPg, hupd⟩
    · rw [hrun]
      exact h.loaded
    · by_cases heven : (n + 1) / 2 = n / 2
      · exact Or.inl heven
      · exact Or.inr ⟨rfl, fun hj => by omega⟩
  | inr hafter =>
    obtain ⟨copy, removed, hremoved, hrun⟩ := hafter
    have htake : labels.take labels.length = labels := take_length
    have hpaths : (repo.run (ops.take k)).paths
        = (strip repo.paths (labels.take labels.length) (labels.take labels.length)).filter
            (fun p => decide (p.label ∉ removed)) := by
      rw [hrun, htake]
    have hman := manifest_cut hpaths
    rw [htake] at hman
    have hset : ClosedSet repo.reconstructed labels := htake ▸ hremovable labels.length
    -- a directory of a backup that is left in the list is not removed
    have hkept : ∀ b ∈ without repo.reconstructed labels, b.backupLabel ∉ removed := by
      intro b hb hmem
      refine ((mem_removeLabels (nodup_diskLabels_stripped h labels)).mp
        (hremoved _ hmem)).2.1 ?_
      unfold InfoBackup.labels
      rw [hfinal]
      exact mem_map_of_mem hb
    have hinfo : (repo.run (ops.take k)).backupInfo.backup = without repo.reconstructed labels := by
      rw [hrun]
      exact hfinal
    have hinfoPg : (repo.run (ops.take k)).backupInfo.infoPg = repo.backupInfo.infoPg := by
      rw [hrun]
      exact hpg
    obtain ⟨info, hok, hbackup, hinfoPg, hupd⟩ :=
      reconstruct_saved h hset hinfo hinfoPg
        (fun x hx => by
          unfold Repo.diskSorted at hx ⊢
          rw [mem_strLstSort, diskLabels_cut hpaths] at hx
          exact mem_strLstSort.mpr (mem_of_mem_filter hx))
        (fun label m hm => by
          rw [hman] at hm
          by_cases hgone : label ∈ removed ∨ label ∈ labels
          · rw [if_pos hgone] at hm
            cases hm
          · rw [if_neg hgone] at hm
            exact ⟨fun hin => hgone (Or.inr hin), hm⟩)
        (fun b hb => by
          obtain ⟨m, hm, -⟩ := h.manifest_of_mem (mem_without.mp hb).1
          rw [hman, if_neg (fun hgone => hgone.elim (hkept b hb) (mem_without.mp hb).2), hm]
          simp)
    refine ⟨labels.length, labels.length, removed, info, ?_, hpaths, hremoved, Or.inr rfl,
      Or.inl rfl, hok, ?_, hinfoPg, hupd⟩
    · rw [hrun]
    · rw [hbackup, htake]

/-- **After a cut every listed backup is intact.** -/
theorem CutState.intact (hcut : CutState repo cut final adhoc labels k i j removed info) :
    ∀ b ∈ info.backup, BackupIntact cut info b := by
  have hclosed : DependencyClosed info.backup := by
    rw [hcut.backup]
    exact closed_without h.closed_reconstructed (hremovable i)
  intro b hb
  have hb' := hb
  rw [hcut.backup] at hb'
  obtain ⟨hbl, hbset⟩ := mem_without.mp hb'
  obtain ⟨m, hm, -⟩ := h.manifest_of_mem hbl
  have hkept : b.backupLabel ∉ removed := by
    intro hmem
    have hgone := (mem_removeLabels (nodup_diskLabels_stripped h labels)).mp
      (hcut.removed_mem _ hmem)
    cases hcut.saved with
    | inl hnil =>
      rw [hnil] at hmem
      cases hmem
    | inr hall =>
      rw [hall, take_length] at hb'
      refine hgone.2.1 ?_
      unfold InfoBackup.labels
      rw [hfinal]
      exact mem_map_of_mem hb'
  have hman : cut.manifest b.backupLabel = some m := by
    rw [manifest_cut hcut.paths, if_neg (fun hgone => hgone.elim hkept hbset), hm]
  refine ⟨⟨m, hman⟩, ?_, ?_, ?_⟩
  · exact mem_diskLabels_of_manifest hman (h.labels_reconstructed.valid b hbl)
  · intro p hp
    obtain ⟨c, hc, rfl⟩ := hclosed.parent_mem b hb p hp
    exact mem_map_of_mem hc
  · intro r hr
    obtain ⟨c, hc, rfl⟩ := hclosed.toClosed.mem_of_ancestor (hclosed.reference_ancestor b hb r hr)
    exact mem_map_of_mem hc

end

end Cut

/-! ## Which directory is kept as resumable -/

/-- The conditions under which a cut run on request can be run again: only
the newest directory is one that a backup can be resumed from, and the cut
is not right after the first removal when the backup to expire is the newest
on disk and has a prior. -/
def RerunSafe (repo : Repo) (k : ℕ) : ExpireMode → Prop
  | .retention _ => True
  | .adhoc label =>
    (∀ x ∈ repo.diskLabels, repo.manifest x = none → repo.manifestCopy x ≠ none →
      ∀ y ∈ repo.diskLabels, y ≤ x) ∧
    ¬(k = 1 ∧ (∀ y ∈ repo.diskLabels, y ≤ label) ∧
      ∃ b ∈ repo.reconstructed, b.backupLabel = label ∧ b.backupPrior ≠ none)

section Kept

variable {repo cut : Repo} {final info info' : InfoBackup} {labels labels' : List Str}
  {ops : List StorageOp} {k i j : ℕ} {removed : List Str} {l : List InfoBackupData}
  {label x : Str}

theorem resumableKept_iff :
    resumableKept repo info (some label) x = true
      ↔ repo.manifest x = none ∧ ∃ c, repo.manifestCopy x = some c ∧
        (strBeginsWith x (strSubN label 0 16) = false ∨
          ∃ p, c.data.backupLabelPrior = some p ∧ p ∈ info.labels) := by
  unfold resumableKept
  cases repo.manifest x with
  | some m => simp
  | none =>
    cases repo.manifestCopy x with
    | none => simp
    | some c =>
      cases hp : c.data.backupLabelPrior with
      | none => simp [hp]
      | some p =>
        have hex : infoBackupLabelExists info p = true ↔ p ∈ info.labels :=
          infoBackupLabelExists_iff
        simp [hp, hex]

theorem manifestCopy_of_resumableKept {adhoc : Option Str}
    (h : resumableKept repo info adhoc x = true) : repo.manifestCopy x ≠ none := by
  intro hnone
  unfold resumableKept at h
  rw [hnone] at h
  simp at h

theorem strip_filter (paths : List BackupPath) (manifests copies removed : List Str) :
    strip (paths.filter (fun p => decide (p.label ∉ removed))) manifests copies
      = (strip paths manifests copies).filter (fun p => decide (p.label ∉ removed)) := by
  unfold strip
  rw [filter_map]
  rfl

/-- Only the labels of directories that stay matter. -/
theorem strip_filter_congr {paths : List BackupPath} {x y x' y' : List Str} (q q' : Str → Bool)
    (hq : ∀ z, q z = q' z)
    (hmem : ∀ z, q' z = true → (z ∈ x ↔ z ∈ x') ∧ (z ∈ y ↔ z ∈ y')) :
    (strip paths x y).filter (fun p => q p.label)
      = (strip paths x' y').filter (fun p => q' p.label) := by
  induction paths with
  | nil => rfl
  | cons p paths ih =>
    unfold strip at ih ⊢
    rw [map_cons, map_cons]
    cases hp : q' p.label with
    | false =>
      rw [filter_cons_of_neg (by simp [hq, hp]), filter_cons_of_neg (by simp [hp]), ih]
    | true =>
      obtain ⟨hx, hy⟩ := hmem p.label hp
      rw [filter_cons_of_pos (by simp [hq, hp]), filter_cons_of_pos (by simp [hp]), ih]
      simp only [hx, hy]

/-- The directories when the second run gets to remove some. -/
theorem CutState.paths_stripped {adhoc : Option Str}
    (hcut : CutState repo cut final adhoc labels k i j removed info)
    (labels' : List Str) :
    (cut.stripped labels').paths
      = (strip repo.paths (labels.take i ++ labels') (labels.take j ++ labels')).filter
          (fun p => decide (p.label ∉ removed)) := by
  unfold Repo.stripped
  rw [hcut.paths, strip_filter, strip_strip]

theorem beginsWith_of_mem_dependents (h : DependencyClosed l) (hl : LabelsValid l)
    (hx : x ∈ dependents l label) : strBeginsWith x (strSubN label 0 16) = true := by
  unfold strBeginsWith strSubN
  rw [drop_zero, ← take_eq_of_mem_dependents h hl hx, isPrefixOf_iff_prefix]
  exact take_prefix 16 x

/-- The prior of a dependent is a dependent, unless it is the backup itself
that is expired. -/
theorem prior_mem_dependents (h : DependencyClosed l) {b : InfoBackupData} (hb : b ∈ l)
    (hdep : b.backupLabel ∈ dependents l label) (hne : b.backupLabel ≠ label) :
    ∃ p, b.backupPrior = some p ∧ p ∈ dependents l label := by
  cases ((mem_dependents h).mp hdep).cases_tail with
  | inl heq => exact absurd heq hne
  | inr hlast =>
    obtain ⟨p, hreach, a, ha, hp, hab⟩ := hlast
    rw [h.eq_of_key_eq ha hb hab] at hp
    exact ⟨p, hp, (mem_dependents h).mpr hreach⟩

theorem newest_mem_take (hx : x ∈ expireLabels l label) (hnew : ∀ y ∈ expireLabels l label, y ≤ x)
    (n : ℕ) : x ∈ (expireLabels l label).take (n + 1) := by
  have hsorted : (expireLabels l label).Pairwise (· ≥ ·) := pairwise_insertionSort _ _
  cases hlist : expireLabels l label with
  | nil => rw [hlist] at hx; cases hx
  | cons y rest =>
    rw [hlist] at hx hnew hsorted
    cases mem_cons.mp hx with
    | inl heq => rw [heq]; exact mem_cons_self
    | inr hmem =>
      have hge : y ≥ x := rel_of_pairwise_cons hsorted hmem
      rw [le_antisymm hge (hnew y mem_cons_self)]
      exact mem_cons_self

/-- **The second run takes no half removed backup for a resumable one.** -/
theorem CutState.not_resumable (h : RepoValid repo)
    (hsafe : RerunSafe repo k (.adhoc label))
    (hfinal : final.backup = without repo.reconstructed (adhocSeq label repo.reconstructed))
    (hcut : CutState repo cut final (some label) (adhocSeq label repo.reconstructed) k i j removed
      info)
    {c : Manifest} (hcopy : repo.manifestCopy x = some c)
    (hnew : ∀ y ∈ repo.diskLabels, y ∉ removed → y ≤ x)
    (hi : x ∈ (adhocSeq label repo.reconstructed).take i)
    (hj : x ∉ (adhocSeq label repo.reconstructed).take j)
    (hfinal' : info'.backup = final.backup) :
    ¬(strBeginsWith x (strSubN label 0 16) = false ∨
      ∃ p, c.data.backupLabelPrior = some p ∧ p ∈ info'.labels) := by
  have hclosed := h.closed_reconstructed
  have hvalid := h.labels_reconstructed
  have hx : x ∈ adhocSeq label repo.reconstructed := mem_of_mem_take hi
  have hlisted : label ∈ repo.reconstructed.map InfoBackupData.backupLabel := by
    by_contra hnot
    unfold adhocSeq at hx
    rw [if_neg hnot] at hx
    cases hx
  have hseq : adhocSeq label repo.reconstructed = expireLabels repo.reconstructed label :=
    if_pos hlisted
  rw [hseq] at hi hj hx hfinal
  have hdep := mem_expireLabels.mp hx
  -- the manifest is gone and the copy is not: the cut came in between
  have hne : i ≠ j := fun heq => hj (heq ▸ hi)
  obtain ⟨hnil, hk⟩ := hcut.half.resolve_left hne
  have hmem : ∀ y ∈ expireLabels repo.reconstructed label, y ∈ repo.diskLabels := by
    intro y hy
    obtain ⟨b, hb, rfl⟩ := mem_map.mp (mem_of_mem_adhocSeq hclosed (hseq ▸ hy))
    obtain ⟨m, hm, -⟩ := h.manifest_of_mem hb
    exact mem_diskLabels_of_manifest hm (hvalid.valid b hb)
  rw [hnil] at hnew
  have hnewest : ∀ y ∈ repo.diskLabels, y ≤ x := fun y hy => hnew y hy (by simp)
  have hj0 : j = 0 := by
    cases j with
    | zero => rfl
    | succ n => exact absurd (newest_mem_take hx (fun y hy => hnewest y (hmem y hy)) n) hj
  obtain ⟨b, hb, rfl⟩ := mem_map.mp (mem_of_mem_adhocSeq hclosed (hseq ▸ hx))
  obtain ⟨m, hm, hprior, -⟩ := h.prior_of_mem hb
  have hcprior : c.data.backupLabelPrior = b.backupPrior := (h.copy _ m c hm hcopy).trans hprior
  rintro (hbegin | ⟨p, hp, hpl⟩)
  · rw [beginsWith_of_mem_dependents hclosed hvalid hdep] at hbegin
    cases hbegin
  · rw [hcprior] at hp
    by_cases heq : b.backupLabel = label
    · refine hsafe.2 ⟨hk hj0, heq ▸ hnewest, b, hb, heq, ?_⟩
      rw [hp]
      simp
    · obtain ⟨p', hp', hgone⟩ := prior_mem_dependents hclosed hb hdep heq
      rw [hp, Option.some.injEq] at hp'
      unfold InfoBackup.labels at hpl
      rw [hfinal', hfinal] at hpl
      obtain ⟨a, ha, hap⟩ := mem_map.mp hpl
      exact (mem_without.mp ha).2 (mem_expireLabels.mpr (by rw [hap, hp']; exact hgone))

theorem keptLabel_none : keptLabel repo info none = none := by
  unfold keptLabel
  split
  · rfl
  · exact if_neg (by simp [resumableKept])

theorem stripped_paths (repo : Repo) (labels : List Str) :
    (repo.stripped labels).paths
      = (strip repo.paths labels labels).filter (fun p => decide (p.label ∉ ([] : List Str))) := by
  unfold Repo.stripped
  simp

/-- **Both runs keep the same directory as resumable**, on request. -/
theorem CutState.keptLabel_adhoc (h : RepoValid repo)
    (hsafe : RerunSafe repo k (.adhoc label))
    (hfinal : final.backup = without repo.reconstructed (adhocSeq label repo.reconstructed))
    (hcut : CutState repo cut final (some label) (adhocSeq label repo.reconstructed) k i j removed
      info)
    (hsub : ∀ y ∈ labels', y ∈ adhocSeq label repo.reconstructed)
    (hfinal' : info'.backup = final.backup) :
    keptLabel (cut.stripped labels') info' (some label) = some x
      ↔ keptLabel (repo.stripped (adhocSeq label repo.reconstructed)) final (some label)
          = some x := by
  have hpaths := hcut.paths_stripped labels'
  have hlabels : info'.labels = final.labels := by
    unfold InfoBackup.labels
    rw [hfinal']
  have hsub' : ∀ n, x ∈ (adhocSeq label repo.reconstructed).take n ++ labels' →
      x ∈ adhocSeq label repo.reconstructed := fun n hx =>
    (mem_append.mp hx).elim mem_of_mem_take (hsub x)
  rw [keptLabel_eq_some, keptLabel_eq_some, resumableKept_iff, resumableKept_iff,
    diskLabels_cut hpaths, diskLabels_stripped, manifest_cut hpaths, manifestCopy_cut hpaths,
    manifest_cut (stripped_paths repo _), manifestCopy_cut (stripped_paths repo _), hlabels]
  simp only [mem_filter, decide_eq_true_eq, not_mem_nil, false_or]
  constructor
  · rintro ⟨⟨⟨hdisk, hremoved⟩, hnew⟩, hman, c, hcopy, hkeep⟩
    have hnew : ∀ y ∈ repo.diskLabels, y ∉ removed → y ≤ x := fun y hy hyr => hnew y ⟨hy, hyr⟩
    by_cases hgone : x ∈ removed ∨ x ∈ (adhocSeq label repo.reconstructed).take j ++ labels'
    · rw [if_pos hgone] at hcopy
      cases hcopy
    · rw [if_neg hgone] at hcopy
      have hnotj : x ∉ (adhocSeq label repo.reconstructed).take j := fun hx =>
        hgone (Or.inr (mem_append_left _ hx))
      have hnot' : x ∉ labels' := fun hx => hgone (Or.inr (mem_append_right _ hx))
      have hnoti : x ∉ (adhocSeq label repo.reconstructed).take i := fun hi =>
        hcut.not_resumable h hsafe hfinal hcopy hnew hi hnotj hfinal' (hlabels ▸ hkeep)
      -- so it had no manifest from the start
      have hnone : repo.manifest x = none := by
        rw [if_neg] at hman
        · exact hman
        · rintro (hx | hx)
          · exact hremoved hx
          · exact (mem_append.mp hx).elim hnoti hnot'
      have hout : x ∉ adhocSeq label repo.reconstructed := by
        intro hx
        obtain ⟨b, hb, rfl⟩ := mem_map.mp (mem_of_mem_adhocSeq h.closed_reconstructed hx)
        obtain ⟨m, hm, -⟩ := h.manifest_of_mem hb
        rw [hm] at hnone
        cases hnone
      have hnewest := hsafe.1 x hdisk hnone (by rw [hcopy]; simp)
      rw [if_neg hout, if_neg hout]
      exact ⟨⟨hdisk, hnewest⟩, hnone, c, hcopy, hkeep⟩
  · rintro ⟨⟨hdisk, hnewest⟩, hman, c, hcopy, hkeep⟩
    by_cases hx : x ∈ adhocSeq label repo.reconstructed
    · rw [if_pos hx] at hcopy
      cases hcopy
    · rw [if_neg hx] at hman hcopy
      have hremoved : x ∉ removed := by
        intro hmem
        have hgone := (mem_removeLabels (nodup_diskLabels_stripped h _)).mp
          (hcut.removed_mem x hmem)
        refine hgone.2.2 (keptLabel_eq_some.mpr ⟨?_, resumableKept_iff.mpr ?_⟩)
        · rw [diskLabels_stripped]
          exact ⟨hdisk, hnewest⟩
        · rw [manifest_cut (stripped_paths repo _), manifestCopy_cut (stripped_paths repo _)]
          simp only [not_mem_nil, false_or]
          rw [if_neg hx, if_neg hx]
          exact ⟨hman, c, hcopy, hkeep⟩
      have hout : ∀ n, ¬(x ∈ removed ∨
          x ∈ (adhocSeq label repo.reconstructed).take n ++ labels') :=
        fun n hmem => hmem.elim hremoved (fun hmem => hx (hsub' n hmem))
      rw [if_neg (hout i), if_neg (hout j)]
      exact ⟨⟨⟨hdisk, hremoved⟩, fun y hy => hnewest y hy.1⟩, hman, c, hcopy, hkeep⟩

end Kept

/-! ## The second run -/

section Again

variable {repo cut : Repo} {final info info' : InfoBackup} {labels' : List Str}
  {option : RepoOption} {time : ℤ} {mode : ExpireMode} {k i j : ℕ} {removed : List Str}

section

variable (h : RepoValid repo) (hsafe : RerunSafe repo k mode)
  (hfinal : final.backup = without repo.reconstructed (modeSeq option time repo.reconstructed mode))
  (hcut : CutState repo cut final mode.adhocLabel (modeSeq option time repo.reconstructed mode) k i j removed info)
  (hsub : ∀ y ∈ labels', y ∈ modeSeq option time repo.reconstructed mode)
  (hfinal' : info'.backup = final.backup)
include h hsafe hfinal hcut hsub hfinal'

/-- **Both runs keep the same directory as resumable.** -/
theorem CutState.keptLabel_again (x : Str) :
    keptLabel (cut.stripped labels') info' mode.adhocLabel = some x
      ↔ keptLabel (repo.stripped (modeSeq option time repo.reconstructed mode)) final
          mode.adhocLabel = some x := by
  cases mode with
  | adhoc label => exact hcut.keptLabel_adhoc h hsafe hfinal hsub hfinal'
  | retention oldest =>
    show keptLabel _ _ none = _ ↔ keptLabel _ _ none = _
    rw [keptLabel_none, keptLabel_none]

/-- **The directories after the second run** are those that a run without a
cut leaves. -/
theorem CutState.paths_again :
    (cut.stripped labels').paths.filter (fun p => decide (p.label ∉
        removeLabels (cut.stripped labels') info' mode.adhocLabel))
      = (repo.stripped (modeSeq option time repo.reconstructed mode)).paths.filter
          (fun p => decide (p.label ∉ removeLabels
            (repo.stripped (modeSeq option time repo.reconstructed mode)) final
            mode.adhocLabel)) := by
  have hpaths := hcut.paths_stripped labels'
  have hlabels : info'.labels = final.labels := by
    unfold InfoBackup.labels
    rw [hfinal']
  have hnodup : (cut.stripped labels').diskLabels.Nodup := by
    rw [diskLabels_cut hpaths]
    exact (nodup_diskLabels h).filter _
  have hkept := hcut.keptLabel_again h hsafe hfinal hsub hfinal'
  have hfirst : ∀ x, x ∈ removeLabels
      (repo.stripped (modeSeq option time repo.reconstructed mode)) final mode.adhocLabel ↔ _ :=
    fun x => mem_removeLabels
      (nodup_diskLabels_stripped h (modeSeq option time repo.reconstructed mode))
  have hsecond : ∀ x, x ∈ removeLabels (cut.stripped labels') info' mode.adhocLabel
      ↔ x ∉ removed ∧ x ∈ removeLabels
          (repo.stripped (modeSeq option time repo.reconstructed mode)) final
          mode.adhocLabel := by
    intro x
    rw [mem_removeLabels hnodup, hfirst, diskLabels_cut hpaths, diskLabels_stripped, hlabels,
      ne_eq, hkept x, mem_filter, decide_eq_true_eq]
    exact ⟨fun hx => ⟨hx.1.2, hx.1.1, hx.2⟩, fun hx => ⟨⟨hx.2.1, hx.1⟩, hx.2.2⟩⟩
  -- a directory that stays is not one that has lost its manifest
  have hout : ∀ x, x ∉ removeLabels
      (repo.stripped (modeSeq option time repo.reconstructed mode)) final mode.adhocLabel →
      x ∉ modeSeq option time repo.reconstructed mode := by
    intro x hx hmem
    obtain ⟨b, hb, rfl⟩ := mem_map.mp (mem_of_mem_modeSeq h.closed_reconstructed hmem)
    obtain ⟨m, hm, -⟩ := h.manifest_of_mem hb
    refine hx ((hfirst _).mpr ⟨?_, ?_, ?_⟩)
    · rw [diskLabels_stripped]
      exact mem_diskLabels_of_manifest hm (h.labels_reconstructed.valid b hb)
    · unfold InfoBackup.labels
      rw [hfinal]
      intro hleft
      obtain ⟨c, hc, hcb⟩ := mem_map.mp hleft
      exact (mem_without.mp hc).2 (hcb ▸ hmem)
    · intro hk
      refine manifestCopy_of_resumableKept (keptLabel_eq_some.mp hk).2 ?_
      rw [manifestCopy_cut (stripped_paths repo _), if_pos (Or.inr hmem)]
  rw [hpaths, stripped_paths, filter_filter, filter_filter]
  refine strip_filter_congr
    (fun x => decide (x ∉ removeLabels (cut.stripped labels') info' mode.adhocLabel)
      && decide (x ∉ removed))
    (fun x => decide (x ∉ removeLabels
        (repo.stripped (modeSeq option time repo.reconstructed mode)) final mode.adhocLabel)
      && decide (x ∉ ([] : List Str)))
    (fun x => ?_) (fun x hx => ?_)
  · rw [Bool.eq_iff_iff]
    simp only [Bool.and_eq_true, decide_eq_true_eq, hsecond, not_mem_nil,
      not_false_eq_true, and_true]
    constructor
    · rintro ⟨hkeep, hremoved⟩ hmem
      exact hkeep ⟨hremoved, hmem⟩
    · intro hkeep
      exact ⟨fun hmem => hkeep hmem.2, fun hmem => hkeep (hcut.removed_mem _ hmem)⟩
  · rw [Bool.and_eq_true, decide_eq_true_eq] at hx
    have hnot := hout x hx.1
    have hnot' : ∀ n, x ∉ (modeSeq option time repo.reconstructed mode).take n ++ labels' :=
      fun n hmem => hnot ((mem_append.mp hmem).elim mem_of_mem_take (hsub _))
    exact ⟨iff_of_false (hnot' i) hnot, iff_of_false (hnot' j) hnot⟩

end

end Again

/-! ## Crash safety -/

/-- The repository when the run is cut after `k` of its operations. -/
def Repo.cutAfter (repo : Repo) (option : RepoOption) (time : ℤ) (mode : ExpireMode) (k : ℕ) :
    Repo :=
  repo.run ((cmdExpire repo option time mode).take k)

section CrashSafe

variable {repo : Repo} {option : RepoOption} {time : ℤ} {mode : ExpireMode}

theorem RepoValid.cutState_refl (h : RepoValid repo) :
    ∃ info, info.backup = without repo.reconstructed [] ∧
      CutState repo repo info none [] 0 0 0 [] info := by
  obtain ⟨info, hok, hbackup, hpg, hupd⟩ := reconstruct_valid h
  have hinfo : info.backup = without repo.reconstructed [] := by rw [hbackup, without_nil]
  refine ⟨info, hinfo, h.loaded, ?_, by simp, Or.inl rfl, Or.inl rfl, hok, hinfo, hpg, hupd⟩
  rw [take_nil, strip_nil]
  simp

section

variable (h : RepoValid repo) (hmode : mode ≠ .retention true)
include h hmode

variable (option time) in
/-- A run either has no effect at all or ends up in a `CutState`, wherever
it is cut; the run itself has the shape. -/
theorem cmdExpire_cases :
    (∀ k, repo.cutAfter option time mode k = repo) ∨
    ((mode.adhocLabel.all (backupRegExp backupAllRegExp) = true ∧ option.dryRun = false) ∧
      ∃ info final, info.backup = repo.reconstructed ∧ ModeChecks info mode ∧
        final.infoPg = repo.backupInfo.infoPg ∧
        final.backup
          = without repo.reconstructed (modeSeq option time repo.reconstructed mode) ∧
        RunShape repo final mode.adhocLabel (modeSeq option time repo.reconstructed mode)
          (cmdExpire repo option time mode)) := by
  obtain ⟨info, hok, hbackup, hpg, hupd⟩ := reconstruct_valid h
  have hclosed : DependencyClosed info.backup := hbackup ▸ h.closed_reconstructed
  have hl : LabelsValid info.backup := hbackup ▸ h.labels_reconstructed
  by_cases hallowed : mode.adhocLabel.all (backupRegExp backupAllRegExp) = true ∧
      option.dryRun = false ∧ ModeChecks info mode
  · obtain ⟨hlabel, hdry, hchecks⟩ := hallowed
    obtain ⟨final, hfpg, hfinal, hshape⟩ := cmdExpire_shape time hlabel hdry hmode hok
      hupd h.loaded hclosed hl hchecks
    rw [hbackup] at hfinal hshape
    exact Or.inr ⟨⟨hlabel, hdry⟩, info, final, hbackup, hchecks, hfpg.trans hpg, hfinal, hshape⟩
  · exact Or.inl (run_cmdExpire_refused hok hclosed hl hmode hallowed)

theorem cutAfter_intact (k : ℕ) :
    ∃ info, infoBackupLoadFileReconstruct (repo.cutAfter option time mode k) = .ok info ∧
      ∀ b ∈ info.backup, BackupIntact (repo.cutAfter option time mode k) info b := by
  cases cmdExpire_cases option time h hmode with
  | inl hnone =>
    rw [hnone k]
    obtain ⟨info, hinfo, hcut⟩ := h.cutState_refl
    have hremovable : Removable repo.reconstructed [] :=
      removable_removalSeq h.closed_reconstructed []
    exact ⟨info, hcut.reconstruct, hcut.intact h hremovable hinfo⟩
  | inr hrun =>
    obtain ⟨-, -, final, -, -, hpg, hfinal, hshape⟩ := hrun
    have hremovable := removable_modeSeq option time mode h.closed_reconstructed
    obtain ⟨i, j, removed, info, hcut⟩ := exists_cutState h hremovable hfinal hpg hshape k
    exact ⟨info, hcut.reconstruct, hcut.intact h hremovable hfinal⟩

/-- The same run again ends with the list and the directories of the run
that was not cut. -/
theorem cutAfter_again (k : ℕ) (hsafe : RerunSafe repo k mode) :
    let cut := repo.cutAfter option time mode k
    (cut.run (cmdExpire cut option time mode)).backupInfo
        = (repo.run (cmdExpire repo option time mode)).backupInfo ∧
      (cut.run (cmdExpire cut option time mode)).paths
        = (repo.run (cmdExpire repo option time mode)).paths := by
  intro cut
  cases cmdExpire_cases option time h hmode with
  | inl hnone =>
    have hsame : cut = repo := hnone k
    rw [hsame]
    exact ⟨rfl, rfl⟩
  | inr hrun =>
    obtain ⟨⟨hlabel, hdry⟩, info₀, final, hinfo₀, hchecks, hpg, hfinal, hshape⟩ := hrun
    have hclosed := h.closed_reconstructed
    have hremovable := removable_modeSeq option time mode hclosed
    obtain ⟨i, j, removed, info, hcut⟩ := exists_cutState h hremovable hfinal hpg hshape k
    have hcut : CutState repo cut final mode.adhocLabel
      (modeSeq option time repo.reconstructed mode) k i j removed info := hcut
    have hclosed' : DependencyClosed info.backup := by
      rw [hcut.backup]
      exact closed_without hclosed (hremovable i)
    have hl' : LabelsValid info.backup := by
      rw [hcut.backup]
      exact h.labels_reconstructed.subset (fun b hb => (mem_without.mp hb).1)
    have hchecks' : ModeChecks info mode := by
      have hinfo : info.backup
          = without info₀.backup ((modeSeq option time info₀.backup mode).take i) := by
        rw [hcut.backup, hinfo₀]
      exact modeChecks_take (hinfo₀ ▸ hclosed) (hinfo₀ ▸ h.labels_reconstructed) hinfo hchecks
    obtain ⟨final', hpg', hfinal', hshape'⟩ := cmdExpire_shape time hlabel hdry hmode
      hcut.reconstruct hcut.updated hcut.loaded hclosed' hl' hchecks'
    rw [hcut.backup] at hfinal' hshape'
    -- the second run ends with the same list
    have hlist : final'.backup = final.backup := by
      rw [hfinal', hfinal]
      exact without_modeSeq_take hclosed h.labels_reconstructed i
    have hinfo : final'.infoPg = final.infoPg := (hpg'.trans hcut.infoPg).trans hpg.symm
    have hsub : ∀ y ∈ modeSeq option time (without repo.reconstructed
        ((modeSeq option time repo.reconstructed mode).take i)) mode,
        y ∈ modeSeq option time repo.reconstructed mode :=
      fun y hy => mem_modeSeq_of_take hclosed h.labels_reconstructed hy
    obtain ⟨hb, hp⟩ := run_shape hshape
    obtain ⟨hb', hp'⟩ := run_shape hshape'
    constructor
    · rw [hb, hb', hlist, hinfo]
    · rw [hp, hp']
      exact hcut.paths_again h hsafe hfinal hsub hlist

end

variable (option time) in
/-- Expiring the oldest full backup is a run by count with other options. -/
theorem cmdExpire_oldest (h : RepoValid repo) :
    ∃ option', cmdExpire repo option time (.retention true)
      = cmdExpire repo option' time (.retention false) := by
  obtain ⟨info, hok, -⟩ := reconstruct_valid h
  refine ⟨expireOldest info option, ?_⟩
  have hdry : (expireOldest info option).dryRun = option.dryRun := by
    unfold expireOldest
    dsimp only
    split
    · rfl
    · rfl
  unfold cmdExpire
  rw [hok]
  simp only [hdry]
  rfl

/-- **Expire is crash safe.** Wherever a run is cut, the reconstruction of
the list succeeds and every backup that it lists has its manifest, its
directory, its prior and the backups it references. Unless the run is
relative to what it finds (the oldest full backup), running it again ends
with the list and the directories of an uninterrupted run. Not compared are
`backup.info.copy`, which a cut between the two saves of the list leaves as it
was, and the link to the latest backup. -/
theorem cmdExpire_crash_safe (repo : Repo) (option : RepoOption) (time : ℤ) (mode : ExpireMode)
    (k : ℕ) (h : RepoValid repo) :
    let cut := repo.cutAfter option time mode k
    (∃ info, infoBackupLoadFileReconstruct cut = .ok info ∧
      ∀ b ∈ info.backup, BackupIntact cut info b) ∧
    (mode ≠ .retention true → RerunSafe repo k mode →
      (cut.run (cmdExpire cut option time mode)).backupInfo
          = (repo.run (cmdExpire repo option time mode)).backupInfo ∧
        (cut.run (cmdExpire cut option time mode)).paths
          = (repo.run (cmdExpire repo option time mode)).paths) := by
  intro cut
  refine ⟨?_, fun hmode hsafe => cutAfter_again h hmode k hsafe⟩
  by_cases hmode : mode = .retention true
  · obtain ⟨option', heq⟩ := cmdExpire_oldest option time h
    have hcut : cut = repo.cutAfter option' time (.retention false) k := by
      show repo.run ((cmdExpire repo option time mode).take k) = _
      rw [hmode, heq]
      rfl
    rw [hcut]
    exact cutAfter_intact h (by simp) k
  · exact cutAfter_intact h hmode k

end CrashSafe

/-! ### Cut right after the first removal -/

/-- The repository of `fullFullDiff` with the directories of its backups. -/
def fullFullDiffRepo : Repo where
  backupInfo := (fullFullDiff [labelF2]).infoBackup
  backupInfoCopy := (fullFullDiff [labelF2]).infoBackup
  paths :=
    let path (m : Manifest) : BackupPath := ⟨m.data.backupLabel, some m, some m⟩
    [path (.plain labelF1 .full none []), path (.plain labelF2 .full none []),
      path (.plain labelD2 .diff (some labelF2) [labelF2, labelD2])]

theorem manifestFits_full (label : Str) :
    ManifestFits label (.plain label .full none []) where
  label_eq := rfl
  prior := rfl
  reference := fun h => absurd rfl h
  prior_lt := fun p hp => absurd hp (by simp [Manifest.plain])
  full := fun _ => rfl
  diff := fun _ p hp => absurd hp (by simp [Manifest.plain])
  same := fun p hp => absurd hp (by simp [Manifest.plain])

theorem fullFullDiffRepo_valid : RepoValid fullFullDiffRepo where
  nodup := by decide
  loaded := rfl
  closed := fullFullDiff_closed
  valid := by decide
  listed := by
    intro b hb
    have h : ∀ b ∈ fullFullDiffRepo.backupInfo.backup,
        (fullFullDiffRepo.manifest b.backupLabel).map
          (fun m => (infoBackupDataNew m).backupPrior) = some b.backupPrior := by
      decide +kernel
    exact Option.map_eq_some_iff.mp (h b hb)
  fits := by
    intro label m hm
    obtain ⟨p, hp, rfl, hpm⟩ := mem_paths_of_manifest hm
    simp only [fullFullDiffRepo, mem_cons, not_mem_nil, or_false] at hp
    obtain rfl | rfl | rfl := hp
    · cases hpm
      exact manifestFits_full labelF1
    · cases hpm
      exact manifestFits_full labelF2
    · cases hpm
      exact ⟨rfl, rfl, by decide, by decide, by decide, by decide, by decide⟩
  reference := by
    intro label m hm r hr
    obtain ⟨p, hp, rfl, hpm⟩ := mem_paths_of_manifest hm
    simp only [fullFullDiffRepo, mem_cons, not_mem_nil, or_false] at hp
    obtain rfl | rfl | rfl := hp
    · cases hpm
      cases show r ∈ ([] : List Str) from hr
    · cases hpm
      cases show r ∈ ([] : List Str) from hr
    · cases hpm
      have hr : r = labelF2 := mem_singleton.mp (show r ∈ [labelF2] from hr)
      have hentry : infoBackupDataNew (.plain labelD2 .diff (some labelF2) [labelF2, labelD2])
          ∈ fullFullDiffRepo.diskEntries :=
        mem_filterMap.mpr
          ⟨_, mem_cons_of_mem _ (mem_cons_of_mem _ mem_cons_self), rfl⟩
      rw [hr]
      exact Relation.TransGen.single ⟨_, hentry, rfl, rfl⟩
  copy := by
    intro label m c hm hc
    obtain ⟨p, hp, rfl, hpm⟩ := mem_paths_of_manifest hm
    have h : ∀ p ∈ fullFullDiffRepo.paths,
        fullFullDiffRepo.manifestCopy p.label = p.manifest := by
      decide +kernel
    rw [h p hp, hpm] at hc
    rw [Option.some.inj hc]

/-- A run that retains one full backup, cut after the manifest of the other
was removed. -/
theorem cmdExpire_crash_safe_fullFullDiff :
    RepoValid fullFullDiffRepo ∧
    (fullFullDiffRepo.cutAfter (fullFullDiff []).option 0 (.retention false) 1).run
        (cmdExpire (fullFullDiffRepo.cutAfter (fullFullDiff []).option 0 (.retention false) 1)
          (fullFullDiff []).option 0 (.retention false)) ≠ fullFullDiffRepo ∧
    ((fullFullDiffRepo.cutAfter (fullFullDiff []).option 0 (.retention false) 1).run
        (cmdExpire (fullFullDiffRepo.cutAfter (fullFullDiff []).option 0 (.retention false) 1)
          (fullFullDiff []).option 0 (.retention false))).paths
      = (fullFullDiffRepo.run
          (cmdExpire fullFullDiffRepo (fullFullDiff []).option 0 (.retention false))).paths :=
  ⟨fullFullDiffRepo_valid, by decide +kernel,
    ((cmdExpire_crash_safe fullFullDiffRepo (fullFullDiff []).option 0 (.retention false) 1
      fullFullDiffRepo_valid).2 (by simp) trivial).2⟩

/-- **The second run can keep a directory that an uninterrupted run
removes**: the newest backup is a differential one and is expired on
request, and the run is cut between the removal of its manifest and of the
copy. -/
theorem cmdExpire_keeps_half_removed :
    RepoValid fullFullDiffRepo ∧
    ((fullFullDiffRepo.cutAfter (fullFullDiff []).option 0 (.adhoc labelD2) 1).run
        (cmdExpire (fullFullDiffRepo.cutAfter (fullFullDiff []).option 0 (.adhoc labelD2) 1)
          (fullFullDiff []).option 0 (.adhoc labelD2))).paths.map BackupPath.label
      = [labelF1, labelF2, labelD2] ∧
    (fullFullDiffRepo.run
        (cmdExpire fullFullDiffRepo (fullFullDiff []).option 0 (.adhoc labelD2))).paths.map
          BackupPath.label
      = [labelF1, labelF2] :=
  ⟨fullFullDiffRepo_valid, by decide +kernel, by decide +kernel⟩

end PgxBackup
