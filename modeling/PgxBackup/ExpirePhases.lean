import PgxBackup.ExpireSurvive

/-!
# The phases of a run in terms of removed labels

Every phase of an expire run comes down to a sequence of labels that are
expired one after the other (`expireSeq`). This module determines that
sequence for each mode and shows that a run which starts where an earlier
one was cut short ends with the same list.
-/

namespace PgxBackup

open List DepClosure

/-- Expire labels one after the other, without looking for dependents. -/
def expireSeq (s : ExpireState) (labels : List Str) : ExpireState :=
  labels.foldl expireOne s

/-- The removals of the manifest files of the labels. -/
def manifestOps (labels : List Str) : List StorageOp :=
  labels.flatMap (fun label => [.remove (.manifest label), .remove (.manifestCopy label)])

section Seq

variable {s : ExpireState} {labels : List Str}

theorem expireSeq_append (s : ExpireState) (labels labels' : List Str) :
    expireSeq s (labels ++ labels') = expireSeq (expireSeq s labels) labels' :=
  foldl_append

theorem expireSeq_backup (h : DependencyClosed s.infoBackup.backup) (labels : List Str) :
    (expireSeq s labels).infoBackup.backup = without s.infoBackup.backup labels :=
  foldl_expireOne_backup labels h.sorted

section

variable (s : ExpireState) (labels : List Str)

@[simp] theorem expireSeq_option : (expireSeq s labels).option = s.option := by
  induction labels generalizing s with
  | nil => rfl
  | cons label labels ih => exact ih (expireOne s label)

@[simp] theorem expireSeq_infoPg :
    (expireSeq s labels).infoBackup.infoPg = s.infoBackup.infoPg := by
  induction labels generalizing s with
  | nil => rfl
  | cons label labels ih => exact ih (expireOne s label)

theorem expireSeq_storageOps (hdry : s.option.dryRun = false) :
    (expireSeq s labels).storageOps = s.storageOps ++ manifestOps labels := by
  induction labels generalizing s with
  | nil => simp [expireSeq, manifestOps]
  | cons label labels ih =>
    show (expireSeq (expireOne s label) labels).storageOps = _
    rw [ih (expireOne s label) hdry]
    simp [expireOne, hdry, manifestOps]

theorem expireSeq_storageOps_dryRun (hdry : s.option.dryRun = true) :
    (expireSeq s labels).storageOps = s.storageOps := by
  induction labels generalizing s with
  | nil => rfl
  | cons label labels ih =>
    show (expireSeq (expireOne s label) labels).storageOps = _
    rw [ih (expireOne s label) hdry]
    simp [expireOne, hdry]

theorem expireSeq_updated :
    (expireSeq s labels).infoBackup.updated = true ∨ expireSeq s labels = s := by
  induction labels generalizing s with
  | nil => exact Or.inr rfl
  | cons label labels ih =>
    left
    cases ih (expireOne s label) with
    | inl h => exact h
    | inr h =>
      show (expireSeq (expireOne s label) labels).infoBackup.updated = true
      rw [h]
      rfl

end

theorem expireBackup_fst (s : ExpireState) (label : Str) :
    (expireBackup s label).1 = expireSeq s (expireLabels s.infoBackup.backup label) := rfl

/-- The list of expired backups is the removed labels in ascending order. -/
theorem length_expireBackup_snd (s : ExpireState) (label : Str) :
    (expireBackup s label).2.length = (expireLabels s.infoBackup.backup label).length :=
  length_insertionSort _ _

theorem expireAll_eq (h : DependencyClosed s.infoBackup.backup) (victims : List Str) :
    expireAll s victims = expireSeq s (removalSeq s.infoBackup.backup victims) := by
  induction victims generalizing s with
  | nil => rfl
  | cons v victims ih =>
    have hbackup := expireSeq_backup h (expireLabels s.infoBackup.backup v)
    have hclosed : DependencyClosed
        (expireSeq s (expireLabels s.infoBackup.backup v)).infoBackup.backup := by
      rw [hbackup]
      exact closed_without h (closedSet_expireLabels h)
    show expireAll (expireSeq s (expireLabels s.infoBackup.backup v)) victims = _
    rw [ih hclosed, hbackup]
    exact (expireSeq_append s _ _).symm

end Seq

/-! ## Count and age -/

section Phases

variable {s : ExpireState}

section

variable (h : DependencyClosed s.infoBackup.backup)
include h

theorem expireFullBackup_eq :
    (expireFullBackup s).1 = expireSeq s (removalSeq s.infoBackup.backup
      (fullVictims (s.option.retentionFull.getD 0) s.infoBackup.backup)) := by
  unfold expireFullBackup fullVictims
  dsimp only
  split
  · rw [expireBackupList_fst, expireAll_eq h]
    rfl
  · rfl

theorem expireDiffBackup_eq :
    (expireDiffBackup s).1 = expireSeq s (removalSeq s.infoBackup.backup
      (diffVictims (s.option.retentionDiff.getD 0) s.infoBackup.backup)) := by
  unfold expireDiffBackup diffVictims
  dsimp only
  split
  · rw [expireBackupList_fst, expireAll_eq h]
    rfl
  · rfl

theorem infoBackupDataByLabel_ok {b : InfoBackupData} (hb : b ∈ s.infoBackup.backup) :
    infoBackupDataByLabel s.infoBackup b.backupLabel = .ok b := by
  unfold infoBackupDataByLabel
  cases hfind : s.infoBackup.backup.find? (fun c => c.backupLabel == b.backupLabel) with
  | none =>
    have := find?_eq_none.mp hfind b hb
    simp at this
  | some c =>
    have hc : c ∈ s.infoBackup.backup := mem_of_find?_eq_some hfind
    have hcb : c.backupLabel = b.backupLabel := by simpa using find?_some hfind
    rw [h.eq_of_key_eq hc hb hcb]

/-- The loop that looks for the backup to retain. -/
theorem retentionMet_eq (minTimestamp : ℤ) {l : List InfoBackupData}
    (hl : ∀ b ∈ l, b ∈ s.infoBackup.backup) :
    retentionMet s.infoBackup minTimestamp (l.map InfoBackupData.backupLabel)
      = .ok ((l.find? (fun b => decide (b.backupTimestampStop < minTimestamp))).map
          InfoBackupData.backupLabel) := by
  induction l with
  | nil => rfl
  | cons b l ih =>
    rw [map_cons, retentionMet, infoBackupDataByLabel_ok h (hl b mem_cons_self)]
    simp only [bind, Except.bind]
    by_cases hstop : b.backupTimestampStop < minTimestamp
    · simp [hstop]
    · rw [if_neg hstop, ih (fun c hc => hl c (mem_cons_of_mem _ hc))]
      simp [hstop]

theorem retentionMet_timeRetention (minTimestamp : ℤ) :
    retentionMet s.infoBackup minTimestamp
        (strLstSort (infoBackupDataLabelList s.infoBackup (some fullRegExp)) .asc).reverse
      = .ok ((timeRetention minTimestamp s.infoBackup.backup).map
          InfoBackupData.backupLabel) := by
  have hlist : infoBackupDataLabelList s.infoBackup (some fullRegExp)
      = (s.infoBackup.backup.filter (fun b => backupRegExp fullRegExp b.backupLabel)).map
          InfoBackupData.backupLabel := by
    unfold infoBackupDataLabelList InfoBackup.labels
    rw [filter_map]
    rfl
  have hsorted : ((s.infoBackup.backup.filter
      (fun b => backupRegExp fullRegExp b.backupLabel)).map
        InfoBackupData.backupLabel).Pairwise (· < ·) := by
    rw [pairwise_map]
    exact h.sorted.filter _
  rw [hlist, strLstSort_asc_of_pairwise hsorted, ← map_reverse]
  exact retentionMet_eq h minTimestamp
    (fun b hb => mem_of_mem_filter (mem_reverse.mp hb))

end

theorem prior_eq_none_of_head {b : InfoBackupData} {l : List InfoBackupData}
    (h : DependencyClosed (b :: l)) : b.backupPrior = none := by
  cases hp : b.backupPrior with
  | none => rfl
  | some p =>
    obtain ⟨c, hc, rfl⟩ := h.parent_mem b mem_cons_self p hp
    have hlt := h.parent_lt b mem_cons_self _ hp
    cases mem_cons.mp hc with
    | inl heq => rw [heq] at hlt; exact absurd hlt (lt_irrefl _)
    | inr hc =>
      have := rel_of_pairwise_cons h.sorted hc
      exact absurd (this.trans hlt) (lt_irrefl _)

/-- Expiring the first backup leaves the other backups without a prior. -/
theorem rootsBefore_cons {b : InfoBackupData} {l : List InfoBackupData} {label : Str}
    (h : DependencyClosed (b :: l)) (hlt : b.backupLabel < label) :
    rootsBefore (b :: l) label = b.backupLabel ::
      rootsBefore (without (b :: l) (expireLabels (b :: l) b.backupLabel)) label := by
  have hmem : ∀ c ∈ l, c.backupPrior = none →
      c.backupLabel ∉ expireLabels (b :: l) b.backupLabel := by
    intro c hc hnone hdep
    rw [mem_expireLabels, mem_dependents h] at hdep
    cases hdep.cases_tail with
    | inl heq =>
      have := rel_of_pairwise_cons h.sorted hc
      rw [heq] at this
      exact absurd this (lt_irrefl _)
    | inr hlast =>
      obtain ⟨y, -, a, ha, hp, hac⟩ := hlast
      rw [h.eq_of_key_eq ha (mem_cons_of_mem _ hc) hac, hnone] at hp
      cases hp
  have hself : b.backupLabel ∈ expireLabels (b :: l) b.backupLabel := by
    rw [mem_expireLabels, mem_dependents h]
  unfold rootsBefore without
  rw [filter_cons_of_pos (by simp [prior_eq_none_of_head h, hlt]), map_cons,
    filter_cons_of_neg (by simp [hself]), filter_filter]
  refine congrArg _ (congrArg _ (filter_congr (fun c hc => ?_)))
  by_cases hnone : c.backupPrior = none
  · simp [hmem c hc hnone]
  · simp [hnone]

/-- **The time based loop** expires the backups without a prior before the
backup to retain. -/
theorem expireUntil_eq {retention : InfoBackupData} (fuel : ℕ) (n : ℕ × ℕ)
    (h : DependencyClosed s.infoBackup.backup) (hmem : retention ∈ s.infoBackup.backup)
    (hnone : retention.backupPrior = none) (hfuel : s.infoBackup.backup.length ≤ fuel) :
    expireUntil retention.backupLabel fuel s n
      = (expireSeq s (removalSeq s.infoBackup.backup
          (rootsBefore s.infoBackup.backup retention.backupLabel)),
        .ok (n.1 + (removalSeq s.infoBackup.backup
            (rootsBefore s.infoBackup.backup retention.backupLabel)).length,
          n.2 + (rootsBefore s.infoBackup.backup retention.backupLabel).length)) := by
  induction fuel generalizing s n with
  | zero =>
    have hnil : s.infoBackup.backup = [] := length_eq_zero_iff.mp (by omega)
    rw [hnil] at hmem
    cases hmem
  | succ fuel ih =>
    cases hs : s.infoBackup.backup with
    | nil => rw [hs] at hmem; cases hmem
    | cons b l =>
      unfold expireUntil
      simp only [hs, lstGet, getElem?_cons_zero]
      by_cases heq : b.backupLabel = retention.backupLabel
      · have hnil : rootsBefore (b :: l) retention.backupLabel = [] := by
          unfold rootsBefore
          rw [map_eq_nil_iff, filter_eq_nil_iff]
          intro c hc
          rw [hs] at h
          have hle : b.backupLabel ≤ c.backupLabel := by
            cases mem_cons.mp hc with
            | inl hcb => rw [hcb]
            | inr hc => exact (rel_of_pairwise_cons h.sorted hc).le
          simp [← heq, hle]
        rw [if_pos heq, hnil]
        rfl
      · have hc : DependencyClosed (b :: l) := hs ▸ h
        have hrl : retention ∈ l := by
          rw [hs] at hmem
          cases mem_cons.mp hmem with
          | inl hrb => exact absurd (by rw [hrb]) heq
          | inr hrl => exact hrl
        have hlt : b.backupLabel < retention.backupLabel :=
          rel_of_pairwise_cons hc.sorted hrl
        rw [if_neg heq, rootsBefore_cons hc hlt]
        have hbackup : (expireBackup s b.backupLabel).1.infoBackup.backup
            = without (b :: l) (expireLabels (b :: l) b.backupLabel) := by
          rw [expireBackup_fst, expireSeq_backup h, hs]
        -- the retained backup has no prior, so it does not depend on the first
        have hret : retention.backupLabel ∉ expireLabels (b :: l) b.backupLabel := by
          rw [mem_expireLabels, mem_dependents hc]
          intro hdep
          cases hdep.cases_tail with
          | inl heq' => exact heq heq'.symm
          | inr hlast =>
            obtain ⟨y, -, a, ha, hp, hac⟩ := hlast
            rw [hc.eq_of_key_eq ha (mem_cons_of_mem _ hrl) hac, hnone] at hp
            cases hp
        have hlen := length_expireBackup_lt hs
        have hrest := ih (s := (expireBackup s b.backupLabel).1)
          (n.1 + (expireBackup s b.backupLabel).2.length, n.2 + 1)
          (by rw [hbackup]; exact closed_without hc (closedSet_expireLabels hc))
          (by rw [hbackup]; exact mem_without.mpr ⟨mem_cons_of_mem _ hrl, hret⟩)
          (by omega)
        refine hrest.trans ?_
        rw [hbackup, length_expireBackup_snd, expireBackup_fst, hs, ← expireSeq_append]
        show _ = (_, Except.ok (n.1 + (expireLabels (b :: l) b.backupLabel ++ _).length, _))
        rw [length_append, length_cons, Nat.add_assoc, Nat.add_assoc, Nat.add_comm 1]
        rfl

section

variable (h : DependencyClosed s.infoBackup.backup) (hl : LabelsValid s.infoBackup.backup)
include h hl

/-- Time based expiration does not fail, and of the options it sets the
archive retention only. -/
theorem expireTimeBasedBackup_eq (minTimestamp : ℤ) :
    ∃ option n, expireTimeBasedBackup s minTimestamp
        = ({ expireSeq s (removalSeq s.infoBackup.backup
              (timeVictims minTimestamp s.infoBackup.backup)) with option := option }, .ok n) ∧
      option.dryRun = s.option.dryRun ∧ option.retentionDiff = s.option.retentionDiff := by
  unfold expireTimeBasedBackup timeVictims
  dsimp only
  rw [retentionMet_timeRetention h]
  cases hr : timeRetention minTimestamp s.infoBackup.backup with
  | none => exact ⟨s.option, 0, rfl, rfl, rfl⟩
  | some r =>
    obtain ⟨hrl, hfull⟩ := mem_timeRetention hr
    simp only [Option.map_some, expireUntil_eq s.infoBackup.backup.length (0, 0) h hrl
      (hl.full r hrl hfull) (le_refl _)]
    refine ⟨_, _, rfl, ?_, ?_⟩
    · unfold archiveRetentionSet
      split
      · rw [expireSeq_option]
      · rw [expireSeq_option]
    · unfold archiveRetentionSet
      split
      · rw [expireSeq_option]
      · rw [expireSeq_option]

theorem expireFullOrTime_eq (time : ℤ) :
    ∃ option n, expireFullOrTime s time
        = ({ expireSeq s (removalSeq s.infoBackup.backup
              (firstVictims s.option time s.infoBackup.backup)) with option := option }, .ok n) ∧
      option.dryRun = s.option.dryRun ∧ option.retentionDiff = s.option.retentionDiff := by
  unfold expireFullOrTime firstVictims
  cases htime : s.option.retentionFullTime with
  | true =>
    simp only [if_true]
    cases hret : s.option.retentionFull with
    | none => exact ⟨s.option, 0, rfl, rfl, rfl⟩
    | some days => exact expireTimeBasedBackup_eq h hl _
  | false =>
    simp only [Bool.false_eq_true, if_false]
    refine ⟨(expireFullBackup s).1.option, (expireFullBackup s).2, ?_, ?_, ?_⟩
    · rw [expireFullBackup_eq h]
    · rw [expireFullBackup_eq h, expireSeq_option]
    · rw [expireFullBackup_eq h, expireSeq_option]

end

end Phases

/-! ## Retention -/

/-- The labels that a run by retention removes, in order. -/
def retentionSeq (option : RepoOption) (time : ℤ) (l : List InfoBackupData) : List Str :=
  let first := removalSeq l (firstVictims option time l)
  first ++ removalSeq (without l first)
    (diffVictims (option.retentionDiff.getD 0) (without l first))

/-- The outcome of picking and expiring backups: the labels are expired, and
besides that at most the link to the latest backup is made. -/
structure ExpireOutcome (s s' : ExpireState) (labels : List Str) : Prop where
  infoBackup : s'.infoBackup = (expireSeq s labels).infoBackup
  storageOps : ∃ link : List Str, s'.storageOps
    = (expireSeq s labels).storageOps ++ link.map StorageOp.linkLatest

section Retention

variable {s : ExpireState} {l : List InfoBackupData} {option : RepoOption} {time : ℤ}

theorem expireMode_retention (h : DependencyClosed s.infoBackup.backup)
    (hl : LabelsValid s.infoBackup.backup) (time : ℤ) :
    ∃ s' n, expireMode s time (.retention false) = (s', .ok n) ∧
      ExpireOutcome s s' (retentionSeq s.option time s.infoBackup.backup) := by
  obtain ⟨option, n, heq, hdry, hdiff⟩ := expireFullOrTime_eq h hl time
  unfold expireMode
  simp only [Bool.false_eq_true, if_false, heq]
  refine ⟨_, _, rfl, ?_⟩
  have hfirst : ClosedSet s.infoBackup.backup (removalSeq s.infoBackup.backup
      (firstVictims s.option time s.infoBackup.backup)) := (removable_removalSeq h _).closedSet
  have hbackup := expireSeq_backup h (removalSeq s.infoBackup.backup
    (firstVictims s.option time s.infoBackup.backup))
  rw [expireDiffBackup_eq (by rw [hbackup]; exact closed_without h hfirst)]
  rw [hbackup, hdiff]
  have hfields : ∀ (t : ExpireState) (o : RepoOption) (labels : List Str),
      o.dryRun = t.option.dryRun →
      (expireSeq { t with option := o } labels).infoBackup = (expireSeq t labels).infoBackup ∧
        (expireSeq { t with option := o } labels).storageOps
          = (expireSeq t labels).storageOps := by
    intro t o labels ho
    induction labels generalizing t with
    | nil => exact ⟨rfl, rfl⟩
    | cons label labels ih =>
      have := ih (expireOne t label) ho
      simp only [expireSeq, foldl_cons] at this ⊢
      have hone : expireOne { t with option := o } label
          = { expireOne t label with option := o } := by
        simp [expireOne, ho]
      rw [hone]
      exact this
  have hall := hfields (expireSeq s (removalSeq s.infoBackup.backup
    (firstVictims s.option time s.infoBackup.backup))) option
    (removalSeq (without s.infoBackup.backup (removalSeq s.infoBackup.backup
      (firstVictims s.option time s.infoBackup.backup)))
      (diffVictims (s.option.retentionDiff.getD 0) (without s.infoBackup.backup
        (removalSeq s.infoBackup.backup
          (firstVictims s.option time s.infoBackup.backup)))))
    (by rw [expireSeq_option, hdry])
  refine ⟨?_, [], ?_⟩
  · rw [hall.1, ← expireSeq_append]
    rfl
  · rw [hall.2, ← expireSeq_append]
    simp only [map_nil, append_nil]
    rfl

theorem removable_retentionSeq (h : DependencyClosed l) :
    Removable l (retentionSeq option time l) := by
  have hfirst := removable_removalSeq h (firstVictims option time l)
  exact hfirst.append (removable_removalSeq (closed_without h hfirst.closedSet) _)

/-- Every label that a victim list of the first phase holds is listed. -/
theorem mem_of_mem_firstVictims {v : Str} (hv : v ∈ firstVictims option time l) :
    v ∈ l.map InfoBackupData.backupLabel := by
  unfold firstVictims at hv
  split at hv
  · split at hv
    · unfold timeVictims at hv
      split at hv
      · cases hv
      · obtain ⟨-, b, hb, rfl, -⟩ := mem_rootsBefore.mp hv
        exact mem_map_of_mem hb
    · cases hv
  · unfold fullVictims at hv
    split at hv
    · obtain ⟨b, hb, rfl, -⟩ := mem_labelList.mp (mem_of_mem_take hv)
      exact mem_map_of_mem hb
    · cases hv

theorem mem_diffVictims {v : Str} {n : ℕ} (hv : v ∈ diffVictims n l) :
    v ∈ labelList l fullDiffRegExp ∧ backupRegExp fullRegExp v = false := by
  unfold diffVictims at hv
  split at hv
  · obtain ⟨hmem, hfull⟩ := mem_filter.mp hv
    exact ⟨mem_of_mem_take hmem, by simpa using hfull⟩
  · cases hv

/-- A full backup that the sequence removes is a victim of the first phase. -/
theorem full_of_mem_retentionSeq (h : DependencyClosed l) (hl : LabelsValid l)
    {b : InfoBackupData} (hb : b ∈ l) (hfull : backupRegExp fullRegExp b.backupLabel = true)
    (hmem : b.backupLabel ∈ retentionSeq option time l) :
    b.backupLabel ∈ firstVictims option time l := by
  have hfirst := (removable_removalSeq h (firstVictims option time l)).closedSet
  cases mem_append.mp hmem with
  | inl hmem =>
    rw [mem_removalSeq h _ (mem_map_of_mem hb)] at hmem
    obtain ⟨v, hv, hdep⟩ := hmem
    rw [eq_of_mem_dependents_full h hl hb hfull hdep]
    exact hv
  | inr hmem =>
    by_cases hin : b.backupLabel ∈ removalSeq l (firstVictims option time l)
    · rw [mem_removalSeq h _ (mem_map_of_mem hb)] at hin
      obtain ⟨v, hv, hdep⟩ := hin
      rw [eq_of_mem_dependents_full h hl hb hfull hdep]
      exact hv
    · have hb' := mem_without.mpr ⟨hb, hin⟩
      have hc' := closed_without h hfirst
      rw [mem_removalSeq hc' _ (mem_map_of_mem hb')] at hmem
      obtain ⟨v, hv, hdep⟩ := hmem
      have hvb := eq_of_mem_dependents_full hc'
        (hl.subset (fun c hc => (mem_without.mp hc).1)) hb' hfull hdep
      have hvfull := (mem_diffVictims hv).2
      rw [← hvb, hfull] at hvfull
      cases hvfull

/-- A full or differential backup that the second part of the sequence
removes is a victim of the second phase. -/
theorem diff_of_mem_retentionSeq (h : DependencyClosed l) (hl : LabelsValid l)
    {b : InfoBackupData}
    (hb : b ∈ without l (removalSeq l (firstVictims option time l)))
    (hdiff : backupRegExp fullDiffRegExp b.backupLabel = true)
    (hmem : b.backupLabel ∈ retentionSeq option time l) :
    b.backupLabel ∈ diffVictims (option.retentionDiff.getD 0)
      (without l (removalSeq l (firstVictims option time l))) := by
  have hc := closed_without h (removable_removalSeq h (firstVictims option time l)).closedSet
  cases mem_append.mp hmem with
  | inl hmem => exact absurd hmem (mem_without.mp hb).2
  | inr hmem =>
    rw [mem_removalSeq hc _ (mem_map_of_mem hb)] at hmem
    obtain ⟨v, hv, hdep⟩ := hmem
    rw [eq_of_mem_dependents_diff hc (hl.subset (fun c hc => (mem_without.mp hc).1)) hb hdiff
      (mem_diffVictims hv).2 hdep]
    exact hv

theorem without_of_subset {set set' : List Str} (hsub : ∀ x ∈ set', x ∈ set) :
    without (without l set) set' = without l set := by
  rw [without_without]
  refine without_congr (fun b _ => ?_)
  rw [mem_append]
  exact ⟨fun h => h.elim id (hsub _), Or.inl⟩

/-- **A run by retention that starts where an earlier one was cut short
leaves the same list.** -/
theorem without_retentionSeq_take (h : DependencyClosed l) (hl : LabelsValid l) (j : ℕ) :
    without (without l ((retentionSeq option time l).take j))
        (retentionSeq option time (without l ((retentionSeq option time l).take j)))
      = without l (retentionSeq option time l) := by
  generalize hset : (retentionSeq option time l).take j = set
  have hsub : ∀ x ∈ set, x ∈ retentionSeq option time l :=
    fun x hx => mem_of_mem_take (hset ▸ hx)
  have hclosed : ClosedSet l set := hset ▸ removable_retentionSeq h j
  -- the first phase picks the victims that are left
  have hfirst : without (without l set)
        (removalSeq (without l set) (firstVictims option time (without l set)))
      = without (without l (removalSeq l (firstVictims option time l))) set :=
    without_removalSeq_without h hclosed (firstVictims_stable h
      (fun b hb hfull hmem => full_of_mem_retentionSeq h hl hb hfull (hsub _ hmem)))
  -- and so does the second, on what the first leaves
  have hc := closed_without h (removable_removalSeq h (firstVictims option time l)).closedSet
  have hsecond := without_removalSeq_without hc
    (hclosed.subset (fun b hb => (mem_without.mp hb).1))
    (diffVictims_stable hc (fun b hb hdiff hmem =>
      diff_of_mem_retentionSeq h hl hb hdiff (hsub _ hmem)))
  calc without (without l set) (retentionSeq option time (without l set))
      = without (without (without l set)
          (removalSeq (without l set) (firstVictims option time (without l set))))
          (removalSeq (without (without l set)
            (removalSeq (without l set) (firstVictims option time (without l set))))
            (diffVictims (option.retentionDiff.getD 0) (without (without l set)
              (removalSeq (without l set) (firstVictims option time (without l set)))))) := by
        exact without_without.symm
    _ = without (without (without l (removalSeq l (firstVictims option time l)))
          (removalSeq (without l (removalSeq l (firstVictims option time l)))
            (diffVictims (option.retentionDiff.getD 0)
              (without l (removalSeq l (firstVictims option time l)))))) set := by
        rw [hfirst, hsecond]
    _ = without (without l (retentionSeq option time l)) set := by
        exact congrArg (fun l => without l set) without_without
    _ = without l (retentionSeq option time l) := without_of_subset hsub

end Retention

/-! ## Adhoc -/

/-- The labels that expiring one backup on request removes, in order. -/
def adhocSeq (label : Str) (l : List InfoBackupData) : List Str :=
  if label ∈ l.map InfoBackupData.backupLabel then expireLabels l label else []

section Adhoc

variable {s : ExpireState} {l : List InfoBackupData} {label : Str}

theorem removable_adhocSeq (h : DependencyClosed l) : Removable l (adhocSeq label l) := by
  unfold adhocSeq
  split
  · exact removable_expireLabels h
  · exact removable_removalSeq h []

/-- A successful check leaves a full backup other than the one to expire. -/
theorem exists_full_of_check (h : DependencyClosed s.infoBackup.backup)
    (hcheck : expireAdhocCheck s.infoBackup label = .ok ()) :
    ∃ b ∈ s.infoBackup.backup, backupRegExp fullRegExp b.backupLabel = true ∧
      b.backupLabel ≠ label := by
  have hmem : ∀ x ∈ strLstSort (infoBackupDataLabelList s.infoBackup (some fullRegExp)) .desc,
      ∃ b ∈ s.infoBackup.backup, b.backupLabel = x ∧ backupRegExp fullRegExp x = true :=
    fun x hx => mem_labelList.mp (mem_strLstSort.mp hx)
  have hnodup : (strLstSort (infoBackupDataLabelList s.infoBackup (some fullRegExp)) .desc).Nodup :=
    (perm_insertionSort _ _).nodup_iff.mpr (nodup_labelList h _)
  unfold expireAdhocCheck at hcheck
  cases hlist : strLstSort (infoBackupDataLabelList s.infoBackup (some fullRegExp)) .desc with
  | nil =>
    rw [hlist] at hcheck
    simp [lstGet, bind, Except.bind] at hcheck
  | cons x rest =>
    rw [hlist] at hcheck hmem hnodup
    by_cases hx : x = label
    · cases rest with
      | nil =>
        simp [lstGet, bind, Except.bind, hx, throw, throwThe, MonadExceptOf.throw] at hcheck
      | cons y rest =>
        obtain ⟨b, hb, hby, hre⟩ := hmem y (by simp)
        refine ⟨b, hb, hby ▸ hre, ?_⟩
        rw [hby, ← hx]
        intro hyx
        exact (nodup_cons.mp hnodup).1 (hyx ▸ mem_cons_self)
    · obtain ⟨b, hb, hbx, hre⟩ := hmem x mem_cons_self
      exact ⟨b, hb, hbx ▸ hre, hbx ▸ hx⟩

theorem infoBackupDataLast_ok {info : InfoBackup} (hne : info.backup ≠ []) :
    ∃ b, infoBackupDataLast info = .ok b := by
  unfold infoBackupDataLast lstGet
  have hpos : 0 < info.backup.length := length_pos_of_ne_nil hne
  rw [if_neg (by omega), getElem?_eq_getElem (by omega)]
  exact ⟨_, rfl⟩

/-- Expiring on request fails before any change or expires the backup with
its dependents. -/
theorem expireMode_adhoc (h : DependencyClosed s.infoBackup.backup)
    (hl : LabelsValid s.infoBackup.backup) (time : ℤ) (label : Str) :
    (∃ e, expireMode s time (.adhoc label) = (s, .error e) ∧
        infoBackupLabelExists s.infoBackup label = true ∧
        expireAdhocCheck s.infoBackup label = .error e) ∨
      ((infoBackupLabelExists s.infoBackup label = true →
          expireAdhocCheck s.infoBackup label = .ok ()) ∧
        ∃ s' n, expireMode s time (.adhoc label) = (s', .ok n) ∧
          ExpireOutcome s s' (adhocSeq label s.infoBackup.backup)) := by
  unfold expireMode adhocSeq
  dsimp only
  cases hex : infoBackupLabelExists s.infoBackup label with
  | false =>
    have hnot : label ∉ s.infoBackup.backup.map InfoBackupData.backupLabel := fun hmem => by
      rw [infoBackupLabelExists_iff.mpr hmem] at hex
      cases hex
    rw [if_neg (by simp), if_neg hnot]
    exact Or.inr ⟨by simp, s, 0, rfl, rfl, [], by simp [expireSeq]⟩
  | true =>
    rw [if_pos rfl, if_pos (infoBackupLabelExists_iff.mp hex)]
    unfold expireAdhocBackup
    cases hcheck : expireAdhocCheck s.infoBackup label with
    | error e => exact Or.inl ⟨e, rfl, rfl, rfl⟩
    | ok u =>
      obtain ⟨b, hb, hfull, hne⟩ := exists_full_of_check h hcheck
      obtain ⟨latest, hlatest⟩ := infoBackupDataLast_ok (ne_nil_of_mem hb)
      rw [hlatest]
      refine Or.inr ⟨fun _ => rfl, ?_⟩
      dsimp only
      split
      · exact ⟨_, _, rfl, rfl, [], by simp [expireBackup_fst]⟩
      · have hb' : b ∈ (expireBackup s label).1.infoBackup.backup := by
          rw [expireBackup_fst, expireSeq_backup h]
          refine mem_without.mpr ⟨hb, fun hdep => hne ?_⟩
          exact eq_of_mem_dependents_full h hl hb hfull (mem_expireLabels.mp hdep)
        obtain ⟨last, hlast⟩ := infoBackupDataLast_ok (ne_nil_of_mem hb')
        rw [hlast]
        exact ⟨_, _, rfl, rfl, [last.backupLabel], rfl⟩

theorem full_of_mem_adhocSeq (h : DependencyClosed l) (hl : LabelsValid l)
    {b : InfoBackupData} (hb : b ∈ l) (hfull : backupRegExp fullRegExp b.backupLabel = true)
    (hmem : b.backupLabel ∈ adhocSeq label l) : b.backupLabel = label := by
  unfold adhocSeq at hmem
  split at hmem
  · exact eq_of_mem_dependents_full h hl hb hfull (mem_expireLabels.mp hmem)
  · cases hmem

/-- **Expiring on request where an earlier run was cut short leaves the
same list.** -/
theorem without_adhocSeq_take (h : DependencyClosed l) (j : ℕ) :
    without (without l ((adhocSeq label l).take j))
        (adhocSeq label (without l ((adhocSeq label l).take j)))
      = without l (adhocSeq label l) := by
  generalize hset : (adhocSeq label l).take j = set
  have hsub : ∀ x ∈ set, x ∈ adhocSeq label l := fun x hx => mem_of_mem_take (hset ▸ hx)
  have hclosed : ClosedSet l set := hset ▸ removable_adhocSeq h j
  by_cases hmem : label ∈ l.map InfoBackupData.backupLabel
  · have hseq : adhocSeq label l = expireLabels l label := if_pos hmem
    have hone : ∀ l', without l' (removalSeq l' [label]) = without l' (expireLabels l' label) := by
      intro l'
      show without l' (expireLabels l' label ++ []) = _
      rw [append_nil]
    by_cases hin : label ∈ set
    · -- the label itself is gone, and with it all its dependents
      have hgone : label ∉ (without l set).map InfoBackupData.backupLabel := by
        intro hl'
        obtain ⟨b, hb, hbl⟩ := mem_map.mp hl'
        exact (mem_without.mp hb).2 (hbl ▸ hin)
      have hnil : adhocSeq label (without l set) = [] := if_neg hgone
      rw [hnil, without_nil]
      refine without_congr (fun b _ => ⟨hsub _, fun hb => ?_⟩)
      rw [hseq, mem_expireLabels, mem_dependents h] at hb
      exact hclosed.mem_of_reachable h hin hb
    · have hleft : label ∈ (without l set).map InfoBackupData.backupLabel := by
        obtain ⟨b, hb, rfl⟩ := mem_map.mp hmem
        exact mem_map_of_mem (mem_without.mpr ⟨hb, hin⟩)
      have hseq' : adhocSeq label (without l set) = expireLabels (without l set) label :=
        if_pos hleft
      have hleft' : ∀ v, v ∈ [label] ↔ v ∈ [label] ∧ v ∉ set := by
        intro v
        rw [mem_singleton]
        exact ⟨fun hv => ⟨hv, hv ▸ hin⟩, And.left⟩
      rw [hseq', ← hone, without_removalSeq_without h hclosed hleft', hone, ← hseq]
      exact without_of_subset hsub
  · have hseq : adhocSeq label l = [] := if_neg hmem
    have hnil : set = [] := by
      rw [← hset, hseq, take_nil]
    rw [hnil, without_nil, hseq, without_nil]

/-- The check does not change as long as the full backups are there. -/
theorem expireAdhocCheck_without {info info' : InfoBackup} {set : List Str}
    (hinfo : info'.backup = without info.backup set)
    (hfull : ∀ b ∈ info.backup, backupRegExp fullRegExp b.backupLabel = true →
      b.backupLabel ∉ set) :
    expireAdhocCheck info' label = expireAdhocCheck info label := by
  have hlist : infoBackupDataLabelList info' (some fullRegExp)
      = infoBackupDataLabelList info (some fullRegExp) := by
    show labelList info'.backup fullRegExp = labelList info.backup fullRegExp
    rw [hinfo, labelList_without]
    refine filter_eq_self.mpr (fun x hx => decide_eq_true ?_)
    obtain ⟨b, hb, rfl, hre⟩ := mem_labelList.mp hx
    exact hfull b hb hre
  have hget : ∀ x ∈ infoBackupDataLabelList info (some fullRegExp),
      infoBackupDataByLabel info' x = infoBackupDataByLabel info x := by
    intro x hx
    obtain ⟨b, hb, rfl, hre⟩ := mem_labelList.mp hx
    have hnot := hfull b hb hre
    have hfind : (without info.backup set).find? (fun c => c.backupLabel == b.backupLabel)
        = info.backup.find? (fun c => c.backupLabel == b.backupLabel) := by
      unfold without
      rw [find?_filter]
      congr 1
      funext c
      by_cases hc : c.backupLabel = b.backupLabel
      · simp [hc, hnot]
      · simp [hc]
    unfold infoBackupDataByLabel
    rw [hinfo, hfind]
  unfold expireAdhocCheck
  rw [hlist]
  have hmem : ∀ x ∈ strLstSort (infoBackupDataLabelList info (some fullRegExp)) .desc,
      infoBackupDataByLabel info' x = infoBackupDataByLabel info x :=
    fun x hx => hget x (mem_strLstSort.mp hx)
  generalize strLstSort (infoBackupDataLabelList info (some fullRegExp)) .desc = fullList at hmem ⊢
  cases fullList with
  | nil => rfl
  | cons x rest =>
    simp only [lstGet, getElem?_cons_zero, bind, Except.bind]
    split
    · rename_i hx
      cases rest with
      | nil => rfl
      | cons y rest =>
        rw [← hx, hmem x mem_cons_self]
        simp only [getElem?_cons_succ, getElem?_cons_zero]
        rw [hmem y (mem_cons_of_mem _ mem_cons_self)]
    · rfl

end Adhoc

end PgxBackup
