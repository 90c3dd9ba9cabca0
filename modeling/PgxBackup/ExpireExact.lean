import PgxBackup.ExpirePhases

/-!
# Retention is exact

Every way of expiring by retention picks victims from a list of labels taken
beforehand and expires them with their dependents. As long as no victim
depends on another, the labels removed are distinct (`nodup_removalSeq`), so
that the number of removed backups is counted right, and what is left is
what builds on no victim (`expireSeq_exact`). It then remains to see who
builds on a victim: by count, the backups of the oldest full backups; by
age, the backups that sort before the newest full backup that is old enough.
-/

namespace PgxBackup

open List DepClosure

/-- `y` is `x` or was made on top of it. -/
abbrev BuildsOn (l : List InfoBackupData) (x y : Str) : Prop :=
  Relation.ReflTransGen (Edge InfoBackupData.backupLabel InfoBackupData.backupPrior l) x y

/-- The last `n` labels of a list from oldest to newest. -/
def newest (n : ℕ) (labels : List Str) : List Str := labels.drop (labels.length - n)

/-- **Labels as the backup command makes them**, where a backup without a
prior is a full one. -/
structure LabelsRooted (l : List InfoBackupData) : Prop extends LabelsValid l where
  root : ∀ b ∈ l, b.backupPrior = none → backupRegExp fullRegExp b.backupLabel = true

/-- The backups that are kept, and how many are not. -/
structure ExpiresExactly (s s' : ExpireState) (result : ℕ) (keep : InfoBackupData → Prop) :
    Prop where
  sublist : s'.infoBackup.backup.Sublist s.infoBackup.backup
  /-- What is left of the list is what is kept. -/
  mem : ∀ b ∈ s.infoBackup.backup, b ∈ s'.infoBackup.backup ↔ keep b
  /-- The result is the number of backups that are gone. -/
  total : result + s'.infoBackup.backup.length = s.infoBackup.backup.length

/-- **The newest full backup that stopped before the time.** -/
structure NewestFullBefore (l : List InfoBackupData) (minTimestamp : ℤ) (r : InfoBackupData) :
    Prop where
  mem : r ∈ l
  full : backupRegExp fullRegExp r.backupLabel = true
  stop : r.backupTimestampStop < minTimestamp
  newest : ∀ b ∈ l, backupRegExp fullRegExp b.backupLabel = true →
    b.backupTimestampStop < minTimestamp → b.backupLabel ≤ r.backupLabel

/-! ## Counting what is removed -/

section Count

variable {l : List InfoBackupData} {victims labels : List Str} {x : Str} {s : ExpireState}

theorem nodup_expireLabels (h : DependencyClosed l) : (expireLabels l x).Nodup := by
  refine (perm_insertionSort _ (dependents l x)).nodup_iff.mpr ?_
  refine nodup_collect (k := x) h.toOrdered (nodup_singleton x) ?_ ?_
  · intro z hz
    exact (mem_singleton.mp hz).ge
  · intro a _ z hz
    exact Or.inl (mem_singleton.mp hz)

theorem listed_of_mem_expireLabels (hx : x ∈ l.map InfoBackupData.backupLabel) {y : Str}
    (hy : y ∈ expireLabels l x) : y ∈ l.map InfoBackupData.backupLabel := by
  cases mem_of_mem_collect (mem_expireLabels.mp hy) with
  | inl hyx => exact mem_singleton.mp hyx ▸ hx
  | inr hmem => exact mem_map.mpr hmem

theorem nodup_labels (h : DependencyClosed l) : (l.map InfoBackupData.backupLabel).Nodup := by
  show (l.map InfoBackupData.backupLabel).Pairwise (· ≠ ·)
  rw [pairwise_map]
  exact h.sorted.imp (fun hlt => hlt.ne)

/-- Removing distinct labels of the list takes one backup for each. -/
theorem length_without (h : DependencyClosed l) (hnodup : labels.Nodup)
    (hlisted : ∀ y ∈ labels, y ∈ l.map InfoBackupData.backupLabel) :
    labels.length + (without l labels).length = l.length := by
  have hsplit := length_eq_length_filter_add
    (l := l) (fun b => decide (b.backupLabel ∈ labels))
  have hperm : ((l.map InfoBackupData.backupLabel).filter
      (fun y => decide (y ∈ labels))).Perm labels := by
    refine (perm_ext_iff_of_nodup ((nodup_labels h).filter _) hnodup).mpr (fun y => ?_)
    rw [mem_filter, decide_eq_true_iff]
    exact ⟨And.right, fun hy => ⟨hlisted y hy, hy⟩⟩
  have hlen : (l.filter (fun b => decide (b.backupLabel ∈ labels))).length = labels.length := by
    rw [← hperm.length_eq, filter_map, length_map]
    rfl
  have hrest : without l labels = l.filter (fun b => !decide (b.backupLabel ∈ labels)) :=
    filter_congr (fun b _ => by rw [decide_not])
  rw [hrest, hsplit, hlen]

/-- Victims that are in the list, none of them dependent on another. -/
structure Victims (l : List InfoBackupData) (victims : List Str) : Prop where
  nodup : victims.Nodup
  listed : ∀ v ∈ victims, v ∈ l.map InfoBackupData.backupLabel
  independent : ∀ u ∈ victims, ∀ v ∈ victims, v ∈ dependents l u → v = u

/-- Expiring the first victim leaves the others as they are. -/
theorem Victims.tail {v : Str} (h : DependencyClosed l) (hv : Victims l (v :: victims)) :
    Victims (without l (expireLabels l v)) victims := by
  have hset : ClosedSet l (expireLabels l v) := closedSet_expireLabels h
  have hout : ∀ u ∈ victims, u ∉ expireLabels l v := by
    intro u hu hdep
    have huv := hv.independent v mem_cons_self u (mem_cons_of_mem _ hu)
      (mem_expireLabels.mp hdep)
    exact (nodup_cons.mp hv.nodup).1 (huv ▸ hu)
  refine ⟨hv.nodup.of_cons, fun u hu => ?_, fun u hu w hw hdep => ?_⟩
  · obtain ⟨b, hb, rfl⟩ := mem_map.mp (hv.listed u (mem_cons_of_mem _ hu))
    exact mem_map_of_mem (mem_without.mpr ⟨hb, hout _ hu⟩)
  · refine hv.independent u (mem_cons_of_mem _ hu) w (mem_cons_of_mem _ hw) ?_
    exact (mem_dependents_without h hset (hv.listed w (mem_cons_of_mem _ hw))
      (hout w hw)).mp hdep

/-- **No label is removed twice.** -/
theorem nodup_removalSeq (h : DependencyClosed l) (hv : Victims l victims) :
    (removalSeq l victims).Nodup ∧
      ∀ y ∈ removalSeq l victims, y ∈ l.map InfoBackupData.backupLabel := by
  induction victims generalizing l with
  | nil => exact ⟨nodup_nil, fun y hy => absurd hy (by simp [removalSeq])⟩
  | cons v victims ih =>
    obtain ⟨hnodup, hlisted⟩ := ih (closed_without h (closedSet_expireLabels h)) (hv.tail h)
    refine ⟨nodup_append.mpr ⟨nodup_expireLabels h, hnodup, ?_⟩, fun y hy => ?_⟩
    · intro y hy z hz heq
      obtain ⟨b, hb, rfl⟩ := mem_map.mp (hlisted z hz)
      exact (mem_without.mp hb).2 (heq ▸ hy)
    · cases mem_append.mp hy with
      | inl hy => exact listed_of_mem_expireLabels (hv.listed v mem_cons_self) hy
      | inr hy =>
        obtain ⟨b, hb, rfl⟩ := mem_map.mp (hlisted y hy)
        exact mem_map_of_mem (mem_without.mp hb).1

/-- **What expiring victims leaves**: the backups that build on none. -/
theorem expireSeq_exact (h : DependencyClosed s.infoBackup.backup)
    (hv : Victims s.infoBackup.backup victims) :
    ExpiresExactly s (expireSeq s (removalSeq s.infoBackup.backup victims))
      (removalSeq s.infoBackup.backup victims).length
      (fun b => ¬ ∃ v ∈ victims, BuildsOn s.infoBackup.backup v b.backupLabel) := by
  obtain ⟨hnodup, hlisted⟩ := nodup_removalSeq h hv
  have hbackup := expireSeq_backup h (removalSeq s.infoBackup.backup victims)
  refine ⟨?_, fun b hb => ?_, ?_⟩
  · rw [hbackup]
    exact filter_sublist
  · rw [hbackup, mem_without, mem_removalSeq h victims (mem_map_of_mem hb)]
    simp only [hb, true_and, mem_dependents h]
  · rw [hbackup]
    exact length_without h hnodup hlisted

theorem ExpiresExactly.congr {s' : ExpireState} {n : ℕ} {keep keep' : InfoBackupData → Prop}
    (h : ExpiresExactly s s' n keep) (heq : ∀ b ∈ s.infoBackup.backup, keep b ↔ keep' b) :
    ExpiresExactly s s' n keep' :=
  ⟨h.sublist, fun b hb => (h.mem b hb).trans (heq b hb), h.total⟩

/-- The count of `expireBackupList` is the number of labels removed. -/
theorem expireBackupList_snd (h : DependencyClosed s.infoBackup.backup) (victims : List Str) :
    (expireBackupList s victims).2 = (removalSeq s.infoBackup.backup victims).length := by
  have hfold : ∀ n, (victims.foldl (fun (acc : ExpireState × ℕ) label =>
      ((expireBackup acc.1 label).1, acc.2 + (expireBackup acc.1 label).2.length)) (s, n)).2
        = n + (removalSeq s.infoBackup.backup victims).length := by
    induction victims generalizing s with
    | nil => intro n; rfl
    | cons v victims ih =>
      intro n
      have hbackup : (expireBackup s v).1.infoBackup.backup
          = without s.infoBackup.backup (expireLabels s.infoBackup.backup v) := by
        rw [expireBackup_fst, expireSeq_backup h]
      have hc : DependencyClosed (expireBackup s v).1.infoBackup.backup := by
        rw [hbackup]
        exact closed_without h (closedSet_expireLabels h)
      refine (ih hc (n + (expireBackup s v).2.length)).trans ?_
      rw [hbackup, length_expireBackup_snd]
      show _ = n + (expireLabels s.infoBackup.backup v ++ _).length
      rw [length_append, Nat.add_assoc]
  rw [← Nat.zero_add (removalSeq _ _).length]
  exact hfold 0

end Count

/-! ## Full backups and what builds on them -/

section Fulls

variable {l : List InfoBackupData} {b : InfoBackupData} {f g x : Str} {n : ℕ}

theorem length_of_full (hf : backupRegExp fullRegExp f = true) : f.length = 16 := by
  unfold backupRegExp at hf
  cases hm : (matchDateTime f).bind (matchChr 'F') with
  | none => simp [hm] at hf
  | some s =>
    obtain ⟨s', hs', hF⟩ := Option.bind_eq_some_iff.mp hm
    have hnil : s = [] := by
      rw [hm] at hf
      simpa [fullRegExp] using hf
    rw [length_of_matchDateTime hs', length_of_matchChr hF, hnil, length_nil]

theorem take_full (hf : backupRegExp fullRegExp f = true) : f.take 16 = f :=
  take_of_length_le (length_of_full hf).le

theorem full_eq_take (h : DependencyClosed l) (hl : LabelsRooted l)
    (hf : backupRegExp fullRegExp f = true) (hfx : BuildsOn l f x) : f = x.take 16 := by
  rw [take_eq_of_mem_dependents h hl.toLabelsValid ((mem_dependents h).mpr hfx), take_full hf]

theorem exists_full (h : DependencyClosed l) (hl : LabelsRooted l) (hb : b ∈ l) :
    ∃ f ∈ labelList l fullRegExp, BuildsOn l f b.backupLabel := by
  obtain ⟨r, hr, hnone, hrb⟩ := h.toClosed.exists_root hb
  exact ⟨r.backupLabel, mem_labelList.mpr ⟨r, hr, rfl, hl.root r hr hnone⟩, hrb⟩

theorem le_of_buildsOn (h : DependencyClosed l) (hxy : BuildsOn l f x) : f ≤ x := by
  cases Relation.reflTransGen_iff_eq_or_transGen.mp hxy with
  | inl heq => exact heq.ge
  | inr hanc => exact (h.toOrdered.lt_of_ancestor hanc).le

theorem notRetained_append_newest (labels : List Str) (n : ℕ) :
    notRetained labels n ++ newest n labels = labels :=
  take_append_drop _ _

theorem mem_notRetained {labels : List Str} (hnodup : labels.Nodup) :
    x ∈ notRetained labels n ↔ x ∈ labels ∧ x ∉ newest n labels := by
  have hsplit := notRetained_append_newest labels n
  have hdisjoint := (nodup_append.mp (hsplit ▸ hnodup)).2.2
  constructor
  · intro hx
    exact ⟨mem_of_mem_take hx, fun hx' => hdisjoint x hx x hx' rfl⟩
  · rintro ⟨hx, hnot⟩
    rw [← hsplit, mem_append] at hx
    exact hx.resolve_right hnot

end Fulls

/-! ## The victims of each way -/

section Victims

variable {l : List InfoBackupData} {r : InfoBackupData} {n : ℕ}

/-- Full backups depend on nothing but themselves. -/
theorem victims_notRetained_full (h : DependencyClosed l) (hl : LabelsRooted l) (n : ℕ) :
    Victims l (notRetained (labelList l fullRegExp) n) := by
  refine ⟨(nodup_labelList h _).sublist (take_sublist _ _), fun v hv => ?_,
    fun u _ v hv hdep => ?_⟩
  · obtain ⟨b, hb, rfl, -⟩ := mem_labelList.mp (mem_of_mem_take hv)
    exact mem_map_of_mem hb
  · obtain ⟨b, hb, rfl, hfull⟩ := mem_labelList.mp (mem_of_mem_take hv)
    exact eq_of_mem_dependents_full h hl.toLabelsValid hb hfull hdep

/-- Differential backups depend on full ones only. -/
theorem victims_notRetained_diff (h : DependencyClosed l) (hl : LabelsRooted l) (n : ℕ) :
    Victims l ((notRetained (labelList l fullDiffRegExp) n).filter
      (fun label => !backupRegExp fullRegExp label)) := by
  refine ⟨((nodup_labelList h _).sublist (take_sublist _ _)).filter _, fun v hv => ?_,
    fun u hu v hv hdep => ?_⟩
  · obtain ⟨b, hb, rfl, -⟩ := mem_labelList.mp (mem_of_mem_take (mem_filter.mp hv).1)
    exact mem_map_of_mem hb
  · obtain ⟨b, hb, rfl, hdiff⟩ :=
      mem_labelList.mp (mem_of_mem_take (mem_filter.mp hv).1)
    exact eq_of_mem_dependents_diff h hl.toLabelsValid hb hdiff
      (by simpa using (mem_filter.mp hu).2) hdep

/-- The full backups are those without a prior. -/
theorem rootsBefore_eq (hl : LabelsRooted l) (label : Str) :
    rootsBefore l label = (labelList l fullRegExp).filter (fun f => decide (f < label)) := by
  unfold rootsBefore labelList
  rw [filter_map, filter_map, filter_filter]
  refine congrArg _ (filter_congr (fun b hb => ?_))
  by_cases hnone : b.backupPrior = none
  · simp [hnone, hl.root b hb hnone]
  · have hfull : backupRegExp fullRegExp b.backupLabel = false := by
      by_contra hf
      exact hnone (hl.full b hb (by simpa using hf))
    simp [hnone, hfull]

section

variable (h : DependencyClosed l) (hl : LabelsRooted l)
include h hl

theorem victims_rootsBefore (label : Str) : Victims l (rootsBefore l label) := by
  rw [rootsBefore_eq hl]
  refine ⟨(nodup_labelList h _).filter _, fun v hv => ?_, fun u _ v hv hdep => ?_⟩
  · obtain ⟨b, hb, rfl, -⟩ := mem_labelList.mp (mem_filter.mp hv).1
    exact mem_map_of_mem hb
  · obtain ⟨b, hb, rfl, hfull⟩ := mem_labelList.mp (mem_filter.mp hv).1
    exact eq_of_mem_dependents_full h hl.toLabelsValid hb hfull hdep

/-- By count: who builds on none of the full backups that are not retained
builds on one that is. -/
theorem buildsOn_newest_iff {b : InfoBackupData} (hb : b ∈ l) :
    (¬ ∃ v ∈ notRetained (labelList l fullRegExp) n, BuildsOn l v b.backupLabel)
      ↔ ∃ f ∈ newest n (labelList l fullRegExp), BuildsOn l f b.backupLabel := by
  have hnodup := nodup_labelList h fullRegExp
  constructor
  · intro hnone
    obtain ⟨f, hf, hfb⟩ := exists_full h hl hb
    refine ⟨f, ?_, hfb⟩
    by_contra hnew
    exact hnone ⟨f, (mem_notRetained hnodup).mpr ⟨hf, hnew⟩, hfb⟩
  · rintro ⟨f, hf, hfb⟩ ⟨v, hv, hvb⟩
    obtain ⟨hvl, hvnew⟩ := (mem_notRetained hnodup).mp hv
    obtain ⟨c, -, rfl, hvfull⟩ := mem_labelList.mp hvl
    obtain ⟨d, -, rfl, hffull⟩ := mem_labelList.mp (mem_of_mem_drop hf)
    rw [full_eq_take h hl hvfull hvb, ← full_eq_take h hl hffull hfb] at hvnew
    exact hvnew hf

/-- By age: who builds on no full backup before the retained one does not
sort before it. -/
theorem buildsOn_before_iff (hr : backupRegExp fullRegExp r.backupLabel = true) {b : InfoBackupData}
    (hb : b ∈ l) :
    (¬ ∃ v ∈ rootsBefore l r.backupLabel, BuildsOn l v b.backupLabel)
      ↔ r.backupLabel ≤ b.backupLabel := by
  rw [rootsBefore_eq hl]
  constructor
  · intro hnone
    by_contra hlt
    obtain ⟨f, hf, hfb⟩ := exists_full h hl hb
    have hfr : f < r.backupLabel := (le_of_buildsOn h hfb).trans_lt (not_le.mp hlt)
    exact hnone ⟨f, mem_filter.mpr ⟨hf, decide_eq_true hfr⟩, hfb⟩
  · rintro hle ⟨v, hv, hvb⟩
    obtain ⟨hvl, hvr⟩ := mem_filter.mp hv
    obtain ⟨c, -, rfl, hvfull⟩ := mem_labelList.mp hvl
    -- labels of full backups have one length, so the prefix decides
    have htake := take_le_take 16 hle
    rw [take_full hr, ← full_eq_take h hl hvfull hvb] at htake
    exact absurd (of_decide_eq_true hvr) (not_lt.mpr htake)

end

/-- The loop from newest to oldest stops at the newest. -/
theorem timeRetention_of_newest (h : DependencyClosed l) {minTimestamp : ℤ}
    (hr : NewestFullBefore l minTimestamp r) : timeRetention minTimestamp l = some r := by
  have hrmem : r ∈ (l.filter (fun b => backupRegExp fullRegExp b.backupLabel)).reverse := by
    rw [mem_reverse, mem_filter]
    exact ⟨hr.mem, hr.full⟩
  cases hfind : timeRetention minTimestamp l with
  | none =>
    have := find?_eq_none.mp hfind r hrmem
    exact absurd hr.stop (by simpa using this)
  | some r' =>
    obtain ⟨hstop, before, after, heq, hbefore⟩ := find?_eq_some_iff_append.mp hfind
    obtain ⟨hr'l, hr'full⟩ := mem_timeRetention hfind
    have hle := hr.newest r' hr'l hr'full (of_decide_eq_true hstop)
    rw [heq] at hrmem
    have hsorted : (before ++ r' :: after).Pairwise
        (fun a b => b.backupLabel < a.backupLabel) := by
      rw [← heq, pairwise_reverse]
      exact h.sorted.filter _
    cases mem_append.mp hrmem with
    | inl hin =>
      have := hbefore r hin
      exact absurd hr.stop (by simpa using this)
    | inr hin =>
      cases mem_cons.mp hin with
      | inl hrr => rw [hrr]
      | inr hin =>
        have hlt := rel_of_pairwise_cons (pairwise_append.mp hsorted).2.1 hin
        exact absurd hle (not_le.mpr hlt)

theorem timeRetention_eq_none {minTimestamp : ℤ}
    (hnone : ∀ b ∈ l, backupRegExp fullRegExp b.backupLabel = true →
      ¬ b.backupTimestampStop < minTimestamp) : timeRetention minTimestamp l = none := by
  refine find?_eq_none.mpr (fun b hb => ?_)
  obtain ⟨hbl, hfull⟩ := mem_filter.mp (mem_reverse.mp hb)
  simpa using hnone b hbl hfull

end Victims

/-! ## The functions -/

section Functions

variable {s : ExpireState} {n : ℕ}

section

variable (h : DependencyClosed s.infoBackup.backup) (hl : LabelsRooted s.infoBackup.backup)
include h hl

theorem expireFullBackup_exact (hret : s.option.retentionFull = some n) (hn : 0 < n) :
    ExpiresExactly s (expireFullBackup s).1 (expireFullBackup s).2 (fun b =>
      ∃ f ∈ newest n (labelList s.infoBackup.backup fullRegExp),
        BuildsOn s.infoBackup.backup f b.backupLabel) := by
  have hrun : expireFullBackup s
      = expireBackupList s (notRetained (labelList s.infoBackup.backup fullRegExp) n) := by
    unfold expireFullBackup
    rw [hret]
    exact if_pos hn
  rw [hrun, expireBackupList_fst, expireAll_eq h, expireBackupList_snd h]
  exact (expireSeq_exact h (victims_notRetained_full h hl n)).congr
    (fun b hb => buildsOn_newest_iff h hl hb)

theorem expireDiffBackup_exact (hret : s.option.retentionDiff = some n) (hn : 0 < n) :
    ExpiresExactly s (expireDiffBackup s).1 (expireDiffBackup s).2 (fun b =>
      ¬ ∃ d ∈ labelList s.infoBackup.backup fullDiffRegExp,
        d ∉ newest n (labelList s.infoBackup.backup fullDiffRegExp) ∧
          backupRegExp fullRegExp d = false ∧
          BuildsOn s.infoBackup.backup d b.backupLabel) := by
  have hrun : expireDiffBackup s
      = expireBackupList s ((notRetained (labelList s.infoBackup.backup fullDiffRegExp) n).filter
          (fun label => !backupRegExp fullRegExp label)) := by
    unfold expireDiffBackup
    rw [hret]
    exact if_pos hn
  rw [hrun, expireBackupList_fst, expireAll_eq h, expireBackupList_snd h]
  refine (expireSeq_exact h (victims_notRetained_diff h hl n)).congr (fun b hb => ?_)
  refine not_congr (exists_congr (fun d => ?_))
  rw [mem_filter, mem_notRetained (nodup_labelList h fullDiffRegExp), Bool.not_eq_true']
  exact ⟨fun ⟨⟨⟨hd, hnew⟩, hfull⟩, hdb⟩ => ⟨hd, hnew, hfull, hdb⟩,
    fun ⟨hd, hnew, hfull, hdb⟩ => ⟨⟨⟨hd, hnew⟩, hfull⟩, hdb⟩⟩

/-- The full backups before the retained one are those that are not left. -/
theorem length_rootsBefore_add {s' : ExpireState} {label : Str}
    (hexact : ExpiresExactly s s' n (fun b => label ≤ b.backupLabel)) :
    (rootsBefore s.infoBackup.backup label).length
        + (labelList s'.infoBackup.backup fullRegExp).length
      = (labelList s.infoBackup.backup fullRegExp).length := by
  have hnodup := nodup_labelList h fullRegExp
  have hleft : (labelList s'.infoBackup.backup fullRegExp).Perm
      ((labelList s.infoBackup.backup fullRegExp).filter (fun f => !decide (f < label))) := by
    have hsub : (labelList s'.infoBackup.backup fullRegExp).Sublist
        (labelList s.infoBackup.backup fullRegExp) :=
      (hexact.sublist.map InfoBackupData.backupLabel).filter _
    refine (perm_ext_iff_of_nodup (hnodup.sublist hsub) (hnodup.filter _)).mpr
      (fun f => ?_)
    rw [mem_filter, mem_labelList, mem_labelList]
    constructor
    · rintro ⟨b, hb, rfl, hfull⟩
      have hbl := hexact.sublist.mem hb
      exact ⟨⟨b, hbl, rfl, hfull⟩, by simpa using (hexact.mem b hbl).mp hb⟩
    · rintro ⟨⟨b, hb, rfl, hfull⟩, hle⟩
      exact ⟨b, (hexact.mem b hb).mpr (by simpa using hle), rfl, hfull⟩
  rw [rootsBefore_eq hl, hleft.length_eq]
  exact (length_eq_length_filter_add _).symm

/-- By age, when a full backup is old enough. -/
theorem expireTimeBasedBackup_exact (hsize : s.infoBackup.backup.length < 2 ^ 32) {minTimestamp : ℤ}
    {r : InfoBackupData} (hr : NewestFullBefore s.infoBackup.backup minTimestamp r) :
    ∃ s' result, expireTimeBasedBackup s minTimestamp = (s', .ok result) ∧
      ExpiresExactly s s' result (fun b => r.backupLabel ≤ b.backupLabel) ∧
      s'.option =
        if s.option.retentionArchiveType = .full ∧ s.option.retentionArchive = none then
          { s.option with
            retentionArchive := some (labelList s'.infoBackup.backup fullRegExp).length }
        else s.option := by
  have hexact : ExpiresExactly s
      (expireSeq s (removalSeq s.infoBackup.backup
        (rootsBefore s.infoBackup.backup r.backupLabel)))
      (removalSeq s.infoBackup.backup (rootsBefore s.infoBackup.backup r.backupLabel)).length
      (fun b => r.backupLabel ≤ b.backupLabel) :=
    (expireSeq_exact h (victims_rootsBefore h hl r.backupLabel)).congr
      (fun b hb => buildsOn_before_iff h hl hr.full hb)
  have hcount := length_rootsBefore_add h hl hexact
  -- the list of full backups that the number is taken from
  have hlist : (strLstSort (infoBackupDataLabelList s.infoBackup (some fullRegExp)) .asc).length
      = (labelList s.infoBackup.backup fullRegExp).length := length_strLstSort _ _
  have hle : (labelList s.infoBackup.backup fullRegExp).length ≤ s.infoBackup.backup.length := by
    refine (length_filter_le _ _).trans ?_
    rw [length_map]
  unfold expireTimeBasedBackup
  dsimp only
  rw [retentionMet_timeRetention h, timeRetention_of_newest h hr]
  simp only [Option.map_some, expireUntil_eq s.infoBackup.backup.length (0, 0) h hr.mem
    (hl.full r hr.mem hr.full) (le_refl _)]
  refine ⟨_, _, rfl, ?_, ?_⟩
  · exact ⟨hexact.sublist, hexact.mem, (congrArg (· + _) (Nat.zero_add _)).trans hexact.total⟩
  · rw [expireSeq_option, hlist, Nat.zero_add]
    have hmod : ((labelList s.infoBackup.backup fullRegExp).length + 2 ^ 32
        - (rootsBefore s.infoBackup.backup r.backupLabel).length) % 2 ^ 32
        = (labelList (expireSeq s (removalSeq s.infoBackup.backup
            (rootsBefore s.infoBackup.backup r.backupLabel))).infoBackup.backup
              fullRegExp).length := by
      omega
    rw [hmod]
    rfl

end

end Functions

/-- **Retention is exact.** On a closed list of labelled backups, retaining
`n` full backups keeps the backups that build on one of the `n` newest;
retaining `n` differential backups removes those that are not among the `n`
newest full and differential backups, with what builds on them; and by age
nothing is removed when no full backup stopped before the time, else what
sorts before the newest such backup is. The loop ends, the archive retention
is set to the number of full backups left, and every function returns how
many backups it removed. Lists have less than 2^32 items. -/
theorem expire_retention_exact (s : ExpireState) (h : DependencyClosed s.infoBackup.backup)
    (hl : LabelsRooted s.infoBackup.backup) (hsize : s.infoBackup.backup.length < 2 ^ 32) :
    (∀ n, s.option.retentionFull = some n → 0 < n →
      ExpiresExactly s (expireFullBackup s).1 (expireFullBackup s).2 (fun b =>
        ∃ f ∈ newest n (labelList s.infoBackup.backup fullRegExp),
          BuildsOn s.infoBackup.backup f b.backupLabel)) ∧
    (∀ n, s.option.retentionDiff = some n → 0 < n →
      ExpiresExactly s (expireDiffBackup s).1 (expireDiffBackup s).2 (fun b =>
        ¬ ∃ d ∈ labelList s.infoBackup.backup fullDiffRegExp,
          d ∉ newest n (labelList s.infoBackup.backup fullDiffRegExp) ∧
            backupRegExp fullRegExp d = false ∧
            BuildsOn s.infoBackup.backup d b.backupLabel)) ∧
    ∀ minTimestamp : ℤ,
      ((∀ b ∈ s.infoBackup.backup, backupRegExp fullRegExp b.backupLabel = true →
          ¬ b.backupTimestampStop < minTimestamp) →
        expireTimeBasedBackup s minTimestamp = (s, .ok 0)) ∧
      ∀ r, NewestFullBefore s.infoBackup.backup minTimestamp r →
        (∀ fuel, s.infoBackup.backup.length ≤ fuel →
          ∃ s' count, expireUntil r.backupLabel fuel s (0, 0) = (s', .ok count)) ∧
        ∃ s' result, expireTimeBasedBackup s minTimestamp = (s', .ok result) ∧
          ExpiresExactly s s' result (fun b => r.backupLabel ≤ b.backupLabel) ∧
          s'.option =
            if s.option.retentionArchiveType = .full ∧ s.option.retentionArchive = none then
              { s.option with
                retentionArchive := some (labelList s'.infoBackup.backup fullRegExp).length }
            else s.option := by
  refine ⟨fun n hret hn => expireFullBackup_exact h hl hret hn,
    fun n hret hn => expireDiffBackup_exact h hl hret hn, fun minTimestamp => ⟨?_, ?_⟩⟩
  · intro hnone
    unfold expireTimeBasedBackup
    dsimp only
    rw [retentionMet_timeRetention h, timeRetention_eq_none hnone]
    rfl
  · intro r hr
    refine ⟨fun fuel hfuel => ?_, expireTimeBasedBackup_exact h hl hsize hr⟩
    exact ⟨_, _, expireUntil_eq fuel (0, 0) h hr.mem (hl.full r hr.mem hr.full) hfuel⟩

/-! ## Two full backups, each with a differential one -/

/-- Label of a differential backup on the first full. -/
def labelD1 : Str := "20260101-000000F_20260102-000000D".toList

/-- Two full backups with a differential backup each, in a repository that
retains one full and one differential backup. -/
def fullDiffTwice : ExpireState :=
  { fullFullDiff [labelF2] with
    infoBackup :=
      { (fullFullDiff [labelF2]).infoBackup with
        backup := [.plain labelF1 .full none none,
          .plain labelD1 .diff (some labelF1) (some [labelF1]),
          .plain labelF2 .full none none,
          .plain labelD2 .diff (some labelF2) (some [labelF2])] }
    option := { (fullFullDiff [labelF2]).option with retentionDiff := some 1 } }

theorem fullDiffTwice_closed : DependencyClosed fullDiffTwice.infoBackup.backup where
  sorted := by decide
  parent_lt := by
    show ∀ b ∈ fullDiffTwice.infoBackup.backup, ∀ p ∈ b.backupPrior, p < b.backupLabel
    decide
  parent_mem := by
    show ∀ b ∈ fullDiffTwice.infoBackup.backup, ∀ p ∈ b.backupPrior,
      ∃ c ∈ fullDiffTwice.infoBackup.backup, c.backupLabel = p
    decide
  reference_ancestor := by
    intro b hb r hr
    have h : ∀ b ∈ fullDiffTwice.infoBackup.backup, ∀ r ∈ b.references,
        b.backupPrior = some r := by decide
    exact Relation.TransGen.single ⟨b, hb, h b hb r hr, rfl⟩

theorem fullDiffTwice_labels : LabelsRooted fullDiffTwice.infoBackup.backup where
  valid := by decide
  full := by decide
  diff := by decide
  same := by decide
  root := by decide

/-- The first full backup and its differential backup go by count and by
age. -/
theorem expire_retention_exact_fullDiffTwice :
    (expireFullBackup fullDiffTwice).2
        + (expireFullBackup fullDiffTwice).1.infoBackup.backup.length = 4 ∧
      (expireDiffBackup fullDiffTwice).1.infoBackup.labels = [labelF1, labelF2, labelD2] ∧
      (expireDiffBackup fullDiffTwice).2
          + (expireDiffBackup fullDiffTwice).1.infoBackup.backup.length = 4 ∧
      ∃ s' result, expireTimeBasedBackup fullDiffTwice 1 = (s', .ok result) ∧
        s'.option.retentionArchive
          = some (labelList s'.infoBackup.backup fullRegExp).length := by
  obtain ⟨hfull, hdiff, htime⟩ := expire_retention_exact fullDiffTwice fullDiffTwice_closed
    fullDiffTwice_labels (by decide)
  have hr : NewestFullBefore fullDiffTwice.infoBackup.backup 1
      (.plain labelF2 .full none none) := ⟨by decide, by decide, by decide, by decide⟩
  obtain ⟨-, s', result, hrun, -, hoption⟩ := (htime 1).2 _ hr
  refine ⟨(hfull 1 rfl (by decide)).total, by decide, (hdiff 1 rfl (by decide)).total,
    s', result, hrun, ?_⟩
  rw [hoption]
  rfl

end PgxBackup
