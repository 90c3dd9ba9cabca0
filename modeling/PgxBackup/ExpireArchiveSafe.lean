import PgxBackup.ExpireArchive

/-!
# Archive retention removes exactly what no retained backup needs

The backup selected for retention is described without the lists of labels
that the code goes through (`retentionBackup`); what is removed below an
archive id is then compared with it. The two granularities agree because
the first 16 characters of a name keep the order of the names
(`take_le_take`): a directory that no range reaches into holds no segment
of a range.
-/

namespace PgxBackup

open List DepClosure

/-! ## The retention backup -/

/-- The backups of the type, from oldest to newest. -/
def typeBackups (info : InfoBackup) (type : BackupType) : List InfoBackupData :=
  info.backup.filter (fun b => backupRegExp (archiveRetentionRegExp type) b.backupLabel)

/-- The backups of the list that belong to the db id. -/
def ofPgId (l : List InfoBackupData) (pgId : ℕ) : List InfoBackupData :=
  l.filter (fun b => decide (b.backupPgId = pgId))

/-- **The backup from which on all WAL is retained**: of the `n` newest
backups of the type the oldest with this db id, else the newest of the type
with this db id. -/
def retentionBackup (info : InfoBackup) (type : BackupType) (n pgId : ℕ) :
    Option InfoBackupData :=
  let newest := (typeBackups info type).drop ((typeBackups info type).length - n)
  match (ofPgId newest pgId).head? with
  | some b => some b
  | none => (ofPgId (typeBackups info type) pgId).getLast?

section Retention

variable {info : InfoBackup} {l : List InfoBackupData}

theorem LabelSorted.filter_label (h : LabelSorted l) {b : InfoBackupData} (hb : b ∈ l) :
    l.filter (fun c => decide (c.backupLabel = b.backupLabel)) = [b] := by
  obtain ⟨l₁, l₂, rfl⟩ := append_of_mem hb
  obtain ⟨h₁, h₂, h₁₂⟩ := pairwise_append.mp h
  rw [filter_append, filter_cons_of_pos (by simp)]
  have hl₁ : l₁.filter (fun c => decide (c.backupLabel = b.backupLabel)) = [] := by
    refine filter_eq_nil_iff.mpr (fun c hc => ?_)
    simpa using (h₁₂ c hc b mem_cons_self).ne
  have hl₂ : l₂.filter (fun c => decide (c.backupLabel = b.backupLabel)) = [] := by
    refine filter_eq_nil_iff.mpr (fun c hc => ?_)
    simpa using (rel_of_pairwise_cons h₂ hc).ne'
  rw [hl₁, hl₂, nil_append]

theorem flatMap_label {p : InfoBackupData → Bool} {f : InfoBackupData → List Str}
    (hf : ∀ b ∈ l, f b = if p b then [b.backupLabel] else []) :
    l.flatMap f = (l.filter p).map InfoBackupData.backupLabel := by
  induction l with
  | nil => rfl
  | cons b l ih =>
    have ih := ih (fun c hc => hf c (mem_cons_of_mem _ hc))
    rw [flatMap_cons, hf b mem_cons_self, ih]
    cases hp : p b with
    | true => simp [hp]
    | false => simp [hp]

theorem filter_eq_of_nodup {s : List Str} (h : s.Nodup) (x : Str) :
    s.filter (fun y => decide (x = y)) = if x ∈ s then [x] else [] := by
  induction s with
  | nil => simp
  | cons y s ih =>
    have ih := ih h.of_cons
    by_cases hxy : x = y
    · subst hxy
      have hx : x ∉ s := (nodup_cons.mp h).1
      rw [if_neg hx] at ih
      simp [ih]
    · simp [hxy, ih]

variable (info) in
/-- The labels that the code lists from newest to oldest are those of the
backups of the type. -/
theorem globalBackupRetentionList_eq (h : LabelSorted info.backup) (type : BackupType) :
    strLstSort (infoBackupDataLabelList info (some (archiveRetentionRegExp type))) .desc
      = ((typeBackups info type).map InfoBackupData.backupLabel).reverse := by
  have heq : infoBackupDataLabelList info (some (archiveRetentionRegExp type))
      = (typeBackups info type).map InfoBackupData.backupLabel := by
    unfold infoBackupDataLabelList typeBackups InfoBackup.labels
    rw [filter_map]
    rfl
  rw [heq]
  exact strLstSort_desc_of_pairwise (LabelSorted.labels (h.filter _))

theorem localBackupRetentionList_eq (h : LabelSorted info.backup)
    (hl : ∀ b ∈ l, b ∈ info.backup) (pgId : ℕ) :
    localBackupRetentionList info (l.map InfoBackupData.backupLabel).reverse pgId
      = (ofPgId l pgId).map InfoBackupData.backupLabel := by
  unfold localBackupRetentionList
  rw [reverse_reverse, flatMap_map]
  refine flatMap_label (fun b hb => ?_)
  have hsplit : info.backup.filter (fun c =>
      decide (c.backupLabel = b.backupLabel ∧ c.backupPgId = pgId))
      = (info.backup.filter (fun c => decide (c.backupLabel = b.backupLabel))).filter
          (fun c => decide (c.backupPgId = pgId)) := by
    rw [filter_filter]
    refine filter_congr (fun c _ => ?_)
    simp [Bool.and_comm]
  rw [hsplit, h.filter_label (hl b hb)]
  by_cases hpg : b.backupPgId = pgId
  · simp [hpg]
  · simp [hpg]

theorem localBackupArchiveRetentionList_eq (h : LabelSorted l) {l' : List InfoBackupData}
    (hl' : ∀ b ∈ l', b ∈ l) (pgId : ℕ) :
    localBackupArchiveRetentionList (l'.map InfoBackupData.backupLabel).reverse
        ((ofPgId l pgId).map InfoBackupData.backupLabel)
      = (ofPgId l' pgId).map InfoBackupData.backupLabel := by
  unfold localBackupArchiveRetentionList
  rw [reverse_reverse, flatMap_map]
  refine flatMap_label (fun b hb => ?_)
  have hnodup : ((ofPgId l pgId).map InfoBackupData.backupLabel).Nodup :=
    (LabelSorted.labels (h.filter _)).imp (fun hlt => hlt.ne)
  rw [filter_eq_of_nodup hnodup]
  have hmem : b.backupLabel ∈ (ofPgId l pgId).map InfoBackupData.backupLabel
      ↔ decide (b.backupPgId = pgId) = true := by
    rw [mem_map]
    constructor
    · rintro ⟨c, hc, hcb⟩
      obtain ⟨hcl, hpg⟩ := mem_filter.mp hc
      rw [← h.eq_of_label_eq hcl (hl' b hb) hcb]
      exact hpg
    · intro hpg
      exact ⟨b, mem_filter.mpr ⟨hl' b hb, hpg⟩, rfl⟩
  simp only [hmem]

/-- **The label that the code selects is that of the retention backup.** -/
theorem archiveRetentionLabel_eq (h : LabelSorted info.backup) (type : BackupType)
    (n pgId : ℕ) :
    archiveRetentionLabel
        (((typeBackups info type).map InfoBackupData.backupLabel).reverse.take n)
        (localBackupRetentionList info
          ((typeBackups info type).map InfoBackupData.backupLabel).reverse pgId)
      = (retentionBackup info type n pgId).map InfoBackupData.backupLabel := by
  have hsub : ∀ b ∈ typeBackups info type, b ∈ info.backup :=
    fun b hb => mem_of_mem_filter hb
  have htake : ((typeBackups info type).map InfoBackupData.backupLabel).reverse.take n
      = (((typeBackups info type).drop ((typeBackups info type).length - n)).map
          InfoBackupData.backupLabel).reverse := by
    rw [take_reverse, length_map, map_drop]
  have hsorted : LabelSorted (typeBackups info type) := h.filter _
  unfold archiveRetentionLabel retentionBackup
  rw [htake, localBackupRetentionList_eq h hsub,
    localBackupArchiveRetentionList_eq hsorted (fun b hb => mem_of_mem_drop hb)]
  dsimp only
  cases ofPgId ((typeBackups info type).drop ((typeBackups info type).length - n)) pgId with
  | nil => simp
  | cons b l => simp

theorem mem_of_retentionBackup {type : BackupType} {n pgId : ℕ} {b : InfoBackupData}
    (hb : retentionBackup info type n pgId = some b) :
    b ∈ typeBackups info type ∧ b.backupPgId = pgId := by
  have hmem : b ∈ ofPgId (typeBackups info type) pgId := by
    unfold retentionBackup at hb
    dsimp only at hb
    split at hb
    · rename_i c hc
      rw [← Option.some.inj hb]
      obtain ⟨hcd, hpg⟩ := mem_filter.mp (mem_of_mem_head? hc)
      exact mem_filter.mpr ⟨mem_of_mem_drop hcd, hpg⟩
    · exact mem_of_mem_getLast? hb
  obtain ⟨hl, hpg⟩ := mem_filter.mp hmem
  exact ⟨hl, of_decide_eq_true hpg⟩

/-- There is a retention backup exactly if there is a backup of the type
with the db id. -/
theorem retentionBackup_eq_none {type : BackupType} {n pgId : ℕ} :
    retentionBackup info type n pgId = none ↔ ofPgId (typeBackups info type) pgId = [] := by
  constructor
  · intro hnone
    unfold retentionBackup at hnone
    dsimp only at hnone
    split at hnone
    · cases hnone
    · exact getLast?_eq_none_iff.mp hnone
  · intro hnil
    cases hr : retentionBackup info type n pgId with
    | none => rfl
    | some b =>
      obtain ⟨hb, hpg⟩ := mem_of_retentionBackup hr
      have hmem : b ∈ ofPgId (typeBackups info type) pgId :=
        mem_filter.mpr ⟨hb, decide_eq_true hpg⟩
      rw [hnil] at hmem
      cases hmem

end Retention

/-! ## One archive id -/

/-- The removals below an archive id, in terms of the retention backup. -/
def archiveIdOps (info : InfoBackup) (type : BackupType) (n pgId currentId : ℕ)
    (a : ArchivePath) : List ArchiveOp :=
  match retentionBackup info type n pgId with
  | none => if currentId ≠ pgId then [.pathRemove a.archiveId] else []
  | some retention => removeArchiveRange info pgId retention a

section ArchiveId

variable {info : InfoBackup} {infoArchivePg : InfoPg} {a : ArchivePath} {pg current : InfoPgData}

theorem afterLastDash_archiveId (pg : InfoPgData) :
    afterLastDash (infoPgArchiveId pg) = Nat.toDigits 10 pg.id := by
  have hdash : ∀ c ∈ (Nat.toDigits 10 pg.id).reverse, decide (c ≠ '-') = true := by
    intro c hc
    have hdigit := Nat.isDigit_of_mem_toDigits (by decide) (by decide) (mem_reverse.mp hc)
    refine decide_eq_true (fun heq => ?_)
    rw [heq] at hdigit
    cases hdigit
  unfold afterLastDash infoPgArchiveId
  rw [reverse_append, reverse_cons, append_assoc,
    takeWhile_append_of_pos hdash]
  simp

theorem cvtZToUInt_archiveId (hid : pg.id < 2 ^ 32) :
    cvtZToUInt (afterLastDash (infoPgArchiveId pg)) = .ok pg.id := by
  rw [afterLastDash_archiveId]
  exact cvtZToUnsigned_toDigits (by decide) (by decide) hid (by decide) _

theorem removeArchiveId_eq (h : LabelSorted info.backup) (hid : pg.id < 2 ^ 32)
    (ha : infoPgArchiveId pg = a.archiveId)
    (hcurrent : infoPgDataCurrent infoArchivePg = .ok current) (type : BackupType) (n : ℕ) :
    removeArchiveId info infoArchivePg
        ((typeBackups info type).map InfoBackupData.backupLabel).reverse n a
      = .ok (archiveIdOps info type n pg.id current.id a) := by
  have hlabel := archiveRetentionLabel_eq h type n pg.id
  unfold removeArchiveId archiveIdOps
  rw [← ha, cvtZToUInt_archiveId hid]
  simp only [bind, Except.bind]
  cases hr : retentionBackup info type n pg.id with
  | none =>
    rw [hr] at hlabel
    simp only [hlabel, Option.map_none, hcurrent]
    split
    · rfl
    · rfl
  | some b =>
    rw [hr] at hlabel
    obtain ⟨hb, -⟩ := mem_of_retentionBackup hr
    have hdata : archiveRetentionBackup info b.backupLabel = some b := by
      unfold archiveRetentionBackup
      rw [h.filter_label (mem_of_mem_filter hb)]
      rfl
    simp only [hlabel, Option.map_some, hdata]

theorem archiveId_of_mem_archiveIdOps {type : BackupType} {n pgId currentId : ℕ}
    {op : ArchiveOp} (hop : op ∈ archiveIdOps info type n pgId currentId a) :
    op.archiveId = a.archiveId := by
  unfold archiveIdOps at hop
  split at hop
  · split at hop
    · rw [mem_singleton.mp hop]; rfl
    · cases hop
  · unfold removeArchiveRange at hop
    split at hop
    · cases hop
    · cases mem_append.mp hop with
      | inl hop =>
        obtain ⟨w, -, hop⟩ := mem_flatMap.mp hop
        unfold removeWalPath at hop
        split at hop
        · rw [mem_singleton.mp hop]; rfl
        · split at hop
          · obtain ⟨f, -, rfl⟩ := mem_map.mp hop; rfl
          · cases hop
      | inr hop =>
        obtain ⟨f, -, rfl⟩ := mem_map.mp hop; rfl

end ArchiveId

/-! ## Paths and files -/

/-- Is the file among what the removals take away? -/
def Removed (ops : List ArchiveOp) (archiveId walPath file : Str) : Prop :=
  .pathRemove archiveId ∈ ops ∨ .walPathRemove archiveId walPath ∈ ops ∨
    .walRemove archiveId walPath file ∈ ops

def InBackupRange (b : InfoBackupData) (segment : Str) : Prop :=
  ∃ start, b.backupArchiveStart = some start ∧ start ≤ segment ∧
    ∀ stop, b.backupArchiveStop = some stop → segment ≤ stop

section Range

variable {info : InfoBackup} {retention : InfoBackupData} {a : ArchivePath} {w : WalPath}

variable {start file : Str}

theorem inRange_iff {stop : Option Str} {name : Str} :
    inRange start stop name = true
      ↔ start ≤ name ∧ ∀ s, stop = some s → name ≤ s := by
  unfold inRange
  cases stop with
  | none => simp
  | some s => simp

/-- A range that holds a segment reaches into its path. -/
theorem containsPath_of_containsSegment {range : ArchiveRange}
    (h : range.containsSegment (walSegment file) = true) :
    range.containsPath (file.take 16) = true := by
  have htake : (walSegment file).take 16 = file.take 16 := by
    show ((file.drop 0).take 24).take 16 = _
    rw [drop_zero, take_take]
    rfl
  obtain ⟨hstart, hstop⟩ := inRange_iff.mp h
  refine inRange_iff.mpr ⟨?_, fun s hs => ?_⟩
  · rw [← htake]
    exact take_le_take 16 hstart
  · obtain ⟨stop, hstop', rfl⟩ := Option.map_eq_some_iff.mp hs
    rw [← htake]
    exact take_le_take 16 (hstop stop hstop')

/-- Nothing in a range is removed with its path or on its own. -/
theorem not_containsSegment_of_removeWalPath {archiveId expireMax walPath : Str}
    {ranges : List ArchiveRange} (hpath : file.take 16 = walPath)
    (h : .walPathRemove archiveId walPath ∈ removeWalPath archiveId ranges expireMax w ∨
      .walRemove archiveId walPath file ∈ removeWalPath archiveId ranges expireMax w) :
    ranges.any (fun range => range.containsSegment (walSegment file)) = false := by
  unfold removeWalPath at h
  split at h
  · rename_i hany
    have hw : w.path = walPath := by simpa [eq_comm] using h
    rw [Bool.not_eq_true', any_eq_false] at hany
    refine any_eq_false.mpr (fun range hrange hseg => hany range hrange ?_)
    rw [hw, ← hpath]
    exact containsPath_of_containsSegment hseg
  · split at h
    · have hmem : file ∈ w.file.filter walSegmentPrefixRegExp ∧
          (!ranges.any (fun range => range.containsSegment (walSegment file))) = true := by
        simp only [mem_map, mem_filter, mem_strLstSort, reduceCtorEq, and_false,
          exists_false, ArchiveOp.walRemove.injEq, false_or] at h
        obtain ⟨f, ⟨hf, hany⟩, -, -, rfl⟩ := h
        exact ⟨mem_filter.mpr hf, hany⟩
      rw [Bool.not_eq_true'] at hmem
      exact hmem.2
    · exact absurd h (by simp)

theorem mem_removeWalPath {archiveId expireMax : Str} {ranges : List ArchiveRange}
    (hfile : file ∈ w.file) (hwal : walSegmentPrefixRegExp file = true)
    (hmax : w.path ≤ strSubN expireMax 0 16)
    (hnone : ranges.any (fun range => range.containsSegment (walSegment file)) = false) :
    .walPathRemove archiveId w.path ∈ removeWalPath archiveId ranges expireMax w ∨
      .walRemove archiveId w.path file ∈ removeWalPath archiveId ranges expireMax w := by
  unfold removeWalPath
  split
  · exact Or.inl (mem_singleton_self _)
  · refine Or.inr (mem_map.mpr ⟨file, mem_filter.mpr ⟨?_, ?_⟩, rfl⟩)
    · exact mem_strLstSort.mpr (mem_filter.mpr ⟨hfile, hwal⟩)
    · rw [hnone]; rfl

theorem any_archiveRangeList {l : List InfoBackupData}
    (hl : LabelSorted l) (hret : retention ∈ l)
    (hstart : retention.backupArchiveStart = some start) (segment : Str) :
    (archiveRangeList l retention).any (fun range => range.containsSegment segment) = true
      ↔ start ≤ segment ∨ ∃ b ∈ l, b.backupLabel < retention.backupLabel ∧
          InBackupRange b segment := by
  rw [any_eq_true]
  constructor
  · rintro ⟨range, hrange, hseg⟩
    obtain ⟨b, hb, hrange⟩ := mem_filterMap.mp hrange
    split at hrange
    · rename_i hle
      obtain ⟨bstart, hbstart, rfl⟩ := Option.map_eq_some_iff.mp hrange
      obtain ⟨h₁, h₂⟩ := inRange_iff.mp hseg
      by_cases heq : b.backupLabel = retention.backupLabel
      · have hbr : b = retention := hl.eq_of_label_eq hb hret heq
        subst hbr
        rw [hstart] at hbstart
        exact Or.inl (Option.some.inj hbstart ▸ h₁)
      · rw [if_pos heq] at h₂
        exact Or.inr ⟨b, hb, lt_of_le_of_ne hle heq, bstart, hbstart, h₁, h₂⟩
    · cases hrange
  · intro h
    cases h with
    | inl hseg =>
      refine ⟨⟨start, none⟩, mem_filterMap.mpr ⟨retention, hret, ?_⟩, ?_⟩
      · simp [hstart]
      · exact inRange_iff.mpr ⟨hseg, by simp⟩
    | inr h =>
      obtain ⟨b, hb, hlt, bstart, hbstart, h₁, h₂⟩ := h
      refine ⟨⟨bstart, b.backupArchiveStop⟩, mem_filterMap.mpr ⟨b, hb, ?_⟩, ?_⟩
      · simp [hlt.le, hlt.ne, hbstart]
      · exact inRange_iff.mpr ⟨h₁, h₂⟩

/-- Only these removals take a file away once there is a retention backup. -/
theorem removed_removeArchiveRange {pgId : ℕ} {walPath : Str}
    (hstart : retention.backupArchiveStart = some start) :
    Removed (removeArchiveRange info pgId retention a) a.archiveId walPath file
      ↔ ∃ w ∈ a.walPath, walSegmentDirRegExp w.path = true ∧
          (.walPathRemove a.archiveId walPath ∈ removeWalPath a.archiveId
              (archiveRangeList (ofPgId info.backup pgId) retention)
              (archiveExpireMax (ofPgId info.backup pgId) retention) w ∨
            .walRemove a.archiveId walPath file ∈ removeWalPath a.archiveId
              (archiveRangeList (ofPgId info.backup pgId) retention)
              (archiveExpireMax (ofPgId info.backup pgId) retention) w) := by
  have hpath : ∀ ranges expireMax w', ArchiveOp.pathRemove a.archiveId
      ∉ removeWalPath a.archiveId ranges expireMax w' := by
    intro ranges expireMax w' hmem
    unfold removeWalPath at hmem
    split at hmem
    · exact absurd hmem (by simp)
    · split at hmem
      · exact absurd hmem (by simp)
      · cases hmem
  unfold Removed removeArchiveRange
  rw [hstart]
  simp only [mem_append, mem_flatMap, mem_filter]
  show (_ ∨ _ ∨ _) ↔ _
  unfold removeHistory
  simp only [mem_map, reduceCtorEq, and_false, exists_false, or_false]
  constructor
  · rintro (⟨w, -, hop⟩ | ⟨w, hw, hop⟩ | ⟨w, hw, hop⟩)
    · exact absurd hop (hpath _ _ _)
    · exact ⟨w, hw.1, hw.2, Or.inl hop⟩
    · exact ⟨w, hw.1, hw.2, Or.inr hop⟩
  · rintro ⟨w, hw, hdir, hop | hop⟩
    · exact Or.inr (Or.inl ⟨w, ⟨hw, hdir⟩, hop⟩)
    · exact Or.inr (Or.inr ⟨w, ⟨hw, hdir⟩, hop⟩)

/-- The directory of a WAL file is named like a major WAL path. -/
theorem walSegmentDirRegExp_of_take (hwal : walSegmentPrefixRegExp file = true) :
    walSegmentDirRegExp (file.take 16) = true := by
  unfold walSegmentPrefixRegExp at hwal
  unfold walSegmentDirRegExp
  rw [Bool.and_eq_true, beq_iff_eq] at hwal ⊢
  obtain ⟨hlen, hall⟩ := hwal
  have htake : file.take 16 = (file.take 24).take 16 := by
    rw [take_take]
    rfl
  refine ⟨?_, ?_⟩
  · rw [htake, length_take, hlen]
    rfl
  · rw [htake]
    rw [all_eq_true] at hall ⊢
    exact fun c hc => hall c (mem_of_mem_take hc)

/-- **Below an archive id with a retention backup**, a file is removed
exactly if its segment is before the start of the retention backup and in
no range of an older backup of the db id. -/
theorem removed_removeArchiveRange_iff (h : LabelSorted info.backup) {pgId : ℕ}
    (hret : retention ∈ ofPgId info.backup pgId)
    (hstart : retention.backupArchiveStart = some start)
    (hw : w ∈ a.walPath) (hfile : file ∈ w.file) (hwal : walSegmentPrefixRegExp file = true)
    (hpath : file.take 16 = w.path) :
    Removed (removeArchiveRange info pgId retention a) a.archiveId w.path file
      ↔ walSegment file < start ∧ ∀ b ∈ info.backup, b.backupPgId = pgId →
          b.backupLabel < retention.backupLabel → ¬ InBackupRange b (walSegment file) := by
  have hsorted : LabelSorted (ofPgId info.backup pgId) := h.filter _
  have hany := any_archiveRangeList hsorted hret hstart (walSegment file)
  have hmax : archiveExpireMax (ofPgId info.backup pgId) retention = start := by
    unfold archiveExpireMax
    rw [hsorted.filter_label hret]
    simp [hstart]
  have hrange : ((archiveRangeList (ofPgId info.backup pgId) retention).any
        (fun range => range.containsSegment (walSegment file)) = false)
      ↔ walSegment file < start ∧ ∀ b ∈ info.backup, b.backupPgId = pgId →
          b.backupLabel < retention.backupLabel → ¬ InBackupRange b (walSegment file) := by
    rw [← Bool.not_eq_true, hany, not_or, not_le]
    refine and_congr_right (fun _ => ?_)
    constructor
    · intro hno b hb hpg hlt hin
      exact hno ⟨b, mem_filter.mpr ⟨hb, decide_eq_true hpg⟩, hlt, hin⟩
    · rintro hno ⟨b, hb, hlt, hin⟩
      obtain ⟨hb, hpg⟩ := mem_filter.mp hb
      exact hno b hb (of_decide_eq_true hpg) hlt hin
  rw [removed_removeArchiveRange hstart, ← hrange]
  constructor
  · rintro ⟨w', -, -, hop⟩
    exact not_containsSegment_of_removeWalPath hpath hop
  · intro hnone
    refine ⟨w, hw, hpath ▸ walSegmentDirRegExp_of_take hwal, ?_⟩
    refine mem_removeWalPath hfile hwal ?_ hnone
    -- a segment before the start lies in a path not beyond that of the start
    have hlt : walSegment file < start := (hrange.mp hnone).1
    have hle := take_le_take 16 hlt.le
    rw [hmax]
    show w.path ≤ start.take 16
    rw [← hpath]
    have htake : (walSegment file).take 16 = file.take 16 := by
      show (file.take 24).take 16 = _
      rw [take_take]
      rfl
    exact htake ▸ hle

end Range

/-! ## The whole archive -/

/-- The archive on disk: directories of distinct names whose number the
comparator can read, and WAL files in the directory of their first 16
characters. -/
structure ArchiveDiskValid (disk : List ArchivePath) : Prop where
  nodup : (disk.map ArchivePath.archiveId).Nodup
  comparable : ∀ a ∈ disk, ∃ n, cvtZToInt ((a.archiveId.dropWhile (· ≠ '-')).drop 1) = .ok n
  wal : ∀ a ∈ disk, ∀ w ∈ a.walPath, ∀ file ∈ w.file,
    walSegmentPrefixRegExp file = true → file.take 16 = w.path

/-- The archive history: it has a current cluster, ids are unsigned
integers, and every cluster matches that of the backup history. -/
structure ArchiveHistoryValid (infoArchivePg infoBackupPg : InfoPg) : Prop where
  current : infoArchivePg.historyCurrent < infoArchivePg.history.length
  id_lt : ∀ pg ∈ infoArchivePg.history, pg.id < 2 ^ 32
  same : ∀ (idx : ℕ) (pg : InfoPgData), infoArchivePg.history[idx]? = some pg →
    ∃ pg', infoBackupPg.history[idx]? = some pg' ∧ pg.id = pg'.id ∧
      pg.systemId = pg'.systemId ∧ pg.version = pg'.version

section Loop

variable {disk : List ArchivePath} {infoArchivePg infoBackupPg : InfoPg}

theorem forM_ok {α : Type} {f : α → Except Error Unit} {l : List α}
    (h : ∀ x ∈ l, f x = .ok ()) : l.forM f = .ok () := by
  induction l with
  | nil => rfl
  | cons x l ih =>
    have hx := h x mem_cons_self
    have hl := ih (fun y hy => h y (mem_cons_of_mem _ hy))
    simp only [forM_eq_forM, forM_cons] at hl ⊢
    rw [hx]
    exact hl

theorem ArchiveDiskValid.listArchiveDisk_ok (h : ArchiveDiskValid disk) :
    listArchiveDisk disk = .ok () := by
  unfold listArchiveDisk
  split
  · refine forM_ok (fun a ha => ?_)
    obtain ⟨n, hn⟩ := h.comparable a ha
    rw [hn]
    rfl
  · rfl

theorem ArchiveHistoryValid.historyCheck_ok (h : ArchiveHistoryValid infoArchivePg infoBackupPg) :
    historyCheck infoArchivePg infoBackupPg = .ok () := by
  refine forM_ok (fun idx hidx => ?_)
  have hlt : idx < infoArchivePg.history.length := mem_range.mp hidx
  obtain ⟨pg', hpg', hid, hsys, hver⟩ := h.same idx _ (getElem?_eq_getElem hlt)
  unfold lstGet
  rw [getElem?_eq_getElem hlt, hpg']
  simp [bind, Except.bind, hid, hsys, hver, pure, Except.pure]

theorem find_archiveId (h : ArchiveDiskValid disk) (pg : InfoPgData) (a : ArchivePath) :
    disk.find? (fun a => decide (infoPgArchiveId pg = a.archiveId)) = some a
      ↔ a ∈ disk ∧ infoPgArchiveId pg = a.archiveId := by
  constructor
  · intro hfind
    exact ⟨mem_of_find?_eq_some hfind, by simpa using find?_some hfind⟩
  · rintro ⟨ha, hid⟩
    cases hfind : disk.find? (fun a => decide (infoPgArchiveId pg = a.archiveId)) with
    | none =>
      have := find?_eq_none.mp hfind a ha
      exact absurd (decide_eq_true hid) this
    | some b =>
      have hb : b ∈ disk := mem_of_find?_eq_some hfind
      have hbid : infoPgArchiveId pg = b.archiveId := by simpa using find?_some hfind
      rw [inj_on_of_nodup_map h.nodup hb ha (hbid.symm.trans hid)]

/-- When no archive id fails, the loop performs the removals of each. -/
theorem removeArchiveLoop_ok (h : ArchiveDiskValid disk)
    (remove : ArchivePath → Except Error (List ArchiveOp))
    (ops : InfoPgData → ArchivePath → List ArchiveOp) (history : List InfoPgData)
    (hremove : ∀ pg ∈ history, ∀ a ∈ disk, infoPgArchiveId pg = a.archiveId →
      remove a = .ok (ops pg a)) :
    (removeArchiveLoop remove disk history).2 = .ok () ∧
      ∀ op, op ∈ (removeArchiveLoop remove disk history).1
        ↔ ∃ pg ∈ history, ∃ a ∈ disk, infoPgArchiveId pg = a.archiveId ∧ op ∈ ops pg a := by
  induction history with
  | nil => exact ⟨rfl, fun op => by simp [removeArchiveLoop]⟩
  | cons pg history ih =>
    obtain ⟨hok, hmem⟩ := ih (fun pg' hpg' => hremove pg' (mem_cons_of_mem _ hpg'))
    unfold removeArchiveLoop
    split
    · rename_i hnone
      refine ⟨hok, fun op => ?_⟩
      rw [hmem]
      constructor
      · rintro ⟨pg', hpg', h'⟩
        exact ⟨pg', mem_cons_of_mem _ hpg', h'⟩
      · rintro ⟨pg', hpg', a, ha, hid, hop⟩
        cases mem_cons.mp hpg' with
        | inl heq =>
          subst heq
          rw [(find_archiveId h pg' a).mpr ⟨ha, hid⟩] at hnone
          cases hnone
        | inr hpg' => exact ⟨pg', hpg', a, ha, hid, hop⟩
    · rename_i a hfind
      obtain ⟨ha, hid⟩ := (find_archiveId h pg a).mp hfind
      rw [hremove pg mem_cons_self a ha hid]
      refine ⟨hok, fun op => ?_⟩
      show op ∈ ops pg a ++ (removeArchiveLoop remove disk history).1 ↔ _
      rw [mem_append, hmem]
      constructor
      · rintro (hop | ⟨pg', hpg', h'⟩)
        · exact ⟨pg, mem_cons_self, a, ha, hid, hop⟩
        · exact ⟨pg', mem_cons_of_mem _ hpg', h'⟩
      · rintro ⟨pg', hpg', a', ha', hid', hop⟩
        cases mem_cons.mp hpg' with
        | inl heq =>
          subst heq
          have haa : a' = a := by
            have := (find_archiveId h pg' a').mpr ⟨ha', hid'⟩
            rw [hfind] at this
            exact (Option.some.inj this).symm
          exact Or.inl (haa ▸ hop)
        | inr hpg' => exact Or.inr ⟨pg', hpg', a', ha', hid', hop⟩

end Loop

/-- A closed list of backups where a backup without a prior is a full one
and dependents share the db id of the backup they are based on. -/
structure ArchiveBackupsValid (l : List InfoBackupData) : Prop
    extends Closed InfoBackupData.backupLabel InfoBackupData.backupPrior l where
  full : ∀ b ∈ l, b.backupPrior = none → backupRegExp fullRegExp b.backupLabel = true
  pgId : ∀ b ∈ l, ∀ c ∈ l, b.backupPrior = some c.backupLabel → b.backupPgId = c.backupPgId

section Archive

variable {info : InfoBackup} {option : RepoOption} {infoArchivePg : InfoPg}
  {disk : List ArchivePath} {pg current : InfoPgData} {a : ArchivePath} {n : ℕ}

/-- Full backups count for every type of archive retention. -/
theorem backupRegExp_of_full {label : Str} (h : backupRegExp fullRegExp label = true)
    (type : BackupType) : backupRegExp (archiveRetentionRegExp type) label = true := by
  unfold backupRegExp at h ⊢
  cases hm : (matchDateTime label).bind (matchChr 'F') with
  | none => simp [hm] at h
  | some s =>
    rw [hm] at h
    cases type with
    | full => exact h
    | diff => simp_all [fullRegExp, archiveRetentionRegExp, fullDiffRegExp]
    | incr => simp_all [fullRegExp, archiveRetentionRegExp]

theorem ofPgId_typeBackups_ne_nil (h : ArchiveBackupsValid info.backup) {b : InfoBackupData}
    (hb : b ∈ info.backup) (type : BackupType) :
    ofPgId (typeBackups info type) b.backupPgId ≠ [] := by
  obtain ⟨r, hr, hnone, hrb⟩ := h.toClosed.exists_root hb
  have hpg : r.backupPgId = b.backupPgId := by
    generalize hy : b.backupLabel = y at hrb
    induction hrb generalizing b with
    | refl => rw [h.eq_of_key_eq hr hb hy.symm]
    | @tail z _ _ he ih =>
      obtain ⟨c, hc, hp, hcy⟩ := he
      have hcb : c = b := h.eq_of_key_eq hc hb (hcy.trans hy.symm)
      subst hcb
      obtain ⟨p, hp', rfl⟩ := h.parent_mem c hc z hp
      rw [ih hp' rfl, h.pgId c hc p hp' hp]
  have hmem : r ∈ ofPgId (typeBackups info type) b.backupPgId :=
    mem_filter.mpr ⟨mem_filter.mpr
      ⟨hr, backupRegExp_of_full (h.full r hr hnone) type⟩, decide_eq_true hpg⟩
  exact ne_nil_of_mem hmem

theorem id_eq_of_archiveId_eq {pg' : InfoPgData} (hid : pg.id < 2 ^ 32) (hid' : pg'.id < 2 ^ 32)
    (h : infoPgArchiveId pg = infoPgArchiveId pg') : pg.id = pg'.id := by
  have h₁ := cvtZToUInt_archiveId hid
  rw [h, cvtZToUInt_archiveId hid'] at h₁
  exact (Except.ok.inj h₁).symm

/-- **No archive id fails, and the removals below one are its own.** -/
theorem removeExpiredArchive_ops (h : LabelSorted info.backup) (hdisk : ArchiveDiskValid disk)
    (hhistory : ArchiveHistoryValid infoArchivePg info.infoPg)
    (hcurrent : infoPgDataCurrent infoArchivePg = .ok current)
    (hn : option.retentionArchive = some n) (hpos : 0 < n) (hdry : option.dryRun = false)
    (hle : n ≤ (typeBackups info option.retentionArchiveType).length) :
    (removeExpiredArchive info option infoArchivePg disk).2 = .ok () ∧
      ∀ pg ∈ infoArchivePg.history, ∀ a ∈ disk, infoPgArchiveId pg = a.archiveId →
        ∀ op : ArchiveOp, op.archiveId = a.archiveId →
          (op ∈ (removeExpiredArchive info option infoArchivePg disk).1 ↔
            op ∈ archiveIdOps info option.retentionArchiveType n pg.id current.id a) := by
  have hloop := removeArchiveLoop_ok hdisk
    (removeArchiveId info infoArchivePg ((typeBackups info
      option.retentionArchiveType).map InfoBackupData.backupLabel).reverse n)
    (fun pg a => archiveIdOps info option.retentionArchiveType n pg.id current.id a)
    infoArchivePg.history.reverse
    (fun pg hpg a _ hid =>
      removeArchiveId_eq h (hhistory.id_lt pg (mem_reverse.mp hpg)) hid hcurrent _ n)
  have hnot : ¬ (n = 0 ∨ (typeBackups info option.retentionArchiveType).length < n) := by
    omega
  unfold removeExpiredArchive
  rw [globalBackupRetentionList_eq info h, hn]
  simp only [Option.getD_some, length_reverse, length_map, if_neg hnot,
    hdisk.listArchiveDisk_ok, hhistory.historyCheck_ok, hdry, Bool.false_eq_true, if_false]
  refine ⟨hloop.1, fun pg hpg a ha hid op hop => ?_⟩
  rw [hloop.2]
  constructor
  · rintro ⟨pg', hpg', a', ha', hid', hop'⟩
    have haa : a' = a := by
      refine inj_on_of_nodup_map hdisk.nodup ha' ha ?_
      rw [← archiveId_of_mem_archiveIdOps hop', hop]
    subst haa
    have hids := id_eq_of_archiveId_eq (hhistory.id_lt pg' (mem_reverse.mp hpg'))
      (hhistory.id_lt pg hpg) (hid'.trans hid.symm)
    rw [← hids]
    exact hop'
  · intro hop'
    exact ⟨pg, mem_reverse.mpr hpg, a, ha, hid, hop'⟩

theorem removed_congr {ops ops' : List ArchiveOp} {archiveId walPath file : Str}
    (h : ∀ op : ArchiveOp, op.archiveId = archiveId → (op ∈ ops ↔ op ∈ ops')) :
    Removed ops archiveId walPath file ↔ Removed ops' archiveId walPath file := by
  unfold Removed
  rw [h _ rfl, h _ rfl, h _ rfl]

/-- Too few backups: nothing is removed. -/
theorem removeExpiredArchive_of_lt (h : LabelSorted info.backup)
    (hn : option.retentionArchive = some n)
    (hlt : (typeBackups info option.retentionArchiveType).length < n) :
    removeExpiredArchive info option infoArchivePg disk = ([], .ok ()) := by
  unfold removeExpiredArchive
  rw [globalBackupRetentionList_eq info h, hn]
  simp only [Option.getD_some, length_reverse, length_map]
  rw [if_pos (Or.inr hlt)]

variable {pgId : ℕ}

/-- Without a backup of the type the directory of the archive id goes, unless
it is that of the current database. -/
theorem archiveIdOps_of_nil {type : BackupType} {currentId : ℕ}
    (hnil : ofPgId (typeBackups info type) pgId = []) :
    archiveIdOps info type n pgId currentId a
      = if currentId ≠ pgId then [.pathRemove a.archiveId] else [] := by
  unfold archiveIdOps
  rw [retentionBackup_eq_none.mpr hnil]

theorem archiveIdOps_of_retention {type : BackupType} {currentId : ℕ}
    {retention : InfoBackupData} (hr : retentionBackup info type n pgId = some retention) :
    archiveIdOps info type n pgId currentId a = removeArchiveRange info pgId retention a := by
  unfold archiveIdOps
  rw [hr]

/-- A backup in the list whose archive starts no earlier than that of the
retention backup, or that has a label before it, keeps its WAL. -/
theorem not_removed_of_inBackupRange (h : LabelSorted info.backup)
    {retention b : InfoBackupData} (hret : retention ∈ ofPgId info.backup pgId)
    (hmono : ∀ b ∈ info.backup, ∀ c ∈ info.backup, b.backupPgId = c.backupPgId →
      b.backupLabel < c.backupLabel → ∀ s ∈ b.backupArchiveStart,
        ∀ t ∈ c.backupArchiveStart, s ≤ t)
    (hb : b ∈ info.backup) (hpg : b.backupPgId = pgId) {w : WalPath} {file : Str}
    (hin : InBackupRange b (walSegment file)) (hw : w ∈ a.walPath) (hfile : file ∈ w.file)
    (hwal : walSegmentPrefixRegExp file = true) (hpath : file.take 16 = w.path) :
    ¬ Removed (removeArchiveRange info pgId retention a) a.archiveId w.path file := by
  intro hremoved
  obtain ⟨hretmem, hretpg⟩ := mem_filter.mp hret
  have hretpg : retention.backupPgId = pgId := of_decide_eq_true hretpg
  cases hstart : retention.backupArchiveStart with
  | none =>
    unfold Removed removeArchiveRange at hremoved
    simp [hstart] at hremoved
  | some start =>
    obtain ⟨hlt, hnone⟩ :=
      (removed_removeArchiveRange_iff h hret hstart hw hfile hwal hpath).mp hremoved
    by_cases hlabel : b.backupLabel < retention.backupLabel
    · exact hnone b hb hpg hlabel hin
    · obtain ⟨bstart, hbstart, hle, -⟩ := hin
      have hse : start ≤ bstart := by
        cases lt_or_eq_of_le (not_lt.mp hlabel) with
        | inl hrb =>
          exact hmono retention hretmem b hb (hretpg.trans hpg.symm) hrb start hstart
            bstart hbstart
        | inr heq =>
          have hrb : retention = b := h.eq_of_label_eq hretmem hb heq
          rw [hrb, hbstart] at hstart
          exact le_of_eq (Option.some.inj hstart).symm
      exact absurd hlt (not_lt.mpr (hse.trans hle))

/-- **WAL expiration removes exactly what no retained backup needs.** With
fewer backups of the type than the retention nothing happens. Otherwise,
below each archive id: without a backup of the type and db id the whole
directory goes if and only if it is not that of the current database; else
nothing goes when the retention backup has no archive start, and when it has
one a WAL file goes if and only if its segment is before that start and in no
range of an older backup of the db id. Hence, when later backups of a db id
never start earlier in the archive, no WAL in the range of a listed backup is
removed. -/
theorem removeExpiredArchive_exact (h : ArchiveBackupsValid info.backup)
    (hdisk : ArchiveDiskValid disk) (hhistory : ArchiveHistoryValid infoArchivePg info.infoPg)
    (hcurrent : infoPgDataCurrent infoArchivePg = .ok current)
    (hn : option.retentionArchive = some n) (hpos : 0 < n) (hdry : option.dryRun = false) :
    (removeExpiredArchive info option infoArchivePg disk).2 = .ok () ∧
    ((typeBackups info option.retentionArchiveType).length < n →
      (removeExpiredArchive info option infoArchivePg disk).1 = []) ∧
    (n ≤ (typeBackups info option.retentionArchiveType).length →
      ∀ pg ∈ infoArchivePg.history, ∀ a ∈ disk, infoPgArchiveId pg = a.archiveId →
        (ofPgId (typeBackups info option.retentionArchiveType) pg.id = [] →
          (.pathRemove a.archiveId ∈ (removeExpiredArchive info option infoArchivePg disk).1
            ↔ pg.id ≠ current.id) ∧
          (pg.id = current.id →
            ∀ op ∈ (removeExpiredArchive info option infoArchivePg disk).1,
              op.archiveId ≠ a.archiveId)) ∧
        (ofPgId (typeBackups info option.retentionArchiveType) pg.id ≠ [] →
          ∃ retention,
            retentionBackup info option.retentionArchiveType n pg.id = some retention ∧
            (retention.backupArchiveStart = none →
              ∀ op ∈ (removeExpiredArchive info option infoArchivePg disk).1,
                op.archiveId ≠ a.archiveId) ∧
            ∀ start, retention.backupArchiveStart = some start →
              ∀ w ∈ a.walPath, ∀ file ∈ w.file, walSegmentPrefixRegExp file = true →
                (Removed (removeExpiredArchive info option infoArchivePg disk).1
                    a.archiveId w.path file
                  ↔ walSegment file < start ∧ ∀ b ∈ info.backup, b.backupPgId = pg.id →
                      b.backupLabel < retention.backupLabel →
                        ¬ InBackupRange b (walSegment file)))) ∧
    ((∀ b ∈ info.backup, ∀ c ∈ info.backup, b.backupPgId = c.backupPgId →
        b.backupLabel < c.backupLabel → ∀ s ∈ b.backupArchiveStart,
          ∀ t ∈ c.backupArchiveStart, s ≤ t) →
      ∀ pg ∈ infoArchivePg.history, ∀ a ∈ disk, infoPgArchiveId pg = a.archiveId →
        ∀ b ∈ info.backup, b.backupPgId = pg.id →
          ∀ w ∈ a.walPath, ∀ file ∈ w.file, walSegmentPrefixRegExp file = true →
            InBackupRange b (walSegment file) →
              ¬ Removed (removeExpiredArchive info option infoArchivePg disk).1
                a.archiveId w.path file) := by
  have hsorted : LabelSorted info.backup := h.sorted
  by_cases hlt : (typeBackups info option.retentionArchiveType).length < n
  · have heq : removeExpiredArchive info option infoArchivePg disk = ([], .ok ()) :=
      removeExpiredArchive_of_lt hsorted hn hlt
    rw [heq]
    refine ⟨rfl, fun _ => rfl, fun hle => absurd hlt (by omega), ?_⟩
    intro _ pg _ a _ _ b _ _ w _ file _ _ _ hremoved
    simp [Removed] at hremoved
  · obtain ⟨hok, hops⟩ := removeExpiredArchive_ops hsorted hdisk hhistory hcurrent hn hpos hdry
      (by omega)
    refine ⟨hok, fun h' => absurd h' hlt, fun _ pg hpg a ha hid => ⟨fun hnil => ?_, fun hne => ?_⟩,
      fun hmono pg hpg a ha hid b hb hbpg w hw file hfile hwal hin => ?_⟩
    · have hmem := hops pg hpg a ha hid
      rw [archiveIdOps_of_nil hnil] at hmem
      refine ⟨?_, fun heq op hop hopid => ?_⟩
      · rw [hmem _ rfl]
        by_cases heq : current.id = pg.id
        · simp [heq]
        · simp [heq, Ne.symm heq]
      · have := (hmem op hopid).mp hop
        simp [heq] at this
    · cases hr : retentionBackup info option.retentionArchiveType n pg.id with
      | none => exact absurd (retentionBackup_eq_none.mp hr) hne
      | some retention =>
        have hmem := hops pg hpg a ha hid
        rw [archiveIdOps_of_retention hr] at hmem
        obtain ⟨hret, hretpg⟩ := mem_of_retentionBackup hr
        have hret' : retention ∈ ofPgId info.backup pg.id :=
          mem_filter.mpr ⟨mem_of_mem_filter hret, decide_eq_true hretpg⟩
        refine ⟨retention, rfl, fun hnone op hop hopid => ?_,
          fun start hstart w hw file hfile hwal => ?_⟩
        · have := (hmem op hopid).mp hop
          simp [removeArchiveRange, hnone] at this
        · rw [removed_congr hmem]
          exact removed_removeArchiveRange_iff hsorted hret' hstart hw hfile hwal
            (hdisk.wal a ha w hw file hfile hwal)
    · have hmem := hops pg hpg a ha hid
      cases hr : retentionBackup info option.retentionArchiveType n pg.id with
      | none =>
        have hnil := retentionBackup_eq_none.mp hr
        rw [← hbpg] at hnil
        exact absurd hnil (ofPgId_typeBackups_ne_nil h hb _)
      | some retention =>
        rw [archiveIdOps_of_retention hr] at hmem
        obtain ⟨hret, hretpg⟩ := mem_of_retentionBackup hr
        have hret' : retention ∈ ofPgId info.backup pg.id :=
          mem_filter.mpr ⟨mem_of_mem_filter hret, decide_eq_true hretpg⟩
        rw [removed_congr hmem]
        exact not_removed_of_inBackupRange hsorted hret' hmono hb hbpg hin hw hfile hwal
          (hdisk.wal a ha w hw file hfile hwal)

end Archive

/-! ## Two full backups and the WAL around them -/

/-- A full backup with its WAL range. -/
def fullWithArchive (label : Str) (start stop : String) : InfoBackupData :=
  { InfoBackupData.plain label .full none none with
    backupArchiveStart := some start.toList
    backupArchiveStop := some stop.toList }

/-- The cluster of the two backups. -/
def archivePgSample : InfoPg where
  history := [⟨1, 6569239123849665679, 202307071, 160000, 1300⟩]
  historyCurrent := 0

/-- Two full backups of one cluster. -/
def archiveInfoSample : InfoBackup where
  infoPg := archivePgSample
  backup :=
    [fullWithArchive labelF1 "000000010000000000000002" "000000010000000000000003",
      fullWithArchive labelF2 "000000010000000000000006" "000000010000000000000007"]
  updated := false

/-- WAL before, in, between and after the ranges of the backups. -/
def archiveDiskSample : List ArchivePath :=
  [{ archiveId := "16-1".toList
     walPath := [{ path := "0000000100000000".toList
                   file := ["000000010000000000000001-a".toList,
                     "000000010000000000000003-b".toList, "000000010000000000000005-c".toList,
                     "000000010000000000000006-d".toList] }]
     file := [] }]

theorem archiveInfoSample_valid : ArchiveBackupsValid archiveInfoSample.backup where
  sorted := by decide
  parent_lt := by
    show ∀ b ∈ archiveInfoSample.backup, ∀ p ∈ b.backupPrior, p < b.backupLabel
    decide
  parent_mem := by
    show ∀ b ∈ archiveInfoSample.backup, ∀ p ∈ b.backupPrior,
      ∃ c ∈ archiveInfoSample.backup, c.backupLabel = p
    decide
  full := by decide
  pgId := by decide

theorem archiveDiskSample_valid : ArchiveDiskValid archiveDiskSample where
  nodup := by decide
  comparable := by
    intro a ha
    rw [mem_singleton.mp ha]
    exact ⟨1, by decide⟩
  wal := by decide

theorem archivePgSample_valid : ArchiveHistoryValid archivePgSample archivePgSample where
  current := by decide
  id_lt := by decide
  same := fun _ pg hpg => ⟨pg, hpg, rfl, rfl, rfl⟩

/-- Retaining the WAL of one full backup removes what precedes the range of
the first and what lies between the two. -/
theorem removeExpiredArchive_exact_sample :
    removeExpiredArchive archiveInfoSample
        { (fullFullDiff []).option with retentionArchive := some 1 } archivePgSample
        archiveDiskSample
      = ([.walRemove "16-1".toList "0000000100000000".toList
            "000000010000000000000001-a".toList,
          .walRemove "16-1".toList "0000000100000000".toList
            "000000010000000000000005-c".toList], .ok ()) ∧
      (removeExpiredArchive archiveInfoSample
        { (fullFullDiff []).option with retentionArchive := some 1 } archivePgSample
        archiveDiskSample).2 = .ok () :=
  ⟨by decide,
    (removeExpiredArchive_exact archiveInfoSample_valid archiveDiskSample_valid
      archivePgSample_valid rfl rfl (by decide) rfl).1⟩

end PgxBackup
