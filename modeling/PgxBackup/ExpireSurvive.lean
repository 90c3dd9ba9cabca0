import PgxBackup.ExpireClosed
import PgxBackup.ExpireRepo

/-!
# Which backups survive

An expire run removes labels one after the other. In the order that
`expireBackup` uses, every prefix of the sequence of removed labels takes
the dependents of what it takes (`Removable`), so a run can be cut anywhere
and leave a closed list behind.

What a run leaves does not depend on how far an earlier run came: when some
of the labels that a phase removes are gone already, the phase picks the
victims that are left, and the survivors are the same. This is shown for
each phase: full backups by count, by age, and differential backups.
-/

namespace PgxBackup

open List DepClosure

def dependents (l : List InfoBackupData) (label : Str) : List Str :=
  collect InfoBackupData.backupLabel InfoBackupData.backupPrior l [label]

def without (l : List InfoBackupData) (labels : List Str) : List InfoBackupData :=
  l.filter (fun b => decide (b.backupLabel ∉ labels))

/-- Taking the labels away takes no prior from a backup that is left. -/
def ClosedSet (l : List InfoBackupData) (labels : List Str) : Prop :=
  KeepsParents InfoBackupData.backupLabel InfoBackupData.backupPrior l
    (fun b => decide (b.backupLabel ∉ labels))

/-- **A sequence of labels that can be removed one after the other**: after
every prefix each backup that is left has its prior. -/
def Removable (l : List InfoBackupData) (labels : List Str) : Prop :=
  ∀ j, ClosedSet l (labels.take j)

/-- The labels of an expired backup and its dependents from newest to
oldest. -/
def expireLabels (l : List InfoBackupData) (label : Str) : List Str :=
  strLstSort (dependents l label) .desc

/-- The labels that expiring several backups removes, in order. -/
def removalSeq : List InfoBackupData → List Str → List Str
  | _, [] => []
  | l, label :: labels =>
    expireLabels l label ++ removalSeq (without l (expireLabels l label)) labels

section Lists

variable {l : List InfoBackupData} {labels labels' : List Str} {x : Str}

theorem mem_without {b : InfoBackupData} :
    b ∈ without l labels ↔ b ∈ l ∧ b.backupLabel ∉ labels := by
  simp [without]

theorem without_without : without (without l labels) labels' = without l (labels ++ labels') := by
  unfold without
  rw [filter_filter]
  refine filter_congr (fun b _ => ?_)
  by_cases h : b.backupLabel ∈ labels
  · simp [h]
  · by_cases h' : b.backupLabel ∈ labels'
    · simp [h, h']
    · simp [h, h']

theorem without_congr (h : ∀ b ∈ l, b.backupLabel ∈ labels ↔ b.backupLabel ∈ labels') :
    without l labels = without l labels' := by
  refine filter_congr (fun b hb => ?_)
  exact decide_eq_decide.mpr (not_congr (h b hb))

@[simp] theorem without_nil : without l [] = l := by
  simp [without]

theorem closed_without (h : DependencyClosed l) (hset : ClosedSet l labels) :
    DependencyClosed (without l labels) := h.filter hset

theorem ClosedSet.subset {l' : List InfoBackupData} (h : ClosedSet l labels)
    (hsub : ∀ b ∈ l', b ∈ l) : ClosedSet l' labels :=
  fun a ha hqa b hb hp => h a (hsub a ha) hqa b (hsub b hb) hp

variable {y : Str}

section

variable (h : DependencyClosed l)
include h

theorem ClosedSet.mem_of_reachable (hset : ClosedSet l labels) (hx : x ∈ labels)
    (hxy : Relation.ReflTransGen (Edge InfoBackupData.backupLabel InfoBackupData.backupPrior l) x y) :
    y ∈ labels := by
  induction hxy with
  | refl => exact hx
  | @tail y z _ hyz ih =>
    obtain ⟨a, ha, hp, rfl⟩ := hyz
    obtain ⟨b, hb, rfl⟩ := h.parent_mem a ha _ hp
    by_contra hnot
    have := hset a ha (decide_eq_true hnot) b hb hp
    exact of_decide_eq_true this ih

/-- Reachability among the backups that are left is as before. -/
theorem reachable_without (hset : ClosedSet l labels) (hy : y ∈ l.map InfoBackupData.backupLabel)
    (hyl : y ∉ labels) :
    Relation.ReflTransGen
        (Edge InfoBackupData.backupLabel InfoBackupData.backupPrior (without l labels)) x y
      ↔ Relation.ReflTransGen
          (Edge InfoBackupData.backupLabel InfoBackupData.backupPrior l) x y := by
  obtain ⟨b, hb, rfl⟩ := mem_map.mp hy
  constructor
  · intro hxy
    exact Relation.ReflTransGen.mono
      (fun _ _ ⟨a, ha, hp, he⟩ => ⟨a, mem_of_mem_filter ha, hp, he⟩) _ _ hxy
  · intro hxy
    cases Relation.reflTransGen_iff_eq_or_transGen.mp hxy with
    | inl heq => exact heq ▸ Relation.ReflTransGen.refl
    | inr hanc =>
      exact (Ancestor.filter h.toClosed hset hb (decide_eq_true hyl) hanc).to_reflTransGen

theorem mem_dependents :
    y ∈ dependents l x ↔ Relation.ReflTransGen
      (Edge InfoBackupData.backupLabel InfoBackupData.backupPrior l) x y :=
  mem_collect_iff h.toOrdered x y

theorem mem_dependents_without (hset : ClosedSet l labels)
    (hy : y ∈ l.map InfoBackupData.backupLabel) (hyl : y ∉ labels) :
    y ∈ dependents (without l labels) x ↔ y ∈ dependents l x := by
  rw [mem_dependents h, mem_dependents (closed_without h hset),
    reachable_without h hset hy hyl]

end

theorem mem_expireLabels : y ∈ expireLabels l x ↔ y ∈ dependents l x :=
  mem_strLstSort

theorem closedSet_expireLabels (h : DependencyClosed l) :
    ClosedSet l (expireLabels l x) :=
  keepsParents_collect h.toOrdered x (fun b => by
    rw [decide_eq_true_iff, mem_expireLabels]
    rfl)

/-- In a list in descending order, what is larger comes first. -/
theorem mem_take_of_lt {s : List Str} (hs : s.Pairwise (· ≥ ·)) {j : ℕ}
    (hx : x ∈ s.take j) (hy : y ∈ s) (hxy : x < y) : y ∈ s.take j := by
  rw [← take_append_drop j s] at hs hy
  cases mem_append.mp hy with
  | inl hy => exact hy
  | inr hy =>
    have := (pairwise_append.mp hs).2.2 x hx y hy
    exact absurd hxy (not_lt.mpr this)

/-- **Newest first**: the labels of one expiration can be removed one after
the other. -/
theorem removable_expireLabels (h : DependencyClosed l) : Removable l (expireLabels l x) := by
  intro j a ha hqa b hb hp
  rw [decide_eq_true_iff] at hqa ⊢
  intro hmem
  have hsorted : (expireLabels l x).Pairwise (· ≥ ·) := pairwise_insertionSort _ _
  have hab : b.backupLabel < a.backupLabel := h.parent_lt a ha _ hp
  have hadep : a.backupLabel ∈ expireLabels l x := by
    have hbdep := mem_of_mem_take hmem
    rw [mem_expireLabels, mem_dependents h] at hbdep ⊢
    exact hbdep.tail ⟨a, ha, hp, rfl⟩
  exact hqa (mem_take_of_lt hsorted hmem hadep hab)

theorem Removable.append (h₁ : Removable l labels) (h₂ : Removable (without l labels) labels') :
    Removable l (labels ++ labels') := by
  intro j a ha hqa b hb hp
  rw [decide_eq_true_iff] at hqa ⊢
  rw [take_append, mem_append, not_or] at hqa ⊢
  have hb₁ : b.backupLabel ∉ labels.take j :=
    of_decide_eq_true (h₁ j a ha (decide_eq_true hqa.1) b hb hp)
  refine ⟨hb₁, ?_⟩
  by_cases hj : j ≤ labels.length
  · have hzero : j - labels.length = 0 := by omega
    simp [hzero]
  · have htake : labels.take j = labels := take_of_length_le (by omega)
    rw [htake] at hqa hb₁
    exact of_decide_eq_true (h₂ (j - labels.length) a (mem_without.mpr ⟨ha, hqa.1⟩)
      (decide_eq_true hqa.2) b (mem_without.mpr ⟨hb, hb₁⟩) hp)

theorem Removable.closedSet (h : Removable l labels) : ClosedSet l labels := by
  have := h labels.length
  rwa [take_length] at this

theorem removable_removalSeq (h : DependencyClosed l) (labels : List Str) :
    Removable l (removalSeq l labels) := by
  induction labels generalizing l with
  | nil =>
    intro j a ha hqa b hb hp
    simp [removalSeq]
  | cons label labels ih =>
    exact (removable_expireLabels h).append (ih (closed_without h (closedSet_expireLabels h)))

/-- **What several expirations remove**: the victims with their dependents. -/
theorem mem_removalSeq (h : DependencyClosed l) (labels : List Str)
    (hy : y ∈ l.map InfoBackupData.backupLabel) :
    y ∈ removalSeq l labels ↔ ∃ v ∈ labels, y ∈ dependents l v := by
  induction labels generalizing l with
  | nil => simp [removalSeq]
  | cons label labels ih =>
    have hset : ClosedSet l (expireLabels l label) := closedSet_expireLabels h
    show y ∈ expireLabels l label ++ removalSeq (without l (expireLabels l label)) labels ↔ _
    rw [mem_append, mem_expireLabels, exists_mem_cons_iff]
    by_cases hdep : y ∈ dependents l label
    · simp [hdep]
    · have hyl : y ∉ expireLabels l label := mt mem_expireLabels.mp hdep
      have hy' : y ∈ (without l (expireLabels l label)).map InfoBackupData.backupLabel := by
        obtain ⟨b, hb, rfl⟩ := mem_map.mp hy
        exact mem_map_of_mem (mem_without.mpr ⟨hb, hyl⟩)
      rw [ih (closed_without h hset) hy']
      simp only [hdep, false_or]
      refine exists_congr (fun v => and_congr_right (fun _ => ?_))
      exact mem_dependents_without h hset hy hyl

/-- **Survivors do not depend on how far an earlier run came**: when a
closed set of labels is gone and the victims are those that are left of the
victims before, what remains is what would have remained, less the set. -/
theorem without_removalSeq_without (h : DependencyClosed l) {set victims victims' : List Str}
    (hset : ClosedSet l set) (hv : ∀ v, v ∈ victims' ↔ v ∈ victims ∧ v ∉ set) :
    without (without l set) (removalSeq (without l set) victims')
      = without (without l (removalSeq l victims)) set := by
  rw [without_without, without_without]
  refine without_congr (fun b hb => ?_)
  have hbl : b.backupLabel ∈ l.map InfoBackupData.backupLabel := mem_map_of_mem hb
  rw [mem_append, mem_append, mem_removalSeq h victims hbl]
  by_cases hbset : b.backupLabel ∈ set
  · simp [hbset]
  · have hb' : b.backupLabel ∈ (without l set).map InfoBackupData.backupLabel :=
      mem_map_of_mem (mem_without.mpr ⟨hb, hbset⟩)
    rw [mem_removalSeq (closed_without h hset) victims' hb']
    simp only [hbset, false_or, or_false]
    constructor
    · rintro ⟨v, hv', hdep⟩
      exact ⟨v, ((hv v).mp hv').1, (mem_dependents_without h hset hbl hbset).mp hdep⟩
    · rintro ⟨v, hv', hdep⟩
      have hvset : v ∉ set := fun hmem =>
        hbset (hset.mem_of_reachable h hmem ((mem_dependents h).mp hdep))
      exact ⟨v, (hv v).mpr ⟨hv', hvset⟩, (mem_dependents_without h hset hbl hbset).mpr hdep⟩

end Lists

/-! ## Labels that agree with the dependencies -/

/-- **Labels as the backup command makes them**: they match the expression
for labels, a full backup has no prior, the prior of a differential backup is
a full one, and a dependent starts with the label of its full. -/
structure LabelsValid (l : List InfoBackupData) : Prop where
  valid : ∀ b ∈ l, backupRegExp backupAllRegExp b.backupLabel = true
  full : ∀ b ∈ l, backupRegExp fullRegExp b.backupLabel = true → b.backupPrior = none
  diff : ∀ b ∈ l, backupRegExp fullDiffRegExp b.backupLabel = true →
    ∀ p ∈ b.backupPrior, backupRegExp fullRegExp p = true
  same : ∀ b ∈ l, ∀ p ∈ b.backupPrior, b.backupLabel.take 16 = p.take 16

theorem LabelsValid.subset {l l' : List InfoBackupData} (h : LabelsValid l)
    (hsub : ∀ b ∈ l', b ∈ l) : LabelsValid l' where
  valid := fun b hb => h.valid b (hsub b hb)
  full := fun b hb => h.full b (hsub b hb)
  diff := fun b hb => h.diff b (hsub b hb)
  same := fun b hb => h.same b (hsub b hb)

section Labels

variable {l : List InfoBackupData} {set : List Str} {b : InfoBackupData} {v : Str}

section

variable (h : DependencyClosed l) (hl : LabelsValid l)
include h hl

/-- A full backup depends on nothing but itself. -/
theorem eq_of_mem_dependents_full (hb : b ∈ l)
    (hfull : backupRegExp fullRegExp b.backupLabel = true) (hdep : b.backupLabel ∈ dependents l v) :
    b.backupLabel = v := by
  rw [mem_dependents h] at hdep
  cases hdep.cases_tail with
  | inl heq => exact heq
  | inr hlast =>
    obtain ⟨y, -, a, ha, hp, hab⟩ := hlast
    have hab : a = b := h.eq_of_key_eq ha hb hab
    rw [hab, hl.full b hb hfull] at hp
    cases hp

theorem take_eq_of_mem_dependents {x : Str} (hx : x ∈ dependents l v) : x.take 16 = v.take 16 := by
  have hreach := (mem_dependents h).mp hx
  induction hreach with
  | refl => rfl
  | tail hreach he ih =>
    obtain ⟨a, ha, hp, rfl⟩ := he
    exact (hl.same a ha _ hp).trans (ih ((mem_dependents h).mpr hreach))

/-- A differential backup depends on nothing but itself and its full. -/
theorem eq_of_mem_dependents_diff (hb : b ∈ l)
    (hdiff : backupRegExp fullDiffRegExp b.backupLabel = true)
    (hv : backupRegExp fullRegExp v = false) (hdep : b.backupLabel ∈ dependents l v) :
    b.backupLabel = v := by
  rw [mem_dependents h] at hdep
  cases hdep.cases_tail with
  | inl heq => exact heq
  | inr hlast =>
    obtain ⟨y, hvy, a, ha, hp, hab⟩ := hlast
    have hab : a = b := h.eq_of_key_eq ha hb hab
    subst hab
    obtain ⟨c, hc, rfl⟩ := h.parent_mem a ha y hp
    have hcfull : backupRegExp fullRegExp c.backupLabel = true := hl.diff a ha hdiff _ hp
    have hcv := eq_of_mem_dependents_full h hl hc hcfull ((mem_dependents h).mpr hvy)
    rw [hcv, hv] at hcfull
    cases hcfull

end

end Labels

/-! ## The victims of each phase -/

/-- The labels that match an expression. -/
def labelList (l : List InfoBackupData) (param : BackupRegExpParam) : List Str :=
  (l.map InfoBackupData.backupLabel).filter (backupRegExp param)

/-- The full backups that are more than the number to retain. -/
def fullVictims (retention : ℕ) (l : List InfoBackupData) : List Str :=
  if retention > 0 then notRetained (labelList l fullRegExp) retention else []

/-- The differential backups that are more than the number to retain. -/
def diffVictims (retention : ℕ) (l : List InfoBackupData) : List Str :=
  if retention > 0 then
    (notRetained (labelList l fullDiffRegExp) retention).filter
      (fun label => !backupRegExp fullRegExp label)
  else []

/-- The newest full backup that stopped before the time. -/
def timeRetention (minTimestamp : ℤ) (l : List InfoBackupData) : Option InfoBackupData :=
  (l.filter (fun b => backupRegExp fullRegExp b.backupLabel)).reverse.find?
    (fun b => decide (b.backupTimestampStop < minTimestamp))

/-- The backups without a prior that sort before a label. -/
def rootsBefore (l : List InfoBackupData) (label : Str) : List Str :=
  (l.filter (fun b => decide (b.backupPrior = none ∧ b.backupLabel < label))).map
    InfoBackupData.backupLabel

/-- The backups without a prior before the newest full backup that stopped
before the time. -/
def timeVictims (minTimestamp : ℤ) (l : List InfoBackupData) : List Str :=
  match timeRetention minTimestamp l with
  | none => []
  | some b => rootsBefore l b.backupLabel

def firstVictims (option : RepoOption) (time : ℤ) (l : List InfoBackupData) : List Str :=
  if option.retentionFullTime then
    match option.retentionFull with
    | some days => timeVictims (time - (days * SEC_PER_DAY : ℕ)) l
    | none => []
  else fullVictims (option.retentionFull.getD 0) l

section Victims

variable {l : List InfoBackupData} {set : List Str} {n : ℕ}

theorem labelList_without (l : List InfoBackupData) (set : List Str) (param : BackupRegExpParam) :
    labelList (without l set) param
      = (labelList l param).filter (fun label => decide (label ∉ set)) := by
  unfold labelList without
  simp only [filter_map, filter_filter]
  refine congrArg _ (filter_congr (fun b _ => ?_))
  exact Bool.and_comm _ _

theorem nodup_labelList (h : DependencyClosed l) (param : BackupRegExpParam) :
    (labelList l param).Nodup := by
  refine List.Nodup.filter _ ?_
  show (l.map InfoBackupData.backupLabel).Pairwise (· ≠ ·)
  rw [pairwise_map]
  exact h.sorted.imp (fun hlt => hlt.ne)

/-- Counting from the end is not affected by removing what is not retained. -/
theorem notRetained_filter {labels : List Str} (hnodup : labels.Nodup) {q : Str → Bool}
    (hq : ∀ x ∈ labels, q x = false → x ∈ notRetained labels n) :
    notRetained (labels.filter q) n = (notRetained labels n).filter q := by
  have hsplit := take_append_drop (labels.length - n) labels
  have hdrop : (labels.drop (labels.length - n)).filter q = labels.drop (labels.length - n) := by
    refine filter_eq_self.mpr (fun x hx => ?_)
    by_contra hqx
    rw [Bool.not_eq_true] at hqx
    have hmem := hq x (mem_of_mem_drop hx) hqx
    rw [← hsplit] at hnodup
    exact (nodup_append.mp hnodup).2.2 x hmem x hx rfl
  have hfilter : labels.filter q
      = (notRetained labels n).filter q ++ labels.drop (labels.length - n) := by
    show _ = (labels.take (labels.length - n)).filter q ++ _
    rw [← hdrop, ← filter_append, hsplit]
  by_cases hn : n ≤ labels.length
  · have hlen : (labels.filter q).length - n = ((notRetained labels n).filter q).length := by
      rw [hfilter, length_append, length_drop]
      omega
    unfold notRetained at hlen ⊢
    rw [hlen]
    unfold notRetained at hfilter
    rw [hfilter, take_left]
  · have hlen : (labels.filter q).length - n = 0 := by
      have := length_filter_le q labels
      omega
    have hlen' : labels.length - n = 0 := by omega
    unfold notRetained
    rw [hlen, hlen']
    rfl

/-- The victims after a closed set is gone are those of before that are not
in the set. -/
def VictimsStable (victims : List InfoBackupData → List Str) (l : List InfoBackupData)
    (set : List Str) : Prop :=
  ∀ v, v ∈ victims (without l set) ↔ v ∈ victims l ∧ v ∉ set

theorem mem_labelList {param : BackupRegExpParam} {x : Str} :
    x ∈ labelList l param ↔ ∃ b ∈ l, b.backupLabel = x ∧ backupRegExp param x = true := by
  unfold labelList
  rw [mem_filter, mem_map]
  constructor
  · rintro ⟨⟨b, hb, hx⟩, hre⟩
    exact ⟨b, hb, hx, hre⟩
  · rintro ⟨b, hb, hx, hre⟩
    exact ⟨⟨b, hb, hx⟩, hre⟩

/-- By count: stable when the set holds no full backup but victims. -/
theorem fullVictims_stable (h : DependencyClosed l)
    (hset : ∀ b ∈ l, backupRegExp fullRegExp b.backupLabel = true → b.backupLabel ∈ set →
      b.backupLabel ∈ fullVictims n l) :
    VictimsStable (fullVictims n) l set := by
  intro v
  unfold fullVictims at hset ⊢
  by_cases hn : n > 0
  · simp only [hn, if_true] at hset ⊢
    rw [labelList_without, notRetained_filter (nodup_labelList h _)]
    · simp
    · intro x hx hxset
      obtain ⟨b, hb, rfl, hre⟩ := mem_labelList.mp hx
      exact hset b hb hre (by simpa using hxset)
  · simp [hn]

/-- Differential backups: stable when the set holds no full or differential
backup but victims. -/
theorem diffVictims_stable (h : DependencyClosed l)
    (hset : ∀ b ∈ l, backupRegExp fullDiffRegExp b.backupLabel = true → b.backupLabel ∈ set →
      b.backupLabel ∈ diffVictims n l) :
    VictimsStable (diffVictims n) l set := by
  intro v
  unfold diffVictims at hset ⊢
  by_cases hn : n > 0
  · simp only [hn, if_true] at hset ⊢
    rw [labelList_without, notRetained_filter (nodup_labelList h _)]
    · simp only [mem_filter, decide_eq_true_eq]
      exact and_right_comm
    · intro x hx hxset
      obtain ⟨b, hb, rfl, hre⟩ := mem_labelList.mp hx
      exact mem_of_mem_filter (hset b hb hre (by simpa using hxset))
  · simp [hn]

theorem mem_rootsBefore {label x : Str} :
    x ∈ rootsBefore l label
      ↔ x < label ∧ ∃ b ∈ l, b.backupLabel = x ∧ b.backupPrior = none := by
  unfold rootsBefore
  simp only [mem_map, mem_filter, decide_eq_true_eq]
  constructor
  · rintro ⟨b, ⟨hb, hnone, hlt⟩, rfl⟩
    exact ⟨hlt, b, hb, rfl, hnone⟩
  · rintro ⟨hlt, b, hb, rfl, hnone⟩
    exact ⟨b, ⟨hb, hnone, hlt⟩, rfl⟩

variable {minTimestamp : ℤ}

/-- The backup that time based retention keeps is found again when it is
not in the set. -/
theorem timeRetention_without
    (hset : ∀ b ∈ timeRetention minTimestamp l, b.backupLabel ∉ set) :
    timeRetention minTimestamp (without l set) = timeRetention minTimestamp l := by
  unfold timeRetention at hset ⊢
  unfold without
  rw [filter_filter]
  have hcomm : (l.filter (fun b => backupRegExp fullRegExp b.backupLabel &&
        decide (b.backupLabel ∉ set)))
      = (l.filter (fun b => backupRegExp fullRegExp b.backupLabel)).filter
          (fun b => decide (b.backupLabel ∉ set)) := by
    rw [filter_filter]
    exact filter_congr (fun b _ => Bool.and_comm _ _)
  rw [hcomm, ← filter_reverse]
  generalize (l.filter (fun b => backupRegExp fullRegExp b.backupLabel)).reverse = fulls at hset ⊢
  induction fulls with
  | nil => rfl
  | cons b fulls ih =>
    by_cases hstop : b.backupTimestampStop < minTimestamp
    · have hb : b.backupLabel ∉ set := hset b (by simp [hstop])
      simp [hb, hstop]
    · have ih := ih (fun c hc => hset c (by simpa [hstop] using hc))
      by_cases hb : b.backupLabel ∈ set
      · simpa [hb, hstop] using ih
      · simpa [hb, hstop] using ih

theorem mem_timeRetention {b : InfoBackupData}
    (hb : timeRetention minTimestamp l = some b) :
    b ∈ l ∧ backupRegExp fullRegExp b.backupLabel = true := by
  have hmem := mem_of_find?_eq_some hb
  rw [mem_reverse, mem_filter] at hmem
  exact hmem

/-- By age: stable when the set holds no full backup but victims. -/
theorem timeVictims_stable
    (hset : ∀ b ∈ l, backupRegExp fullRegExp b.backupLabel = true → b.backupLabel ∈ set →
      b.backupLabel ∈ timeVictims minTimestamp l) :
    VictimsStable (timeVictims minTimestamp) l set := by
  have hret : ∀ b ∈ timeRetention minTimestamp l, b.backupLabel ∉ set := by
    intro b hb hmem
    obtain ⟨hbl, hfull⟩ := mem_timeRetention hb
    have hvictim := hset b hbl hfull hmem
    unfold timeVictims at hvictim
    rw [hb] at hvictim
    exact absurd (mem_rootsBefore.mp hvictim).1 (lt_irrefl _)
  intro v
  unfold timeVictims
  rw [timeRetention_without hret]
  cases timeRetention minTimestamp l with
  | none => simp
  | some r =>
    simp only [mem_rootsBefore, mem_without]
    constructor
    · rintro ⟨hlt, b, ⟨hb, hbset⟩, rfl, hnone⟩
      exact ⟨⟨hlt, b, hb, rfl, hnone⟩, hbset⟩
    · rintro ⟨⟨hlt, b, hb, rfl, hnone⟩, hbset⟩
      exact ⟨hlt, b, ⟨hb, hbset⟩, rfl, hnone⟩

/-- **The first phase, by age or by count.** -/
theorem firstVictims_stable {option : RepoOption} {time : ℤ} (h : DependencyClosed l)
    (hset : ∀ b ∈ l, backupRegExp fullRegExp b.backupLabel = true → b.backupLabel ∈ set →
      b.backupLabel ∈ firstVictims option time l) :
    VictimsStable (firstVictims option time) l set := by
  unfold VictimsStable firstVictims at *
  cases htime : option.retentionFullTime with
  | false =>
    simp only [htime, Bool.false_eq_true, if_false] at hset ⊢
    exact fullVictims_stable h hset
  | true =>
    simp only [htime, if_true] at hset ⊢
    cases hret : option.retentionFull with
    | none => simp
    | some days =>
      rw [hret] at hset
      exact timeVictims_stable hset

end Victims

end PgxBackup
