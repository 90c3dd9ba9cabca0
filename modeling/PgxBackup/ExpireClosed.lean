import PgxBackup.Expire

/-!
# The backup list stays closed under dependencies

A list of backups keeps its dependencies when it is in label order, the
prior of every backup is listed and sorts before it, and every backup that
one references lies on its chain of priors. Adding a backup that sorts last
and builds on a listed one keeps such a list closed, and so does every way
of expiring, since `expireBackup` removes a backup with the whole chain
that hangs off it (`DepClosure.mem_collect_iff`).
-/

namespace PgxBackup

open List DepClosure

/-- `x` is a proper ancestor of `y` along `backupPrior`. -/
abbrev PriorAncestor (l : List InfoBackupData) (x y : Str) : Prop :=
  Ancestor InfoBackupData.backupLabel InfoBackupData.backupPrior l x y

/-- **A backup list that keeps its dependencies.** -/
structure DependencyClosed (l : List InfoBackupData) : Prop
    extends Closed InfoBackupData.backupLabel InfoBackupData.backupPrior l where
  /-- Every referenced backup lies on the chain of priors. -/
  reference_ancestor : ∀ b ∈ l, ∀ r ∈ b.references, PriorAncestor l r b.backupLabel

/-- The prior and every reference of every backup is listed. -/
def DependenciesListed (l : List InfoBackupData) : Prop :=
  ∀ b ∈ l, (∀ p ∈ b.backupPrior, p ∈ l.map InfoBackupData.backupLabel) ∧
    ∀ r ∈ b.references, r ∈ l.map InfoBackupData.backupLabel

instance (l : List InfoBackupData) : Decidable (DependenciesListed l) :=
  inferInstanceAs (Decidable (∀ b ∈ l,
    (∀ p ∈ b.backupPrior, p ∈ l.map InfoBackupData.backupLabel) ∧
      ∀ r ∈ b.references, r ∈ l.map InfoBackupData.backupLabel))

variable {l : List InfoBackupData} {s : ExpireState}

theorem DependencyClosed.dependenciesListed (h : DependencyClosed l) :
    DependenciesListed l := by
  intro b hb
  refine ⟨fun p hp => ?_, fun r hr => ?_⟩
  · exact mem_map.mpr (h.parent_mem b hb p hp)
  · exact mem_map.mpr (h.toClosed.mem_of_ancestor (h.reference_ancestor b hb r hr))

/-- Selecting backups along with their priors keeps the list closed. -/
theorem DependencyClosed.filter (h : DependencyClosed l) {q : InfoBackupData → Bool}
    (hq : KeepsParents InfoBackupData.backupLabel InfoBackupData.backupPrior l q) :
    DependencyClosed (l.filter q) where
  toClosed := h.toClosed.filter hq
  reference_ancestor := by
    intro b hb r hr
    obtain ⟨hbl, hqb⟩ := mem_filter.mp hb
    exact Ancestor.filter h.toClosed hq hbl hqb (h.reference_ancestor b hbl r hr)

/-! ## Expiring one backup -/

/-- The backups that `expireBackup` leaves. -/
def notDependent (info : InfoBackup) (label : Str) (b : InfoBackupData) : Bool :=
  decide (b.backupLabel ∉ infoBackupDataDependentList info label)

theorem foldl_expireOne_backup (labels : List Str)
    (h : s.infoBackup.backup.Pairwise (fun a b => a.backupLabel < b.backupLabel)) :
    (labels.foldl expireOne s).infoBackup.backup
      = s.infoBackup.backup.filter (fun b => decide (b.backupLabel ∉ labels)) := by
  induction labels generalizing s with
  | nil => simp
  | cons label labels ih =>
    have hdel : (expireOne s label).infoBackup.backup
        = s.infoBackup.backup.filter (fun b => decide (b.backupLabel ≠ label)) :=
      deleteLoop_eq_filter h
    rw [foldl_cons, ih (by rw [hdel]; exact h.filter _), hdel, filter_filter]
    refine filter_congr (fun b _ => ?_)
    simp [Bool.and_comm]

/-- **`expireBackup` leaves exactly the backups that do not depend on the
label.** -/
theorem expireBackup_backup (label : Str)
    (h : s.infoBackup.backup.Pairwise (fun a b => a.backupLabel < b.backupLabel)) :
    (expireBackup s label).1.infoBackup.backup
      = s.infoBackup.backup.filter (notDependent s.infoBackup label) := by
  show ((strLstSort (infoBackupDataDependentList s.infoBackup label) .desc).foldl
    expireOne s).infoBackup.backup = _
  rw [foldl_expireOne_backup _ h]
  refine filter_congr (fun b _ => ?_)
  simp [notDependent, mem_strLstSort]

theorem keepsParents_notDependent (label : Str)
    (h : DependencyClosed s.infoBackup.backup) :
    KeepsParents InfoBackupData.backupLabel InfoBackupData.backupPrior s.infoBackup.backup
      (notDependent s.infoBackup label) :=
  keepsParents_collect h.toOrdered label (fun _ => decide_eq_true_iff)

/-- What is left is closed again, and no backup that is left has lost an
ancestor. -/
structure KeepsDependencies (l l' : List InfoBackupData) : Prop where
  closed : DependencyClosed l'
  subset : ∀ b ∈ l', b ∈ l
  ancestor : ∀ b ∈ l', ∀ x, PriorAncestor l x b.backupLabel →
    PriorAncestor l' x b.backupLabel

theorem KeepsDependencies.refl (h : DependencyClosed l) : KeepsDependencies l l :=
  ⟨h, fun _ hb => hb, fun _ _ _ hx => hx⟩

theorem KeepsDependencies.trans {l₁ l₂ l₃ : List InfoBackupData}
    (h₁ : KeepsDependencies l₁ l₂) (h₂ : KeepsDependencies l₂ l₃) :
    KeepsDependencies l₁ l₃ where
  closed := h₂.closed
  subset := fun b hb => h₁.subset b (h₂.subset b hb)
  ancestor := fun b hb x hx =>
    h₂.ancestor b hb x (h₁.ancestor b (h₂.subset b hb) x hx)

/-- **Expiring a backup with its dependents keeps the dependencies of the
rest.** -/
theorem expireBackup_keeps (label : Str) (h : DependencyClosed s.infoBackup.backup) :
    KeepsDependencies s.infoBackup.backup (expireBackup s label).1.infoBackup.backup := by
  have hq := keepsParents_notDependent label h
  rw [expireBackup_backup label h.sorted]
  refine ⟨h.filter hq, fun b hb => mem_of_mem_filter hb, fun b hb x hx => ?_⟩
  obtain ⟨hbl, hqb⟩ := mem_filter.mp hb
  exact Ancestor.filter h.toClosed hq hbl hqb hx

/-! ## Every way of expiring -/

/-- The expired backups of a list: the fold of `expireBackup` over it. -/
def expireAll (s : ExpireState) (labels : List Str) : ExpireState :=
  labels.foldl (fun s label => (expireBackup s label).1) s

theorem expireBackupList_fst (s : ExpireState) (labels : List Str) :
    (expireBackupList s labels).1 = expireAll s labels := by
  have h : ∀ n, (labels.foldl (fun (acc : ExpireState × ℕ) label =>
      ((expireBackup acc.1 label).1, acc.2 + (expireBackup acc.1 label).2.length)) (s, n)).1 = expireAll s labels := by
    induction labels generalizing s with
    | nil => intro n; rfl
    | cons label labels ih => intro n; exact ih _ _
  exact h 0

theorem expireAll_keeps (labels : List Str) (h : DependencyClosed s.infoBackup.backup) :
    KeepsDependencies s.infoBackup.backup (expireAll s labels).infoBackup.backup := by
  induction labels generalizing s with
  | nil => exact KeepsDependencies.refl h
  | cons label labels ih =>
    have hstep := expireBackup_keeps label h
    exact hstep.trans (ih hstep.closed)

/-- A run of `expireFullBackup` expires the full backups beyond the retention. -/
theorem expireFullBackup_fst (s : ExpireState) :
    ∃ labels, (expireFullBackup s).1 = expireAll s labels := by
  unfold expireFullBackup
  dsimp only
  split
  · exact ⟨_, expireBackupList_fst s _⟩
  · exact ⟨[], rfl⟩

theorem expireDiffBackup_fst (s : ExpireState) :
    ∃ labels, (expireDiffBackup s).1 = expireAll s labels := by
  unfold expireDiffBackup
  dsimp only
  split
  · exact ⟨_, expireBackupList_fst s _⟩
  · exact ⟨[], rfl⟩

/-- The adhoc expiration fails before any change or expires the backup; the
link to the latest backup leaves the list alone. -/
theorem expireAdhocBackup_backup (s : ExpireState) (label : Str) :
    (expireAdhocBackup s label).1 = s ∨
      (expireAdhocBackup s label).1.infoBackup = (expireBackup s label).1.infoBackup := by
  unfold expireAdhocBackup
  split
  · exact Or.inl rfl
  · exact Or.inl rfl
  · right
    dsimp only
    split
    · rfl
    · split
      · rfl
      · rfl

theorem expireUntil_fst (retention : Str) (fuel : ℕ) (s : ExpireState) (n : ℕ × ℕ) :
    ∃ labels, (expireUntil retention fuel s n).1 = expireAll s labels := by
  induction fuel generalizing s n with
  | zero =>
    unfold expireUntil
    refine ⟨[], ?_⟩
    split
    · rfl
    · split
      · rfl
      · rfl
  | succ fuel ih =>
    unfold expireUntil
    split
    · exact ⟨[], rfl⟩
    · rename_i backup _
      split
      · exact ⟨[], rfl⟩
      · obtain ⟨labels, hlabels⟩ := ih (expireBackup s backup.backupLabel).1
          (n.1 + (expireBackup s backup.backupLabel).2.length, n.2 + 1)
        exact ⟨backup.backupLabel :: labels, hlabels⟩

theorem expireTimeBasedBackup_fst (s : ExpireState) (minTimestamp : ℤ) :
    ∃ labels, (expireTimeBasedBackup s minTimestamp).1.infoBackup
      = (expireAll s labels).infoBackup := by
  unfold expireTimeBasedBackup
  dsimp only
  split
  · exact ⟨[], rfl⟩
  · exact ⟨[], rfl⟩
  · rename_i retention _
    obtain ⟨labels, hlabels⟩ :=
      expireUntil_fst retention s.infoBackup.backup.length s (0, 0)
    refine ⟨labels, ?_⟩
    split
    · rename_i heq
      rw [← hlabels, heq]
    · rename_i heq
      rw [← hlabels, heq]

/-! ## The time based loop ends -/

variable {b : InfoBackupData} {info info' : InfoBackup}

/-- Deleting other labels leaves the first backup in place. -/
theorem deleteLoop_cons_of_ne {label : Str}
    (hb : b.backupLabel ≠ label) (l : List InfoBackupData) :
    ∃ l', deleteLoop label (b :: l) = b :: l' ∧ l'.length ≤ l.length := by
  cases l with
  | nil => exact ⟨[], by simp [deleteLoop, hb], le_refl _⟩
  | cons c l =>
    refine ⟨deleteLoop label (c :: l), by simp [deleteLoop, hb], ?_⟩
    exact (deleteLoop_sublist label (c :: l)).length_le

theorem length_foldl_expireOne_le (labels : List Str) (s : ExpireState) :
    (labels.foldl expireOne s).infoBackup.backup.length ≤ s.infoBackup.backup.length := by
  induction labels generalizing s with
  | nil => exact le_refl _
  | cons label labels ih =>
    exact (ih _).trans (deleteLoop_sublist label s.infoBackup.backup).length_le

theorem length_foldl_expireOne_lt {labels : List Str}
    (hmem : b.backupLabel ∈ labels) :
    ∀ {s : ExpireState} {l : List InfoBackupData}, s.infoBackup.backup = b :: l →
      (labels.foldl expireOne s).infoBackup.backup.length < s.infoBackup.backup.length := by
  induction labels with
  | nil => simp at hmem
  | cons label labels ih =>
    intro s l hs
    by_cases hb : b.backupLabel = label
    · refine lt_of_le_of_lt (length_foldl_expireOne_le labels (expireOne s label)) ?_
      show (deleteLoop label s.infoBackup.backup).length < _
      rw [hs, ← hb]
      exact length_deleteLoop_cons_lt b l
    · obtain ⟨l', hl', hlen⟩ := deleteLoop_cons_of_ne hb l
      have hmem' : b.backupLabel ∈ labels := by
        simpa [hb] using hmem
      have hs' : (expireOne s label).infoBackup.backup = b :: l' := by
        show deleteLoop label s.infoBackup.backup = _
        rw [hs, hl']
      have hlt := ih hmem' hs'
      rw [hs'] at hlt
      rw [foldl_cons, hs]
      simp only [length_cons] at hlt ⊢
      omega

theorem length_expireBackup_lt {l : List InfoBackupData}
    (hs : s.infoBackup.backup = b :: l) :
    (expireBackup s b.backupLabel).1.infoBackup.backup.length
      < s.infoBackup.backup.length := by
  refine length_foldl_expireOne_lt ?_ hs
  rw [mem_strLstSort]
  exact mem_collect_of_mem (mem_singleton_self _)

/-! ## Runs -/

/-- The conditions for a new backup: it sorts last, its prior is listed and
it references nothing but its prior and ancestors of its prior. -/
structure AddValid (l : List InfoBackupData) (manifest : Manifest) : Prop where
  last : ∀ b ∈ l, b.backupLabel < manifest.data.backupLabel
  prior : ∀ p ∈ (infoBackupDataNew manifest).backupPrior,
    p ∈ l.map InfoBackupData.backupLabel
  reference : ∀ r ∈ (infoBackupDataNew manifest).references,
    ∃ p ∈ (infoBackupDataNew manifest).backupPrior, r = p ∨ PriorAncestor l r p

/-- **One step of the life of a backup list**: a new backup is added, or
backups are expired on request or with any retention settings. -/
inductive BackupListStep : InfoBackup → InfoBackup → Prop
  | add {info info' : InfoBackup} (manifest : Manifest)
      (hvalid : AddValid info.backup manifest)
      (hadd : infoBackupDataAdd info manifest = .ok info') : BackupListStep info info'
  | adhoc (s : ExpireState) (label : Str)
      (hexists : infoBackupLabelExists s.infoBackup label = true) :
      BackupListStep s.infoBackup (expireAdhocBackup s label).1.infoBackup
  | full (s : ExpireState) : BackupListStep s.infoBackup (expireFullBackup s).1.infoBackup
  | diff (s : ExpireState) : BackupListStep s.infoBackup (expireDiffBackup s).1.infoBackup
  | time (s : ExpireState) (minTimestamp : ℤ) :
      BackupListStep s.infoBackup (expireTimeBasedBackup s minTimestamp).1.infoBackup

theorem infoBackupDataAdd_backup {manifest : Manifest}
    (hsorted : info.backup.Pairwise (fun a b => a.backupLabel < b.backupLabel))
    (hlast : ∀ b ∈ info.backup, b.backupLabel < manifest.data.backupLabel)
    (hadd : infoBackupDataAdd info manifest = .ok info') :
    info'.backup = info.backup ++ [infoBackupDataNew manifest] := by
  unfold infoBackupDataAdd at hadd
  split at hadd
  · cases hadd
  · cases hadd
    refine List.Pairwise.insertionSort_eq (pairwise_append.mpr ⟨?_, ?_, ?_⟩)
    · exact hsorted.imp (fun h => le_of_lt h)
    · exact pairwise_singleton _ _
    · intro b hb c hc
      rw [mem_singleton.mp hc]
      exact le_of_lt (hlast b hb)

/-- Adding a valid backup keeps the list closed and takes no ancestor away. -/
theorem add_keeps {manifest : Manifest}
    (h : DependencyClosed info.backup) (hvalid : AddValid info.backup manifest)
    (hadd : infoBackupDataAdd info manifest = .ok info') :
    DependencyClosed info'.backup ∧
      ∀ x y, PriorAncestor info.backup x y → PriorAncestor info'.backup x y := by
  rw [infoBackupDataAdd_backup h.sorted hvalid.last hadd]
  have hmono : ∀ x y, PriorAncestor info.backup x y →
      PriorAncestor (info.backup ++ [infoBackupDataNew manifest]) x y :=
    fun x y hxy => Ancestor.mono (fun a ha => mem_append_left _ ha) hxy
  refine ⟨⟨h.toClosed.append_singleton hvalid.last
    (fun p hp => mem_map.mp (hvalid.prior p hp)), ?_⟩, hmono⟩
  intro b hb r hr
  rcases mem_append.mp hb with hb | hb
  · exact hmono _ _ (h.reference_ancestor b hb r hr)
  · rw [mem_singleton] at hb
    subst hb
    obtain ⟨p, hp, hrp⟩ := hvalid.reference r hr
    have hedge : Edge InfoBackupData.backupLabel InfoBackupData.backupPrior
        (info.backup ++ [infoBackupDataNew manifest]) p
        (infoBackupDataNew manifest).backupLabel :=
      ⟨_, mem_append_right _ (mem_singleton_self _), hp, rfl⟩
    cases hrp with
    | inl h => exact h ▸ Relation.TransGen.single hedge
    | inr h => exact (hmono _ _ h).tail hedge

/-- **One step keeps the list closed**, and a backup that is listed before
and after it keeps its ancestors. -/
theorem BackupListStep.keeps (hstep : BackupListStep info info')
    (h : DependencyClosed info.backup) :
    DependencyClosed info'.backup ∧
      ∀ b ∈ info'.backup, b ∈ info.backup → ∀ x,
        PriorAncestor info.backup x b.backupLabel →
          PriorAncestor info'.backup x b.backupLabel := by
  have hkeeps : ∀ {l l' : List InfoBackupData}, KeepsDependencies l l' →
      DependencyClosed l' ∧ ∀ b ∈ l', b ∈ l → ∀ x, PriorAncestor l x b.backupLabel →
        PriorAncestor l' x b.backupLabel :=
    fun hk => ⟨hk.closed, fun b hb _ x hx => hk.ancestor b hb x hx⟩
  cases hstep with
  | add manifest hvalid hadd =>
    obtain ⟨hclosed, hmono⟩ := add_keeps h hvalid hadd
    exact ⟨hclosed, fun b _ _ x hx => hmono _ _ hx⟩
  | adhoc s label _ =>
    refine hkeeps ?_
    cases expireAdhocBackup_backup s label with
    | inl heq => rw [heq]; exact KeepsDependencies.refl h
    | inr heq => rw [heq]; exact expireBackup_keeps label h
  | full s =>
    obtain ⟨labels, heq⟩ := expireFullBackup_fst s
    rw [heq]
    exact hkeeps (expireAll_keeps labels h)
  | diff s =>
    obtain ⟨labels, heq⟩ := expireDiffBackup_fst s
    rw [heq]
    exact hkeeps (expireAll_keeps labels h)
  | time s minTimestamp =>
    obtain ⟨labels, heq⟩ := expireTimeBasedBackup_fst s minTimestamp
    rw [heq]
    exact hkeeps (expireAll_keeps labels h)

theorem dependencyClosed_of_run
    (hrun : Relation.ReflTransGen BackupListStep info info')
    (h : DependencyClosed info.backup) : DependencyClosed info'.backup := by
  induction hrun with
  | refl => exact h
  | tail _ hstep ih => exact (hstep.keeps ih).1

/-- **The backup list stays closed under dependencies** in every state that
a run of additions and expirations reaches: it is in label order, the prior
and the references of every backup are listed, every backup has the full
backup its chain starts from, and the next step takes no ancestor from a
backup that it keeps. -/
theorem backupList_closed {info info' : InfoBackup}
    (hrun : Relation.ReflTransGen BackupListStep info info')
    (h : DependencyClosed info.backup) :
    DependencyClosed info'.backup ∧ DependenciesListed info'.backup ∧
      (∀ b ∈ info'.backup, ∃ f ∈ info'.backup, f.backupPrior = none ∧
        (f = b ∨ PriorAncestor info'.backup f.backupLabel b.backupLabel)) ∧
      ∀ info'', BackupListStep info' info'' → ∀ b ∈ info''.backup, b ∈ info'.backup →
        ∀ x, PriorAncestor info'.backup x b.backupLabel →
          PriorAncestor info''.backup x b.backupLabel := by
  have hclosed := dependencyClosed_of_run hrun h
  refine ⟨hclosed, hclosed.dependenciesListed, ?_, ?_⟩
  · intro b hb
    obtain ⟨f, hf, hnone, hfb⟩ := hclosed.toClosed.exists_root hb
    refine ⟨f, hf, hnone, ?_⟩
    cases (Relation.reflTransGen_iff_eq_or_transGen.mp hfb) with
    | inl heq => exact Or.inl (hclosed.eq_of_key_eq hf hb heq.symm)
    | inr hanc => exact Or.inr hanc
  · intro info'' hstep
    exact (hstep.keeps hclosed).2

/-! ## Two full backups and a differential one -/

/-- Label of a first full backup. -/
def labelF1 : Str := "20260101-000000F".toList

/-- Label of a second full backup. -/
def labelF2 : Str := "20260108-000000F".toList

/-- Label of a differential backup on the second full. -/
def labelD2 : Str := "20260108-000000F_20260109-000000D".toList

/-- Two full backups and a differential backup on the second that
references the given backups, in a repository that retains one full. -/
def fullFullDiff (reference : List Str) : ExpireState where
  infoBackup :=
    { infoPg := { history := [⟨1, 6569239123849665679, 202307071, 160000, 1300⟩], historyCurrent := 0 }
      backup := [.plain labelF1 .full none none, .plain labelF2 .full none none,
        .plain labelD2 .diff (some labelF2) (some reference)]
      updated := false }
  option :=
    { dryRun := false
      retentionFull := some 1
      retentionFullTime := false
      retentionDiff := none
      retentionArchive := none
      retentionArchiveType := .full }
  storageOps := []

theorem fullFullDiff_closed :
    DependencyClosed (fullFullDiff [labelF2]).infoBackup.backup where
  sorted := by decide
  parent_lt := by
    show ∀ b ∈ (fullFullDiff [labelF2]).infoBackup.backup, ∀ p ∈ b.backupPrior,
      p < b.backupLabel
    decide
  parent_mem := by
    show ∀ b ∈ (fullFullDiff [labelF2]).infoBackup.backup, ∀ p ∈ b.backupPrior,
      ∃ c ∈ (fullFullDiff [labelF2]).infoBackup.backup, c.backupLabel = p
    decide
  reference_ancestor := by
    intro b hb r hr
    have h : ∀ b ∈ (fullFullDiff [labelF2]).infoBackup.backup, ∀ r ∈ b.references,
        b.backupPrior = some r := by decide
    exact Relation.TransGen.single ⟨b, hb, h b hb r hr, rfl⟩

/-- Retaining one full backup expires the first and keeps the second with
its differential backup. -/
theorem backupList_closed_fullFullDiff :
    (expireFullBackup (fullFullDiff [labelF2])).1.infoBackup.labels = [labelF2, labelD2] ∧
      DependencyClosed (expireFullBackup (fullFullDiff [labelF2])).1.infoBackup.backup :=
  ⟨by decide,
    (backupList_closed (.single (.full (fullFullDiff [labelF2]))) fullFullDiff_closed).1⟩

/-- **References off the chain are not followed.** When the differential
backup also references the first full, every prior and every reference is
listed and the list is in order; expiring the first full leaves the
differential backup behind with a reference to it. -/
theorem expireFullBackup_loses_reference :
    (fullFullDiff [labelF1, labelF2]).infoBackup.backup.Pairwise
        (fun a b => a.backupLabel < b.backupLabel) ∧
      DependenciesListed (fullFullDiff [labelF1, labelF2]).infoBackup.backup ∧
      (∀ b ∈ (fullFullDiff [labelF1, labelF2]).infoBackup.backup, ∀ p ∈ b.backupPrior,
        p < b.backupLabel) ∧
      ¬ DependenciesListed
        (expireFullBackup (fullFullDiff [labelF1, labelF2])).1.infoBackup.backup := by
  decide

end PgxBackup
